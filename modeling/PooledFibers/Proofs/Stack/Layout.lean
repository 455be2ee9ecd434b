import PooledFibers.Proofs.Settings.Sizes
import PooledFibers.Proofs.Stack.Contents
import PooledFibers.Proofs.Stack.Inventory

/-!
# Where the parts of a stack lie

From its low end up a stack has its guard zone, the shadow pages, and above the safe limit at least
one page more, since some bytes were asked for and stacks come in whole pages. As long as the
provider answers with page-aligned ranges in the address space, all of these begin at pages, and
priming a stack stays within its highest page (`Tenancy.exists_after_laidOut`).
-/

namespace PooledFibers

namespace PageCall

/-- Every reservation began at a page and ended at an address. -/
def Aligned (page : Nat) (calls : List PageCall) : Prop :=
  ∀ bytes low, .reserve bytes (.ok low) ∈ calls → page ∣ low ∧ low + bytes < Word.bound

theorem exists_reserve_of_mem_reserved {calls : List PageCall} {r : AddressRange}
    (h : r ∈ reserved calls) :
    ∃ bytes low, .reserve bytes (.ok low) ∈ calls ∧ r = ⟨low, low + bytes⟩ := by
  have hearlier : ∀ {call : PageCall} {calls : List PageCall},
      (∃ bytes low, .reserve bytes (.ok low) ∈ calls ∧ r = ⟨low, low + bytes⟩) →
      ∃ bytes low, .reserve bytes (.ok low) ∈ call :: calls ∧ r = ⟨low, low + bytes⟩ := by
    rintro call calls ⟨bytes, low, hcall, hr⟩
    exact ⟨bytes, low, List.mem_cons_of_mem _ hcall, hr⟩
  fun_induction reserved calls with
  | case1 => simp at h
  | case2 bytes low earlier ih =>
    rcases List.mem_cons.1 h with rfl | h
    · exact ⟨bytes, low, List.mem_cons_self, rfl⟩
    · exact hearlier (ih h)
  | case3 low bytes earlier ih => exact hearlier (ih (List.mem_of_mem_erase h))
  | case4 call earlier _ _ ih => exact hearlier (ih h)

end PageCall

/-- The words that change are among those written. -/
theorem Machine.exists_of_read_writeAll_ne {m : Machine} {address a : Nat}
    {words : List MemoryWord} (h : (m.writeAll address words).read a ≠ m.read a) :
    ∃ i < words.length, a = address + Word.bytes * i := by
  induction words generalizing m address with
  | nil => exact absurd rfl h
  | cons word rest ih =>
    by_cases hfirst : a = address
    · exact ⟨0, by simp, by simp [hfirst]⟩
    · rw [← read_write_of_ne (m := m) hfirst word] at h
      obtain ⟨i, hi, rfl⟩ := ih h
      refine ⟨i + 1, by simpa using hi, ?_⟩
      rw [Nat.mul_succ]
      omega

theorem Fiber.exists_of_read_prime_ne {m : Machine} {base a : Nat} (hbase : primedSize ≤ base)
    (h : (prime m base).read a ≠ m.read a) :
    ∃ i < primedWords.length, a + Word.bytes * (primedWords.length - i) = base := by
  obtain ⟨i, hi, rfl⟩ := Machine.exists_of_read_writeAll_ne h
  refine ⟨i, hi, ?_⟩
  simp only [primedResume, primedSize, Word.bytes] at *
  omega

/-- How the parts of a stack lie, from its low end up. -/
structure Lease.LaidOut (lease : Lease) (g : Geometry) : Prop where
  full : lease.region.low + g.stackSize = lease.base
  word : lease.base < Word.bound
  page : g.pageSize ∣ lease.region.low
  guardZone : lease.region.low + g.guardZone ≤ lease.region.safeLimit
  /-- The highest page lies above all zones. -/
  safeLimit : lease.region.safeLimit + g.pageSize ≤ lease.base
  /-- Priming writes aligned words above the zones. -/
  primed : ∀ m a, (Fiber.prime m lease.base).read a ≠ m.read a →
    Word.bytes ∣ a ∧ lease.region.safeLimit ≤ a ∧ a + Word.bytes ≤ lease.base

namespace Geometry

/-- Some bytes above the zones take up a page at least. -/
structure Sized (g : Geometry) (k : Nat) : Prop where
  page : g.pageSize = 2 ^ k
  stackSize : 2 ^ k ∣ g.stackSize
  guardZone : 2 ^ k ∣ g.guardZone
  zones : g.guardZone ≤ g.reservedZone
  usable : g.reservedZone + 2 ^ k ≤ g.stackSize

theorem sized_ofSettings {s : Settings} {k : Nat} (hk : k < 64) (hs : 0 < s.stackSize)
    (hbytes : s.stackBytes? (2 ^ k) ≠ none) : (ofSettings s (2 ^ k)).Sized k := by
  have hk := Nat.le_of_lt hk
  have hpos : 0 < 2 ^ k := Nat.two_pow_pos k
  have hword : s.stackBytes (2 ^ k) < Word.bound := by
    rw [Settings.stackBytes?_eq_checked hk, Ne, Word.checked_eq_none_iff] at hbytes
    exact Nat.lt_of_not_le hbytes
  have hroom : 2 ^ k * s.reservedPages + s.stackSize ≤ s.stackBytes (2 ^ k) :=
    Settings.reservedPages_add_le hpos
  have hzone : 2 ^ k * s.reservedPages < Word.bound := by omega
  obtain ⟨hguardZone, hreservedZone⟩ := zones_ofSettings hpos hzone
  have hsize := stackSize_ofSettings hk hword
  constructor
  case page => rfl
  case stackSize => exact hsize ▸ Settings.dvd_stackBytes
  case guardZone => exact hguardZone ▸ Nat.dvd_mul_right _ _
  case zones =>
    rw [hguardZone, hreservedZone]
    exact Nat.mul_le_mul_left _ Settings.guardZonePages_le
  case usable =>
    rw [hreservedZone, hsize]
    obtain ⟨pages, hpages⟩ : 2 ^ k ∣ s.stackBytes (2 ^ k) := Settings.dvd_stackBytes
    rw [hpages] at hroom ⊢
    have hmore : s.reservedPages < pages := Nat.lt_of_mul_lt_mul_left (a := 2 ^ k) (by omega)
    exact Nat.mul_le_mul_left (2 ^ k) hmore

end Geometry

namespace Pool

variable {p : Pool} {leased : List Nat} {base k : Nat}

theorem Accounts.aligned_slab (h : p.Accounts leased) {page : Nat}
    (haligned : PageCall.Aligned page p.machine.calls) {slab : Slab} (hslab : slab ∈ p.slabs) :
    page ∣ slab.low ∧ slab.low + slab.reserved < Word.bound := by
  have hrange : slab.range ∈ PageCall.reserved p.machine.calls :=
    h.reserved ▸ List.mem_map_of_mem hslab
  obtain ⟨bytes, low, hcall, hr⟩ := PageCall.exists_reserve_of_mem_reserved hrange
  obtain ⟨hpage, hword⟩ := haligned bytes low hcall
  simp only [Slab.range, AddressRange.mk.injEq] at hr
  exact ⟨hr.1 ▸ hpage, hr.2 ▸ hword⟩

/-- All stacks begin at pages, as slabs do and stacks take up whole pages. -/
theorem Accounts.aligned_base (h : p.Accounts leased) (hgeometry : p.geometry.Sized k)
    (haligned : PageCall.Aligned (2 ^ k) p.machine.calls) (hb : base ∈ p.carvedBases) :
    2 ^ k ∣ base ∧ base < Word.bound := by
  obtain ⟨slab, hslab, hbase⟩ := mem_carvedBases_iff.1 hb
  have hshaped := h.shaped slab hslab
  obtain ⟨hpage, hword⟩ := h.aligned_slab haligned hslab
  obtain ⟨hwithin, -⟩ := hshaped.within_of_mem_bases hbase
  obtain ⟨slot, hslot, rfl⟩ := List.mem_map.1 hbase
  have hsize : 2 ^ k ∣ p.stackSize := hgeometry.stackSize
  refine ⟨?_, Nat.lt_of_le_of_lt hwithin.2 hword⟩
  rw [Slab.baseOf, hshaped.top]
  exact Nat.dvd_sub (Nat.dvd_add hpage (Nat.dvd_mul_left_of_dvd hsize _))
    (Nat.dvd_mul_left_of_dvd hsize _)

theorem Accounts.laidOut (h : p.Accounts leased) (hk : 7 ≤ k) (hgeometry : p.geometry.Sized k)
    (haligned : PageCall.Aligned (2 ^ k) p.machine.calls) {lease : Lease}
    (hb : lease.base ∈ p.carvedBases)
    (hregion : lease.region = .ofZone lease.base p.stackSize p.geometry.reservedZone) :
    lease.LaidOut p.geometry := by
  obtain ⟨hpage, hword⟩ := h.aligned_base hgeometry haligned hb
  have hle : p.geometry.stackSize ≤ lease.base := h.stackSize_le hb
  have hlarge : 2 ^ 7 ≤ 2 ^ k := Nat.pow_le_pow_right (by decide) hk
  have hzones := hgeometry.zones
  have husable := hgeometry.usable
  have hlow : lease.region.low = lease.base - p.geometry.stackSize := by
    rw [Region.low, hregion]
    rfl
  have hlimit : lease.region.safeLimit
      = lease.base - p.geometry.stackSize + p.geometry.reservedZone := by
    rw [hregion]
    exact congrArg (_ + ·) (Nat.min_eq_left (by simp only [stackSize]; omega))
  constructor
  case full => omega
  case word => exact hword
  case page =>
    rw [hgeometry.page, hlow]
    exact Nat.dvd_sub hpage hgeometry.stackSize
  case guardZone => omega
  case safeLimit =>
    rw [hgeometry.page]
    omega
  case primed =>
    intro m a ha
    have hroom : Fiber.primedSize ≤ lease.base := by
      have : Fiber.primedSize = 72 := rfl
      omega
    obtain ⟨i, hi, hbase⟩ := Fiber.exists_of_read_prime_ne hroom ha
    have hwords : Word.bytes ∣ lease.base := by
      refine Nat.dvd_trans ?_ hpage
      exact Nat.pow_dvd_pow 2 (Nat.le_trans (by decide) hk : 3 ≤ k)
    refine ⟨?_, ?_, ?_⟩
    · rw [← hbase] at hwords
      exact (Nat.dvd_add_left (Nat.dvd_mul_right _ _)).1 hwords
    · have hnine : Fiber.primedWords.length = 9 := rfl
      rw [hnine, Word.bytes] at hbase
      omega
    · rw [Word.bytes] at hbase ⊢
      omega

end Pool

namespace Tenancy

variable {t t' : Tenancy} {operations : List PoolOperation} {k : Nat}

/-- The parts of all stacks ever handed out lie in order, and what is protected or written is where
it belongs. -/
structure LaidOut (t : Tenancy) (given : List Lease) : Prop where
  /-- No base worked out for a slab lies beyond its ends. -/
  slabs : ∀ slab ∈ t.pool.slabs, slab.top ≤ slab.low + slab.reserved
    ∧ slab.low + slab.reserved < Word.bound
    ∧ ∀ slot < slab.capacity, slab.low + (slot + 1) * t.pool.stackSize ≤ slab.top
  leases : ∀ lease ∈ given, lease.LaidOut t.pool.geometry
  /-- What is protected is the lowest part of a stack, in whole pages. -/
  guards : ∀ low bytes outcome, .guard low bytes outcome ∈ t.pool.machine.calls →
    t.pool.geometry.pageSize ∣ low ∧ t.pool.geometry.pageSize ∣ bytes
      ∧ ∃ lease ∈ given, low = lease.region.low ∧ low + bytes ≤ lease.region.safeLimit
  /-- Priming leaves the other stacks of the slab alone, and those of all slabs that do not overlap
  with it. -/
  others : ∀ lease ∈ given, ∀ slab ∈ t.pool.slabs, lease.base ∈ slab.bases t.pool.stackSize →
    ∀ other ∈ t.pool.slabs, other = slab ∨ other.range.Apart slab.range →
      ∀ base ∈ other.bases t.pool.stackSize, base ≠ lease.base →
        ∀ m a, (stackRange t.pool.stackSize base).contains a = true →
          (Fiber.prime m lease.base).read a = m.read a

/-- Whatever was to be protected was the lowest part of a stack. -/
theorem Books.guards_of_after (h : t.Books) (hnone : t.pool.machine.calls = [])
    (hr : t.after operations = .ok t') :
    ∀ low bytes outcome, .guard low bytes outcome ∈ t'.pool.machine.calls →
      bytes = t'.pool.geometry.guardZone
        ∧ ∃ base ∈ t'.pool.carvedBases, low = base - t'.pool.stackSize := by
  refine h.after_induction (motive := fun u => ∀ low bytes outcome,
    .guard low bytes outcome ∈ u.pool.machine.calls → bytes = u.pool.geometry.guardZone
      ∧ ∃ base ∈ u.pool.carvedBases, low = base - u.pool.stackSize) (by simp [hnone]) ?_ hr
  intro u u' operation hbooks hstep hbooks' hold low bytes outcome hcall
  obtain ⟨hcalls, hcarved, hasks⟩ := asks_of_perform hbooks hstep hbooks'
  rw [Pool.stackSize, (alike_of_perform hstep).geometry]
  rw [hcalls, List.mem_append, List.mem_reverse] at hcall
  obtain hcall | hcall := hcall
  · obtain ⟨_, _, _, -, hcall⟩ | ⟨lease, _, hl, hcall⟩ | ⟨_, _, _, -, hcall, -⟩
      | ⟨_, -, _, hcall⟩ := hasks.mem_cases hcall <;> cases hcall
    exact ⟨rfl, lease.base, hl.carved.mem_iff.2 List.mem_cons_self, rfl⟩
  · obtain ⟨hbytes, base, hbase, hlow⟩ := hold low bytes outcome hcall
    exact ⟨hbytes, base, hcarved hbase, hlow⟩

/-- Of two stacks one is left alone as the other is primed, if they lie in one slab, or in slabs
that do not overlap. -/
theorem Books.read_prime_of_other (h : t.Books) {base other a : Nat} {m : Machine}
    {slab slab' : Slab} (hslab : slab ∈ t.pool.slabs) (hbase : base ∈ slab.bases t.pool.stackSize)
    (hslab' : slab' ∈ t.pool.slabs) (hother : other ∈ slab'.bases t.pool.stackSize)
    (hslabs : slab' = slab ∨ slab'.range.Apart slab.range) (hne : other ≠ base)
    (hprimed : Fiber.primedSize ≤ t.pool.stackSize)
    (ha : (stackRange t.pool.stackSize other).contains a = true) :
    (Fiber.prime m base).read a = m.read a := by
  have hshaped := h.accounts.shaped slab hslab
  have hsize := (hshaped.within_of_mem_bases hbase).2
  have hapart : (stackRange t.pool.stackSize base).Apart (stackRange t.pool.stackSize other) := by
    obtain rfl | hslabs := hslabs
    · have : Std.Symm fun a b : Nat =>
          (stackRange t.pool.stackSize a).Apart (stackRange t.pool.stackSize b) :=
        ⟨fun _ _ => AddressRange.Apart.symm⟩
      exact hshaped.pairwise_apart_bases.forall hbase hother hne.symm
    · have hshaped' := h.accounts.shaped slab' hslab'
      exact (hslabs.mono (hshaped'.within_of_mem_bases hother).1
        (hshaped.within_of_mem_bases hbase).1).symm
  exact Fiber.read_prime hprimed (by omega) (hapart.contains_eq_false ha)

theorem Books.laidOut (h : t.Books) (hk : 7 ≤ k) (hgeometry : t.pool.geometry.Sized k)
    (haligned : PageCall.Aligned (2 ^ k) t.pool.machine.calls) {given : List Lease}
    (hentered : Entered given t)
    (hguards : ∀ low bytes outcome, .guard low bytes outcome ∈ t.pool.machine.calls →
      bytes = t.pool.geometry.guardZone
        ∧ ∃ base ∈ t.pool.carvedBases, low = base - t.pool.stackSize) :
    t.LaidOut given := by
  have hcarved : ∀ lease ∈ given, lease.base ∈ t.pool.carvedBases := fun lease hlease =>
    h.accounts.mem_carvedBases_of_record (hentered.record lease hlease)
  have hleases : ∀ lease ∈ given, lease.LaidOut t.pool.geometry := fun lease hlease =>
    h.accounts.laidOut hk hgeometry haligned (hcarved lease hlease) (hentered.region lease hlease)
  constructor
  case slabs =>
    intro slab hslab
    have hshaped := h.accounts.shaped slab hslab
    have hroom := hshaped.room
    have htop := hshaped.top
    refine ⟨by omega, (h.accounts.aligned_slab haligned hslab).2, fun slot hslot => ?_⟩
    have hslots : (slot + 1) * t.pool.stackSize ≤ slab.capacity * t.pool.stackSize :=
      Nat.mul_le_mul_right _ hslot
    omega
  case leases => exact hleases
  case guards =>
    intro low bytes outcome hcall
    obtain ⟨rfl, base, hbase, rfl⟩ := hguards low bytes outcome hcall
    obtain ⟨lease, hlease, rfl⟩ := hentered.exists_lease h hbase
    have hlaid := hleases lease hlease
    have hlow : lease.base - t.pool.stackSize = lease.region.low := by
      have := hlaid.full
      simp only [Pool.stackSize]
      omega
    rw [hlow]
    exact ⟨hlaid.page, hgeometry.page ▸ hgeometry.guardZone, lease, hlease, rfl, hlaid.guardZone⟩
  case others =>
    intro lease hlease slab hslab hbase other hother hslabs base hmem hne m a ha
    have hprimed : Fiber.primedSize ≤ t.pool.stackSize := by
      have husable := hgeometry.usable
      have hlarge : 2 ^ 7 ≤ 2 ^ k := Nat.pow_le_pow_right (by decide) hk
      have : Fiber.primedSize = 72 := rfl
      simp only [Pool.stackSize]
      omega
    exact h.read_prime_of_other hslab hbase hother hmem hslabs hne hprimed ha

/-- Whatever is leased and dropped, with pages of 128 bytes or more and as long as the provider's
answers are page-aligned and in the address space: the guard zone of every lease ever handed out
lies at its low end, the safe limit not below the zones and a page at least below the base, and
priming writes to words between the two. What is protected are guard zones of such stacks. -/
theorem exists_after_laidOut {s : Settings} {provider : PageProvider} {page : Nat}
    (hs : s.validate page = .ok ()) (hk : 7 ≤ k) (hk' : k < 64) (hp : provider.pageSize = 2 ^ k)
    (hg : 0 < provider.granularity) (hbytes : s.stackBytes? (2 ^ k) ≠ none)
    (operations : List PoolOperation) :
    ∃ t, (ofSettings s provider).after operations = .ok t
      ∧ (PageCall.Aligned (2 ^ k) t.pool.machine.calls →
        t.LaidOut ((ofSettings s provider).given operations)) := by
  have hstart := books_ofSettings hs (hp ▸ Nat.two_pow_pos k) hg
  obtain ⟨t, ht, hbooks⟩ := hstart.exists_after operations
  have hgeometry : t.pool.geometry = .ofSettings s (2 ^ k) := by
    rw [(hstart.alike_of_after ht).geometry, ← hp]
    rfl
  have hsized := Geometry.sized_ofSettings hk' (Settings.pos_of_validate hs).1 hbytes
  refine ⟨t, ht, fun haligned => ?_⟩
  exact hbooks.laidOut hk (hgeometry ▸ hsized) haligned (hstart.entered_of_after rfl ht)
    (hstart.guards_of_after rfl ht)

/-- One usable byte above six pages of zones, with pages of 128 bytes: the stacks have seven pages
each, and priming has the highest to itself. -/
theorem laidOut_of_one_byte_stacks :
    ∃ t, (ofSettings
        { stackSize := 1, shadowPages := 3, yellowPages := 2, redPages := 1, stacksPerSlab := 2
          verifyOnYield := true }
        ({ pageSize := 128, granularity := 128 } : Simulation).provider).after
          [.acquire, .acquire, .acquire] = .ok t
      ∧ PageCall.Aligned (2 ^ 7) t.pool.machine.calls
      ∧ t.LaidOut [⟨.ofZone 0x200000000E00 896 768, .applied, true⟩,
        ⟨.ofZone 0x200000000380 896 768, .applied, true⟩,
        ⟨.ofZone 0x200000000700 896 768, .applied, true⟩] := by
  have hs : ({ stackSize := 1, shadowPages := 3, yellowPages := 2, redPages := 1
               stacksPerSlab := 2, verifyOnYield := true } : Settings).validate 4096 = .ok () := rfl
  have hp : ({ pageSize := 128, granularity := 128 } : Simulation).provider.pageSize = 2 ^ 7 := rfl
  obtain ⟨t, ht, hlaidOut⟩ := exists_after_laidOut hs (by decide) (by decide) hp (by decide)
    (by decide) [.acquire, .acquire, .acquire]
  have hcalls : .ok [.guard 0x200000000A80 384 (.ok ()), .reserve 1792 (.ok 0x200000000700),
      .guard 0x200000000000 384 (.ok ()), .guard 0x200000000380 384 (.ok ()),
      .reserve 1792 (.ok 0x200000000000)] = Except.ok t.pool.machine.calls :=
    congrArg (Except.map fun t : Tenancy => t.pool.machine.calls) ht
  have haligned : PageCall.Aligned (2 ^ 7) t.pool.machine.calls := by
    rw [← Except.ok.inj hcalls]
    intro bytes low hcall
    simp only [List.mem_cons, reduceCtorEq, PageCall.reserve.injEq, Except.ok.injEq,
      List.not_mem_nil, false_or, or_false] at hcall
    rcases hcall with ⟨rfl, rfl⟩ | ⟨rfl, rfl⟩ <;> decide
  exact ⟨t, ht, haligned, hlaidOut haligned⟩

end Tenancy

end PooledFibers
