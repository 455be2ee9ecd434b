import Mathlib.Data.List.Pairwise
import PooledFibers.Machine.Simulated
import PooledFibers.Proofs.Outcome
import PooledFibers.Proofs.Stack.Pool

/-!
# Leasing and dropping, in any order

A `Tenancy` is a pool with the leases outstanding; a run of it leases and drops, while the provider
of pages may refuse any call. No run meets a fault, and whenever the reservations were sound the
leased and the free stacks are apart from each other, each inside one slab
(`exists_after_separate`).
-/

namespace PooledFibers

/-- The addresses of a region. -/
def Region.range (r : Region) : AddressRange := ⟨r.low, r.base⟩

structure Tenancy where
  pool : Pool
  /-- The leases outstanding, the latest first. -/
  leases : List Lease := []

inductive PoolOperation
  | acquire
  /-- Drops a lease; nothing happens if it is not outstanding. -/
  | drop (lease : Lease)
  deriving DecidableEq

namespace Tenancy

def ofSettings (s : Settings) (provider : PageProvider) : Tenancy :=
  { pool := .ofSettings s provider }

def perform (t : Tenancy) : PoolOperation → Except Fault Tenancy
  | .acquire => do
    let (leased, pool) ← t.pool.acquire
    match leased with
    | .error _ => pure { t with pool }
    | .ok lease => pure { pool, leases := lease :: t.leases }
  | .drop lease =>
    if lease ∈ t.leases then do
      pure { pool := ← t.pool.release lease.base, leases := t.leases.erase lease }
    else .ok t

/-- The tenancy after some operations. -/
def after (t : Tenancy) : List PoolOperation → Except Fault Tenancy
  | [] => .ok t
  | operation :: rest => do (← t.perform operation).after rest

/-- The addresses of the leased stacks and of the free ones. -/
def ranges (t : Tenancy) : List AddressRange :=
  t.leases.map (·.region.range) ++ t.pool.free.toList.map (stackRange t.pool.stackSize)

/-- Leased and free stacks share no address and no stack counts twice. -/
structure Separate (t : Tenancy) : Prop where
  apart : t.ranges.Pairwise AddressRange.Apart
  /-- A stack has its full size and ends at an address. -/
  full : ∀ r ∈ t.ranges, r.low + t.pool.stackSize = r.high ∧ r.high < Word.bound
  inSlab : ∀ r ∈ t.ranges, ∃! slab, slab ∈ t.pool.slabs ∧ r.Within slab.range
  free_nodup : t.pool.free.toList.Nodup
  not_free : ∀ lease ∈ t.leases, lease.base ∉ t.pool.free.toList

/-- The pool's books are right and every lease covers the stack at its base. -/
structure Books (t : Tenancy) : Prop where
  accounts : t.pool.Accounts (t.leases.map (·.base))
  region : ∀ lease ∈ t.leases,
    lease.region = .ofZone lease.base t.pool.stackSize t.pool.geometry.reservedZone

theorem books_ofSettings {s : Settings} {provider : PageProvider} {page : Nat}
    (hs : s.validate page = .ok ()) (hp : 0 < provider.pageSize)
    (hg : 0 < provider.granularity) : (ofSettings s provider).Books where
  accounts := Pool.accounts_ofSettings hs hp hg
  region := by simp [ofSettings]

variable {t : Tenancy}

theorem Books.exists_perform (h : t.Books) (operation : PoolOperation) :
    ∃ t', t.perform operation = .ok t' ∧ t'.Books := by
  cases operation with
  | acquire =>
    obtain ⟨outcome, pool, hacquire⟩ := h.accounts.exists_acquire
    have haccounts := h.accounts.acquire hacquire
    have hgeometry := (Pool.alike_of_acquire hacquire).geometry
    have hold : ∀ lease ∈ t.leases,
        lease.region = .ofZone lease.base pool.stackSize pool.geometry.reservedZone := by
      simpa only [Pool.stackSize, hgeometry] using h.region
    cases outcome with
    | error failure => exact ⟨{ t with pool }, by simp [perform, hacquire], haccounts, hold⟩
    | ok lease =>
      refine ⟨{ pool, leases := lease :: t.leases }, by simp [perform, hacquire], haccounts, ?_⟩
      rintro l (_ | ⟨_, hl⟩)
      · simpa only [Pool.stackSize, hgeometry] using Pool.region_of_acquire hacquire
      · exact hold l hl
  | drop lease =>
    by_cases hlease : lease ∈ t.leases
    · have hbase : lease.base ∈ t.leases.map (·.base) := List.mem_map_of_mem hlease
      obtain ⟨pool, hrelease⟩ := h.accounts.exists_release hbase
      have hgeometry := (Pool.alike_of_release hrelease).geometry
      refine ⟨{ pool, leases := t.leases.erase lease }, by simp [perform, hlease, hrelease],
        (h.accounts.release hbase hrelease).perm ?_, ?_⟩
      · have hperm := (List.perm_cons_erase hlease).map (·.base)
        exact (hperm.erase lease.base).trans (by simp)
      · intro l hl
        simpa only [Pool.stackSize, hgeometry] using h.region l (List.mem_of_mem_erase hl)
    · exact ⟨t, by simp [perform, hlease], h⟩

theorem Books.of_perform (h : t.Books) {operation : PoolOperation} {t' : Tenancy}
    (hr : t.perform operation = .ok t') : t'.Books := by
  obtain ⟨_, hr', h'⟩ := h.exists_perform operation
  exact Except.ok.inj (hr'.symm.trans hr) ▸ h'

theorem perform_drop {t' : Tenancy} {lease : Lease}
    (hlease : lease ∈ t.leases)
    (hr : t.perform (.drop lease) = .ok t') :
    ∃ pool, t.pool.release lease.base = .ok pool
      ∧ t' = { pool, leases := t.leases.erase lease } := by
  simp only [perform, if_pos hlease] at hr
  obtain ⟨pool, hrelease, hr⟩ := Outcome.bind_eq_ok_iff.1 hr
  exact ⟨pool, hrelease, (Except.ok.inj hr).symm⟩

theorem perform_drop_of_not_mem {t' : Tenancy} {lease : Lease}
    (hlease : lease ∉ t.leases)
    (hr : t.perform (.drop lease) = .ok t') : t' = t := by
  simp only [perform, if_neg hlease, Except.ok.injEq] at hr
  exact hr.symm

theorem alike_of_perform {operation : PoolOperation} {t' : Tenancy}
    (hr : t.perform operation = .ok t') : t.pool.Alike t'.pool := by
  cases operation with
  | acquire =>
    obtain ⟨⟨outcome, pool⟩, hacquire, hr⟩ := Outcome.bind_eq_ok_iff.1 hr
    have halike := Pool.alike_of_acquire hacquire
    cases outcome <;> exact Except.ok.inj hr ▸ halike
  | drop lease =>
    by_cases hlease : lease ∈ t.leases
    · obtain ⟨pool, hrelease, rfl⟩ := perform_drop hlease hr
      exact Pool.alike_of_release hrelease
    · exact perform_drop_of_not_mem hlease hr ▸ ⟨rfl, rfl, rfl, rfl⟩

theorem Books.exists_after (h : t.Books) (operations : List PoolOperation) :
    ∃ t', t.after operations = .ok t' ∧ t'.Books := by
  induction operations generalizing t with
  | nil => exact ⟨t, rfl, h⟩
  | cons operation rest ih =>
    obtain ⟨next, hnext, hbooks⟩ := h.exists_perform operation
    obtain ⟨last, hlast, hbooks⟩ := ih hbooks
    exact ⟨last, by simp [after, hnext, hlast], hbooks⟩

theorem after_cons_eq_ok_iff {operation : PoolOperation} {rest : List PoolOperation}
    {t' : Tenancy} : t.after (operation :: rest) = .ok t'
      ↔ ∃ next, t.perform operation = .ok next ∧ next.after rest = .ok t' :=
  Outcome.bind_eq_ok_iff

theorem Books.of_after (h : t.Books) {operations : List PoolOperation} {t' : Tenancy}
    (hr : t.after operations = .ok t') : t'.Books := by
  obtain ⟨_, hr', h'⟩ := h.exists_after operations
  exact Except.ok.inj (hr'.symm.trans hr) ▸ h'

/-- What every step keeps, a run keeps. -/
theorem Books.after_induction {motive : Tenancy → Prop} (h : t.Books) (hstart : motive t)
    (hstep : ∀ {u u' : Tenancy} {operation : PoolOperation}, u.Books →
      u.perform operation = .ok u' → u'.Books → motive u → motive u')
    {operations : List PoolOperation} {t' : Tenancy} (hr : t.after operations = .ok t') :
    motive t' := by
  induction operations generalizing t with
  | nil => exact Except.ok.inj hr ▸ hstart
  | cons operation rest ih =>
    obtain ⟨next, hnext, hr⟩ := after_cons_eq_ok_iff.1 hr
    have hbooks := h.of_perform hnext
    exact ih hbooks (hstep h hnext hbooks hstart) hr

theorem Books.alike_of_after (h : t.Books) {operations : List PoolOperation} {t' : Tenancy}
    (hr : t.after operations = .ok t') : t.pool.Alike t'.pool :=
  h.after_induction (motive := fun u => t.pool.Alike u.pool) ⟨rfl, rfl, rfl, rfl⟩
    (fun _ hstep _ halike => halike.trans (alike_of_perform hstep)) hr

end Tenancy

namespace Pool

variable {p : Pool} {leased : List Nat}

theorem Accounts.pairwise_apart_ranges (h : p.Accounts leased)
    (hsound : PageCall.Sound p.machine.calls) :
    p.slabs.Pairwise fun s s' => s.range.Apart s'.range := by
  have := PageCall.pairwise_apart_reserved hsound
  rwa [h.reserved, List.pairwise_map] at this

/-- All stacks ever carved are apart, within a slab and across slabs. -/
theorem Accounts.pairwise_apart_carvedBases (h : p.Accounts leased)
    (hsound : PageCall.Sound p.machine.calls) :
    p.carvedBases.Pairwise fun a b =>
      (stackRange p.stackSize a).Apart (stackRange p.stackSize b) := by
  rw [carvedBases, List.pairwise_flatMap]
  refine ⟨fun s hs => (h.shaped s hs).pairwise_apart_bases, ?_⟩
  refine (h.pairwise_apart_ranges hsound).imp_of_mem fun {s s'} hs hs' hapart a ha b hb => ?_
  exact hapart.mono ((h.shaped s hs).within_of_mem_bases ha).1
    ((h.shaped s' hs').within_of_mem_bases hb).1

theorem Accounts.nodup_carvedBases (h : p.Accounts leased)
    (hsound : PageCall.Sound p.machine.calls) : p.carvedBases.Nodup := by
  have hapart := h.pairwise_apart_carvedBases hsound
  refine hapart.imp_of_mem fun {a b} ha hb hab => ?_
  rintro rfl
  obtain ⟨s, hs, hbase⟩ := mem_carvedBases_iff.1 ha
  have hlow := ((h.shaped s hs).within_of_mem_bases hbase).2
  have hsize := h.size_pos
  refine AddressRange.Within.not_apart ⟨Nat.le_refl _, Nat.le_refl _⟩ ?_ hab
  simp only [stackRange]
  omega

/-- A carved stack has its full size, and one slab only around it. -/
theorem Accounts.existsUnique_slab (h : p.Accounts leased)
    (hsound : PageCall.Sound p.machine.calls) {base : Nat} (hb : base ∈ p.carvedBases) :
    (p.stackSize ≤ base ∧ base < Word.bound)
      ∧ ∃! s, s ∈ p.slabs ∧ (stackRange p.stackSize base).Within s.range := by
  obtain ⟨s, hs, hbase⟩ := mem_carvedBases_iff.1 hb
  obtain ⟨hwithin, hlow⟩ := (h.shaped s hs).within_of_mem_bases hbase
  have hhigh : s.range.high < Word.bound := by
    refine PageCall.high_lt_of_mem_reserved hsound _ ?_
    rw [h.reserved]
    exact List.mem_map_of_mem hs
  have hsize := h.size_pos
  refine ⟨⟨by omega, Nat.lt_of_le_of_lt hwithin.2 hhigh⟩, s, ⟨hs, hwithin⟩, ?_⟩
  rintro s' ⟨hs', hwithin'⟩
  by_contra hne
  have : Std.Symm fun s s' : Slab => s.range.Apart s'.range := ⟨fun _ _ => AddressRange.Apart.symm⟩
  have hapart : s'.range.Apart s.range := (h.pairwise_apart_ranges hsound).forall hs' hs hne
  refine AddressRange.Within.not_apart ⟨Nat.le_refl _, Nat.le_refl _⟩ ?_
    (hapart.mono hwithin' hwithin)
  simp only [stackRange]
  omega

end Pool

namespace Tenancy

variable {t : Tenancy}

theorem Books.ranges_eq (h : t.Books) :
    t.ranges = (t.leases.map (·.base) ++ t.pool.free.toList).map (stackRange t.pool.stackSize) := by
  simp only [ranges, List.map_append, List.map_map, List.append_left_inj]
  refine List.map_congr_left fun lease hlease => ?_
  simp [Function.comp, h.region lease hlease, Region.range, Region.low, Region.ofZone, stackRange]

theorem Books.separate (h : t.Books) (hsound : PageCall.Sound t.pool.machine.calls) :
    t.Separate := by
  have hcarved := h.accounts.carved
  have hnodup : (t.leases.map (·.base) ++ t.pool.free.toList).Nodup :=
    hcarved.nodup_iff.2 (h.accounts.nodup_carvedBases hsound)
  have hmem : ∀ r ∈ t.ranges, ∃ base ∈ t.pool.carvedBases, stackRange t.pool.stackSize base = r := by
    intro r hr
    rw [h.ranges_eq, (hcarved.map _).mem_iff] at hr
    exact List.mem_map.1 hr
  constructor
  case apart =>
    rw [h.ranges_eq, (hcarved.map _).pairwise_iff fun hr => hr.symm, List.pairwise_map]
    exact h.accounts.pairwise_apart_carvedBases hsound
  case full =>
    intro r hr
    obtain ⟨base, hb, rfl⟩ := hmem r hr
    obtain ⟨⟨hlow, hhigh⟩, -⟩ := h.accounts.existsUnique_slab hsound hb
    exact ⟨Nat.sub_add_cancel hlow, hhigh⟩
  case inSlab =>
    intro r hr
    obtain ⟨base, hb, rfl⟩ := hmem r hr
    exact (h.accounts.existsUnique_slab hsound hb).2
  case free_nodup => exact (List.nodup_append.1 hnodup).2.1
  case not_free =>
    intro lease hlease hfree
    exact (List.nodup_append.1 hnodup).2.2 _ (List.mem_map_of_mem hlease) _ hfree rfl

/-- Leases may be taken and dropped in any order, whatever the provider refuses: no fault is met,
and if the reservations were sound, all stacks leased or free are apart, each in one slab. -/
theorem exists_after_separate {s : Settings} {provider : PageProvider} {page : Nat}
    (hs : s.validate page = .ok ()) (hp : 0 < provider.pageSize)
    (hg : 0 < provider.granularity) (operations : List PoolOperation) :
    ∃ t, (ofSettings s provider).after operations = .ok t
      ∧ (PageCall.Sound t.pool.machine.calls → t.Separate) := by
  obtain ⟨t, ht, hbooks⟩ := (books_ofSettings hs hp hg).exists_after operations
  exact ⟨t, ht, hbooks.separate⟩

/-- One stack to a slab, each slab right below the one before, no guard zone granted: two stacks
are leased and the second is dropped. -/
theorem separate_of_neighbouring_slabs :
    ∃ t, (ofSettings
        { stackSize := 16384, shadowPages := 2, yellowPages := 1, redPages := 1, stacksPerSlab := 1
          verifyOnYield := true }
        ({ descending := true, faults := { guard := some 13 } } : Simulation).provider).after
          [.acquire, .acquire, .drop ⟨.ofZone 0x1FFFFFFF8000 32768 16384, .unprotected, true⟩]
        = .ok t ∧ PageCall.Sound t.pool.machine.calls ∧ t.ranges.length = 2 ∧ t.Separate := by
  have hs : ({ stackSize := 16384, shadowPages := 2, yellowPages := 1, redPages := 1
               stacksPerSlab := 1, verifyOnYield := true } : Settings).validate 4096 = .ok () := rfl
  have hp : 0 < ({ descending := true, faults := { guard := some 13 } }
      : Simulation).provider.pageSize := by decide
  obtain ⟨t, ht, hseparate⟩ := exists_after_separate hs hp (by decide)
    [.acquire, .acquire, .drop ⟨.ofZone 0x1FFFFFFF8000 32768 16384, .unprotected, true⟩]
  have hcalls : .ok [.uncommit 0x1FFFFFFF0000 8192 (.ok ()),
      .guard 0x1FFFFFFF0000 8192 (.error (.number 13)), .reserve 32768 (.ok 0x1FFFFFFF0000),
      .uncommit 0x1FFFFFFF8000 8192 (.ok ()), .guard 0x1FFFFFFF8000 8192 (.error (.number 13)),
      .reserve 32768 (.ok 0x1FFFFFFF8000)] = Except.ok t.pool.machine.calls :=
    congrArg (Except.map fun t : Tenancy => t.pool.machine.calls) ht
  have hranges : .ok 2 = Except.ok t.ranges.length :=
    congrArg (Except.map fun t : Tenancy => t.ranges.length) ht
  have hsound : PageCall.Sound t.pool.machine.calls := by
    rw [← Except.ok.inj hcalls]
    refine ⟨⟨by decide, ?_⟩, ⟨by decide, ?_⟩, trivial⟩
    · rintro r (_ | ⟨_, ⟨⟩⟩)
      exact AddressRange.apart_of_high_le_low (by decide)
    · rintro r ⟨⟩
  exact ⟨t, ht, hsound, (Except.ok.inj hranges).symm, hseparate hsound⟩

end Tenancy

end PooledFibers
