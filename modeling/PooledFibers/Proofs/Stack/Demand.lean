import PooledFibers.Proofs.Settings.Sizes
import PooledFibers.Proofs.Settings.Usable
import PooledFibers.Proofs.Stack.Refusal
import PooledFibers.Proofs.Stack.Requests

/-!
# How much a pool asks for

The settings, the geometry of a pool and its slabs each work out sizes for themselves, in checked or
in saturating steps. They all come to the true sizes: the settings exactly where these fit in a word,
and the other two for all settings that can be used. So a pool asks for whole slabs of the size that
the settings were checked for (`Settings.sizes_exact`).
-/

namespace PooledFibers

namespace Pool

/-- Nothing that the pool works out stops at the largest word, and it asks for slabs of `bytes`. -/
structure Demands (p : Pool) (s : Settings) (page bytes : Nat) : Prop where
  stackSize : p.stackSize = s.stackBytes page ∧ s.stackBytes page < Word.bound
  guardZone : p.geometry.guardZone = page * s.guardZonePages
    ∧ page * s.guardZonePages < Word.bound
  reservedZone : p.geometry.reservedZone = page * s.reservedPages
    ∧ page * s.reservedPages < Word.bound
  /-- Slabs are used to their ends. -/
  sizes : p.slabSizes? = some (bytes, bytes)
  asked : p.reserveSlab.2.calls
    = .reserve bytes (p.machine.provider.reserve p.machine.calls bytes) :: p.machine.calls
  refused : ∀ failure, p.reserveSlab.1 = .error failure →
    ∃ source, p.machine.provider.reserve p.machine.calls bytes = .error source
      ∧ failure = .exhausted bytes source
  reservations : ∀ asked outcome, .reserve asked outcome ∈ p.machine.calls → asked = bytes

variable {p : Pool} {s : Settings} {page k : Nat}

/-- The stacks of a slab fill it, so nothing is left to round up. -/
theorem slabSizes?_eq (hk : k ≤ 64) (hgranularity : p.machine.provider.granularity = 2 ^ k)
    (hsize : 2 ^ k ∣ p.stackSize) (hslab : p.stacksPerSlab * p.stackSize < Word.bound) :
    p.slabSizes? = some (p.stacksPerSlab * p.stackSize, p.stacksPerSlab * p.stackSize) := by
  have hchecked : Word.checked (p.stacksPerSlab * p.stackSize)
      = some (p.stacksPerSlab * p.stackSize) := Word.checked_eq_some_iff.2 ⟨hslab, rfl⟩
  have hround : Word.roundUp (p.stacksPerSlab * p.stackSize) (2 ^ k)
      = p.stacksPerSlab * p.stackSize :=
    Word.roundUp_of_dvd (Nat.two_pow_pos k) (Nat.dvd_mul_left_of_dvd hsize _)
  simp [slabSizes?, Word.mul?, hgranularity, Word.alignUp?_two_pow hk, hround, hchecked]

/-- A slab is had unless the provider refuses it. -/
theorem reserveSlab_of_slabSizes? {used bytes : Nat} (h : p.slabSizes? = some (used, bytes)) :
    p.reserveSlab.2.calls
        = .reserve bytes (p.machine.provider.reserve p.machine.calls bytes) :: p.machine.calls
      ∧ ∀ failure, p.reserveSlab.1 = .error failure →
        ∃ source, p.machine.provider.reserve p.machine.calls bytes = .error source
          ∧ failure = .exhausted bytes source := by
  simp only [reserveSlab, h, Machine.reserve]
  cases houtcome : p.machine.provider.reserve p.machine.calls bytes with
  | error source => exact ⟨rfl, fun failure hfailure => ⟨source, rfl, (Except.error.inj hfailure).symm⟩⟩
  | ok low => exact ⟨rfl, by simp⟩

end Pool

namespace Tenancy

variable {t t' : Tenancy}

theorem Books.slabSizes?_of_perform (h : t.Books) {operation : PoolOperation}
    (hr : t.perform operation = .ok t') : t'.pool.slabSizes? = t.pool.slabSizes? := by
  have halike := alike_of_perform hr
  simp only [Pool.slabSizes?, Pool.stackSize, halike.geometry, halike.stacksPerSlab,
    h.provider_of_perform hr]

/-- Whatever was reserved was as large as slabs are. -/
theorem Books.reservations_of_after (h : t.Books) (hnone : t.pool.machine.calls = [])
    {operations : List PoolOperation} (hr : t.after operations = .ok t') :
    ∀ asked outcome, .reserve asked outcome ∈ t'.pool.machine.calls →
      ∃ used, t'.pool.slabSizes? = some (used, asked) := by
  refine h.after_induction (motive := fun u => ∀ asked outcome,
    .reserve asked outcome ∈ u.pool.machine.calls → ∃ used, u.pool.slabSizes? = some (used, asked))
    (by simp [hnone]) ?_ hr
  intro u u' operation hbooks hstep hbooks' hold asked outcome hcall
  rw [hbooks.slabSizes?_of_perform hstep]
  obtain ⟨hcalls, -, hasks⟩ := asks_of_perform hbooks hstep hbooks'
  rw [hcalls, List.mem_append, List.mem_reverse] at hcall
  obtain hcall | hcall := hcall
  · obtain ⟨used, bytes, _, hsizes, hcall⟩ | ⟨_, _, -, hcall⟩ | ⟨_, _, _, -, hcall, -⟩
      | ⟨_, -, _, hcall⟩ := hasks.mem_cases hcall <;> cases hcall
    exact ⟨used, hsizes⟩
  · exact hold asked outcome hcall

theorem demands_of_after {s : Settings} {k : Nat} (hk : k ≤ 64) {provider : PageProvider}
    (hpage : provider.pageSize = 2 ^ k) (hgranularity : provider.granularity = 2 ^ k)
    (hs : s.validate (2 ^ k) = .ok ()) (hslab : s.stacksPerSlab * s.stackBytes (2 ^ k) < Word.bound)
    {operations : List PoolOperation} (hr : (ofSettings s provider).after operations = .ok t) :
    t.pool.Demands s (2 ^ k) (s.stacksPerSlab * s.stackBytes (2 ^ k)) := by
  have hpos : 0 < 2 ^ k := Nat.two_pow_pos k
  have hperSlab := (Settings.pos_of_validate hs).2
  have hbooks : (ofSettings s provider).Books :=
    books_ofSettings hs (hpage ▸ hpos) (hgranularity ▸ hpos)
  have halike := hbooks.alike_of_after hr
  have hgeometry : t.pool.geometry = .ofSettings s (2 ^ k) := by
    rw [halike.geometry, ← hpage]
    rfl
  have hstack : s.stackBytes (2 ^ k) < Word.bound :=
    Nat.lt_of_le_of_lt (Nat.le_mul_of_pos_left _ hperSlab) hslab
  have hzone := Settings.zone_lt_of_slab hpos hperSlab hslab
  have hguard : 2 ^ k * s.guardZonePages ≤ 2 ^ k * s.reservedPages :=
    Nat.mul_le_mul_left _ Settings.guardZonePages_le
  have hsize : t.pool.stackSize = s.stackBytes (2 ^ k) := by
    rw [Pool.stackSize, hgeometry, Geometry.stackSize_ofSettings hk hstack]
  have hsizes : t.pool.slabSizes? = some (s.stacksPerSlab * s.stackBytes (2 ^ k),
      s.stacksPerSlab * s.stackBytes (2 ^ k)) := by
    have hcapacity : t.pool.stacksPerSlab = s.stacksPerSlab := halike.stacksPerSlab
    have hprovider : t.pool.machine.provider.granularity = 2 ^ k := by
      rw [hbooks.provider_of_after hr, ← hgranularity]
      rfl
    rw [← hsize, ← hcapacity]
    refine Pool.slabSizes?_eq hk hprovider ?_ ?_
    · rw [hsize]
      exact Settings.dvd_stackBytes
    · rwa [hsize, hcapacity]
  obtain ⟨hguardZone, hreservedZone⟩ := Geometry.zones_ofSettings hpos hzone
  obtain ⟨hasked, hrefused⟩ := Pool.reserveSlab_of_slabSizes? hsizes
  constructor
  case stackSize => exact ⟨hsize, hstack⟩
  case guardZone => exact ⟨hgeometry ▸ hguardZone, Nat.lt_of_le_of_lt hguard hzone⟩
  case reservedZone => exact ⟨hgeometry ▸ hreservedZone, hzone⟩
  case sizes => exact hsizes
  case asked => exact hasked
  case refused => exact hrefused
  case reservations =>
    intro asked outcome hcall
    obtain ⟨used, hused⟩ := hbooks.reservations_of_after rfl hr asked outcome hcall
    exact (Prod.mk.inj (Option.some.inj (hused.symm.trans hsizes))).2

end Tenancy

namespace Settings

/-- With pages of any power of two, a stack has the least size in whole pages that holds its zones
and what was asked for, and slabs are as large as their stacks: these sizes are computed where they
fit in a word, and only there. In a pool of settings that can be used no size stops at the largest
word, and every reservation is for one slab of just this size. -/
theorem sizes_exact {k : Nat} (hk : k < 64) (s : Settings) :
    IsLeast {n | 2 ^ k ∣ n ∧ 2 ^ k * (s.shadowPages + s.yellowPages + s.redPages) + s.stackSize ≤ n}
        (s.stackBytes (2 ^ k))
      ∧ (∀ n, s.stackBytes? (2 ^ k) = some n ↔ n = s.stackBytes (2 ^ k) ∧ n < Word.bound)
      ∧ (1 ≤ s.stacksPerSlab → ∀ n, s.slabBytes? (2 ^ k) = some n
        ↔ n = s.stacksPerSlab * s.stackBytes (2 ^ k) ∧ n < Word.bound)
      ∧ (s.validate (2 ^ k) = .ok () →
        s.reservedPages? = some (s.shadowPages + s.yellowPages + s.redPages)
          ∧ s.guardZonePages < Word.bound
          ∧ ∃ bytes, s.slabBytes? (2 ^ k) = some bytes ∧ ∀ provider : PageProvider,
            provider.pageSize = 2 ^ k → provider.granularity = 2 ^ k → ∀ operations,
              ∃ t, (Tenancy.ofSettings s provider).after operations = .ok t
                ∧ t.pool.Demands s (2 ^ k) bytes) := by
  have hk := Nat.le_of_lt hk
  have hpos : 0 < 2 ^ k := Nat.two_pow_pos k
  have hchecked : ∀ m n, Word.checked m = some n ↔ n = m ∧ n < Word.bound := by
    intro m n
    rw [Word.checked_eq_some_iff, and_comm, eq_comm]
    exact and_congr_right fun h => h ▸ Iff.rfl
  refine ⟨Word.isLeast_roundUp hpos, ?_, ?_, fun hs => ?_⟩
  · exact fun n => stackBytes?_eq_checked hk ▸ hchecked _ n
  · exact fun hslab n => slabBytes?_eq_checked hk hslab ▸ hchecked _ n
  · have hslab : s.slabBytes? (2 ^ k) ≠ none := (validate_eq_ok_iff.1 hs).slab
    obtain ⟨bytes, hbytes⟩ := Option.ne_none_iff_exists'.1 hslab
    have hperSlab := (pos_of_validate hs).2
    have hword := hbytes
    rw [slabBytes?_eq_checked hk hperSlab, hchecked] at hword
    obtain ⟨rfl, hword⟩ := hword
    have hzone := zone_lt_of_slab hpos hperSlab hword
    have hpages : s.reservedPages < Word.bound :=
      Nat.lt_of_le_of_lt (Nat.le_mul_of_pos_left _ hpos) hzone
    refine ⟨?_, Nat.lt_of_le_of_lt guardZonePages_le hpages, _, hbytes, ?_⟩
    · rw [reservedPages?_eq_checked]
      exact Word.checked_eq_some_iff.2 ⟨hpages, rfl⟩
    · intro provider hpage hgranularity operations
      obtain ⟨t, ht, -⟩ := (Tenancy.books_ofSettings hs (hpage ▸ hpos)
        (hgranularity ▸ hpos)).exists_after operations
      exact ⟨t, ht, Tenancy.demands_of_after hk hpage hgranularity hs hword ht⟩

/-- A usable byte above four pages of zones makes a stack of five pages, and two make a slab: the
third lease reserves the second. -/
theorem sizes_of_one_byte_stacks :
    ({ stackSize := 1, shadowPages := 2, yellowPages := 1, redPages := 1, stacksPerSlab := 2
       verifyOnYield := true } : Settings).validate (2 ^ 12) = .ok ()
      ∧ ({ stackSize := 1, shadowPages := 2, yellowPages := 1, redPages := 1, stacksPerSlab := 2
           verifyOnYield := true } : Settings).stackBytes? (2 ^ 12) = some 20480
      ∧ ∃ t, (Tenancy.ofSettings
          { stackSize := 1, shadowPages := 2, yellowPages := 1, redPages := 1, stacksPerSlab := 2
            verifyOnYield := true }
          ({} : Simulation).provider).after [.acquire, .acquire, .acquire] = .ok t
        ∧ t.pool.slabs.length = 2
        ∧ t.pool.Demands
          { stackSize := 1, shadowPages := 2, yellowPages := 1, redPages := 1, stacksPerSlab := 2
            verifyOnYield := true }
          (2 ^ 12) 40960 := by
  have hs : ({ stackSize := 1, shadowPages := 2, yellowPages := 1, redPages := 1
               stacksPerSlab := 2, verifyOnYield := true } : Settings).validate (2 ^ 12) = .ok () := rfl
  obtain ⟨-, hstack, hslab, hpool⟩ := sizes_exact (k := 12) (by decide)
    { stackSize := 1, shadowPages := 2, yellowPages := 1, redPages := 1, stacksPerSlab := 2
      verifyOnYield := true }
  obtain ⟨-, -, bytes, hbytes, hruns⟩ := hpool hs
  obtain ⟨t, ht, hdemands⟩ := hruns ({} : Simulation).provider rfl rfl [.acquire, .acquire, .acquire]
  have hslabs : .ok 2 = Except.ok t.pool.slabs.length :=
    congrArg (Except.map fun t : Tenancy => t.pool.slabs.length) ht
  obtain ⟨rfl, -⟩ := (hslab (by decide) bytes).1 hbytes
  exact ⟨hs, (hstack 20480).2 (by decide), t, ht, (Except.ok.inj hslabs).symm, hdemands⟩

end Settings

end PooledFibers
