import Mathlib.Data.List.Basic
import Mathlib.Data.List.Perm.Basic
import Mathlib.Tactic.Common
import PooledFibers.Proofs.Rounding
import PooledFibers.Proofs.Stack.Slab
import PooledFibers.Stack.Pool

/-!
# The books of a stack pool

`Pool.Accounts` says that every carved stack is either leased or free, once, and that the slabs are
the reservations still held. Leasing and taking back keep the books (`Accounts.acquire`,
`Accounts.release`) and never meet a fault (`Accounts.exists_acquire`, `Accounts.exists_release`).
-/

namespace PooledFibers

/-- The provider is the same and so are the reservations it has on its books. -/
def Machine.Keeps (m m' : Machine) : Prop :=
  m'.provider = m.provider ∧ PageCall.reserved m'.calls = PageCall.reserved m.calls

namespace Machine

variable {m m' m'' : Machine}

theorem Keeps.refl (m : Machine) : m.Keeps m := ⟨rfl, rfl⟩

theorem Keeps.trans (h : m.Keeps m') (h' : m'.Keeps m'') : m.Keeps m'' :=
  ⟨h'.1.trans h.1, h'.2.trans h.2⟩

theorem keeps_notice (n : Notice) : m.Keeps (m.notice n) := ⟨rfl, rfl⟩

theorem keeps_of_guard {low bytes : Nat} {o : Except IoError Unit}
    (h : m.guard low bytes = (o, m')) : m.Keeps m' := by
  simp only [guard, Prod.mk.injEq] at h
  exact h.2 ▸ ⟨rfl, rfl⟩

theorem keeps_of_uncommit {low bytes : Nat} {o : Except IoError Unit}
    (h : m.uncommit low bytes = (o, m')) : m.Keeps m' := by
  simp only [uncommit, Prod.mk.injEq] at h
  obtain ⟨-, rfl⟩ := h
  split <;> exact ⟨rfl, rfl⟩

theorem keeps_writeAll (address : Nat) (words : List MemoryWord) :
    m.Keeps (m.writeAll address words) := by
  induction words generalizing m address with
  | nil => exact .refl m
  | cons word rest ih => exact Keeps.trans ⟨rfl, rfl⟩ (ih (m := m.write address word) _)

end Machine

namespace Pool

/-- Two pools that differ at most in what they hold. -/
structure Alike (p p' : Pool) : Prop where
  geometry : p'.geometry = p.geometry
  stacksPerSlab : p'.stacksPerSlab = p.stacksPerSlab
  residentCap : p'.residentCap = p.residentCap
  guardPages : p'.guardPages = p.guardPages

/-- The bases of all stacks carved, those of the newest slab first. -/
def carvedBases (p : Pool) : List Nat := p.slabs.flatMap (·.bases p.stackSize)

/-- The pool's books, given the bases of the leases outstanding. -/
structure Accounts (p : Pool) (leased : List Nat) : Prop where
  size_pos : 0 < p.stackSize
  perSlab_pos : 0 < p.stacksPerSlab
  granularity_pos : 0 < p.machine.provider.granularity
  shaped : ∀ s ∈ p.slabs, s.Shaped p.stackSize
  reserved : PageCall.reserved p.machine.calls = p.slabs.map Slab.range
  /-- Each carved stack is leased or free. -/
  carved : (leased ++ p.free.toList).Perm p.carvedBases
  inUse : p.inUse = leased.length

theorem Alike.trans {p p' p'' : Pool} (h : p.Alike p') (h' : p'.Alike p'') : p.Alike p'' :=
  ⟨h'.1.trans h.1, h'.2.trans h.2, h'.3.trans h.3, h'.4.trans h.4⟩

theorem accounts_ofSettings {s : Settings} {provider : PageProvider} {page : Nat}
    (hs : s.validate page = .ok ()) (hp : 0 < provider.pageSize)
    (hg : 0 < provider.granularity) : (ofSettings s provider).Accounts [] where
  size_pos := Geometry.stackSize_pos (Settings.pos_of_validate hs).1 hp
  perSlab_pos := (Settings.pos_of_validate hs).2
  granularity_pos := hg
  shaped := by simp [ofSettings]
  reserved := rfl
  carved := by simp [ofSettings, FreeList.toList, carvedBases]
  inUse := rfl

variable {p p' : Pool} {leased leased' : List Nat} {base : Nat}

theorem Accounts.perm (h : p.Accounts leased) (hl : leased.Perm leased') :
    p.Accounts leased' :=
  { h with
    carved := (hl.symm.append_right _).trans h.carved
    inUse := h.inUse.trans hl.length_eq }

theorem Accounts.withMachine (h : p.Accounts leased) {machine : Machine}
    (hm : p.machine.Keeps machine) : { p with machine }.Accounts leased :=
  { h with
    granularity_pos := by rw [hm.1]; exact h.granularity_pos
    reserved := hm.2.trans h.reserved }

theorem Accounts.mem_carvedBases (h : p.Accounts leased) :
    base ∈ p.carvedBases ↔ base ∈ leased ∨ base ∈ p.free.toList := by
  rw [← h.carved.mem_iff, List.mem_append]

theorem mem_carvedBases_iff : base ∈ p.carvedBases ↔ ∃ s ∈ p.slabs, base ∈ s.bases p.stackSize := by
  simp [carvedBases, List.mem_flatMap]

theorem Accounts.owns_of_mem (h : p.Accounts leased) (hb : base ∈ p.carvedBases) :
    p.owns base = true := by
  obtain ⟨s, hs, hb⟩ := mem_carvedBases_iff.1 hb
  obtain ⟨slot, hslot⟩ := ((h.shaped s hs).exists_slotOf?_iff h.size_pos).2 hb
  simp only [owns, List.any_eq_true]
  exact ⟨s, hs, by simp [hslot]⟩

theorem Accounts.exists_guardOf? (h : p.Accounts leased) (hb : base ∈ p.carvedBases) :
    ∃ guard, p.guardOf? base = some guard := by
  obtain ⟨s, hs, hb⟩ := mem_carvedBases_iff.1 hb
  have hsome := (h.shaped s hs).isSome_guardOf? h.size_pos hb
  rw [← Option.isSome_iff_exists]
  simp only [guardOf?, List.isSome_findSome?, List.any_reverse, List.any_eq_true]
  exact ⟨s, hs, hsome⟩

/-- The stacks leased and the free ones are those carved. -/
theorem Accounts.totals (h : p.Accounts leased) : p.totals.inUse = leased.length
    ∧ p.totals.inUse + p.totals.free = p.totals.carved := by
  have hsum : (p.slabs.map (·.carved)).sum = p.totals.carved := List.sum_eq_foldl_nat
  have hcarved : p.carvedBases.length = p.totals.carved := by
    rw [← hsum, carvedBases, List.length_flatMap]
    simp [Slab.bases]
  have hfree : p.free.toList.length = p.totals.free := p.free.length_toList
  have hinUse : p.totals.inUse = leased.length := h.inUse
  have hlength := h.carved.length_eq
  rw [List.length_append] at hlength
  omega

section Acquire

theorem protectGuardZone_keeps (p : Pool) (base : Nat) :
    p.machine.Keeps (p.protectGuardZone base).2 := by
  simp only [protectGuardZone]
  split
  · exact .refl _
  · split <;> rename_i hguard
    · exact Machine.keeps_of_guard hguard
    · rename_i refused _
      have hnoticed := (Machine.keeps_of_guard hguard).trans
        (Machine.keeps_notice (.guardFailed (base - p.stackSize) refused))
      split <;> rename_i huncommit
      · exact hnoticed.trans (Machine.keeps_of_uncommit huncommit)
      · exact (hnoticed.trans (Machine.keeps_of_uncommit huncommit)).trans
          (Machine.keeps_notice _)

/-- A new slab is empty, has room for all its stacks, and is the latest reservation. -/
theorem reserveSlab_ok (hsize : 0 < p.machine.provider.granularity) {slab : Slab}
    {machine : Machine} (h : p.reserveSlab = (.ok slab, machine)) :
    slab.Shaped p.stackSize ∧ slab.carved = 0 ∧ slab.capacity = p.stacksPerSlab
      ∧ machine.provider = p.machine.provider
      ∧ PageCall.reserved machine.calls
        = slab.range :: PageCall.reserved p.machine.calls := by
  simp only [reserveSlab] at h
  split at h
  · simp at h
  rename_i used reserved hsizes
  simp only [slabSizes?, Option.bind_eq_bind, Option.bind_eq_some_iff, Option.pure_def,
    Option.some.injEq, Prod.mk.injEq] at hsizes
  obtain ⟨_, hused, _, hreserved, rfl, rfl⟩ := hsizes
  obtain ⟨-, rfl⟩ := Word.checked_eq_some_iff.1 hused
  have hroom := Word.le_of_alignUp? hsize hreserved
  simp only [Machine.reserve] at h
  split at h <;> rename_i houtcome
  · simp at h
  · simp only [Prod.mk.injEq] at houtcome
    obtain ⟨hlow, rfl⟩ := houtcome
    simp only [Prod.mk.injEq, Except.ok.injEq] at h
    obtain ⟨rfl, rfl⟩ := h
    refine ⟨⟨rfl, hroom, Nat.zero_le _, rfl⟩, rfl, rfl, ?_⟩
    rw [hlow]
    exact ⟨rfl, rfl⟩

theorem reserveSlab_error {failure : Failure} {machine : Machine}
    (h : p.reserveSlab = (.error failure, machine)) : p.machine.Keeps machine := by
  simp only [reserveSlab] at h
  split at h
  · simp only [Prod.mk.injEq] at h
    exact h.2 ▸ .refl _
  · simp only [Machine.reserve] at h
    split at h <;> rename_i houtcome
    · simp only [Prod.mk.injEq] at houtcome h
      obtain ⟨hrefused, rfl⟩ := houtcome
      rw [← h.2, hrefused]
      exact ⟨rfl, rfl⟩
    · simp at h

theorem slabWithRoom_error {failure : Failure} {machine : Machine}
    (h : p.slabWithRoom = (.error failure, machine)) : p.machine.Keeps machine := by
  have hreserve : ∀ older : List Slab,
      (p.reserveSlab.1.map fun slab => (slab, older), p.reserveSlab.2) = (.error failure, machine) →
      p.machine.Keeps machine := by
    intro older h
    rcases hr : p.reserveSlab with ⟨_ | slab, m⟩ <;> rw [hr] at h <;> simp [Except.map] at h
    exact h.2 ▸ reserveSlab_error hr
  simp only [slabWithRoom] at h
  split at h
  · split at h
    · exact hreserve _ h
    · simp at h
  · exact hreserve _ h

/-- The slab to carve from is the newest, or a new one once the newest is full. -/
theorem slabWithRoom_cases {newest : Slab} {older : List Slab} {machine : Machine}
    (h : p.slabWithRoom = (.ok (newest, older), machine)) :
    (p.slabs = newest :: older ∧ newest.isFull = false ∧ machine = p.machine)
      ∨ (older = p.slabs ∧ (∀ slab ∈ p.slabs.head?, slab.isFull = true)
        ∧ p.reserveSlab = (.ok newest, machine)) := by
  have hreserve : (p.reserveSlab.1.map fun slab => (slab, p.slabs), p.reserveSlab.2)
      = (.ok (newest, older), machine) → older = p.slabs ∧ p.reserveSlab = (.ok newest, machine) := by
    intro h
    rcases hslab : p.reserveSlab with ⟨_ | slab, m⟩ <;> rw [hslab] at h <;> simp [Except.map] at h
    obtain ⟨⟨rfl, rfl⟩, rfl⟩ := h
    exact ⟨rfl, rfl⟩
  simp only [slabWithRoom] at h
  split at h <;> rename_i hslabs
  · split at h <;> rename_i hfull
    · obtain ⟨rfl, hr⟩ := hreserve (by rw [hslabs]; exact h)
      exact .inr ⟨rfl, by simpa [hslabs] using hfull, hr⟩
    · simp only [Prod.mk.injEq, Except.ok.injEq] at h
      obtain ⟨⟨rfl, rfl⟩, rfl⟩ := h
      exact .inl ⟨hslabs, by simpa using hfull, rfl⟩
  · obtain ⟨rfl, hr⟩ := hreserve (by rw [hslabs]; exact h)
    exact .inr ⟨rfl, by simp [hslabs], hr⟩

/-- The books stay right when the slab to carve from has been found, or reserved. -/
theorem Accounts.slabWithRoom (h : p.Accounts leased) {newest : Slab} {older : List Slab}
    {machine : Machine} (hr : p.slabWithRoom = (.ok (newest, older), machine)) :
    { p with machine, slabs := newest :: older }.Accounts leased ∧ newest.isFull = false := by
  obtain ⟨hslabs, hfull, rfl⟩ | ⟨rfl, -, hslab⟩ := slabWithRoom_cases hr
  · exact ⟨by simpa only [← hslabs] using h, hfull⟩
  · obtain ⟨hshaped, hempty, hcap, hprovider, hreserved⟩ :=
      reserveSlab_ok h.granularity_pos hslab
    refine ⟨⟨h.size_pos, h.perSlab_pos, hprovider ▸ h.granularity_pos, ?_, ?_, ?_, h.inUse⟩, ?_⟩
    · intro s hs
      rcases List.mem_cons.1 hs with rfl | hs
      · exact hshaped
      · exact h.shaped s hs
    · exact hreserved.trans (congrArg _ h.reserved)
    · have hbases : newest.bases p.stackSize = [] := by simp [Slab.bases, hempty]
      have hcarved := h.carved
      simp only [carvedBases, Pool.stackSize, List.flatMap_cons] at hbases hcarved ⊢
      rwa [hbases]
    · have := h.perSlab_pos
      simp only [Slab.isFull, hempty, hcap, beq_eq_false_iff_ne]
      omega

theorem Accounts.carve {newest : Slab} {older : List Slab}
    (h : { p with slabs := newest :: older }.Accounts leased) (hfull : newest.isFull = false) :
    (p.carve newest older).2.Accounts ((p.carve newest older).1.base :: leased) := by
  have hkeeps := p.protectGuardZone_keeps (newest.nextBase p.stackSize)
  have hbase : (p.carve newest older).1.base = newest.nextBase p.stackSize := rfl
  have hnewest := h.shaped newest List.mem_cons_self
  rw [hbase]
  refine ⟨h.size_pos, h.perSlab_pos, ?_, ?_, ?_, ?_, ?_⟩
  · exact hkeeps.1 ▸ h.granularity_pos
  · intro s hs
    rcases List.mem_cons.1 hs with rfl | hs
    · exact hnewest.carve hfull _
    · exact h.shaped s (List.mem_cons_of_mem _ hs)
  · exact hkeeps.2.trans h.reserved
  · have hcarved : (p.carve newest older).2.carvedBases
        = newest.bases p.stackSize ++ newest.nextBase p.stackSize
          :: older.flatMap (·.bases p.stackSize) := by
      simp [carvedBases, Pool.carve, Pool.stackSize, Slab.bases_carve]
    rw [hcarved]
    exact (h.carved.cons _).trans List.perm_middle.symm
  · exact congrArg (· + 1) h.inUse

/-- What leasing a stack comes to: a free one is used again, no slab can be had, or one is carved. -/
theorem acquire_cases {outcome : Except Failure Lease} (h : p.acquire = .ok (outcome, p')) :
    (∃ base free guard, p.free.pop? = some (base, free)
        ∧ outcome = .ok (p.leaseOf base guard false)
        ∧ p' = { p with free, inUse := p.inUse + 1 })
      ∨ (∃ failure machine, p.free.pop? = none ∧ p.slabWithRoom = (.error failure, machine)
        ∧ outcome = .error failure ∧ p' = { p with machine })
      ∨ ∃ newest older machine, p.free.pop? = none
        ∧ p.slabWithRoom = (.ok (newest, older), machine)
        ∧ outcome = .ok ({ p with machine }.carve newest older).1
        ∧ p' = ({ p with machine }.carve newest older).2 := by
  simp only [acquire] at h
  split at h <;> rename_i hpop
  · split at h
    · simp at h
    · simp only [Except.ok.injEq, Prod.mk.injEq] at h
      exact .inl ⟨_, _, _, hpop, h.1.symm, h.2.symm⟩
  · split at h <;> rename_i hroom <;> simp only [Except.ok.injEq, Prod.mk.injEq] at h
    · exact .inr (.inl ⟨_, _, hpop, hroom, h.1.symm, h.2.symm⟩)
    · exact .inr (.inr ⟨_, _, _, hpop, hroom, h.1.symm, h.2.symm⟩)

/-- The bases that an attempt to lease a stack adds to the leases. -/
def basesOf : Except Failure Lease → List Nat
  | .ok lease => [lease.base]
  | .error _ => []

theorem Accounts.acquire (h : p.Accounts leased) {outcome : Except Failure Lease}
    (hr : p.acquire = .ok (outcome, p')) : p'.Accounts (basesOf outcome ++ leased) := by
  obtain ⟨base, free, guard, hpop, rfl, rfl⟩ | ⟨failure, machine, -, hroom, rfl, rfl⟩
    | ⟨newest, older, machine, -, hroom, rfl, rfl⟩ := acquire_cases hr
  · refine { h with carved := ?_, inUse := by simp [basesOf, h.inUse] }
    have hlist := FreeList.toList_of_pop? hpop
    have hcarved := h.carved
    rw [hlist] at hcarved
    exact List.perm_middle.symm.trans hcarved
  · exact h.withMachine (slabWithRoom_error hroom)
  · obtain ⟨hbooks, hfull⟩ := h.slabWithRoom hroom
    exact Accounts.carve (p := { p with machine }) hbooks hfull

theorem Accounts.exists_acquire (h : p.Accounts leased) :
    ∃ outcome p', p.acquire = .ok (outcome, p') := by
  simp only [Pool.acquire]
  split <;> rename_i hpop
  · rename_i base free
    have hmem : base ∈ p.carvedBases := by
      rw [h.mem_carvedBases, FreeList.toList_of_pop? hpop]
      exact .inr List.mem_cons_self
    obtain ⟨guard, hguard⟩ := h.exists_guardOf? hmem
    rw [hguard]
    exact ⟨_, _, rfl⟩
  · split <;> exact ⟨_, _, rfl⟩

/-- A lease covers the stack at its base. -/
theorem region_of_acquire {lease : Lease} (h : p.acquire = .ok (.ok lease, p')) :
    lease.region = .ofZone lease.base p.stackSize p.geometry.reservedZone := by
  obtain ⟨base, free, guard, -, hl, -⟩ | ⟨failure, machine, -, -, hl, -⟩
    | ⟨newest, older, machine, -, -, hl, -⟩ := acquire_cases h
  · simp only [Except.ok.injEq] at hl
    subst hl
    rfl
  · simp at hl
  · simp only [Except.ok.injEq] at hl
    subst hl
    rfl

theorem alike_of_acquire {outcome : Except Failure Lease}
    (h : p.acquire = .ok (outcome, p')) : p.Alike p' := by
  obtain ⟨_, _, _, -, -, rfl⟩ | ⟨_, _, -, -, -, rfl⟩ | ⟨_, _, _, -, -, -, rfl⟩ :=
    acquire_cases h <;> exact ⟨rfl, rfl, rfl, rfl⟩

theorem free_of_acquire {lease : Lease} (h : p.acquire = .ok (.ok lease, p')) :
    ∃ taken, taken.Sublist [lease.base] ∧ taken ++ p'.free.toList = p.free.toList := by
  obtain ⟨base, free, guard, hpop, hlease, rfl⟩ | ⟨_, _, -, -, hlease, -⟩
    | ⟨newest, older, machine, -, -, -, rfl⟩ := acquire_cases h
  · obtain rfl := Except.ok.inj hlease
    exact ⟨[base], .refl _, (FreeList.toList_of_pop? hpop).symm⟩
  · simp at hlease
  · exact ⟨[], List.nil_sublist _, rfl⟩

end Acquire

section Release

/-- What taking a stack back comes to. -/
theorem release_cases (h : p.release base = .ok p') :
    p.owns base = true ∧ p.inUse ≠ 0 ∧ ∃ machine, p.machine.Keeps machine
      ∧ p' = { p with free := (p.free.push base p.residentCap).2, inUse := p.inUse - 1, machine } := by
  simp only [release] at h
  split_ifs at h with howns huse
  refine ⟨by simpa using howns, huse, ?_⟩
  split at h
  · simp only [Except.ok.injEq] at h
    exact ⟨p.machine, .refl _, h.symm⟩
  · split at h <;> rename_i huncommit <;> simp only [Except.ok.injEq] at h
    · exact ⟨_, Machine.keeps_of_uncommit huncommit, h.symm⟩
    · exact ⟨_, (Machine.keeps_of_uncommit huncommit).trans (Machine.keeps_notice _), h.symm⟩

theorem Accounts.release (h : p.Accounts leased) (hb : base ∈ leased)
    (hr : p.release base = .ok p') : p'.Accounts (leased.erase base) := by
  obtain ⟨-, -, machine, hkeeps, rfl⟩ := release_cases hr
  have hbooks := h.withMachine hkeeps
  refine { hbooks with carved := ?_, inUse := ?_ }
  · have hperm : (leased.erase base ++ base :: p.free.toList).Perm (leased ++ p.free.toList) :=
      List.perm_middle.trans ((List.perm_cons_erase hb).symm.append_right _)
    rw [FreeList.toList_push]
    exact hperm.trans h.carved
  · simp [h.inUse, List.length_erase_of_mem hb]

theorem Accounts.exists_release (h : p.Accounts leased) (hb : base ∈ leased) :
    ∃ p', p.release base = .ok p' := by
  have howns := h.owns_of_mem (h.mem_carvedBases.2 (.inl hb))
  have huse : p.inUse ≠ 0 := by
    rw [h.inUse]
    exact Nat.ne_of_gt (List.length_pos_of_mem hb)
  simp only [Pool.release]
  rw [if_neg (by simp [howns]), if_neg huse]
  split
  · exact ⟨_, rfl⟩
  · split <;> exact ⟨_, rfl⟩

theorem alike_of_release (h : p.release base = .ok p') : p.Alike p' := by
  obtain ⟨-, -, _, -, rfl⟩ := release_cases h
  exact ⟨rfl, rfl, rfl, rfl⟩

theorem free_of_release (h : p.release base = .ok p') :
    p'.free.toList = base :: p.free.toList := by
  obtain ⟨-, -, machine, -, rfl⟩ := release_cases h
  exact FreeList.toList_push

theorem totals_of_release (h : p.release base = .ok p') :
    p'.totals.free = p.totals.free + 1 ∧ p'.totals.inUse + 1 = p.totals.inUse := by
  have hfree := congrArg List.length (free_of_release h)
  obtain ⟨-, huse, machine, -, rfl⟩ := release_cases h
  rw [FreeList.length_toList, List.length_cons, FreeList.length_toList] at hfree
  exact ⟨hfree, Nat.succ_pred huse⟩

end Release

end Pool

end PooledFibers
