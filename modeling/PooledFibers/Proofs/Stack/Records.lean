import Mathlib.Data.List.Nodup
import Mathlib.Tactic.Common
import PooledFibers.Proofs.Stack.Fading
import PooledFibers.Proofs.Stack.Tenancy

/-!
# What a pool records of its stacks

Each slab lists what came of protecting its stacks. Read side by side with their bases this is a
table of all stacks carved (`Pool.records`), and looking up a base finds its entry there
(`Pool.Accounts.guardOf?_eq_some_iff`). As long as the reservations were sound, a base lies in one
slot of one slab only, also where slabs meet (`Pool.Accounts.existsUnique_position`).
-/

namespace PooledFibers

namespace Slab

variable {s : Slab} {size base slot : Nat} {guard : GuardState}

/-- Each stack carved with what came of protecting it, the first carved first. -/
def records (s : Slab) (size : Nat) : List (Nat × GuardState) := (s.bases size).zip s.guards

theorem Shaped.length_guards (h : s.Shaped size) : s.guards.length = (s.bases size).length := by
  simp [bases, h.recorded]

theorem Shaped.map_fst_records (h : s.Shaped size) :
    (s.records size).map Prod.fst = s.bases size :=
  List.map_fst_zip (Nat.le_of_eq h.length_guards.symm)

theorem Shaped.records_carve (h : s.Shaped size) (guard : GuardState) :
    (s.carve guard).records size = s.records size ++ [(s.nextBase size, guard)] := by
  rw [records, bases_carve, Slab.carve, List.zip_append h.length_guards.symm]
  rfl

/-- The stack in a slot has as many stacks above it in its slab as the slot says. -/
theorem Shaped.slotOf?_eq_some_iff_add (h : s.Shaped size) (hsize : 0 < size) :
    s.slotOf? size base = some slot ↔ slot < s.carved ∧ base + slot * size = s.top := by
  rw [h.slotOf?_eq_some_iff hsize]
  refine and_congr_right fun hslot => ?_
  obtain ⟨hadd, -⟩ := h.baseOf_add (Nat.lt_of_lt_of_le hslot h.carved)
  constructor
  · rintro rfl
    exact hadd
  · intro hbase
    omega

theorem Shaped.guardOf?_eq_some_iff (h : s.Shaped size) (hsize : 0 < size) :
    s.guardOf? size base = some guard ↔ (base, guard) ∈ s.records size := by
  simp only [guardOf?, Option.bind_eq_some_iff, h.slotOf?_eq_some_iff hsize, records,
    List.mem_iff_getElem?, List.getElem?_zip_eq_some]
  refine exists_congr fun slot => ?_
  rw [bases, List.getElem?_map, Option.map_eq_some_iff]
  constructor
  · rintro ⟨⟨hslot, rfl⟩, hguard⟩
    exact ⟨⟨slot, List.getElem?_range hslot, rfl⟩, hguard⟩
  · rintro ⟨⟨_, hslot, rfl⟩, hguard⟩
    obtain ⟨hlt, rfl⟩ := List.getElem?_eq_some_iff.1 hslot
    rw [List.length_range] at hlt
    exact ⟨⟨hlt, by rw [List.getElem_range]⟩, hguard⟩

end Slab

/-- What came of protecting a guard zone, by the provider's answer. -/
def GuardState.ofAnswer : Except IoError Unit → GuardState
  | .ok () => .applied
  | .error _ => .unprotected

namespace Pool

variable {p p' : Pool} {leased : List Nat} {base : Nat} {guard : GuardState}

/-- Each stack carved with what came of protecting it. -/
def records (p : Pool) : List (Nat × GuardState) := p.slabs.flatMap (·.records p.stackSize)

/-- The guard state is what the provider answered when asked to protect the lowest part of the
stack, or there was nothing to ask. -/
def Answered (p : Pool) (base : Nat) (guard : GuardState) : Prop :=
  if p.guardPages ∧ p.geometry.guardZone ≠ 0 then
    ∃ answer, .guard (base - p.stackSize) p.geometry.guardZone answer ∈ p.machine.calls
      ∧ guard = .ofAnswer answer
  else guard = .disabled

theorem answered_protectGuardZone (p : Pool) (base : Nat) :
    { p with machine := (p.protectGuardZone base).2 }.Answered base
      (p.protectGuardZone base).1 := by
  unfold Answered
  by_cases hzone : p.guardPages ∧ p.geometry.guardZone ≠ 0
  · rw [if_pos hzone]
    have hasked : ¬((!p.guardPages || p.geometry.guardZone == 0) = true) := by simpa using hzone
    simp only [protectGuardZone, if_neg hasked]
    split <;> rename_i hguard <;> have hguarded := (Machine.fadesBy_guard hguard).calls
    · exact ⟨.ok (), hguarded ▸ List.mem_cons_self, rfl⟩
    · rename_i refused machine
      have hcall : .guard (base - p.stackSize) p.geometry.guardZone (.error refused)
          ∈ (machine.notice (.guardFailed (base - p.stackSize) refused)).calls :=
        hguarded ▸ List.mem_cons_self
      split <;> rename_i huncommit <;>
        have huncommitted := (Machine.fadesBy_uncommit huncommit).calls
      · exact ⟨.error refused, huncommitted ▸ List.mem_cons_of_mem _ hcall, rfl⟩
      · exact ⟨.error refused, huncommitted ▸ List.mem_cons_of_mem _ hcall, rfl⟩
  · have hnothing : (!p.guardPages || p.geometry.guardZone == 0) = true := by
      by_contra hasked
      exact hzone (by simpa using hasked)
    rw [if_neg hzone, protectGuardZone, if_pos hnothing]

/-- The answers stay on the books. -/
theorem Answered.of_calls (h : p.Answered base guard) (halike : p.Alike p') {made : List PageCall}
    (hcalls : p'.machine.calls = made ++ p.machine.calls) : p'.Answered base guard := by
  unfold Answered at *
  rw [halike.guardPages, stackSize, halike.geometry]
  split at h <;> rename_i hzone
  · rw [if_pos hzone]
    obtain ⟨answer, hanswer, hguard⟩ := h
    exact ⟨answer, hcalls ▸ List.mem_append_right _ hanswer, hguard⟩
  · rw [if_neg hzone]
    exact h

section Changes

/-- A free stack is leased with the guard state recorded for it. -/
theorem guardOf?_of_acquire {outcome : Except Failure Lease} {free : FreeList}
    (hpop : p.free.pop? = some (base, free)) (h : p.acquire = .ok (outcome, p')) :
    ∃ guard, p.guardOf? base = some guard ∧ outcome = .ok (p.leaseOf base guard false) := by
  simp only [acquire, hpop] at h
  cases hguard : p.guardOf? base with
  | none => simp [hguard] at h
  | some guard =>
    simp only [hguard, Except.ok.injEq, Prod.mk.injEq] at h
    exact ⟨guard, rfl, h.1.symm⟩

/-- A new slab has no records yet. -/
theorem Accounts.records_slabWithRoom (h : p.Accounts leased) {newest : Slab} {older : List Slab}
    {machine : Machine} (hr : p.slabWithRoom = (.ok (newest, older), machine)) :
    (newest :: older).flatMap (·.records p.stackSize) = p.records := by
  obtain ⟨hslabs, -, -⟩ | ⟨rfl, -, hslab⟩ := slabWithRoom_cases hr
  · rw [records, hslabs]
  · have hempty := (reserveSlab_ok h.granularity_pos hslab).2.1
    have hnone : newest.records p.stackSize = [] := by simp [Slab.records, Slab.bases, hempty]
    rw [List.flatMap_cons, hnone, List.nil_append, records]

theorem perm_records_carve {newest : Slab} (older : List Slab) (h : newest.Shaped p.stackSize) :
    (p.carve newest older).2.records.Perm
      (((p.carve newest older).1.base, (p.carve newest older).1.guard)
        :: (newest :: older).flatMap (·.records p.stackSize)) := by
  have hrecords : (p.carve newest older).2.records
      = newest.records p.stackSize
        ++ (newest.nextBase p.stackSize, (p.protectGuardZone (newest.nextBase p.stackSize)).1)
          :: older.flatMap (·.records p.stackSize) := by
    rw [List.append_cons, ← h.records_carve]
    rfl
  rw [hrecords]
  exact List.perm_middle

end Changes

section Lookups

theorem Accounts.map_fst_records (h : p.Accounts leased) :
    p.records.map Prod.fst = p.carvedBases := by
  rw [records, carvedBases, List.map_flatMap]
  exact List.flatMap_congr fun slab hslab => (h.shaped slab hslab).map_fst_records

theorem Accounts.mem_carvedBases_of_record (h : p.Accounts leased)
    (hr : (base, guard) ∈ p.records) : base ∈ p.carvedBases :=
  h.map_fst_records ▸ List.mem_map_of_mem (f := Prod.fst) hr

theorem Accounts.mem_records_of_guardOf? (h : p.Accounts leased)
    (hg : p.guardOf? base = some guard) : (base, guard) ∈ p.records := by
  obtain ⟨slab, hslab, hguard⟩ := List.exists_of_findSome?_eq_some hg
  have hslab := List.mem_reverse.1 hslab
  exact List.mem_flatMap.2
    ⟨slab, hslab, ((h.shaped slab hslab).guardOf?_eq_some_iff h.size_pos).1 hguard⟩

theorem Accounts.owns_iff (h : p.Accounts leased) : p.owns base = true
    ↔ ∃ slab ∈ p.slabs, ∃ slot < slab.carved, base + slot * p.stackSize = slab.top := by
  simp only [owns, List.any_eq_true, Option.isSome_iff_exists]
  refine exists_congr fun slab => and_congr_right fun hslab => exists_congr fun slot => ?_
  exact (h.shaped slab hslab).slotOf?_eq_some_iff_add h.size_pos

theorem Accounts.owns_iff_mem (h : p.Accounts leased) :
    p.owns base = true ↔ base ∈ p.carvedBases := by
  refine ⟨fun howns => ?_, h.owns_of_mem⟩
  obtain ⟨slab, hslab, hslot⟩ := List.any_eq_true.1 howns
  exact mem_carvedBases_iff.2 ⟨slab, hslab,
    ((h.shaped slab hslab).exists_slotOf?_iff h.size_pos).1 (Option.isSome_iff_exists.1 hslot)⟩

/-- The slot of a stack tells where it lies. -/
theorem Accounts.within_of_position (h : p.Accounts leased) {slab : Slab} {slot : Nat}
    (hslab : slab ∈ p.slabs) (hslot : slot < slab.carved)
    (hbase : base + slot * p.stackSize = slab.top) :
    (stackRange p.stackSize base).Within slab.range ∧ p.stackSize ≤ base := by
  have hshaped := h.shaped slab hslab
  have hfound := (hshaped.slotOf?_eq_some_iff_add h.size_pos).2 ⟨hslot, hbase⟩
  obtain ⟨hwithin, hlow⟩ :=
    hshaped.within_of_mem_bases ((hshaped.exists_slotOf?_iff h.size_pos).1 ⟨slot, hfound⟩)
  exact ⟨hwithin, by omega⟩

variable (hsound : PageCall.Sound p.machine.calls)

include hsound

/-- A base has one entry only. -/
theorem Accounts.guardOf?_eq_some_iff (h : p.Accounts leased) :
    p.guardOf? base = some guard ↔ (base, guard) ∈ p.records := by
  refine ⟨h.mem_records_of_guardOf?, fun hr => ?_⟩
  obtain ⟨found, hfound⟩ := h.exists_guardOf? (h.mem_carvedBases_of_record hr)
  have hkeys : (p.records.map Prod.fst).Nodup := h.map_fst_records ▸ h.nodup_carvedBases hsound
  have heq := List.inj_on_of_nodup_map hkeys (h.mem_records_of_guardOf? hfound) hr rfl
  exact hfound.trans (congrArg (some ·.2) heq)

/-- No slab is listed twice. -/
theorem Accounts.index_unique (h : p.Accounts leased) {slab : Slab} {i j : Nat}
    (hi : p.slabs[i]? = some slab) (hj : p.slabs[j]? = some slab)
    (hsize : slab.range.low < slab.range.high) : i = j := by
  have hpairs := List.pairwise_iff_getElem.1 (h.pairwise_apart_ranges hsound)
  have hself : ¬slab.range.Apart slab.range :=
    AddressRange.Within.not_apart ⟨Nat.le_refl _, Nat.le_refl _⟩ hsize
  obtain ⟨hbound, rfl⟩ := List.getElem?_eq_some_iff.1 hi
  obtain ⟨hbound', hsame⟩ := List.getElem?_eq_some_iff.1 hj
  by_contra hne
  rcases Nat.lt_or_gt_of_ne hne with hlt | hlt
  · have hapart := hpairs i j hbound hbound' hlt
    exact hself (hsame ▸ hapart)
  · have hapart := hpairs j i hbound' hbound hlt
    exact hself (hsame ▸ hapart)

/-- A stack lies in one slot of one slab. Slabs may touch, but no stack has its base at the low end
of one. -/
theorem Accounts.existsUnique_position (h : p.Accounts leased) (howns : p.owns base = true) :
    ∃! position : Nat × Nat, ∃ slab, p.slabs[position.1]? = some slab
      ∧ position.2 < slab.carved ∧ base + position.2 * p.stackSize = slab.top := by
  obtain ⟨slab, hslab, slot, hslot, hbase⟩ := h.owns_iff.1 howns
  obtain ⟨index, hindex⟩ := List.mem_iff_getElem?.1 hslab
  refine ⟨(index, slot), ⟨slab, hindex, hslot, hbase⟩, ?_⟩
  rintro ⟨index', slot'⟩ ⟨slab', hindex', hslot', hbase'⟩
  simp only at hindex' hslot' hbase'
  have hslab' := List.mem_iff_getElem?.2 ⟨index', hindex'⟩
  obtain ⟨hwithin, hlow⟩ := h.within_of_position hslab hslot hbase
  obtain ⟨hwithin', -⟩ := h.within_of_position hslab' hslot' hbase'
  obtain ⟨-, hunique⟩ := h.existsUnique_slab hsound (h.owns_iff_mem.1 howns)
  obtain rfl : slab' = slab := hunique.unique ⟨hslab', hwithin'⟩ ⟨hslab, hwithin⟩
  have hsize := h.size_pos
  have hrange : slab'.range.low < slab'.range.high := by
    simp only [stackRange, AddressRange.Within] at hwithin
    omega
  have hslots : slot' * p.stackSize = slot * p.stackSize := by omega
  rw [h.index_unique hsound hindex' hindex hrange, Nat.eq_of_mul_eq_mul_right hsize hslots]

end Lookups

end Pool

end PooledFibers
