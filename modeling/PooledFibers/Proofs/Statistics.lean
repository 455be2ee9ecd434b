import Mathlib.Algebra.GroupWithZero.Nat
import Mathlib.Data.List.Basic
import Mathlib.Data.List.Induction
import Mathlib.Data.List.Nodup
import Mathlib.Tactic.Common
import PooledFibers.Proofs.Outcome
import PooledFibers.Statistics

/-!
# Slots of the statistics

What is claimed, recorded and given up on one slot, seen from that slot and from any other; and the
total as the sum over the slots that are claimed, as long as that is a word (`total_eq_ok_iff`,
`total_eq_error_iff`).
-/

namespace PooledFibers

open Outcome

namespace Tally

/-- Each count is the sum of those of the tallies. -/
structure IsSum (total : Tally) (tallies : List Tally) : Prop where
  created : total.created.toNat = (tallies.map (·.created.toNat)).sum
  reused : total.reused.toNat = (tallies.map (·.reused.toNat)).sum
  terminated : total.terminated.toNat = (tallies.map (·.terminated.toNat)).sum
  idle : total.idle.toNat = (tallies.map (·.idle.toNat)).sum

/-- Some count adds up to more than a word holds. -/
def Exceeds (tallies : List Tally) : Prop :=
  Word.bound ≤ (tallies.map (·.created.toNat)).sum
    ∨ Word.bound ≤ (tallies.map (·.reused.toNat)).sum
    ∨ Word.bound ≤ (tallies.map (·.terminated.toNat)).sum
    ∨ Word.bound ≤ (tallies.map (·.idle.toNat)).sum

variable {a b total : Tally} {tallies : List Tally} {fault : Fault}

theorem toNat_lt_bound (n : UInt64) : n.toNat < Word.bound := n.toNat_lt

theorem toNat_ofNat {n : Nat} (h : n < Word.bound) : (UInt64.ofNat n).toNat = n :=
  UInt64.toNat_ofNat_of_lt' h

theorem add_eq_ok_iff : a.add b = .ok total ↔
    total.created.toNat = a.created.toNat + b.created.toNat
      ∧ total.reused.toNat = a.reused.toNat + b.reused.toNat
      ∧ total.terminated.toNat = a.terminated.toNat + b.terminated.toNat
      ∧ total.idle.toNat = a.idle.toNat + b.idle.toNat := by
  obtain ⟨created, reused, terminated, idle⟩ := total
  simp only [add, bind_eq_ok_iff, Word.sum_eq_ok_iff, pure_eq_ok, Except.ok.injEq]
  constructor
  · rintro ⟨_, ⟨hc, rfl⟩, _, ⟨hr, rfl⟩, _, ⟨ht, rfl⟩, _, ⟨hi, rfl⟩, h⟩
    obtain ⟨rfl, rfl, rfl, rfl⟩ := mk.inj h
    exact ⟨toNat_ofNat hc, toNat_ofNat hr, toNat_ofNat ht, toNat_ofNat hi⟩
  · rintro ⟨hc, hr, ht, hi⟩
    refine ⟨_, ⟨hc ▸ toNat_lt_bound _, hc.symm⟩, _, ⟨hr ▸ toNat_lt_bound _, hr.symm⟩,
      _, ⟨ht ▸ toNat_lt_bound _, ht.symm⟩, _, ⟨hi ▸ toNat_lt_bound _, hi.symm⟩, ?_⟩
    simp only [UInt64.ofNat_toNat]

theorem eq_overflow_of_add (h : a.add b = .error fault) : fault = .overflow := by
  simp only [add, bind_eq_error_iff, Word.sum_eq_error_iff, pure_eq_ok] at h
  tauto

theorem isSum_nil_iff : total.IsSum [] ↔ total = {} := by
  obtain ⟨created, reused, terminated, idle⟩ := total
  constructor
  · rintro ⟨hc, hr, ht, hi⟩
    rw [mk.injEq]
    exact ⟨UInt64.toNat_inj.1 hc, UInt64.toNat_inj.1 hr, UInt64.toNat_inj.1 ht,
      UInt64.toNat_inj.1 hi⟩
  · rintro ⟨⟩
    exact ⟨rfl, rfl, rfl, rfl⟩

/-- If nothing adds up to more than a word holds, there is a sum. -/
theorem exists_isSum (h : ¬Exceeds tallies) : ∃ total : Tally, total.IsSum tallies := by
  simp only [Exceeds, not_or, Nat.not_le] at h
  obtain ⟨hc, hr, ht, hi⟩ := h
  exact ⟨⟨.ofNat _, .ofNat _, .ofNat _, .ofNat _⟩, toNat_ofNat hc, toNat_ofNat hr,
    toNat_ofNat ht, toNat_ofNat hi⟩

theorem IsSum.not_exceeds (h : total.IsSum tallies) : ¬Exceeds tallies := by
  obtain ⟨hc, hr, ht, hi⟩ := h
  have hword := toNat_lt_bound
  rw [Exceeds, ← hc, ← hr, ← ht, ← hi]
  simp [hword]

theorem isSum_append_singleton_iff :
    total.IsSum (tallies ++ [a]) ↔ ∃ before : Tally, before.IsSum tallies
      ∧ before.add a = .ok total := by
  have hsum : ∀ f : Tally → Nat, ((tallies ++ [a]).map f).sum = (tallies.map f).sum + f a := by
    simp
  constructor
  · rintro ⟨hc, hr, ht, hi⟩
    rw [hsum] at hc hr ht hi
    have hbefore : ¬Exceeds tallies := by
      have := toNat_lt_bound total.created
      have := toNat_lt_bound total.reused
      have := toNat_lt_bound total.terminated
      have := toNat_lt_bound total.idle
      unfold Exceeds
      omega
    obtain ⟨before, hb⟩ := exists_isSum hbefore
    refine ⟨before, hb, add_eq_ok_iff.2 ⟨?_, ?_, ?_, ?_⟩⟩
    · rw [hc, hb.created]
    · rw [hr, hb.reused]
    · rw [ht, hb.terminated]
    · rw [hi, hb.idle]
  · rintro ⟨before, hb, hadd⟩
    obtain ⟨hc, hr, ht, hi⟩ := add_eq_ok_iff.1 hadd
    constructor <;> rw [hsum]
    · rw [hc, hb.created]
    · rw [hr, hb.reused]
    · rw [ht, hb.terminated]
    · rw [hi, hb.idle]

theorem foldlM_add_eq_ok_iff (tallies : List Tally) :
    tallies.foldlM add {} = .ok total ↔ total.IsSum tallies := by
  induction tallies using List.reverseRecOn generalizing total with
  | nil => simp [isSum_nil_iff, eq_comm]
  | append_singleton tallies a ih =>
    rw [List.foldlM_append, bind_eq_ok_iff, isSum_append_singleton_iff]
    simp only [ih, List.foldlM_cons, List.foldlM_nil, bind_pure]

theorem eq_overflow_of_foldlM_add (h : tallies.foldlM add a = .error fault) :
    fault = .overflow := by
  induction tallies generalizing a with
  | nil => cases h
  | cons b rest ih =>
    obtain hadd | ⟨sum, -, hrest⟩ := bind_eq_error_iff.1 h
    · exact eq_overflow_of_add hadd
    · exact ih hrest

theorem foldlM_add_eq_error_iff (tallies : List Tally) :
    tallies.foldlM add {} = .error fault ↔ fault = .overflow ∧ Exceeds tallies := by
  constructor
  · intro h
    refine ⟨eq_overflow_of_foldlM_add h, ?_⟩
    by_contra hexceeds
    obtain ⟨total, htotal⟩ := exists_isSum hexceeds
    cases h.symm.trans ((foldlM_add_eq_ok_iff tallies).2 htotal)
  · rintro ⟨rfl, hexceeds⟩
    cases h : tallies.foldlM add {} with
    | ok total => exact absurd hexceeds ((foldlM_add_eq_ok_iff tallies).1 h).not_exceeds
    | error fault => rw [eq_overflow_of_foldlM_add h]

end Tally

namespace Statistics

variable {st st' : Statistics} {slot k thread : Nat}

section Slots

theorem slot?_record_of_ne (h : k ≠ slot) (g : Tally → Tally) :
    (st.record slot g).slot? k = st.slot? k := by
  simp [slot?, record, Ne.symm h]

theorem slot?_record_self (g : Tally → Tally) :
    (st.record k g).slot? k = (st.slot? k).map fun entry => (entry.1, g entry.2) := by
  cases hk : st.slots[k]? <;> simp [slot?, record, hk, claimed?, Function.comp_def]

theorem isSome_slot?_record (g : Tally → Tally) :
    ((st.record slot g).slot? k).isSome = (st.slot? k).isSome := by
  by_cases h : k = slot
  · subst h
    rw [slot?_record_self, Option.isSome_map]
  · rw [slot?_record_of_ne h]

theorem slot?_unregister_of_ne (h : k ≠ slot) : (st.unregister slot).slot? k = st.slot? k := by
  simp [slot?, unregister, Ne.symm h]

theorem slot?_unregister_self : (st.unregister k).slot? k = none := by
  by_cases hk : k < st.slots.length <;> simp [slot?, unregister, hk, claimed?]

/-- The slot that is claimed was free and starts from nothing, and the others stay as they were. -/
theorem slot?_of_register {claimed : Option Nat} (h : st.register thread = (claimed, st')) :
    (∀ k, claimed = some k → st.slot? k = none ∧ st'.slot? k = some (thread, {}))
      ∧ ∀ k, claimed ≠ some k → st'.slot? k = st.slot? k := by
  simp only [register] at h
  split at h <;> rename_i hfind <;> obtain ⟨rfl, rfl⟩ := Prod.mk.inj h
  · rename_i i
    obtain ⟨hi, hfree, -⟩ := List.findIdx?_eq_some_iff_getElem.1 hfind
    refine ⟨fun k hk => ?_, fun k hk => ?_⟩
    · obtain rfl := Option.some.inj hk
      have hnone : st.slots[i].claimant = none := by simpa using hfree
      simp [slot?, hi, claimed?, hnone]
    · have hne : i ≠ k := fun heq => hk (congrArg some heq)
      simp [slot?, hne]
  · exact ⟨fun k hk => by simp at hk, fun k _ => rfl⟩

theorem slot?_ofCapacity (n k : Nat) : (ofCapacity n).slot? k = none := by
  by_cases hk : k < n <;> simp [slot?, ofCapacity, hk, claimed?]

end Slots

section Total

/-- The tally of a slot that is claimed. -/
def tally? (st : Statistics) (k : Nat) : Option Tally := (st.slot? k).map Prod.snd

/-- The slots that are claimed. -/
def claimedSlots (st : Statistics) : List Nat :=
  (List.range st.capacity).filter fun k => (st.slot? k).isSome

theorem nodup_claimedSlots (st : Statistics) : st.claimedSlots.Nodup :=
  List.nodup_range.filter _

theorem mem_claimedSlots_iff : k ∈ st.claimedSlots ↔ (st.slot? k).isSome = true := by
  rw [claimedSlots, List.mem_filter, List.mem_range, and_iff_right_iff_imp]
  intro hk
  by_contra hlt
  simp [slot?, List.getElem?_eq_none (Nat.le_of_not_lt hlt)] at hk

/-- The slots in the order of their numbers. -/
theorem perThread_eq_range (st : Statistics) :
    st.perThread = (List.range st.capacity).filterMap st.slot? := by
  have hslots : st.slots.map some = (List.range st.capacity).map (st.slots[·]?) := by
    refine List.ext_getElem (by simp [capacity]) fun i hi _ => ?_
    simp at hi
    simp [hi]
  calc st.perThread = (st.slots.map some).filterMap (·.bind claimed?) := by
        rw [List.filterMap_map]
        rfl
    _ = (List.range st.capacity).filterMap st.slot? := by
        rw [hslots, List.filterMap_map]
        rfl

theorem perThread_eq (st : Statistics) : st.perThread = st.claimedSlots.filterMap st.slot? := by
  rw [perThread_eq_range, claimedSlots, List.filterMap_filter]
  refine List.filterMap_congr fun k _ => ?_
  cases st.slot? k <;> rfl

theorem length_perThread (st : Statistics) : st.perThread.length = st.claimedSlots.length := by
  rw [perThread_eq, List.length_filterMap_eq_countP, List.countP_eq_length]
  exact fun k => mem_claimedSlots_iff.1

theorem map_perThread (st : Statistics) :
    st.perThread.map Prod.snd = st.claimedSlots.filterMap st.tally? := by
  rw [perThread_eq, List.map_filterMap]
  rfl

theorem foldlM_perThread (st : Statistics) :
    st.perThread.foldlM (fun sum entry => sum.add entry.2) {}
      = (st.perThread.map Prod.snd).foldlM Tally.add {} :=
  List.foldlM_map.symm

/-- A total counts the claimed slots and adds up their tallies. -/
theorem total_eq_ok_iff {total : StatisticsTotal} : st.total = .ok total ↔
    total.threads = st.perThread.length ∧ total.tally.IsSum (st.perThread.map Prod.snd)
      ∧ total.overflow = st.overflow := by
  obtain ⟨threads, tally, overflow⟩ := total
  simp only [Statistics.total, foldlM_perThread, bind_eq_ok_iff, Tally.foldlM_add_eq_ok_iff,
    pure_eq_ok, Except.ok.injEq, StatisticsTotal.mk.injEq]
  constructor
  · rintro ⟨_, hsum, rfl, rfl, rfl⟩
    exact ⟨rfl, hsum, rfl⟩
  · rintro ⟨rfl, hsum, rfl⟩
    exact ⟨tally, hsum, rfl, rfl, rfl⟩

/-- There is no total if the tallies add up to more than words hold. -/
theorem total_eq_error_iff {fault : Fault} : st.total = .error fault ↔
    fault = .overflow ∧ Tally.Exceeds (st.perThread.map Prod.snd) := by
  simp only [Statistics.total, foldlM_perThread, bind_eq_error_iff, Tally.foldlM_add_eq_error_iff,
    pure_eq_ok, reduceCtorEq, and_false, exists_false, or_false]

end Total

end Statistics

end PooledFibers
