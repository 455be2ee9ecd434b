import Mathlib.Data.List.Nodup
import Mathlib.Data.List.Perm.Basic
import Mathlib.Tactic.Common
import PooledFibers.Proofs.Registry.Ring
import PooledFibers.Proofs.Registry.Verification

/-!
# How a ring is wired

In every ring that linking and unlinking can lead to, the links in both directions undo each other
and make one cycle through the head, and each index is either on the cycle or once on the stack of
vacant ones. A link stays at its index until it is unlinked. As indices are claimed off that stack
first, the array is as long as the ring was at its longest (`Occupancy.exists_after_wired`).
-/

namespace PooledFibers

open Outcome

inductive RingOperation
  | push (fiber : FiberId)
  | unlink (i : Nat)
  deriving DecidableEq

/-- A ring with what has been linked and not unlinked since. -/
structure Occupancy where
  ring : Ring := {}
  /-- The fibers with the indices that were answered, the latest first. -/
  entries : List (Nat × FiberId) := []
  /-- The largest count so far. -/
  peak : Nat := 0

namespace Occupancy

/-- Only an index that is in use is ever unlinked. -/
def perform (o : Occupancy) : RingOperation → Except Fault Occupancy
  | .push fiber => do
    let (i, ring) ← o.ring.push fiber
    pure ⟨ring, (i, fiber) :: o.entries, max o.peak ring.count⟩
  | .unlink i =>
    if i ∈ o.entries.map (·.1) then do
      let (_, ring) ← o.ring.unlink i
      pure ⟨ring, o.entries.filter (·.1 ≠ i), max o.peak ring.count⟩
    else .ok o

def after (o : Occupancy) : List RingOperation → Except Fault Occupancy
  | [] => .ok o
  | operation :: rest => do (← o.perform operation).after rest

structure Wired (o : Occupancy) : Prop where
  /-- A link is in use from the push that was answered its index until it is unlinked. -/
  occupied : ∀ i f, (∃ k, o.ring.link i = .ok k ∧ k.fiber = f) ↔ (i, f) ∈ o.entries
  prev_next : ∀ i k, o.ring.link i = .ok k → ∃ k', o.ring.link k.next = .ok k' ∧ k'.prev = i
  next_prev : ∀ i k, o.ring.link i = .ok k → ∃ k', o.ring.link k.prev = .ok k' ∧ k'.next = i
  /-- From the head the ring goes through all links in use and back to the head. -/
  cycle : ∃ l, o.ring.Returns l ∧ ∀ i k, o.ring.link i = .ok k → (i, k) ∈ l
  vacant_nodup : o.ring.vacant.Nodup
  mem_vacant : ∀ i, i ∈ o.ring.vacant ↔ o.ring.links[i]? = some none
  length : o.ring.links.length = o.peak

end Occupancy

namespace Ring

variable {r r' : Ring} {i before after : Nat} {f : FiberId} {l : List (Nat × FiberId)}

section Vacant

theorem vacant_of_setNext {next : Nat} (h : r.setNext i next = .ok r') : r'.vacant = r.vacant := by
  obtain ⟨k, -, hr⟩ := bind_eq_ok_iff.1 h
  obtain rfl := Except.ok.inj hr
  rfl

theorem vacant_of_setPrev {prev : Nat} (h : r.setPrev i prev = .ok r') : r'.vacant = r.vacant := by
  obtain ⟨k, -, hr⟩ := bind_eq_ok_iff.1 h
  obtain rfl := Except.ok.inj hr
  rfl

theorem vacant_claimIndex (r : Ring) : r.claimIndex.2.vacant = r.vacant.tail := by
  unfold claimIndex
  split <;> simp [*]

/-- A push claims the latest vacant index, if there is one. -/
theorem vacant_of_push (h : r.push f = .ok (i, r')) : r'.vacant = r.vacant.tail := by
  obtain ⟨⟨j, r₁⟩, hclaim⟩ : ∃ p, r.claimIndex = p := ⟨_, rfl⟩
  rw [← vacant_claimIndex, hclaim]
  simp only [push, hclaim] at h
  obtain ⟨⟨next, prev⟩, -, h⟩ := bind_eq_ok_iff.1 h
  dsimp only at h
  split_ifs at h
  · cases h
    rfl
  · obtain ⟨r₂, hr₂, h⟩ := bind_eq_ok_iff.1 h
    obtain ⟨r₃, hr₃, h⟩ := bind_eq_ok_iff.1 h
    cases h
    rw [vacant_of_setPrev hr₃, vacant_of_setNext hr₂]
    rfl

theorem vacant_of_unlink (h : r.unlink i = .ok (f, r')) : r'.vacant = i :: r.vacant := by
  unfold unlink at h
  obtain ⟨k, -, h⟩ := bind_eq_ok_iff.1 h
  dsimp only at h
  split_ifs at h
  · cases h
    rfl
  · obtain ⟨r₁, hr₁, h⟩ := bind_eq_ok_iff.1 h
    obtain ⟨r₂, hr₂, h⟩ := bind_eq_ok_iff.1 h
    cases h
    rw [vacant_of_setPrev hr₂, vacant_of_setNext hr₁]
    rfl

/-- Each index is in use or vacant. -/
theorem Holds.length_eq (h : r.Holds l) : r.links.length = l.length + r.vacant.length := by
  have hperm : (l.map (·.1) ++ r.vacant).Perm (List.range r.links.length) := by
    rw [List.perm_ext_iff_of_nodup ?_ List.nodup_range]
    · intro i
      rw [List.mem_append, h.mem_vacant, List.mem_range]
      constructor
      · rintro (hi | hi)
        · obtain ⟨⟨i, f⟩, he, rfl⟩ := List.mem_map.1 hi
          obtain ⟨k, hk, -⟩ := h.cycle.exists_link he
          exact lt_of_link hk
        · exact hi.1
      · intro hi
        by_cases hl : i ∈ l.map (·.1)
        · exact .inl hl
        · exact .inr ⟨hi, hl⟩
    · refine List.nodup_append'.2 ⟨h.nodup, h.vacant_nodup, ?_⟩
      exact fun i hi hv => ((h.mem_vacant i).1 hv).2 hi
  simpa using hperm.length_eq.symm

end Vacant

section Cycle

theorem Path.exists_last (h : r.Path before ((i, f) :: l) after) :
    ∃ k, r.link (lastOf i l) = .ok k ∧ k.next = after := by
  induction l generalizing before i f with
  | nil => exact ⟨_, h.1, rfl⟩
  | cons e l ih => exact ih h.2

theorem Path.exists_closes (h : r.Path before ((i, f) :: l) after) (hl : after ∉ l.map (·.1)) :
    ∃ ks, r.Closes after i ks ∧ ks.map (fun e => (e.1, e.2.fiber)) = (i, f) :: l := by
  induction l generalizing before i f with
  | nil => exact ⟨_, .last h.1 rfl, rfl⟩
  | cons e l ih =>
    obtain ⟨j, g⟩ := e
    simp only [List.map_cons, List.mem_cons, not_or] at hl
    obtain ⟨ks, hcloses, hks⟩ := ih h.2 hl.2
    exact ⟨_, .cons h.1 (Ne.symm hl.1) hcloses, by rw [List.map_cons, hks]⟩

/-- Seen from one of its links, the others lie in a row behind it. -/
theorem Holds.exists_cycle (h : r.Holds l) (he : (i, f) ∈ l) :
    ∃ rest, r.Cycle ((i, f) :: rest) := by
  obtain ⟨l₁, l₂, rfl⟩ := List.append_of_mem he
  exact ⟨l₂ ++ l₁, by simpa using h.cycle.rotate⟩

theorem Holds.prev_next (h : r.Holds l) {k : Link} (hk : r.link i = .ok k) :
    ∃ k', r.link k.next = .ok k' ∧ k'.prev = i := by
  obtain ⟨f, hf⟩ : ∃ f, k.fiber = f := ⟨_, rfl⟩
  obtain ⟨rest, hcycle⟩ := h.exists_cycle (h.link_iff.1 ⟨k, hk, hf⟩)
  obtain rfl := Except.ok.inj (hk.symm.trans hcycle.1)
  rcases rest with _ | ⟨⟨j, g⟩, rest⟩
  · exact ⟨_, hcycle.1, rfl⟩
  · exact ⟨_, hcycle.2.1, rfl⟩

theorem Holds.next_prev (h : r.Holds l) {k : Link} (hk : r.link i = .ok k) :
    ∃ k', r.link k.prev = .ok k' ∧ k'.next = i := by
  obtain ⟨f, hf⟩ : ∃ f, k.fiber = f := ⟨_, rfl⟩
  obtain ⟨rest, hcycle⟩ := h.exists_cycle (h.link_iff.1 ⟨k, hk, hf⟩)
  obtain rfl := Except.ok.inj (hk.symm.trans hcycle.1)
  obtain ⟨k', hk', hnext⟩ := Path.exists_last hcycle
  exact ⟨k', hk', hnext⟩

/-- A ring that holds a list goes through its links and returns. -/
theorem Holds.exists_returns (h : r.Holds l) :
    ∃ ks, r.Returns ks ∧ ∀ i k, r.link i = .ok k → (i, k) ∈ ks := by
  rcases l with _ | ⟨⟨head, f⟩, l⟩
  · refine ⟨[], returns_iff.2 ⟨h.count, .inl ⟨h.head, rfl⟩⟩, fun i k hk => ?_⟩
    have := h.link_iff.1 ⟨k, hk, rfl⟩
    simp at this
  · have hfresh : head ∉ l.map (·.1) := (List.nodup_cons.1 h.nodup).1
    obtain ⟨ks, hcloses, hks⟩ := Path.exists_closes h.cycle hfresh
    have hcount : r.count = ks.length := by
      rw [h.count, ← hks, List.length_map]
    refine ⟨ks, returns_iff.2 ⟨hcount, .inr ⟨head, h.head, hcloses⟩⟩, fun i k hk => ?_⟩
    have hmem := h.link_iff.1 ⟨k, hk, rfl⟩
    rw [← hks] at hmem
    obtain ⟨⟨j, k'⟩, he, heq⟩ := List.mem_map.1 hmem
    obtain ⟨rfl, -⟩ := Prod.mk.inj heq
    have hk' := link_eq_ok_iff.2 (hcloses.occupied _ he)
    obtain rfl := Except.ok.inj (hk.symm.trans hk')
    exact he

end Cycle

end Ring

namespace Occupancy

variable {o o' : Occupancy} {operation : RingOperation} {operations : List RingOperation}

/-- What the wiring follows from is kept by every operation. -/
structure Sound (o : Occupancy) : Prop where
  holds : o.ring.Holds o.entries
  length : o.ring.links.length = o.peak

section Steps

/-- The other entries are those at other indices. -/
theorem filter_ne_of_nodup {i : Nat} {f : FiberId} {l₁ l₂ : List (Nat × FiberId)}
    (h : ((l₁ ++ (i, f) :: l₂).map (·.1)).Nodup) :
    (l₁ ++ (i, f) :: l₂).filter (·.1 ≠ i) = l₁ ++ l₂ := by
  have hnodup := ((List.perm_middle (a := (i, f))).map (·.1)).nodup_iff.1 h
  rw [List.map_cons, List.nodup_cons] at hnodup
  rw [List.filter_append, List.filter_cons_of_neg (by simp), ← List.filter_append,
    List.filter_eq_self]
  rintro ⟨j, g⟩ he
  simp only [decide_eq_true_eq]
  rintro rfl
  exact hnodup.1 (List.mem_map.2 ⟨(j, g), he, rfl⟩)

theorem Sound.exists_push (h : o.Sound) (fiber : FiberId) :
    ∃ i o', o.perform (.push fiber) = .ok o' ∧ o'.entries = (i, fiber) :: o.entries ∧ o'.Sound := by
  obtain ⟨i, ring, hpush, hholds⟩ := h.holds.exists_push fiber
  refine ⟨i, ⟨ring, (i, fiber) :: o.entries, max o.peak ring.count⟩, ?_, rfl, hholds, ?_⟩
  · simp only [perform, hpush, ok_bind, pure_eq_ok]
  · have hlength := h.holds.length_eq
    have hlength' := hholds.length_eq
    have hcount := hholds.count
    have hpeak := h.length
    rw [Ring.vacant_of_push hpush, List.length_tail] at hlength'
    simp only [List.length_cons] at hlength' hcount ⊢
    omega

theorem Sound.exists_unlink (h : o.Sound) {i : Nat} (hi : i ∈ o.entries.map (·.1)) :
    ∃ o', o.perform (.unlink i) = .ok o' ∧ o'.entries = o.entries.filter (·.1 ≠ i) ∧ o'.Sound := by
  obtain ⟨⟨i, f⟩, he, rfl⟩ := List.mem_map.1 hi
  obtain ⟨l₁, l₂, hentries⟩ := List.append_of_mem he
  have hholds := h.holds
  rw [hentries] at hholds
  obtain ⟨ring, hunlink, hholds'⟩ := hholds.exists_unlink
  have hrest : o.entries.filter (·.1 ≠ i) = l₁ ++ l₂ := by
    rw [hentries]
    exact filter_ne_of_nodup hholds.nodup
  rw [← hrest] at hholds'
  refine ⟨⟨ring, o.entries.filter (·.1 ≠ i), max o.peak ring.count⟩, ?_, rfl, hholds', ?_⟩
  · simp only [perform, if_pos hi, hunlink, ok_bind, pure_eq_ok]
  · have hlength := h.holds.length_eq
    have hlength' := hholds'.length_eq
    have hcount := hholds'.count
    have hpeak := h.length
    have hless : o.entries.length = (o.entries.filter (·.1 ≠ i)).length + 1 := by
      rw [hrest, hentries]
      simp only [List.length_append, List.length_cons]
      omega
    rw [Ring.vacant_of_unlink hunlink, List.length_cons] at hlength'
    dsimp only
    omega

/-- No operation meets a fault, and a link stays unless it is the one unlinked. -/
theorem Sound.exists_perform (h : o.Sound) (operation : RingOperation) :
    ∃ o', o.perform operation = .ok o' ∧ o'.Sound
      ∧ ∀ e ∈ o.entries, operation ≠ .unlink e.1 → e ∈ o'.entries := by
  cases operation with
  | push fiber =>
    obtain ⟨i, o', hperform, hentries, h'⟩ := h.exists_push fiber
    refine ⟨o', hperform, h', fun e he _ => ?_⟩
    rw [hentries]
    exact List.mem_cons_of_mem _ he
  | unlink i =>
    by_cases hi : i ∈ o.entries.map (·.1)
    · obtain ⟨o', hperform, hentries, h'⟩ := h.exists_unlink hi
      refine ⟨o', hperform, h', fun e he hstays => ?_⟩
      rw [hentries, List.mem_filter, decide_eq_true_eq]
      exact ⟨he, fun hei => hstays (hei ▸ rfl)⟩
    · exact ⟨o, by simp only [perform, if_neg hi], h, fun e he _ => he⟩

end Steps

section Runs

theorem Sound.exists_after (h : o.Sound) (operations : List RingOperation) :
    ∃ o', o.after operations = .ok o' ∧ o'.Sound
      ∧ ∀ e ∈ o.entries, .unlink e.1 ∉ operations → e ∈ o'.entries := by
  induction operations generalizing o with
  | nil => exact ⟨o, rfl, h, fun e he _ => he⟩
  | cons operation rest ih =>
    obtain ⟨next, hnext, hsound, hstays⟩ := h.exists_perform operation
    obtain ⟨o', hrest, hsound', hstays'⟩ := ih hsound
    refine ⟨o', by simp only [after, hnext, ok_bind, hrest], hsound', fun e he hnever => ?_⟩
    rw [List.mem_cons, not_or] at hnever
    exact hstays' e (hstays e he (Ne.symm hnever.1)) hnever.2

/-- An index that is not in use is vacant. -/
theorem Sound.mem_vacant_iff (h : o.Sound) {i : Nat} :
    i ∈ o.ring.vacant ↔ o.ring.links[i]? = some none := by
  rw [h.holds.mem_vacant]
  constructor
  · rintro ⟨hi, hfree⟩
    have hlink := h.holds.link_of_notMem i hfree
    rcases hget : o.ring.links[i]? with _ | _ | k
    · rw [List.getElem?_eq_none_iff] at hget
      omega
    · rfl
    · simp [Ring.link, hget] at hlink
  · intro hget
    refine ⟨(List.getElem?_eq_some_iff.1 hget).1, fun hmem => ?_⟩
    obtain ⟨⟨i, f⟩, he, rfl⟩ := List.mem_map.1 hmem
    obtain ⟨k, hk, -⟩ := h.holds.link_iff.2 he
    simp [Ring.link, hget] at hk

theorem Sound.wired (h : o.Sound) : o.Wired where
  occupied _ _ := h.holds.link_iff
  prev_next _ _ hk := h.holds.prev_next hk
  next_prev _ _ hk := h.holds.next_prev hk
  cycle := h.holds.exists_returns
  vacant_nodup := h.holds.vacant_nodup
  mem_vacant _ := h.mem_vacant_iff
  length := h.length

/-- Whatever is linked and unlinked, no fault is met and the ring stays wired. In whatever follows,
a link stays at its index until it is unlinked, and the array does not grow before the ring holds
more than ever. -/
theorem exists_after_wired (operations : List RingOperation) :
    ∃ o, after {} operations = .ok o ∧ o.Wired ∧ ∀ later, ∃ o', o.after later = .ok o' ∧ o'.Wired
      ∧ (∀ i k, o.ring.link i = .ok k → .unlink i ∉ later →
          ∃ k', o'.ring.link i = .ok k' ∧ k'.fiber = k.fiber)
      ∧ (o'.peak = o.peak → o'.ring.links.length = o.ring.links.length) := by
  have hempty : Sound {} := ⟨Ring.holds_empty, rfl⟩
  obtain ⟨o, ho, h, -⟩ := hempty.exists_after operations
  refine ⟨o, ho, h.wired, fun later => ?_⟩
  obtain ⟨o', ho', h', hstays⟩ := h.exists_after later
  refine ⟨o', ho', h'.wired, fun i k hk hnever => ?_, fun hpeak => ?_⟩
  · exact h'.holds.link_iff.2 (hstays _ (h.holds.link_iff.1 ⟨k, hk, rfl⟩) hnever)
  · rw [h'.length, h.length, hpeak]

/-- The third fiber is linked where the first was, at the head's index. -/
example : (after {} [.push ⟨8⟩, .push ⟨16⟩, .unlink 0, .push ⟨24⟩]).map (fun o => o.ring)
    = .ok ⟨[some ⟨⟨24⟩, 1, 1⟩, some ⟨⟨16⟩, 0, 0⟩], [], some 0, 2⟩ := rfl

end Runs

end Occupancy

end PooledFibers
