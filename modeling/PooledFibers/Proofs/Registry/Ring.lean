import Mathlib.Data.List.Basic
import Mathlib.Data.List.Perm.Basic
import Mathlib.Data.List.Range
import Mathlib.Tactic.Common
import PooledFibers.Proofs.Outcome
import PooledFibers.Registry.Ring

/-!
# What a ring holds

`Ring.Holds r l` says that the ring `r` links exactly the entries of `l`, in this order from its
head: `Path` follows the links both ways, and a `Cycle` is a path that closes. On a ring that holds
a list no operation meets a fault: `push` puts an entry in front (`Holds.exists_push`), `unlink`
takes one out (`Holds.exists_unlink`), and `entries` reads the list back (`Holds.entries_eq`).
-/

namespace PooledFibers.Ring

open Outcome

variable {r : Ring} {i j : Nat} {f : FiberId}

section Links

theorem lt_of_link {k : Link} (h : r.link i = .ok k) : i < r.links.length := by
  simp only [link] at h
  split at h <;> rename_i hi
  · exact (List.getElem?_eq_some_iff.1 hi).1
  · simp at h

@[simp] theorem length_setLink {k : Option Link} :
    (r.setLink i k).links.length = r.links.length := by
  simp [setLink]

theorem link_setLink_of_ne {k : Option Link} (h : j ≠ i) : (r.setLink i k).link j = r.link j := by
  simp [link, setLink, List.getElem?_set_ne (Ne.symm h)]

theorem link_setLink_self {k : Link} (hi : i < r.links.length) :
    (r.setLink i (some k)).link i = .ok k := by
  simp [link, setLink, hi]

theorem link_setLink_none : (r.setLink i none).link i = .error (.linkVacant i) := by
  by_cases hi : i < r.links.length <;> simp [link, setLink, hi]

theorem setNext_eq {k : Link} {next : Nat} (h : r.link i = .ok k) :
    r.setNext i next = .ok (r.setLink i (some { k with next })) := by
  simp [setNext, h]

theorem setPrev_eq {k : Link} {prev : Nat} (h : r.link i = .ok k) :
    r.setPrev i prev = .ok (r.setLink i (some { k with prev })) := by
  simp [setPrev, h]

end Links

section Paths

/-- The index of the first entry, or `after` if there is none. -/
def firstOf : List (Nat × FiberId) → Nat → Nat
  | [], after => after
  | (i, _) :: _, _ => i

/-- The index of the last entry, or `before` if there is none. -/
def lastOf : Nat → List (Nat × FiberId) → Nat
  | before, [] => before
  | _, (i, _) :: rest => lastOf i rest

/-- The entries are linked one after the other, between the indices `before` and `after`. -/
def Path (r : Ring) : Nat → List (Nat × FiberId) → Nat → Prop
  | _, [], _ => True
  | before, (i, f) :: rest, after =>
    r.link i = .ok ⟨f, firstOf rest after, before⟩ ∧ Path r i rest after

variable {l l' : List (Nat × FiberId)} {before after : Nat}

theorem firstOf_append : firstOf (l ++ l') after = firstOf l (firstOf l' after) := by
  cases l <;> rfl

theorem lastOf_append : lastOf before (l ++ l') = lastOf (lastOf before l) l' := by
  induction l generalizing before with
  | nil => rfl
  | cons e l ih => exact ih

theorem lastOf_mem (i : Nat) (f : FiberId) (l : List (Nat × FiberId)) :
    lastOf i l ∈ ((i, f) :: l).map (·.1) := by
  induction l generalizing i f with
  | nil => exact List.mem_cons_self
  | cons e l ih => exact List.mem_cons_of_mem _ (ih e.1 e.2)

theorem path_append : r.Path before (l ++ l') after
    ↔ r.Path before l (firstOf l' after) ∧ r.Path (lastOf before l) l' after := by
  induction l generalizing before with
  | nil => simp [Path, lastOf]
  | cons e l ih =>
    obtain ⟨i, f⟩ := e
    simp only [List.cons_append, Path, lastOf, firstOf_append, ih, and_assoc]

theorem Path.congr {r' : Ring} (h : r.Path before l after)
    (hr : ∀ i ∈ l.map (·.1), r'.link i = r.link i) : r'.Path before l after := by
  induction l generalizing before with
  | nil => trivial
  | cons e l ih =>
    obtain ⟨i, f⟩ := e
    simp only [List.map_cons, List.forall_mem_cons] at hr
    exact ⟨hr.1.trans h.1, ih h.2 hr.2⟩

theorem Path.exists_link (h : r.Path before l after) (he : (i, f) ∈ l) :
    ∃ k, r.link i = .ok k ∧ k.fiber = f := by
  induction l generalizing before with
  | nil => simp at he
  | cons e l ih =>
    rcases List.mem_cons.1 he with rfl | he
    · exact ⟨_, h.1, rfl⟩
    · exact ih h.2 he

/-- A path ends elsewhere once its last link points there. -/
theorem Path.setNext (h : r.Path before ((i, f) :: l) after) (hl : (((i, f) :: l).map (·.1)).Nodup)
    (next : Nat) : ∃ k, r.setNext (lastOf i l) next = .ok (r.setLink (lastOf i l) (some k))
      ∧ (r.setLink (lastOf i l) (some k)).Path before ((i, f) :: l) next := by
  induction l generalizing before i f with
  | nil =>
    exact ⟨_, setNext_eq h.1, link_setLink_self (lt_of_link h.1), trivial⟩
  | cons e l ih =>
    obtain ⟨j, g⟩ := e
    rw [List.map_cons, List.nodup_cons] at hl
    obtain ⟨k, hset, hpath⟩ := ih h.2 hl.2
    refine ⟨k, hset, ?_, hpath⟩
    have hne : i ≠ lastOf j l := fun hi => hl.1 (hi ▸ lastOf_mem j g l)
    exact (link_setLink_of_ne hne).trans h.1

/-- A path starts elsewhere once its first link points back there. -/
theorem Path.setPrev (h : r.Path before ((i, f) :: l) after) (hl : i ∉ l.map (·.1))
    (prev : Nat) : ∃ k, r.setPrev i prev = .ok (r.setLink i (some k))
      ∧ (r.setLink i (some k)).Path prev ((i, f) :: l) after := by
  refine ⟨_, setPrev_eq h.1, link_setLink_self (lt_of_link h.1), h.2.congr fun j hj => ?_⟩
  exact link_setLink_of_ne fun hji : j = i => hl (hji ▸ hj)

/-- A path that closes. -/
def Cycle (r : Ring) (l : List (Nat × FiberId)) : Prop := r.Path (lastOf 0 l) l (firstOf l 0)

theorem Cycle.rotate (h : r.Cycle (l ++ l')) : r.Cycle (l' ++ l) := by
  cases l with
  | nil => simpa using h
  | cons e l =>
    cases l' with
    | nil => simpa using h
    | cons e' l' =>
      simp only [Cycle, lastOf_append, firstOf_append] at h ⊢
      exact path_append.2 (path_append.1 h).symm

end Paths

/-- The ring links the entries of `l`, from its head on, and nothing else. -/
structure Holds (r : Ring) (l : List (Nat × FiberId)) : Prop where
  cycle : r.Cycle l
  head : r.head = l.head?.map (·.1)
  nodup : (l.map (·.1)).Nodup
  link_of_notMem : ∀ i, i ∉ l.map (·.1) → r.link i = .error (.linkVacant i)
  vacant_nodup : r.vacant.Nodup
  mem_vacant : ∀ i, i ∈ r.vacant ↔ i < r.links.length ∧ i ∉ l.map (·.1)
  count : r.count = l.length

theorem holds_empty : ({} : Ring).Holds [] where
  cycle := trivial
  head := rfl
  nodup := List.nodup_nil
  link_of_notMem _ _ := rfl
  vacant_nodup := List.nodup_nil
  mem_vacant := by simp
  count := rfl

variable {l : List (Nat × FiberId)}

theorem Holds.link_iff (h : r.Holds l) :
    (∃ k, r.link i = .ok k ∧ k.fiber = f) ↔ (i, f) ∈ l := by
  refine ⟨?_, h.cycle.exists_link⟩
  rintro ⟨k, hk, rfl⟩
  by_cases hi : i ∈ l.map (·.1)
  · obtain ⟨⟨i, g⟩, he, rfl⟩ := List.mem_map.1 hi
    obtain ⟨k', hk', rfl⟩ := h.cycle.exists_link he
    cases hk.symm.trans hk'
    exact he
  · rw [h.link_of_notMem i hi] at hk
    simp at hk

section Rewiring

/-- The rings differ in the links of the entries of `l` at most. -/
structure Rewired (r r' : Ring) (l : List (Nat × FiberId)) : Prop where
  length : r'.links.length = r.links.length
  vacant : r'.vacant = r.vacant
  head : r'.head = r.head
  count : r'.count = r.count
  link : ∀ i, i ∉ l.map (·.1) → r'.link i = r.link i

theorem Rewired.setLink {r' : Ring} (h : r.Rewired r' l) (hi : i ∈ l.map (·.1))
    (k : Option Link) : r.Rewired (r'.setLink i k) l where
  length := length_setLink.trans h.length
  vacant := h.vacant
  head := h.head
  count := h.count
  link j hj := (link_setLink_of_ne fun hji : j = i => hj (hji ▸ hi)).trans (h.link j hj)

theorem Rewired.mono {r' : Ring} {l' : List (Nat × FiberId)} (h : r.Rewired r' l)
    (hl : ∀ i ∈ l.map (·.1), i ∈ l'.map (·.1)) : r.Rewired r' l' :=
  { h with link := fun i hi => h.link i fun hmem => hi (hl i hmem) }

theorem Rewired.trans {r' r'' : Ring} (h : r.Rewired r' l) (h' : r'.Rewired r'' l) :
    r.Rewired r'' l where
  length := h'.length.trans h.length
  vacant := h'.vacant.trans h.vacant
  head := h'.head.trans h.head
  count := h'.count.trans h.count
  link i hi := (h'.link i hi).trans (h.link i hi)

theorem rewired_setLink (r : Ring) (hi : i ∈ l.map (·.1)) (k : Option Link) :
    r.Rewired (r.setLink i k) l :=
  Rewired.setLink ⟨rfl, rfl, rfl, rfl, fun _ _ => rfl⟩ hi k

/-- A path between `before` and `after` is made a cycle. -/
theorem Path.exists_close {before after : Nat} {f : FiberId}
    (h : r.Path before ((i, f) :: l) after) (hl : (((i, f) :: l).map (·.1)).Nodup)
    (next prev : Nat) : ∃ r₁ r₂, r.setNext (lastOf i l) next = .ok r₁
      ∧ r₁.setPrev i prev = .ok r₂ ∧ r₂.Path prev ((i, f) :: l) next
      ∧ r.Rewired r₂ ((i, f) :: l) := by
  obtain ⟨k, hnext, hpath⟩ := h.setNext hl next
  obtain ⟨k', hprev, hpath⟩ := hpath.setPrev (List.nodup_cons.1 hl).1 prev
  have hlast : lastOf i l ∈ ((i, f) :: l).map (·.1) := lastOf_mem i f l
  exact ⟨_, _, hnext, hprev, hpath,
    (rewired_setLink r hlast _).setLink List.mem_cons_self _⟩

end Rewiring

section Push

/-- The index claimed is not in use and no longer vacant; nothing else changes. -/
theorem Holds.claimIndex (h : r.Holds l) {r' : Ring} (hr : r.claimIndex = (i, r')) :
    i ∉ l.map (·.1) ∧ i < r'.links.length ∧ (∀ j, r'.link j = r.link j)
      ∧ (r'.head = r.head ∧ r'.count = r.count) ∧ r'.vacant.Nodup
      ∧ ∀ j, j ∈ r'.vacant ↔ j < r'.links.length ∧ j ≠ i ∧ j ∉ l.map (·.1) := by
  have hmem := h.mem_vacant
  have hnodup := h.vacant_nodup
  simp only [Ring.claimIndex] at hr
  split at hr <;> rename_i hvacant <;> simp only [Prod.mk.injEq] at hr <;> obtain ⟨rfl, rfl⟩ := hr
  · rw [hvacant] at hmem hnodup
    rw [List.nodup_cons] at hnodup
    obtain ⟨hi, hfresh⟩ := (hmem _).1 List.mem_cons_self
    refine ⟨hfresh, hi, fun _ => rfl, ⟨rfl, rfl⟩, hnodup.2, fun j => ?_⟩
    have := hmem j
    rw [List.mem_cons] at this
    grind
  · rw [hvacant] at hmem
    have hall : ∀ j ∈ l.map (·.1), j < r.links.length := by
      intro j hj
      obtain ⟨⟨j, g⟩, he, rfl⟩ := List.mem_map.1 hj
      obtain ⟨k, hk, -⟩ := h.cycle.exists_link he
      exact lt_of_link hk
    refine ⟨fun hi => Nat.lt_irrefl _ (hall _ hi), by simp, fun j => ?_, ⟨rfl, rfl⟩, hnodup, ?_⟩
    · simp only [link, List.getElem?_append]
      grind
    · intro j
      have := hmem j
      simp only [List.length_append, List.length_singleton]
      grind

theorem Holds.exists_push (h : r.Holds l) (f : FiberId) :
    ∃ i r', r.push f = .ok (i, r') ∧ r'.Holds ((i, f) :: l) := by
  obtain ⟨⟨i, r₁⟩, hclaim⟩ : ∃ p, r.claimIndex = p := ⟨_, rfl⟩
  obtain ⟨hfresh, hi, hlink, ⟨hhead, hcount⟩, hnodup, hvacant⟩ := h.claimIndex hclaim
  -- whatever is rewired in the end, all but the cycle is settled by `claimIndex`
  have hholds : ∀ r₂, r₁.Rewired r₂ ((i, f) :: l) → r₂.Cycle ((i, f) :: l) →
      { r₂ with head := some i, count := r₂.count + 1 }.Holds ((i, f) :: l) := by
    intro r₂ hr hcycle
    refine ⟨hcycle.congr fun _ _ => rfl, rfl, List.nodup_cons.2 ⟨hfresh, h.nodup⟩, ?_,
      hr.vacant ▸ hnodup, ?_, by simp [hr.count, hcount, h.count]⟩
    · intro j hj
      have hj' : j ∉ l.map (·.1) := fun hmem => hj (List.mem_cons_of_mem _ hmem)
      exact (hr.link j hj).trans ((hlink j).trans (h.link_of_notMem j hj'))
    · intro j
      simp only [hr.vacant, hvacant, hr.length, List.map_cons, List.mem_cons, not_or]
  cases l with
  | nil =>
    have hneighbours : r₁.headNeighbours i = .ok (i, i) := by
      simp [headNeighbours, hhead, h.head]
    have hr := rewired_setLink r₁ (l := [(i, f)]) List.mem_cons_self (some ⟨f, i, i⟩)
    exact ⟨i, _, by simp only [push, hclaim, hneighbours, ok_bind, if_true, pure_eq_ok],
      hholds _ hr ⟨link_setLink_self hi, trivial⟩⟩
  | cons e l =>
    obtain ⟨head, g⟩ := e
    have hneighbours : r₁.headNeighbours i = .ok (head, lastOf head l) := by
      simp [headNeighbours, hhead, h.head, hlink, h.cycle.1, lastOf]
    have hne : i ≠ head := fun hi => hfresh (hi ▸ List.mem_cons_self)
    have hpath : (r₁.setLink i (some ⟨f, head, lastOf head l⟩)).Path (lastOf head l)
        ((head, g) :: l) head := h.cycle.congr fun j hj => by
      rw [link_setLink_of_ne fun hji : j = i => hfresh (hji ▸ hj), hlink]
    obtain ⟨r₂, r₃, hnext, hprev, hpath, hr⟩ := hpath.exists_close h.nodup i i
    refine ⟨i, _, by simp [push, hclaim, hneighbours, Ne.symm hne, hnext, hprev],
      hholds r₃ ?_ ⟨?_, hpath⟩⟩
    · exact (rewired_setLink r₁ List.mem_cons_self _).trans (hr.mono fun j => List.mem_cons_of_mem i)
    · exact (hr.link i hfresh).trans (link_setLink_self hi)

end Push

section Unlink

/-- Once the entry is out of the cycle, the rest of the ring follows. -/
theorem Holds.unlinked {l' : List (Nat × FiberId)} (h : r.Holds l) (hl : l.Perm ((i, f) :: l'))
    {r' : Ring} (hr : (r.setLink i none).Rewired r' l') (hcycle : r'.Cycle l')
    {head : Option Nat} (hhead : head = l'.head?.map (·.1)) :
    { r' with head, vacant := i :: r'.vacant, count := r'.count - 1 }.Holds l' := by
  have hmem : ∀ j, j ∈ l.map (·.1) ↔ j = i ∨ j ∈ l'.map (·.1) := fun j => by
    rw [(hl.map _).mem_iff, List.map_cons, List.mem_cons]
  have hnodup := (hl.map (·.1)).nodup_iff.1 h.nodup
  rw [List.map_cons, List.nodup_cons] at hnodup
  have hi : i < r.links.length := by
    obtain ⟨k, hk, -⟩ := h.cycle.exists_link (hl.mem_iff.2 List.mem_cons_self)
    exact lt_of_link hk
  have hvacant : r'.vacant = r.vacant := hr.vacant
  have hlength : r'.links.length = r.links.length := hr.length.trans length_setLink
  have hcount : r'.count = r.count := hr.count
  refine ⟨hcycle.congr fun _ _ => rfl, hhead, hnodup.2, fun j hj => ?_, ?_, fun j => ?_, ?_⟩
  · refine (hr.link j hj).trans ?_
    by_cases hji : j = i
    · exact hji ▸ link_setLink_none
    · rw [link_setLink_of_ne hji]
      exact h.link_of_notMem j fun hmem' => ((hmem j).1 hmem').elim hji hj
  · rw [hvacant, List.nodup_cons]
    exact ⟨fun hv => ((h.mem_vacant i).1 hv).2 ((hmem i).2 (.inl rfl)), h.vacant_nodup⟩
  · rw [hvacant, hlength, List.mem_cons, h.mem_vacant, hmem]
    by_cases hji : j = i
    · subst hji
      exact iff_of_true (.inl rfl) ⟨hi, hnodup.1⟩
    · simp only [hji, false_or]
  · simp [hcount, h.count, hl.length_eq]

theorem Holds.exists_unlink {l₁ l₂ : List (Nat × FiberId)} (h : r.Holds (l₁ ++ (i, f) :: l₂)) :
    ∃ r', r.unlink i = .ok (f, r') ∧ r'.Holds (l₁ ++ l₂) := by
  have hperm : (l₁ ++ (i, f) :: l₂).Perm ((i, f) :: (l₁ ++ l₂)) := List.perm_middle
  -- seen from the link itself, the others lie in a row behind it
  have hcycle : r.Cycle ((i, f) :: (l₂ ++ l₁)) := by
    have := h.cycle.rotate
    simpa using this
  have hnodup : i ∉ (l₂ ++ l₁).map (·.1) ∧ ((l₂ ++ l₁).map (·.1)).Nodup := by
    have hperm' := (hperm.trans (List.perm_append_comm.cons _)).map (·.1)
    have := hperm'.nodup_iff.1 h.nodup
    rwa [List.map_cons, List.nodup_cons] at this
  have hlink := hcycle.1
  have hpath : (r.setLink i none).Path i (l₂ ++ l₁) i := hcycle.2.congr fun j hj =>
    link_setLink_of_ne fun hji : j = i => hnodup.1 (hji ▸ hj)
  rcases hrest : l₂ ++ l₁ with _ | ⟨⟨next, g⟩, rest⟩
  · obtain ⟨rfl, rfl⟩ := List.append_eq_nil_iff.1 hrest
    have hr : (r.setLink i none).Rewired (r.setLink i none) [] :=
      ⟨rfl, rfl, rfl, rfl, fun _ _ => rfl⟩
    exact ⟨_, by simp [unlink, hlink, firstOf], h.unlinked hperm hr trivial rfl⟩
  · rw [hrest] at hlink hpath hnodup
    obtain ⟨r₁, r₂, hnext, hprev, hclosed, hr⟩ := hpath.exists_close hnodup.2 next (lastOf next rest)
    have hne : next ≠ i := fun hi => hnodup.1 (hi ▸ List.mem_cons_self)
    have hcycle' : r₂.Cycle (l₂ ++ l₁) := hrest ▸ hclosed
    have hr' : (r.setLink i none).Rewired r₂ (l₁ ++ l₂) := hr.mono fun j hj => by
      rw [← hrest] at hj
      simpa [or_comm] using hj
    have hhead : (if r₂.head = some i then some next else r₂.head)
        = (l₁ ++ l₂).head?.map (·.1) := by
      rw [show r₂.head = r.head from hr.head, h.head]
      cases l₁ with
      | nil =>
        simp only [List.append_nil] at hrest
        simp [hrest]
      | cons e l₁ =>
        have : e.1 ≠ i := fun he => hnodup.1 (by simp [← hrest, ← he])
        simp [this]
    refine ⟨_, ?_, h.unlinked hperm hr' hcycle'.rotate hhead⟩
    simp [unlink, hlink, firstOf, lastOf, hne, hnext, hprev]

end Unlink

section Entries

theorem Path.chain_eq {before after fuel : Nat} (h : r.Path before ((i, f) :: l) after)
    (hl : after ∉ l.map (·.1)) (hfuel : l.length < fuel) :
    r.chain after fuel i = .ok ((i, f) :: l) := by
  induction l generalizing before i f fuel with
  | nil =>
    obtain ⟨fuel, rfl⟩ := Nat.exists_eq_add_one_of_ne_zero (Nat.ne_of_gt hfuel)
    simp [chain, h.1, firstOf]
  | cons e l ih =>
    obtain ⟨j, g⟩ := e
    obtain ⟨fuel, rfl⟩ := Nat.exists_eq_add_one_of_ne_zero (Nat.ne_of_gt (Nat.zero_lt_of_lt hfuel))
    simp only [List.map_cons, List.mem_cons, not_or] at hl
    simp [chain, h.1, firstOf, Ne.symm hl.1, ih h.2 hl.2 (Nat.lt_of_succ_lt_succ hfuel)]

/-- A ring has room for what it holds. -/
theorem Holds.length_le (h : r.Holds l) : l.length ≤ r.links.length := by
  have hsub : l.map (·.1) ⊆ List.range r.links.length := by
    intro i hi
    obtain ⟨⟨i, f⟩, he, rfl⟩ := List.mem_map.1 hi
    obtain ⟨k, hk, -⟩ := h.cycle.exists_link he
    exact List.mem_range.2 (lt_of_link hk)
  simpa using (List.subperm_of_subset h.nodup hsub).length_le

theorem Holds.entries_eq (h : r.Holds l) : r.entries = .ok l := by
  cases l with
  | nil => simp [entries, h.head]
  | cons e l =>
    have hlength := h.length_le
    have hhead := h.head
    simp only [List.head?_cons, Option.map_some] at hhead
    simp only [entries, hhead]
    exact h.cycle.chain_eq (List.nodup_cons.1 h.nodup).1 (Nat.lt_succ_of_lt hlength)

theorem Holds.toList_eq (h : r.Holds l) : r.toList = .ok (l.map (·.2)) := by
  simp [toList, h.entries_eq]

end Entries

end PooledFibers.Ring
