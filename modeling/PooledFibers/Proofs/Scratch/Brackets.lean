import Mathlib.Algebra.GroupWithZero.Nat
import Mathlib.Tactic.Common
import PooledFibers.Proofs.Scratch.Blocks

/-!
# Brackets

Whoever opens a handle block closes it again, whoever marks an area releases it to the mark, and
whoever enters a counter leaves it. `Bracketed` says this of a sequence of operations, by
concatenation and nesting. Such a sequence gives everything back, unless the machine gives out on the
way (`Ends`): a counter overflows, or the allocator refuses a request. Neither happens if the
allocator grants all that is asked for (`Granted`) and the counters have room for it (`Roomy`). Inside
a bracket, what `Kept` lists may be different for a while.
-/

namespace PooledFibers

open Outcome

namespace Counts

variable (counts : Counts) (counter : Counter) (m n : Nat)

@[simp] theorem get_set : (counts.set counter n).get counter = n := by
  cases counter <;> rfl

theorem get_set_of_ne {counts : Counts} {counter other : Counter} {n : Nat} (h : other ≠ counter) :
    (counts.set counter n).get other = counts.get other := by
  cases counter <;> cases other <;> first | rfl | exact absurd rfl h

@[simp] theorem set_set : (counts.set counter m).set counter n = counts.set counter n := by
  cases counter <;> rfl

@[simp] theorem set_get : counts.set counter (counts.get counter) = counts := by
  cases counter <;> rfl

end Counts

namespace Scratch

/-- A bracket that lets operations through: an open handle block, whose handles may be made and
cleared, or a mark, above which the area may be filled. -/
inductive Bracket
  | block
  | mark (area : ScratchArea)
  deriving DecidableEq, Repr

/-- Operations, done one after the other from `s` on, that close every bracket they open. The
brackets around them are `around`. -/
inductive Bracketed : List Bracket → Scratch → List ScratchOperation → Prop
  | nothing {around s} : Bracketed around s []
  | sequence {around s first second} (h : Bracketed around s first)
    (h' : ∀ s', s.after first = .ok s' → Bracketed around s' second) :
    Bracketed around s (first ++ second)
  | block {around s inside}
    (h : ∀ s', s.perform .pushBlock = .ok s' → Bracketed (.block :: around) s' inside) :
    Bracketed around s (.pushBlock :: inside ++ [.popBlock])
  /-- The mark is where the area stands before the operations inside. -/
  | mark {around s inside} (area : ScratchArea) (h : Bracketed (.mark area :: around) s inside) :
    Bracketed around s (inside ++ [.releaseTo area (s.used area)])
  | count {around s inside} (counter : Counter)
    (h : ∀ s', s.perform (.enter counter) = .ok s' → Bracketed around s' inside) :
    Bracketed around s (.enter counter :: inside ++ [.leave counter])
  | makeHandle {around s} (h : .block ∈ around) : Bracketed around s [.makeHandle]
  | clearHandles {around s} (h : .block ∈ around) : Bracketed around s [.clearHandles]
  | allocate {around s} {area : ScratchArea} (bytes : Nat) (granted : Bool)
    (h : .mark area ∈ around) : Bracketed around s [.allocate area bytes granted]

/-- Everything that was taken has been given back. -/
structure Restored (s s' : Scratch) : Prop where
  blocks : s'.blocks = s.blocks
  used : ∀ area, s'.used area = s.used area
  counts : s'.counts = s.counts

end Scratch

/-- Whether the operation gives back what others have taken. -/
def ScratchOperation.givesBack : ScratchOperation → Bool
  | popBlock | releaseTo _ _ | leave _ => true
  | _ => false

namespace Scratch

/-- The allocator refuses no request for memory. -/
def Granted (operations : List ScratchOperation) : Prop :=
  ∀ area bytes, .allocate area bytes false ∉ operations

/-- How many bytes of an area an operation asks for. -/
def requested (area : ScratchArea) : ScratchOperation → Nat
  | .allocate other bytes _ => if other = area then bytes else 0
  | _ => 0

/-- No counter runs over, even if nothing is given back in between. -/
structure Roomy (s : Scratch) (operations : List ScratchOperation) : Prop where
  nextBlock : s.nextBlock + operations.countP (· = .pushBlock) < Word.bound
  live : ∀ block ∈ s.blocks, block.live + operations.countP (· = .makeHandle) < Word.bound
  used : ∀ area, s.used area + (operations.map (requested area)).sum < Word.bound
  counts : ∀ counter,
    s.counts.get counter + operations.countP (· = .enter counter) < Word.bound

/-- How operations end: in a state with a property, or because the machine gives out. -/
inductive Ends (s : Scratch) (P : Scratch → Prop) (operations : List ScratchOperation) : Prop
  | ok {s'} (hr : s.after operations = .ok s') (h : P s')
  | overflow (hr : s.after operations = .error .overflow)
  | refused (hr : s.after operations = .error .outOfMemory) (h : ¬Granted operations)

/-- What has become of the scratch resources inside the brackets `around`. -/
structure Kept (around : List Bracket) (s s' : Scratch) : Prop where
  enclosing : s'.enclosing = s.enclosing
  active : .block ∉ around → s'.active = s.active
  used_le : ∀ area, s.used area ≤ s'.used area
  used : ∀ area, .mark area ∉ around → s'.used area = s.used area
  counts : s'.counts = s.counts

variable {s s' s₁ s₂ s₃ : Scratch} {opening closing operation : ScratchOperation}
  {first second inside operations : List ScratchOperation} {around : List Bracket}
  {area : ScratchArea} {counter : Counter} {P Q : Scratch → Prop}

section Sequences

theorem after_append (s : Scratch) (first second : List ScratchOperation) :
    s.after (first ++ second) = s.after first >>= fun s₁ => s₁.after second := by
  induction first generalizing s with
  | nil => rfl
  | cons operation rest ih =>
    simp only [List.cons_append, after]
    cases s.perform operation with
    | error fault => rfl
    | ok next => exact ih next

theorem after_singleton (s : Scratch) (operation : ScratchOperation) :
    s.after [operation] = s.perform operation := by
  simp only [after]
  cases s.perform operation <;> rfl

theorem granted_append : Granted (first ++ second) ↔ Granted first ∧ Granted second := by
  simp only [Granted, List.mem_append, not_or, forall_and]

theorem Ends.mono (h : s.Ends P operations) (hPQ : ∀ s', P s' → Q s') : s.Ends Q operations := by
  cases h with
  | ok hr h => exact .ok hr (hPQ _ h)
  | overflow hr => exact .overflow hr
  | refused hr h => exact .refused hr h

theorem Ends.of_after (h : s.Ends P operations) (hr : s.after operations = .ok s') : P s' := by
  cases h with
  | ok hr' h => exact Except.ok.inj (hr'.symm.trans hr) ▸ h
  | overflow hr' => cases hr'.symm.trans hr
  | refused hr' => cases hr'.symm.trans hr

theorem Ends.append (h : s.Ends P first)
    (h' : ∀ s₁, s.after first = .ok s₁ → P s₁ → s₁.Ends Q second) :
    s.Ends Q (first ++ second) := by
  cases h with
  | @ok s₁ hr h =>
    have hafter : s.after (first ++ second) = s₁.after second := by rw [after_append, hr, ok_bind]
    cases h' s₁ hr h with
    | ok hr' h => exact .ok (hafter.trans hr') h
    | overflow hr' => exact .overflow (hafter.trans hr')
    | refused hr' hnot => exact .refused (hafter.trans hr') fun hg => hnot (granted_append.1 hg).2
  | overflow hr => exact .overflow (by rw [after_append, hr, error_bind])
  | refused hr hnot =>
    refine .refused (by rw [after_append, hr, error_bind]) fun hg => hnot (granted_append.1 hg).1

/-- An operation that gives nothing back fails only because the machine gives out. -/
theorem limit_of_perform {fault : Fault} (htakes : operation.givesBack = false)
    (hr : s.perform operation = .error fault) :
    fault = .overflow ∨ fault = .outOfMemory ∧ ¬Granted [operation] := by
  have hsum : ∀ {a b}, Word.sum a b = .error fault → fault = .overflow := fun h =>
    (Word.sum_eq_error_iff.1 h).2
  cases operation with simp only [perform] at hr
  | pushBlock | makeHandle | enter counter =>
    exact .inl (hsum (bind_pure_eq_error_iff.1 hr))
  | clearHandles => cases hr
  | allocate area bytes granted =>
    obtain h | ⟨used, -, h⟩ := bind_eq_error_iff.1 hr
    · exact .inl (hsum h)
    · cases granted with
      | true => cases h
      | false =>
        exact .inr ⟨(Except.error.inj h).symm, fun hg => hg area bytes List.mem_cons_self⟩
  | popBlock | releaseTo area mark | leave counter => cases htakes

/-- An operation that gives nothing back is done, unless the machine gives out. -/
theorem ends_perform (htakes : operation.givesBack = false) :
    s.Ends (fun s' => s.perform operation = .ok s') [operation] := by
  have hsingle := after_singleton s operation
  cases hr : s.perform operation with
  | ok s' => exact .ok (hsingle.trans hr) rfl
  | error fault =>
    obtain rfl | ⟨rfl, hnot⟩ := limit_of_perform htakes hr
    · exact .overflow (hsingle.trans hr)
    · exact .refused (hsingle.trans hr) hnot

end Sequences

section Fields

variable (s : Scratch) (bytes : Nat)

@[simp] theorem enclosing_setUsed : (s.setUsed area bytes).enclosing = s.enclosing := by
  cases area <;> rfl

@[simp] theorem active_setUsed : (s.setUsed area bytes).active = s.active := by
  cases area <;> rfl

@[simp] theorem counts_setUsed : (s.setUsed area bytes).counts = s.counts := by
  cases area <;> rfl

theorem used_setUsed (other : ScratchArea) :
    (s.setUsed area bytes).used other = if other = area then bytes else s.used other := by
  cases area <;> cases other <;> rfl

end Fields

section Kept

theorem Kept.refl (around : List Bracket) (s : Scratch) : Kept around s s :=
  ⟨rfl, fun _ => rfl, fun _ => Nat.le_refl _, fun _ _ => rfl, rfl⟩

theorem Kept.trans (h : Kept around s s₁) (h' : Kept around s₁ s') : Kept around s s' where
  enclosing := h'.enclosing.trans h.enclosing
  active hblock := (h'.active hblock).trans (h.active hblock)
  used_le area := Nat.le_trans (h.used_le area) (h'.used_le area)
  used area hmark := (h'.used area hmark).trans (h.used area hmark)
  counts := h'.counts.trans h.counts

/-- The block that was open before is in use again. -/
theorem Kept.exists_popBlock (hpush : s.perform .pushBlock = .ok s₁)
    (h : Kept (.block :: around) s₁ s₂) :
    ∃ s₃, s₂.perform .popBlock = .ok s₃ ∧ Kept around s s₃ := by
  obtain ⟨next, -, hpush⟩ := bind_eq_ok_iff.1 hpush
  obtain rfl := Except.ok.inj hpush
  obtain ⟨henclosing, -, hle, hused, hcounts⟩ := h
  refine ⟨{ s₂ with active := s.active, enclosing := s.enclosing }, ?_, rfl, fun _ => rfl, hle, ?_,
    hcounts⟩
  · simp only [perform, henclosing]
  · exact fun area hmark => hused area (List.not_mem_cons_of_ne_of_not_mem (by simp) hmark)

/-- The area has not been released below the mark. -/
theorem Kept.exists_releaseTo (h : Kept (.mark area :: around) s s₂) :
    ∃ s₃, s₂.perform (.releaseTo area (s.used area)) = .ok s₃ ∧ Kept around s s₃ := by
  refine ⟨s₂.setUsed area (s.used area), if_neg (Nat.not_lt.2 (h.used_le area)), ?_⟩
  constructor
  case enclosing => rw [enclosing_setUsed, h.enclosing]
  case active =>
    intro hblock
    rw [active_setUsed, h.active (List.not_mem_cons_of_ne_of_not_mem (by simp) hblock)]
  case used_le =>
    intro other
    rw [used_setUsed]
    split_ifs with hother
    · exact hother ▸ Nat.le_refl _
    · exact h.used_le other
  case used =>
    intro other hmark
    rw [used_setUsed]
    split_ifs with hother
    · rw [hother]
    · refine h.used other (List.not_mem_cons_of_ne_of_not_mem ?_ hmark)
      exact fun heq => hother (Bracket.mark.inj heq)
  case counts => rw [counts_setUsed, h.counts]

/-- The counter has come back to where it was raised to. -/
theorem Kept.exists_leave (henter : s.perform (.enter counter) = .ok s₁) (h : Kept around s₁ s₂) :
    ∃ s₃, s₂.perform (.leave counter) = .ok s₃ ∧ Kept around s s₃ := by
  obtain ⟨-, henter⟩ := Word.sum_bind_eq_ok_iff.1 henter
  obtain rfl := Except.ok.inj henter
  have hraised : s₂.counts.get counter = s.counts.get counter + 1 := by
    rw [h.counts, Counts.get_set]
  refine ⟨{ s₂ with counts := s.counts }, ?_, h.enclosing, h.active, h.used_le, h.used, rfl⟩
  have hlowered : s₂.counts.set counter (s₂.counts.get counter - 1) = s.counts := by
    rw [hraised, h.counts, Counts.set_set, Nat.add_sub_cancel, Counts.set_get]
  simp only [perform, hlowered]
  rw [if_neg (hraised ▸ Nat.succ_ne_zero _)]

theorem Kept.makeHandle (hblock : .block ∈ around) (hr : s.perform .makeHandle = .ok s') :
    Kept around s s' := by
  obtain ⟨live, -, hr⟩ := bind_eq_ok_iff.1 hr
  obtain rfl := Except.ok.inj hr
  exact ⟨rfl, fun hnot => absurd hblock hnot, fun _ => Nat.le_refl _, fun _ _ => rfl, rfl⟩

theorem Kept.clearHandles (hblock : .block ∈ around) (hr : s.perform .clearHandles = .ok s') :
    Kept around s s' := by
  obtain rfl := Except.ok.inj hr
  exact ⟨rfl, fun hnot => absurd hblock hnot, fun _ => Nat.le_refl _, fun _ _ => rfl, rfl⟩

theorem Kept.allocate {bytes : Nat} {granted : Bool} (hmark : .mark area ∈ around)
    (hr : s.perform (.allocate area bytes granted) = .ok s') : Kept around s s' := by
  obtain ⟨-, hr⟩ := Word.sum_bind_eq_ok_iff.1 hr
  split_ifs at hr
  obtain rfl := Except.ok.inj hr
  refine ⟨enclosing_setUsed .., fun _ => active_setUsed .., fun other => ?_, fun other hnot => ?_,
    counts_setUsed ..⟩
  · rw [used_setUsed]
    split_ifs with hother
    · exact hother ▸ Nat.le_add_right _ _
    · exact Nat.le_refl _
  · rw [used_setUsed, if_neg]
    rintro rfl
    exact hnot hmark

end Kept

section Room

/-- An operation raises no counter by more than it asks for. -/
structure Raises (s : Scratch) (operation : ScratchOperation) (s' : Scratch) : Prop where
  nextBlock : s'.nextBlock ≤ s.nextBlock + if operation = .pushBlock then 1 else 0
  live : ∀ block ∈ s'.blocks, ∃ earlier ∈ s.blocks,
    block.live ≤ earlier.live + if operation = .makeHandle then 1 else 0
  used : ∀ area, s'.used area ≤ s.used area + requested area operation
  counts : ∀ counter,
    s'.counts.get counter ≤ s.counts.get counter + if operation = .enter counter then 1 else 0

/-- The next identity is the same, and of the handle blocks at most the active one changes. -/
theorem raises_of_blocks {live : Nat} (hnext : s'.nextBlock = s.nextBlock)
    (hblocks : ∀ block ∈ s'.blocks, block ∈ s.blocks ∨ block.live = live)
    (hlive : live ≤ s.active.live + if operation = .makeHandle then 1 else 0)
    (hused : ∀ area, s'.used area ≤ s.used area + requested area operation)
    (hcounts : ∀ counter, s'.counts.get counter
      ≤ s.counts.get counter + if operation = .enter counter then 1 else 0) :
    s.Raises operation s' := by
  refine ⟨hnext ▸ Nat.le_add_right _ _, fun block hblock => ?_, hused, hcounts⟩
  obtain hmem | heq := hblocks block hblock
  · exact ⟨block, hmem, Nat.le_add_right _ _⟩
  · exact ⟨s.active, List.mem_cons_self, heq ▸ hlive⟩

/-- The active block has another number of handles. -/
theorem mem_blocks_of_recounted {block : HandleBlock} {live : Nat}
    (h : block ∈ ⟨s.active.id, live⟩ :: s.enclosing) : block ∈ s.blocks ∨ block.live = live := by
  obtain rfl | h := List.mem_cons.1 h
  · exact .inr rfl
  · exact .inl (List.mem_cons_of_mem _ h)

theorem raises_of_perform (hr : s.perform operation = .ok s') : s.Raises operation s' := by
  have hkept : ∀ n m : Nat, n ≤ n + m := Nat.le_add_right
  cases operation with simp only [Scratch.perform] at hr
  | pushBlock =>
    obtain ⟨-, hr⟩ := Word.sum_bind_eq_ok_iff.1 hr
    obtain rfl := Except.ok.inj hr
    refine ⟨Nat.le_refl _, fun block hblock => ?_, fun _ => hkept _ _, fun _ => hkept _ _⟩
    obtain rfl | hblock := List.mem_cons.1 hblock
    · exact ⟨s.active, List.mem_cons_self, Nat.zero_le _⟩
    · exact ⟨block, hblock, hkept _ _⟩
  | popBlock =>
    split at hr <;> rename_i henclosing
    · cases hr
    obtain rfl := Except.ok.inj hr
    refine raises_of_blocks rfl (fun block hblock => .inl ?_) (hkept _ _) (fun _ => hkept _ _)
      fun _ => hkept _ _
    exact List.mem_cons_of_mem _ (henclosing ▸ hblock)
  | makeHandle =>
    obtain ⟨-, hr⟩ := Word.sum_bind_eq_ok_iff.1 hr
    obtain rfl := Except.ok.inj hr
    exact raises_of_blocks rfl (fun _ => mem_blocks_of_recounted) (Nat.le_refl _)
      (fun _ => hkept _ _) fun _ => hkept _ _
  | clearHandles =>
    obtain rfl := Except.ok.inj hr
    exact raises_of_blocks rfl (fun _ => mem_blocks_of_recounted) (Nat.zero_le _)
      (fun _ => hkept _ _) fun _ => hkept _ _
  | allocate area bytes granted =>
    obtain ⟨-, hr⟩ := Word.sum_bind_eq_ok_iff.1 hr
    split_ifs at hr
    obtain rfl := Except.ok.inj hr
    refine raises_of_blocks (nextBlock_setUsed ..) (fun block hblock => .inl ?_) (hkept _ _)
      (fun other => ?_) fun _ => ?_
    · exact blocks_setUsed (s := s) area _ ▸ hblock
    · rw [used_setUsed]
      split_ifs with hother
      · simp [hother, requested]
      · exact hkept _ _
    · rw [counts_setUsed]
      exact hkept _ _
  | releaseTo area mark =>
    split_ifs at hr with hmark
    obtain rfl := Except.ok.inj hr
    refine raises_of_blocks (nextBlock_setUsed ..) (fun block hblock => .inl ?_) (hkept _ _)
      (fun other => ?_) fun _ => ?_
    · exact blocks_setUsed (s := s) area _ ▸ hblock
    · rw [used_setUsed]
      split_ifs with hother
      · exact Nat.le_trans (hother ▸ Nat.not_lt.1 hmark) (hkept _ _)
      · exact hkept _ _
    · rw [counts_setUsed]
      exact hkept _ _
  | enter counter =>
    obtain ⟨-, hr⟩ := Word.sum_bind_eq_ok_iff.1 hr
    obtain rfl := Except.ok.inj hr
    refine raises_of_blocks rfl (fun _ => .inl) (hkept _ _) (fun _ => hkept _ _) fun other => ?_
    by_cases hother : other = counter
    · simp [hother]
    · rw [Counts.get_set_of_ne hother]
      exact hkept _ _
  | leave counter =>
    split_ifs at hr
    obtain rfl := Except.ok.inj hr
    refine raises_of_blocks rfl (fun _ => .inl) (hkept _ _) (fun _ => hkept _ _) fun other => ?_
    by_cases hother : other = counter
    · rw [hother, Counts.get_set]
      exact Nat.le_trans (Nat.sub_le _ _) (hkept _ _)
    · rw [Counts.get_set_of_ne hother]
      exact hkept _ _

/-- The counters that an operation can make overflow. -/
inductive Overflows (s : Scratch) : ScratchOperation → Prop
  | pushBlock (h : Word.bound ≤ s.nextBlock + 1) : Overflows s .pushBlock
  | makeHandle (h : Word.bound ≤ s.active.live + 1) : Overflows s .makeHandle
  | allocate {area : ScratchArea} {bytes : Nat} {granted : Bool}
    (h : Word.bound ≤ s.used area + bytes) : Overflows s (.allocate area bytes granted)
  | enter {counter : Counter} (h : Word.bound ≤ s.counts.get counter + 1) :
    Overflows s (.enter counter)

theorem overflows_of_perform (hr : s.perform operation = .error .overflow) :
    s.Overflows operation := by
  have hsum : ∀ {a b}, Word.sum a b = .error .overflow → Word.bound ≤ a + b := fun h =>
    (Word.sum_eq_error_iff.1 h).1
  cases operation with simp only [Scratch.perform] at hr
  | pushBlock => exact .pushBlock (hsum (bind_pure_eq_error_iff.1 hr))
  | makeHandle => exact .makeHandle (hsum (bind_pure_eq_error_iff.1 hr))
  | enter counter => exact .enter (hsum (bind_pure_eq_error_iff.1 hr))
  | allocate area bytes granted =>
    obtain h | ⟨_, -, h⟩ := bind_eq_error_iff.1 hr
    · exact .allocate (hsum h)
    · cases granted with
      | true | false => cases h
  | popBlock => split at hr <;> cases hr
  | clearHandles => cases hr
  | releaseTo area mark | leave counter =>
    split_ifs at hr
    cases hr

theorem Roomy.perform (h : s.Roomy (operation :: operations)) (hr : s.perform operation = .ok s') :
    s'.Roomy operations := by
  obtain ⟨hnext, hlive, hused, hcounts⟩ := h
  simp only [List.countP_cons, List.map_cons, List.sum_cons, decide_eq_true_eq] at *
  have hraises := raises_of_perform hr
  constructor
  case nextBlock =>
    have := hraises.nextBlock
    omega
  case live =>
    intro block hblock
    obtain ⟨earlier, hearlier, hle⟩ := hraises.live block hblock
    have := hlive earlier hearlier
    omega
  case used =>
    intro area
    have := hraises.used area
    have := hused area
    omega
  case counts =>
    intro counter
    have := hraises.counts counter
    have := hcounts counter
    omega

theorem Roomy.perform_ne (h : s.Roomy (operation :: operations)) :
    s.perform operation ≠ .error .overflow := by
  intro hr
  have hover := overflows_of_perform hr
  cases hover with
  | pushBlock hover =>
    have := h.nextBlock
    simp only [List.countP_cons, decide_true, if_true] at this
    omega
  | makeHandle hover =>
    have := h.live s.active List.mem_cons_self
    simp only [List.countP_cons, decide_true, if_true] at this
    omega
  | @allocate area bytes granted hover =>
    have := h.used area
    simp only [List.map_cons, List.sum_cons, requested, if_true] at this
    omega
  | @enter counter hover =>
    have := h.counts counter
    simp only [List.countP_cons, decide_true, if_true] at this
    omega

/-- Counters that have room for everything do not overflow. -/
theorem Roomy.after_ne (h : s.Roomy operations) : s.after operations ≠ .error .overflow := by
  induction operations generalizing s with
  | nil => exact nofun
  | cons operation rest ih =>
    simp only [after]
    cases hr : s.perform operation with
    | ok next => exact ih (h.perform hr)
    | error fault => exact fun hover => h.perform_ne (hr.trans hover)

theorem Ends.exists_ok (h : s.Ends P operations) (hgranted : Granted operations)
    (hroom : s.Roomy operations) : ∃ s', s.after operations = .ok s' ∧ P s' := by
  cases h with
  | ok hr h => exact ⟨_, hr, h⟩
  | overflow hr => exact absurd hr hroom.after_ne
  | refused _ hnot => exact absurd hgranted hnot

end Room

/-- Operations that close every bracket they open end with everything kept. -/
theorem Bracketed.ends (h : Bracketed around s operations) :
    s.Ends (Kept around s) operations := by
  -- what is kept inside a bracket is what its closing operation needs
  induction h with
  | nothing => exact .ok rfl (.refl _ _)
  | sequence _ _ ih ih' => exact ih.append fun s₁ hr hkept => (ih' s₁ hr).mono fun _ => hkept.trans
  | block _ ih =>
    refine (ends_perform rfl).append fun s₁ _ hpush => (ih s₁ hpush).append fun s₂ _ hkept => ?_
    obtain ⟨s₃, hpop, hkept⟩ := hkept.exists_popBlock hpush
    exact .ok ((after_singleton _ _).trans hpop) hkept
  | mark area _ ih =>
    refine ih.append fun s₂ _ hkept => ?_
    obtain ⟨s₃, hrelease, hkept⟩ := hkept.exists_releaseTo
    exact .ok ((after_singleton _ _).trans hrelease) hkept
  | count counter _ ih =>
    refine (ends_perform rfl).append fun s₁ _ henter => (ih s₁ henter).append fun s₂ _ hkept => ?_
    obtain ⟨s₃, hleave, hkept⟩ := hkept.exists_leave henter
    exact .ok ((after_singleton _ _).trans hleave) hkept
  | makeHandle hblock => exact (ends_perform rfl).mono fun _ => .makeHandle hblock
  | clearHandles hblock => exact (ends_perform rfl).mono fun _ => .clearHandles hblock
  | allocate bytes granted hmark => exact (ends_perform rfl).mono fun _ => .allocate hmark

/-- With no bracket around them, they give everything back. -/
theorem Bracketed.ends_restored (h : Bracketed [] s operations) :
    s.Ends s.Restored operations := by
  refine h.ends.mono fun s' hkept => ⟨?_, fun area => hkept.used area List.not_mem_nil, hkept.counts⟩
  have hactive : s'.active = s.active := hkept.active List.not_mem_nil
  rw [blocks, blocks, hactive, hkept.enclosing]

theorem Restored.snapshot (h : s.Restored s') : s'.snapshot = s.snapshot :=
  snapshot_eq_snapshot_iff.2 ⟨(List.cons.inj h.blocks).1, h.used⟩

end Scratch

end PooledFibers
