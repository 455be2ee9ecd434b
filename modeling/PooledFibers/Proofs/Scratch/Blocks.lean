import Mathlib.Tactic.Common
import PooledFibers.Proofs.Outcome
import PooledFibers.Scratch.Basic

/-!
# What a snapshot tells of the handle blocks around the active one

A snapshot names the active handle block only. Two snapshots of one thread that agree speak for
all its blocks nevertheless (`leak?_snapshot_eq_none_iff`): no identity is given to a second block
(`Numbered`), and as long as a block is open, the blocks around it stay as they are (`Encloses`).
-/

namespace PooledFibers

open Outcome

theorem Snapshot.leak?_eq_none_iff {saved found : Snapshot} :
    saved.leak? found = none ↔ saved = found := by
  obtain ⟨block, handles, area, resource⟩ := saved
  obtain ⟨block', handles', area', resource'⟩ := found
  simp only [leak?, mk.injEq]
  split_ifs <;> simp_all

namespace Scratch

variable {s s' : Scratch} {operation : ScratchOperation} {before later : List ScratchOperation}

/-- The scratch resources after some operations. -/
def after (s : Scratch) : List ScratchOperation → Except Fault Scratch
  | [] => .ok s
  | operation :: rest => do (← s.perform operation).after rest

theorem after_cons_eq_ok_iff : s.after (operation :: later) = .ok s'
    ↔ ∃ next, s.perform operation = .ok next ∧ next.after later = .ok s' :=
  bind_eq_ok_iff

/-! ## One operation -/

/-- What an operation can do to the handle blocks. -/
inductive Restacks (s s' : Scratch) : Prop
  | opened (blocks : s'.blocks = ⟨s.nextBlock, 0⟩ :: s.blocks)
      (next : s'.nextBlock = s.nextBlock + 1)
  | closed (blocks : s.blocks = s.active :: s'.blocks) (next : s'.nextBlock = s.nextBlock)
  | recounted (live : Nat) (blocks : s'.blocks = ⟨s.active.id, live⟩ :: s.enclosing)
      (next : s'.nextBlock = s.nextBlock)

@[simp] theorem blocks_setUsed (area : ScratchArea) (bytes : Nat) :
    (s.setUsed area bytes).blocks = s.blocks := by
  cases area <;> rfl

@[simp] theorem nextBlock_setUsed (area : ScratchArea) (bytes : Nat) :
    (s.setUsed area bytes).nextBlock = s.nextBlock := by
  cases area <;> rfl

theorem restacks_of_perform (hr : s.perform operation = .ok s') : s.Restacks s' := by
  cases operation with simp only [perform] at hr
  | pushBlock =>
    obtain ⟨-, hr⟩ := Word.sum_bind_eq_ok_iff.1 hr
    exact Except.ok.inj hr ▸ .opened rfl rfl
  | popBlock =>
    split at hr <;> rename_i heq
    · simp at hr
    · exact Except.ok.inj hr ▸ .closed (congrArg (s.active :: ·) heq) rfl
  | makeHandle =>
    obtain ⟨live, -, hr⟩ := bind_eq_ok_iff.1 hr
    exact Except.ok.inj hr ▸ .recounted live rfl rfl
  | clearHandles => exact Except.ok.inj hr ▸ .recounted _ rfl rfl
  | allocate area bytes granted =>
    obtain ⟨used, -, hr⟩ := bind_eq_ok_iff.1 hr
    split_ifs at hr
    exact Except.ok.inj hr ▸ .recounted s.active.live (blocks_setUsed ..) (nextBlock_setUsed ..)
  | releaseTo area mark =>
    split_ifs at hr
    exact Except.ok.inj hr ▸ .recounted s.active.live (blocks_setUsed ..) (nextBlock_setUsed ..)
  | enter counter =>
    obtain ⟨raised, -, hr⟩ := bind_eq_ok_iff.1 hr
    exact Except.ok.inj hr ▸ .recounted s.active.live rfl rfl
  | leave counter =>
    split_ifs at hr
    exact Except.ok.inj hr ▸ .recounted s.active.live rfl rfl

/-! ## Identities -/

/-- A block has a larger identity than those around it, and the next one a larger one yet. -/
structure Numbered (s : Scratch) : Prop where
  decreasing : s.blocks.Pairwise fun inner outer => outer.id < inner.id
  below : ∀ block ∈ s.blocks, block.id < s.nextBlock

theorem numbered_empty : ({} : Scratch).Numbered where
  decreasing := List.pairwise_singleton ..
  below := by simp [blocks]

theorem Numbered.of_restacks (h : s.Numbered) (hr : s.Restacks s') : s'.Numbered := by
  obtain ⟨hdecreasing, hbelow⟩ := h
  cases hr with
  | opened hblocks hnext =>
    constructor
    case decreasing =>
      rw [hblocks]
      exact List.pairwise_cons.2 ⟨hbelow, hdecreasing⟩
    case below =>
      rw [hblocks, hnext]
      rintro block (_ | ⟨_, hblock⟩)
      · exact Nat.lt_succ_self _
      · exact Nat.lt_succ_of_lt (hbelow block hblock)
  | closed hblocks hnext =>
    rw [hblocks] at hdecreasing hbelow
    exact ⟨(List.pairwise_cons.1 hdecreasing).2, hnext ▸ fun block hblock =>
      hbelow block (List.mem_cons_of_mem _ hblock)⟩
  | recounted live hblocks hnext =>
    obtain ⟨hactive, henclosing⟩ := List.pairwise_cons.1 hdecreasing
    obtain ⟨hid, hbelow⟩ := List.forall_mem_cons.1 hbelow
    constructor
    case decreasing => exact hblocks ▸ List.pairwise_cons.2 ⟨hactive, henclosing⟩
    case below => exact hblocks ▸ hnext ▸ List.forall_mem_cons.2 ⟨hid, hbelow⟩

theorem Numbered.of_after (h : s.Numbered) (hr : s.after later = .ok s') : s'.Numbered := by
  induction later generalizing s with
  | nil => exact Except.ok.inj hr ▸ h
  | cons operation rest ih =>
    obtain ⟨next, hnext, hr⟩ := after_cons_eq_ok_iff.1 hr
    exact ih (h.of_restacks (restacks_of_perform hnext)) hr

/-! ## The blocks around a block -/

/-- The block `id` has been opened, and if it is still open, the blocks around it are `outer`. -/
structure Encloses (s : Scratch) (id : Nat) (outer : List HandleBlock) : Prop where
  opened : id < s.nextBlock
  around : ∀ inner block rest, s.blocks = inner ++ block :: rest → block.id = id → rest = outer

variable {id : Nat} {outer : List HandleBlock}

theorem Numbered.encloses (h : s.Numbered) : s.Encloses s.active.id s.enclosing where
  opened := h.below _ List.mem_cons_self
  around := by
    rintro (_ | ⟨top, inner⟩) block rest heq hid
    · exact (List.cons.inj heq).2.symm
    · obtain ⟨-, henclosing⟩ := List.cons.inj heq
      have hblock : block ∈ s.enclosing := henclosing ▸ by simp
      exact absurd hid (Nat.ne_of_lt ((List.pairwise_cons.1 h.decreasing).1 block hblock))

theorem Encloses.of_restacks (h : s.Encloses id outer) (hr : s.Restacks s') :
    s'.Encloses id outer := by
  obtain ⟨hopened, haround⟩ := h
  cases hr with
  | opened hblocks hnext =>
    refine ⟨by omega, ?_⟩
    rw [hblocks]
    rintro (_ | ⟨top, inner⟩) block rest heq hid
    -- the block just opened is a new one
    · obtain ⟨rfl, -⟩ := List.cons.inj heq
      exact absurd hid (Nat.ne_of_gt hopened)
    · exact haround inner block rest (List.cons.inj heq).2 hid
  | closed hblocks hnext =>
    refine ⟨by omega, fun inner block rest heq hid => ?_⟩
    exact haround (s.active :: inner) block rest (by rw [hblocks, heq, List.cons_append]) hid
  | recounted live hblocks hnext =>
    refine ⟨by omega, ?_⟩
    rw [hblocks]
    rintro (_ | ⟨top, inner⟩) block rest heq hid
    · obtain ⟨rfl, rfl⟩ := List.cons.inj heq
      exact haround [] s.active s.enclosing rfl hid
    · exact haround (s.active :: inner) block rest
        (congrArg (s.active :: ·) (List.cons.inj heq).2) hid

theorem Encloses.of_after (h : s.Encloses id outer) (hr : s.after later = .ok s') :
    s'.Encloses id outer := by
  induction later generalizing s with
  | nil => exact Except.ok.inj hr ▸ h
  | cons operation rest ih =>
    obtain ⟨next, hnext, hr⟩ := after_cons_eq_ok_iff.1 hr
    exact ih (h.of_restacks (restacks_of_perform hnext)) hr

theorem snapshot_eq_snapshot_iff : s.snapshot = s'.snapshot
    ↔ s.active = s'.active ∧ ∀ area, s.used area = s'.used area := by
  constructor
  · intro h
    obtain ⟨hid, hlive, hhandle, hresource⟩ := Snapshot.mk.inj h
    exact ⟨HandleBlock.mk.injEq .. ▸ ⟨hid, hlive⟩, fun | .handle => hhandle | .resource => hresource⟩
  · rintro ⟨hactive, hused⟩
    have hhandle : s.handleArea = s'.handleArea := hused .handle
    have hresource : s.resourceArea = s'.resourceArea := hused .resource
    simp [snapshot, hactive, hhandle, hresource]

/-- No leak is found between two moments of a thread just when all its handle blocks, the active
one and those around it, and both areas are as they were. -/
theorem leak?_snapshot_eq_none_iff (hs : ({} : Scratch).after before = .ok s)
    (hr : s.after later = .ok s') : s.snapshot.leak? s'.snapshot = none
      ↔ s'.blocks = s.blocks ∧ ∀ area, s'.used area = s.used area := by
  rw [Snapshot.leak?_eq_none_iff, eq_comm, snapshot_eq_snapshot_iff]
  refine and_congr_left fun _ => ⟨fun hactive => ?_, fun hblocks => (List.cons.inj hblocks).1⟩
  have hencloses := (numbered_empty.of_after hs).encloses.of_after hr
  have henclosing := hencloses.around [] s'.active s'.enclosing rfl (congrArg HandleBlock.id hactive)
  rw [blocks, blocks, hactive, henclosing]

/-- A third block is opened and closed again, and the handle area is drained. -/
theorem blocks_eq_after_nested_block :
    ∃ s s', ({} : Scratch).after [.makeHandle, .pushBlock, .makeHandle] = .ok s
      ∧ s.after [.pushBlock, .makeHandle, .allocate .handle 8 true, .popBlock, .releaseTo .handle 0]
        = .ok s'
      ∧ s.nextBlock < s'.nextBlock ∧ s.snapshot.leak? s'.snapshot = none
      ∧ s'.blocks = s.blocks ∧ ∀ area, s'.used area = s.used area := by
  let s : Scratch := { active := ⟨1, 1⟩, enclosing := [⟨0, 1⟩], nextBlock := 2 }
  have hs : ({} : Scratch).after [.makeHandle, .pushBlock, .makeHandle] = .ok s := rfl
  have hr : s.after [.pushBlock, .makeHandle, .allocate .handle 8 true, .popBlock, .releaseTo .handle 0]
      = .ok { s with nextBlock := 3 } := rfl
  exact ⟨s, _, hs, hr, by decide, rfl, (leak?_snapshot_eq_none_iff hs hr).1 rfl⟩

end Scratch

end PooledFibers
