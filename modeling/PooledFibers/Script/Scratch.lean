import PooledFibers.Scratch.Basic
import PooledFibers.Script.Basic
import PooledFibers.Table

/-!
# Scripts on scratch resources

Besides the operations themselves, a step may save how far an area is filled under a name, and
release an area to a named mark, even one of the other area.
-/

namespace PooledFibers.Script

inductive ScratchStep
  | operation (op : ScratchOperation)
  | saveMark (area : ScratchArea) (name : String)
  | releaseToMark (area : ScratchArea) (name : String)
  | unknown

inductive ScratchAnswer
  | nothing
  | refused
  | block (id : Nat)
  /-- So many bytes were handed out, all zero. -/
  | allocated (bytes : Nat)

/-- No allocator grants more bytes than the largest signed word counts. -/
def ScratchStep.allocate (area : ScratchArea) (bytes : Nat) : ScratchStep :=
  .operation (.allocate area bytes (bytes < 1 <<< 63))

/-- The marks saved under their names. -/
abbrev Marks := Table String Nat

def ScratchAnswer.ofOperation (op : ScratchOperation) (after : Scratch) : ScratchAnswer :=
  match op with
  | .pushBlock => .block after.active.id
  | .allocate _ bytes _ => .allocated bytes
  | _ => .nothing

def ScratchStep.perform (state : Scratch × Marks) (step : ScratchStep) :
    Except Fault (ScratchAnswer × (Scratch × Marks)) :=
  let (scratch, marks) := state
  match step with
  | .operation op => do
    let after ← scratch.perform op
    pure (.ofOperation op after, (after, marks))
  | .saveMark area name => .ok (.nothing, (scratch, marks.insert name (scratch.used area)))
  | .releaseToMark area name =>
    match marks.get? name with
    | none => .ok (.refused, state)
    | some mark => do
      let after ← scratch.perform (.releaseTo area mark)
      pure (.nothing, (after, marks))
  | .unknown => .ok (.refused, state)

end PooledFibers.Script
