import PooledFibers.Word.Sum

/-!
# Scratch resources of a thread

Managed code borrows handle blocks, scratch memory and a few counted resources from the thread it
runs on. Each `ScratchOperation` takes or returns one of them. The memory comes from an allocator that
is not part of the library, so every request for memory comes with the allocator's answer.
-/

namespace PooledFibers

inductive ScratchArea
  | handle
  | resource
  deriving DecidableEq, Repr

structure HandleBlock where
  id : Nat
  live : Nat
  deriving DecidableEq, Repr

structure Counts where
  nativeCalls : Nat := 0
  locks : Nat := 0
  foreignFrames : Nat := 0
  monitorChunks : Nat := 0
  deriving DecidableEq, Repr

namespace Counts

def get (c : Counts) : Counter → Nat
  | .nativeCalls => c.nativeCalls
  | .locks => c.locks
  | .foreignFrames => c.foreignFrames
  | .monitorChunks => c.monitorChunks

def set (c : Counts) (counter : Counter) (n : Nat) : Counts :=
  match counter with
  | .nativeCalls => { c with nativeCalls := n }
  | .locks => { c with locks := n }
  | .foreignFrames => { c with foreignFrames := n }
  | .monitorChunks => { c with monitorChunks := n }

end Counts

structure Scratch where
  /-- The handle block in use. -/
  active : HandleBlock := ⟨0, 0⟩
  /-- The blocks around it, the innermost first. -/
  enclosing : List HandleBlock := []
  nextBlock : Nat := 1
  /-- Bytes handed out of the handle area. -/
  handleArea : Nat := 0
  /-- Bytes handed out of the resource area. -/
  resourceArea : Nat := 0
  counts : Counts := {}
  deriving DecidableEq, Repr

inductive ScratchOperation
  | pushBlock
  | popBlock
  | makeHandle
  | clearHandles
  /-- Asks for memory, which the allocator grants or refuses. -/
  | allocate (area : ScratchArea) (bytes : Nat) (granted : Bool)
  /-- Gives back all that was allocated since the area stood at `mark`. -/
  | releaseTo (area : ScratchArea) (mark : Nat)
  | enter (counter : Counter)
  | leave (counter : Counter)
  deriving DecidableEq, Repr

namespace Scratch

def blocks (s : Scratch) : List HandleBlock := s.active :: s.enclosing

def used (s : Scratch) : ScratchArea → Nat
  | .handle => s.handleArea
  | .resource => s.resourceArea

def setUsed (s : Scratch) (area : ScratchArea) (bytes : Nat) : Scratch :=
  match area with
  | .handle => { s with handleArea := bytes }
  | .resource => { s with resourceArea := bytes }

def snapshot (s : Scratch) : Snapshot :=
  ⟨s.active.id, s.active.live, s.handleArea, s.resourceArea⟩

def perform (s : Scratch) : ScratchOperation → Except Fault Scratch
  | .pushBlock => do
    let nextBlock ← Word.sum s.nextBlock 1
    pure { s with active := ⟨s.nextBlock, 0⟩, enclosing := s.active :: s.enclosing, nextBlock }
  | .popBlock =>
    match s.enclosing with
    | [] => .error .baseBlockPopped
    | outer :: rest => .ok { s with active := outer, enclosing := rest }
  | .makeHandle => do
    let live ← Word.sum s.active.live 1
    pure { s with active := { s.active with live } }
  | .clearHandles => .ok { s with active := { s.active with live := 0 } }
  | .allocate area bytes granted => do
    let used ← Word.sum (s.used area) bytes
    if granted then pure (s.setUsed area used) else throw .outOfMemory
  | .releaseTo area mark =>
    if s.used area < mark then .error (.releasedAboveMark mark (s.used area))
    else .ok (s.setUsed area mark)
  | .enter counter => do
    let raised ← Word.sum (s.counts.get counter) 1
    pure { s with counts := s.counts.set counter raised }
  | .leave counter =>
    if s.counts.get counter = 0 then .error (.counterUnderflow counter)
    else .ok { s with counts := s.counts.set counter (s.counts.get counter - 1) }

end Scratch

end PooledFibers
