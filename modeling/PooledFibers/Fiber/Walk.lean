import PooledFibers.Fiber.Basic
import PooledFibers.Fiber.Frame

/-!
# Walks over the frames of suspended fibers

A walk reads the frame pointer and the return address at the resume point; a fiber that never ran
is known by the fiber start as its return address. The frames above come from a source, one after
the other. A scan passes every frame on. A dump starts at the first managed frame and passes on the
managed ones among so many frames from there.
-/

namespace PooledFibers

inductive WalkMode
  | scan
  | dump (maxDepth : Nat)
  deriving DecidableEq, Repr

/-- Where a walk starts: the stack pointer above the two saved words, and those words. -/
structure Cursor where
  stackPointer : Nat
  framePointer : MemoryWord
  returnAddress : MemoryWord
  deriving DecidableEq, Repr

/-- What decodes a stack: the frames of a fiber from a cursor on. -/
structure FrameSource (α : Type) where
  frames : Cursor → Fiber → List α

/-- The source of the same frames, whatever the cursor. -/
def FrameSource.fixed {α : Type} (frames : List α) : FrameSource α where
  frames _ _ := frames

/-- What a walk has done. -/
structure Walk (α : Type) where
  /-- The cursor given to the source, if it was asked for frames. -/
  cursor : Option Cursor
  /-- How many frames were taken from the source. -/
  taken : Nat := 0
  /-- How many frames were passed on, which is what a walk answers. -/
  visited : Nat := 0
  passed : List α := []
  deriving DecidableEq, Repr

namespace Walk

variable {α : Type}

def take (w : Walk α) : Walk α := { w with taken := w.taken + 1 }

def pass (w : Walk α) (frame : α) : Walk α :=
  { w with visited := w.visited + 1, passed := w.passed ++ [frame] }

def scan (w : Walk α) : List α → Walk α
  | [] => w
  | frame :: rest => (w.take.pass frame).scan rest

/-- The frames from the first managed one on. The limit is looked at only after a frame has been
counted. -/
def dumpFrom (isManaged : α → Bool) (maxDepth depth : Nat) (w : Walk α) : List α → Walk α
  | [] => w
  | frame :: rest =>
    let w := if isManaged frame then w.take.pass frame else w.take
    if maxDepth ≤ depth + 1 then w else w.dumpFrom isManaged maxDepth (depth + 1) rest

def dump (isManaged : α → Bool) (maxDepth : Nat) (w : Walk α) : List α → Walk α
  | [] => w
  | frame :: rest =>
    if isManaged frame then w.dumpFrom isManaged maxDepth 0 (frame :: rest)
    else w.take.dump isManaged maxDepth rest

def along (isManaged : α → Bool) (mode : WalkMode) (w : Walk α) (frames : List α) : Walk α :=
  match mode with
  | .scan => w.scan frames
  | .dump maxDepth => w.dump isManaged maxDepth frames

end Walk

namespace Fiber

variable {α : Type}

def readWord (f : Fiber) (m : Machine) (address : Nat) : Except Fault MemoryWord :=
  if f.region.containsWord address then .ok (m.read address)
  else .error (.readOutsideStack f.id address)

/-- Where a walk over the fiber's frames starts; `none` if there are none to walk. -/
def cursor? (f : Fiber) (m : Machine) : Except Fault (Option Cursor) :=
  match f.state, f.resume with
  | .current, _ => .ok none
  | .onStack, none => .ok none
  | .onStack, some address => do
    let framePointer ← f.readWord m address
    let returnAddress ← f.readWord m (address + Word.bytes)
    if returnAddress = .fiberStart then
      if f.isThreadFiber then throw (.threadFiberAtStart f.id)
      if framePointer ≠ .zero then throw (.framesBeforeStart f.id framePointer)
      pure none
    else pure (some ⟨address + 2 * Word.bytes, framePointer, returnAddress⟩)

def walk (f : Fiber) (m : Machine) (mode : WalkMode) (isManaged : α → Bool)
    (source : FrameSource α) : Except Fault (Walk α) := do
  match ← f.cursor? m with
  | none => pure { cursor := none }
  | some cursor =>
    pure (Walk.along isManaged mode { cursor := some cursor } (source.frames cursor f))

/-- The methods of a dump, empty for a fiber that has not run. -/
def trace (f : Fiber) (m : Machine) (maxDepth : Nat) (source : FrameSource Frame) :
    Except Fault (List Method) := do
  if !f.entered then pure []
  else
    let walk ← f.walk m (.dump maxDepth) Frame.isManaged source
    pure (walk.passed.filterMap Frame.method?)

end Fiber

end PooledFibers
