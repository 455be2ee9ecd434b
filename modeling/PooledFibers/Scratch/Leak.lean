import PooledFibers.Text.Hex

/-!
# Leaks of scratch resources

A snapshot records which handle block of a thread is active, how many handles live in it, and how
far the two scratch areas are filled. `Snapshot.leak?` names the first of the four that two
snapshots disagree on.
-/

namespace PooledFibers

/-- The scratch resources that a thread counts. -/
inductive Counter
  | nativeCalls
  | locks
  | foreignFrames
  | monitorChunks
  deriving DecidableEq, Repr

structure Snapshot where
  /-- The identity of the active handle block. -/
  block : Nat
  /-- The live handles in it. -/
  liveHandles : Nat
  handleArea : Nat
  resourceArea : Nat
  deriving DecidableEq, Repr

/-- What a fiber left behind: the number saved when it was entered, and the one found. -/
inductive Leak
  | handleBlock (saved found : Nat)
  | handleCount (saved found : Nat)
  | handleArea (saved found : Nat)
  | resourceArea (saved found : Nat)
  | monitorChunks (held : Nat)
  | nativeCallDepth (depth : Nat)
  deriving DecidableEq, Repr

def Leak.message : Leak → String
  | handleBlock saved found =>
    "active handle block changed from " ++ toString saved ++ " to " ++ toString found
  | handleCount saved found =>
    "live handle count changed from " ++ toString saved ++ " to " ++ toString found
  | handleArea saved found =>
    "handle area leak: high-water mark " ++ Text.hex saved ++ " became " ++ Text.hex found
  | resourceArea saved found =>
    "resource area leak: high-water mark " ++ Text.hex saved ++ " became " ++ Text.hex found
  | monitorChunks held => toString held ++ " monitor chunk(s) still held"
  | nativeCallDepth depth =>
    "native call depth is " ++ toString depth ++ " at termination, expected 1"

/-- The first difference between a saved snapshot and the one found later. -/
def Snapshot.leak? (saved found : Snapshot) : Option Leak :=
  if saved.block ≠ found.block then some (.handleBlock saved.block found.block)
  else if saved.liveHandles ≠ found.liveHandles then
    some (.handleCount saved.liveHandles found.liveHandles)
  else if saved.handleArea ≠ found.handleArea then
    some (.handleArea saved.handleArea found.handleArea)
  else if saved.resourceArea ≠ found.resourceArea then
    some (.resourceArea saved.resourceArea found.resourceArea)
  else none

end PooledFibers
