import PooledFibers.FiberSystem.Lifecycle

/-!
# Switches

A switch makes a suspended fiber current on its thread. `enter` is the part before the stacks are
swapped and `returnFrom` the part after control has come back; whatever runs in between sees the
target as current. A terminating switch also ends the outgoing fiber. With verification on, a heap
fiber must leave the thread's scratch resources as it found them.
-/

namespace PooledFibers.FiberSystem

/-- A target must belong to the thread and be suspended. -/
def checkTarget (s : FiberSystem) (t : ThreadToken) (target : FiberId) : Except Fault Unit := do
  let fiber := s.fiber target
  if fiber.owner ≠ t then throw (.foreignTarget target fiber.owner t)
  if fiber.state ≠ .onStack then throw (.targetNotSuspended target fiber.state)

/-- A heap fiber that leaves must have given back all scratch resources. -/
def checkSource (s : FiberSystem) (t : ThreadToken) (source : FiberId) (kind : SwitchKind) :
    Except Fault Unit := do
  let fiber := s.fiber source
  let scratch := (s.carrier t).scratch
  if !fiber.isThreadFiber then
    match fiber.bookmark.snapshot? with
    | none => throw (.bookmarkMissing source)
    | some saved =>
      match saved.leak? scratch.snapshot with
      | some leak => throw (.leaked source leak)
      | none =>
        if scratch.counts.monitorChunks ≠ 0 then
          throw (.leaked source (.monitorChunks scratch.counts.monitorChunks))
        if kind = .terminating ∧ scratch.counts.nativeCalls ≠ 1 then
          throw (.leaked source (.nativeCallDepth scratch.counts.nativeCalls))

/-- A heap fiber that is entered remembers the scratch resources. -/
def bookmarkTarget (s : FiberSystem) (t : ThreadToken) (source target : FiberId)
    (kind : SwitchKind) : Except Fault FiberSystem := do
  let fiber := s.fiber target
  if fiber.isThreadFiber then pure s
  else if kind = .terminating then throw (.terminatedIntoHeapFiber source target)
  else if !fiber.bookmark.isRecorded then throw (.bookmarkRecordMissing target)
  else
    let snapshot := (s.carrier t).scratch.snapshot
    pure (s.modifyFiber target fun f => { f with bookmark := .taken snapshot })

def verifySwitch (s : FiberSystem) (t : ThreadToken) (source target : FiberId)
    (kind : SwitchKind) : Except Fault FiberSystem :=
  if s.settings.verifyOnYield then do
    s.checkSource t source kind
    s.bookmarkTarget t source target kind
  else .ok s

def exchange (s : FiberSystem) (t : ThreadToken) (source target : FiberId) : FiberSystem :=
  ((s.modifyFiber source fun f => { f with state := .onStack }).modifyFiber target fun f =>
      { f with state := .current, entered := true }).modifyCarrier t fun c =>
    { c with current := target }

/-- Ends the outgoing fiber of a terminating switch. It waits in the thread's pending slot until
its stack has been left; a fiber found waiting there is parked or released. -/
def retireSource (s : FiberSystem) (t : ThreadToken) (source : FiberId) :
    Except Fault FiberSystem := do
  let s ← s.retire t source
  let earlier := (s.carrier t).pending
  let s := s.modifyCarrier t fun c => { c with pending := some source }
  match earlier with
  | none => pure s
  | some id => s.parkOrRelease t id

/-- The part of a switch before the stacks are swapped. -/
def enter (s : FiberSystem) (t : ThreadToken) (target : FiberId) (kind : SwitchKind) :
    Except Fault FiberSystem := do
  let source := (s.carrier t).current
  s.checkTarget t target
  let s ← s.verifySwitch t source target kind
  let s := { s.exchange t source target with calls := ⟨t, kind, source, target⟩ :: s.calls }
  match kind with
  | .returning => pure s
  | .terminating => s.retireSource t source

/-- The part of a switch after control has come back. -/
def returnFrom (s : FiberSystem) (call : SwitchCall) : Except Fault FiberSystem := do
  let s ← s.reclaim call.thread
  { s with calls := s.calls.erase call }.reapAll [call.source, call.target]

def leave (s : FiberSystem) : Except Fault FiberSystem :=
  match s.calls with
  | [] => .ok s
  | call :: _ => s.returnFrom call

def isSwitching (s : FiberSystem) (t : ThreadToken) : Bool :=
  s.calls.any fun call => decide (call.thread = t)

end PooledFibers.FiberSystem
