import PooledFibers.FiberSystem.Basic

/-!
# Making and ending fibers

`attach` makes a thread a carrier, `create` makes a fiber or wakes one from the idle cache,
`terminate` ends a suspended one, and `detach` ends a carrier with all its fibers. A terminated
fiber is parked in the idle cache while there is room.
-/

namespace PooledFibers

/-- The high end of a thread's own stack, and its size. -/
structure StackBounds where
  base : Nat
  size : Nat
  deriving DecidableEq, Repr

def StackBounds.low (b : StackBounds) : Nat := b.base - b.size

inductive StackRequest
  /-- A stack from the pool. -/
  | pooled
  /-- A stack of another size, which cannot be had. -/
  | bytes (size : Nat)
  /-- The thread's own stack. -/
  | kernel
  deriving DecidableEq, Repr

namespace FiberSystem

def nextToken (s : FiberSystem) : ThreadToken := ⟨s.tokensGiven + 1⟩

/-- Makes a thread a carrier. `thread` is its number in the statistics, `bounds` what the operating
system says of its stack. -/
def attach (s : FiberSystem) (thread : Nat) (name : String) (bounds : Except IoError StackBounds) :
    Except Fault (Except Failure ThreadToken × FiberSystem) :=
  match bounds with
  | .error source => .ok (.error (.threadStackUnknown source), s)
  | .ok bounds => do
    let token := s.nextToken
    let region := Region.ofZone bounds.base bounds.size s.pool.geometry.reservedZone
    let id := s.nextFiber
    let s := { s with tokensGiven := s.tokensGiven + 1 }.addFiber (.ofThread id token name region)
    let s ← s.register id
    let (slot, statistics) := s.statistics.register thread
    let carrier : Carrier := { token, name, threadFiber := id, current := id, slot }
    pure (.ok token, { s with statistics, carriers := s.carriers ++ [carrier] })

/-- Parks a terminated fiber while the idle cache has room, and otherwise lets go of it. -/
def parkOrRelease (s : FiberSystem) (t : ThreadToken) (id : FiberId) :
    Except Fault FiberSystem :=
  if (s.carrier t).idle.length < s.settings.idleCacheSize then
    .ok ((s.modifyCarrier t fun c => { c with idle := id :: c.idle }).recordIdle t)
  else s.reap id

/-- Parks or releases the fiber that terminated itself, once its stack has been left. -/
def reclaim (s : FiberSystem) (t : ThreadToken) : Except Fault FiberSystem :=
  match (s.carrier t).pending with
  | none => .ok s
  | some id => (s.modifyCarrier t fun c => { c with pending := none }).parkOrRelease t id

def renew (s : FiberSystem) (id : FiberId) : Except Fault FiberSystem :=
  let fiber := s.fiber id
  if fiber.isThreadFiber then .error (.threadFiberRecycled id)
  else
    .ok ((s.withMachine (Fiber.prime s.machine fiber.region.base)).modifyFiber id Fiber.renewed)

/-- The latest parked fiber, made as new. -/
def wakeIdle (s : FiberSystem) (t : ThreadToken) (id : FiberId) (rest : List FiberId) :
    Except Fault FiberSystem := do
  let s ← (s.hold id |>.modifyCarrier t fun c => { c with idle := rest }).renew id
  pure ((s.recordIdle t).record t Statistics.recordReused)

def makeFiber (s : FiberSystem) (t : ThreadToken) :
    Except Fault (Except Failure FiberId × FiberSystem) := do
  let (leased, pool) ← s.pool.acquire
  let s := { s with pool }
  match leased with
  | .error failure => pure (.error failure, s)
  | .ok lease =>
    let id := s.nextFiber
    let carrier := s.carrier t
    let fiber := Fiber.ofLease id t carrier.name lease s.settings.verifyOnYield
    let s := (s.withMachine (Fiber.prime s.machine lease.base)).addFiber fiber
    pure (.ok id, (s.hold id).record t Statistics.recordCreated)

/-- A primed fiber: the latest parked one, or else a new one. -/
def supply (s : FiberSystem) (t : ThreadToken) :
    Except Fault (Except Failure FiberId × FiberSystem) :=
  match (s.carrier t).idle with
  | id :: rest => do pure (.ok id, ← s.wakeIdle t id rest)
  | [] => s.makeFiber t

def enroll (s : FiberSystem) (id : FiberId) (continuation : Option ContinuationId) :
    Except Fault FiberSystem :=
  (s.modifyFiber id fun f => { f with continuation }).register id

/-- Takes a fiber's continuation away and the fiber out of the registry. -/
def withdraw (s : FiberSystem) (id : FiberId) : Except Fault FiberSystem :=
  (s.modifyFiber id fun f => { f with continuation := none }).unregister id

/-- Gives the host a fiber that is ready to run a continuation. -/
def create (s : FiberSystem) (t : ThreadToken) (request : StackRequest)
    (continuation : Option ContinuationId) :
    Except Fault (Except Failure FiberId × FiberSystem) := do
  match request with
  | .kernel =>
    let current := (s.carrier t).current
    if (s.fiber current).isThreadFiber then pure (.ok current, s.hold current)
    else throw (.kernelRequestFromHeapFiber current)
  | .bytes size => pure (.error (.unsupportedSize size), s)
  | .pooled =>
    let s ← s.reclaim t
    let (made, s) ← s.supply t
    match made with
    | .error failure => pure (.error failure, s)
    | .ok id => do pure (.ok id, ← s.enroll id continuation)

def retire (s : FiberSystem) (t : ThreadToken) (id : FiberId) : Except Fault FiberSystem := do
  let fiber := s.fiber id
  if fiber.owner ≠ t then throw (.foreignTermination id fiber.owner t)
  if fiber.isThreadFiber then throw (.threadFiberTerminated id)
  if (s.carrier t).current = id then throw (.currentTerminated id)
  let s ← s.withdraw id
  pure (s.record t Statistics.recordTerminated)

/-- Ends a suspended fiber. The host gives one handle of it away. -/
def terminate (s : FiberSystem) (t : ThreadToken) (id : FiberId) : Except Fault FiberSystem := do
  let s ← s.retire t id
  (s.unhold id).parkOrRelease t id

def dropPending (s : FiberSystem) (t : ThreadToken) : Except Fault FiberSystem :=
  match (s.carrier t).pending with
  | none => .ok s
  | some id => (s.modifyCarrier t fun c => { c with pending := none }).reap id

/-- Lets go of parked fibers, given the oldest first. -/
def dropParked (s : FiberSystem) (t : ThreadToken) : List FiberId → Except Fault FiberSystem
  | [] => .ok s
  | id :: rest => do
    let s ← (s.modifyCarrier t fun c => { c with idle := rest.reverse }).reap id
    s.dropParked t rest

/-- Lets go of the fibers that a thread keeps though they have ended. -/
def dropEnded (s : FiberSystem) (t : ThreadToken) : Except Fault FiberSystem := do
  let s ← s.dropPending t
  s.dropParked t (s.carrier t).idle.reverse

/-- The fibers of a thread that have not ended, in the order of the registry. -/
def orphans (s : FiberSystem) (t : ThreadToken) : Except Fault (List FiberId) := do
  let fibers ← s.registry.toList
  pure (fibers.filter fun id => (s.fiber id).owner = t && !(s.fiber id).isThreadFiber)

def withdrawAll (s : FiberSystem) : List FiberId → Except Fault FiberSystem
  | [] => .ok s
  | id :: rest => do (← s.withdraw id).withdrawAll rest

def disown (s : FiberSystem) (t : ThreadToken) (orphans : List FiberId) :
    Except Fault FiberSystem :=
  match orphans with
  | [] => .ok s
  | _ :: _ =>
    (s.notice (.detachedWithFibers (s.carrier t).name orphans.length)).withdrawAll orphans

/-- Takes the thread itself out of the registry and the statistics. -/
def signOff (s : FiberSystem) (t : ThreadToken) : Except Fault FiberSystem := do
  let s ← s.unregister (s.carrier t).threadFiber
  pure (s.record t Statistics.unregister)

def dropCarrier (s : FiberSystem) (t : ThreadToken) : Except Fault FiberSystem :=
  let carrier := s.carrier t
  { s with carriers := s.carriers.filter fun c => c.token ≠ t }.reapAll
    [carrier.threadFiber, carrier.current]

/-- Ends a carrier. Fibers of it that have not ended are taken out of the registry. -/
def detach (s : FiberSystem) (t : ThreadToken) : Except Fault FiberSystem := do
  let s ← s.dropEnded t
  let orphans ← s.orphans t
  let s ← s.disown t orphans
  let s ← s.signOff t
  let s ← s.reapAll orphans
  s.dropCarrier t

end FiberSystem

end PooledFibers
