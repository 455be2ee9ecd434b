import PooledFibers.FiberSystem.Carrier
import PooledFibers.Machine.Host
import PooledFibers.Registry.Basic
import PooledFibers.Statistics

/-!
# The fiber system

All that the fibers of one process share. A fiber exists as long as something refers to it: the
registry, a carrier, a switch that has not returned, or a handle of the host. `reap` frees a fiber
that nothing refers to any more; its stack then goes back to the pool.
-/

namespace PooledFibers

inductive SwitchKind
  /-- The outgoing fiber may be switched to again. -/
  | returning
  /-- The outgoing fiber ends. -/
  | terminating
  deriving DecidableEq, Repr

/-- A switch that has not returned to its caller. -/
structure SwitchCall where
  thread : ThreadToken
  kind : SwitchKind
  source : FiberId
  target : FiberId
  deriving DecidableEq, Repr

/-- The caller holds the target for as long as the call lasts, and so does a returning switch its
source. -/
def SwitchCall.refersTo (c : SwitchCall) (id : FiberId) : Bool :=
  c.target = id || (c.kind = .returning && c.source = id)

structure FiberSystem where
  settings : Settings
  /-- What the host answers when asked to compensate; `none` if it is not asked. -/
  policy : Option Bool := none
  pool : Pool
  registry : Registry
  statistics : Statistics
  /-- The fibers that exist. -/
  fibers : Table FiberId Fiber := .empty
  identities : Identities
  /-- The attached threads in the order of attachment. -/
  carriers : List Carrier := []
  tokensGiven : Nat := 0
  /-- The continuations that exist. -/
  continuations : Table ContinuationId Continuation := .empty
  continuationsMade : Nat := 0
  /-- The fibers that the host holds, one entry per handle. -/
  held : List FiberId := []
  /-- The stacks that the host has leased for itself. -/
  leases : List Lease := []
  /-- The switches that have not returned, the latest first. -/
  calls : List SwitchCall := []

instance : Inhabited Fiber := ⟨.ofThread ⟨0⟩ ⟨0⟩ "" ⟨0, 0, 0⟩⟩

instance : Inhabited Carrier :=
  ⟨{ token := ⟨0⟩, name := "", threadFiber := ⟨0⟩, current := ⟨0⟩ }⟩

namespace FiberSystem

/-- Threads whose statistics can be told apart. -/
def statisticsSlots : Nat := 256

/-- An empty system, if the settings can be used. -/
def ofSettings (host : Host) (settings : Settings) (provider : PageProvider)
    (policy : Option Bool) : Except Fault (Except Failure FiberSystem) :=
  match settings.validate host.pageSize with
  | .error failure => .ok (.error failure)
  | .ok () => do
    let registry ← Registry.ofShards settings.registryShards
    pure (.ok
      { settings, policy, registry
        pool := .ofSettings settings provider
        identities := host.identities
        statistics := .ofCapacity statisticsSlots })

def machine (s : FiberSystem) : Machine := s.pool.machine

def withMachine (s : FiberSystem) (machine : Machine) : FiberSystem :=
  { s with pool := { s.pool with machine } }

def notice (s : FiberSystem) (n : Notice) : FiberSystem := s.withMachine (s.machine.notice n)

def fiber (s : FiberSystem) (id : FiberId) : Fiber := (s.fibers.get? id).getD default

def modifyFiber (s : FiberSystem) (id : FiberId) (f : Fiber → Fiber) : FiberSystem :=
  { s with fibers := s.fibers.modify id f }

def carrier? (s : FiberSystem) (t : ThreadToken) : Option Carrier :=
  s.carriers.find? fun c => decide (c.token = t)

def carrier (s : FiberSystem) (t : ThreadToken) : Carrier := (s.carrier? t).getD default

def modifyCarrier (s : FiberSystem) (t : ThreadToken) (f : Carrier → Carrier) : FiberSystem :=
  { s with carriers := s.carriers.map fun c => if c.token = t then f c else c }

def continuationOf (s : FiberSystem) (f : Fiber) : Option Continuation :=
  f.continuation.bind s.continuations.get?

/-- Changes the statistics of a thread that has a slot. -/
def record (s : FiberSystem) (t : ThreadToken) (f : Statistics → Nat → Statistics) :
    FiberSystem :=
  match (s.carrier t).slot with
  | some slot => { s with statistics := f s.statistics slot }
  | none => s

def recordIdle (s : FiberSystem) (t : ThreadToken) : FiberSystem :=
  s.record t fun statistics slot => statistics.setIdle slot (.ofNat (s.carrier t).idle.length)

def nextFiber (s : FiberSystem) : FiberId := s.identities.next

def addFiber (s : FiberSystem) (f : Fiber) : FiberSystem :=
  { s with fibers := s.fibers.insert f.id f, identities := s.identities.advance }

def register (s : FiberSystem) (id : FiberId) : Except Fault FiberSystem := do
  pure { s with registry := ← s.registry.insert id }

def unregister (s : FiberSystem) (id : FiberId) : Except Fault FiberSystem := do
  pure { s with registry := ← s.registry.remove id }

def isReferenced (s : FiberSystem) (id : FiberId) : Bool :=
  s.registry.isRegistered id || s.held.contains id
    || s.carriers.any (fun c => c.refersTo id) || s.calls.any fun c => c.refersTo id

/-- Frees a fiber if nothing refers to it. -/
def reap (s : FiberSystem) (id : FiberId) : Except Fault FiberSystem :=
  if s.isReferenced id then .ok s
  else match s.fibers.get? id with
    | none => .ok s
    | some fiber =>
      let s := { s with fibers := s.fibers.erase id }
      match fiber.stack with
      | .native _ => .ok s
      | .leased lease => do pure { s with pool := ← s.pool.release lease.base }

def reapAll (s : FiberSystem) : List FiberId → Except Fault FiberSystem
  | [] => .ok s
  | id :: rest => do (← s.reap id).reapAll rest

def hold (s : FiberSystem) (id : FiberId) : FiberSystem := { s with held := id :: s.held }

def unhold (s : FiberSystem) (id : FiberId) : FiberSystem := { s with held := s.held.erase id }

def dropHandle (s : FiberSystem) (id : FiberId) : Except Fault FiberSystem :=
  (s.unhold id).reap id

def lease (s : FiberSystem) : Except Fault (Except Failure Lease × FiberSystem) := do
  let (leased, pool) ← s.pool.acquire
  let s := { s with pool }
  match leased with
  | .error failure => pure (.error failure, s)
  | .ok lease => pure (.ok lease, { s with leases := lease :: s.leases })

def unlease (s : FiberSystem) (lease : Lease) : Except Fault FiberSystem := do
  pure { s with leases := s.leases.erase lease, pool := ← s.pool.release lease.base }

def withProvider (s : FiberSystem) (provider : PageProvider) : FiberSystem :=
  s.withMachine { s.machine with provider }

/-- Sets where a fiber goes on; nowhere, for the null address. -/
def saveResume (s : FiberSystem) (id : FiberId) (address : Nat) : FiberSystem :=
  s.modifyFiber id fun f => { f with resume := Fiber.resumeAt? address }

def writeWords (s : FiberSystem) (address : Nat) (words : List MemoryWord) : FiberSystem :=
  s.withMachine (s.machine.writeAll address words)

def setScratch (s : FiberSystem) (t : ThreadToken) (scratch : Scratch) : FiberSystem :=
  s.modifyCarrier t fun c => { c with scratch }

def setMode (s : FiberSystem) (t : ThreadToken) (mode : ExecutionMode) : FiberSystem :=
  s.modifyCarrier t fun c => { c with mode }

def addContinuation (s : FiberSystem) (c : Continuation) : ContinuationId × FiberSystem :=
  let id : ContinuationId := ⟨s.continuationsMade⟩
  (id, { s with
    continuations := s.continuations.insert id c
    continuationsMade := s.continuationsMade + 1 })

def dropContinuation (s : FiberSystem) (id : ContinuationId) : FiberSystem :=
  { s with continuations := s.continuations.erase id }

end FiberSystem

end PooledFibers
