import PooledFibers.Machine.Simulated
import PooledFibers.Script.Basic
import PooledFibers.Stack.Pool

/-!
# Scripts on a stack pool

The pool runs on simulated pages. Leases have names; a name also stands for the base of the stack
last leased under it.
-/

namespace PooledFibers.Script

inductive PoolStep
  | acquire (name : String)
  | release (name : String)
  | query (name : String) (distance : Int)
  | queryAddress (address : Nat)
  | describe (name : String)
  | setFaults (change : PageFaultChange)
  | unknown

inductive PoolAnswer
  | nothing
  | refused
  | lease (lease : Lease)
  | failure (failure : Failure)
  | query (query : StackQuery)
  | text (text : String)

structure PoolState where
  simulation : Simulation
  pool : Pool
  leases : Table String Lease := .empty
  /-- The base last leased under each name. -/
  bases : Table String Nat := .empty

namespace PoolState

def ofSettings (settings : Settings) (simulation : Simulation) : PoolState :=
  { simulation, pool := .ofSettings settings simulation.provider }

def release (s : PoolState) (name : String) (lease : Lease) : Except Fault PoolState := do
  pure { s with pool := ← s.pool.release lease.base, leases := s.leases.erase name }

def perform (s : PoolState) : PoolStep → Except Fault (PoolAnswer × PoolState)
  | .acquire name =>
    if s.leases.contains name then .ok (.refused, s)
    else do
      let (leased, pool) ← s.pool.acquire
      match leased with
      | .error failure => pure (.failure failure, { s with pool })
      | .ok lease =>
        pure (.lease lease,
          { s with
            pool
            leases := s.leases.insert name lease
            bases := s.bases.insert name lease.base })
  | .release name =>
    match s.leases.get? name with
    | none => .ok (.refused, s)
    | some lease => do pure (.nothing, ← s.release name lease)
  | .query name distance =>
    match s.bases.get? name with
    | none => .ok (.refused, s)
    | some base => .ok (.query (s.pool.query (Word.shift base distance)), s)
  | .queryAddress address => .ok (.query (s.pool.query address), s)
  | .describe name =>
    match s.leases.get? name with
    | none => .ok (.refused, s)
    | some lease => .ok (.text lease.debugText, s)
  | .setFaults change =>
    let simulation := s.simulation.withFaults change
    .ok (.nothing,
      { s with
        simulation
        pool := { s.pool with
          machine := { s.pool.machine with provider := simulation.provider } } })
  | .unknown => .ok (.refused, s)

def releaseAll (s : PoolState) : List String → Except Fault PoolState
  | [] => .ok s
  | name :: rest => do
    let s ←
      match s.leases.get? name with
      | none => pure s
      | some lease => s.release name lease
    s.releaseAll rest

/-- The state in which a step that met a fault leaves the script: a lease is given up even if its
stack cannot be taken back. -/
def abandon (s : PoolState) : PoolStep → PoolState
  | .release name => { s with leases := s.leases.erase name }
  | _ => s

/-- The state after a script: that of the last answer, or what a fault left of it. -/
def endOf (start : PoolState) (steps : List PoolStep) (o : Outcome PoolState PoolAnswer) :
    PoolState :=
  match o.fault, steps[o.answers.length]? with
  | some _, some step => (o.last start).abandon step
  | _, _ => o.last start

/-- Releases the leases in the order of their names, and closes the pool. After a fault no lease
can be released any more. -/
def close (s : PoolState) (fault : Option Fault) : Except Fault PoolState := do
  let names := sortedNames s.leases.keys
  if fault.isSome && !names.isEmpty then throw .poolUnusable
  let s ← s.releaseAll names
  pure { s with pool := s.pool.close }

end PoolState

end PooledFibers.Script
