import PooledFibers.FiberSystem.Teardown
import PooledFibers.Script.Session.Action

/-!
# Runs of a session

A run takes steps until one meets a fault. A step that switches enters the target, runs the steps
that it carries, and leaves again. When a session ends, the host lets go of all that it holds.
-/

namespace PooledFibers.Script.Session

/-- Saves the outgoing fiber as the host's swap of stacks does. -/
def save (s : FiberSystem) (source : FiberId) : SavePlan → FiberSystem
  | .nothing => s
  | .address n => s.saveResume source n
  | .frame below framePointer returnAddress =>
    let address := Word.shift (s.fiber source).region.base (-below)
    (s.writeWords address [framePointer, returnAddress]).saveResume source address

/-- Enters a switch, if its thread and target are there: the outgoing and the incoming fiber. -/
def enter (s : Session) (thread : String) (target : FiberName) (kind : SwitchKind)
    (plan : SavePlan) : Except Fault (Option ((FiberId × FiberId) × Session)) :=
  match s.thread? thread, s.fiber? target with
  | some t, some id => do
    let source := (s.system.carrier t).current
    let entered ← s.system.enter t id kind
    let system :=
      match kind with
      | .returning => save entered source plan
      | .terminating => entered
    pure (some ((source, id), { s with system }))
  | _, _ => .ok none

def leave (s : Session) : Except Fault Session := do
  pure { s with system := ← s.system.leave }

def threadSummary (s : Session) (entry : String × ThreadToken) : ThreadSummary :=
  let carrier := s.system.carrier entry.2
  ⟨entry.1, carrier.current, carrier.idle.length, carrier.pending.isSome⟩

/-- How many threads an entry shows. -/
def threadsShown : Nat := 8

def summary (s : Session) : Summary where
  pool := s.system.pool.totals
  registered := s.system.registry.size
  threads := (s.threads.take threadsShown).map s.threadSummary
  calls := s.system.machine.callsFrom s.callsShown
  notices := s.system.machine.noticesFrom s.noticesShown

/-- Counts all page calls and notices as shown. -/
def markShown (s : Session) : Session :=
  { s with
    callsShown := s.system.machine.calls.length
    noticesShown := s.system.machine.notices.length }

/-- The entry for an answer, and the session to go on with. -/
def conclude (s : Session) (a : Answer) (during : List Entry) : Entry × Except Fault Session :=
  (.done a s.summary during, .ok s.markShown)

mutual

/-- Runs one step. -/
def runStep (s : Session) : Step → Entry × Except Fault Session
  | .act action =>
    match s.perform action with
    | .error fault => (.fault fault [], .error fault)
    | .ok (a, s) => s.conclude a []
  | .switch thread target kind plan during =>
    match s.enter thread target kind plan with
    | .error fault => (.fault fault [], .error fault)
    | .ok none => s.conclude .refused []
    | .ok (some ((source, target), s)) =>
      match s.runSteps during with
      | (entries, .error fault) => (.fault fault entries, .error fault)
      | (entries, .ok s) =>
        match s.leave with
        | .error fault => (.fault fault entries, .error fault)
        | .ok s => s.conclude (.switched kind source target) entries

/-- Runs steps until one meets a fault. -/
def runSteps (s : Session) : List Step → List Entry × Except Fault Session
  | [] => ([], .ok s)
  | step :: rest =>
    match s.runStep step with
    | (entry, .error fault) => ([entry], .error fault)
    | (entry, .ok s) =>
      let (entries, outcome) := s.runSteps rest
      (entry :: entries, outcome)

end

/-- What is left to tell when the host lets go of everything. -/
structure Ending where
  calls : List PageCall
  notices : List Notice
  fault : Option Fault

def dropLease (s : Session) (d : Teardown) (name : String) : Teardown :=
  match s.leases.get? name with
  | some lease => d.attempt fun system => system.unlease lease
  | none => d

def dropHandle (s : Session) (d : Teardown) (name : String) : Teardown :=
  match s.handles.get? name with
  | some id => d.attempt fun system => system.dropHandle id
  | none => d

/-- Lets go of leases, continuations, threads, fiber handles and the system, in that order. -/
def finish (s : Session) : Ending :=
  let d : Teardown := { system := s.system }
  let d := (sortedNames s.leases.keys).foldl s.dropLease d
  let d := { d with system := { d.system with continuations := .empty } }
  let d := s.threads.foldl (fun d entry => d.detach entry.2) d
  let d := (sortedNames s.handles.keys).foldl s.dropHandle d
  let d := d.close
  let machine := d.system.machine
  ⟨machine.callsFrom s.callsShown, machine.noticesFrom s.noticesShown, d.fault⟩

end PooledFibers.Script.Session
