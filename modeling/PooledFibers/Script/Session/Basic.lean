import PooledFibers.Script.Session.Answer
import PooledFibers.Script.Session.Step

/-!
# Sessions

A session is a host at work on a fiber system: it gives names to the threads, fibers,
continuations and leases that it holds.
-/

namespace PooledFibers.Script

structure Session where
  system : FiberSystem
  simulation : Simulation
  /-- The name of the operating system's thread that everything runs on. -/
  threadName : String
  /-- In the order of attachment. -/
  threads : List (String × ThreadToken) := []
  handles : Table String FiberId := .empty
  continuations : Table String ContinuationId := .empty
  leases : Table String Lease := .empty
  marks : Marks := .empty
  /-- How many page calls the entries so far have shown. -/
  callsShown : Nat := 0
  /-- How many notices the entries so far have shown. -/
  noticesShown : Nat := 0

namespace Session

/-- The number of the only thread of the operating system in the statistics. -/
def systemThread : Nat := 1

/-- Where the stack of the thread with a token ends. -/
def stackBase (t : ThreadToken) : Nat := 0x300000000000 + t.number * 0x1000000

def ofSettings (host : Host) (settings : Settings) (simulation : Simulation)
    (policy : Option Bool) (threadName : String) : Except Fault (Except Failure Session) := do
  match ← FiberSystem.ofSettings host settings simulation.provider policy with
  | .error failure => pure (.error failure)
  | .ok system => pure (.ok { system, simulation, threadName })

def thread? (s : Session) (name : String) : Option ThreadToken :=
  (s.threads.find? fun entry => entry.1 == name).map (·.2)

def fiber? (s : Session) : FiberName → Option FiberId
  | .handle name => s.handles.get? name
  | .threadFiber thread => (s.thread? thread).map fun t => (s.system.carrier t).threadFiber
  | .current thread => (s.thread? thread).map fun t => (s.system.carrier t).current

def place? (s : Session) : Place → Option Nat
  | .nowhere => none
  | .address n => some n
  | .identity fiber below => (s.fiber? fiber).map fun id => Word.shift id.address (-below)
  | .numbered n below => some (Word.shift (s.system.identities.identity n).address (-below))
  | .lease name below => (s.leases.get? name).map fun lease => Word.shift lease.base (-below)
  | .base fiber below =>
    (s.fiber? fiber).map fun id => Word.shift (s.system.fiber id).region.base (-below)

abbrev Result := Except Fault (Answer × Session)

def answer (s : Session) (a : Answer) : Result := .ok (a, s)

def refuse (s : Session) : Result := s.answer .refused

/-- Goes on with the thread of a name, if there is one. -/
def withThread (s : Session) (name : String) (f : ThreadToken → Result) : Result :=
  match s.thread? name with
  | some t => f t
  | none => s.refuse

/-- Goes on with the fiber of a name, if there is one. -/
def withFiber (s : Session) (name : FiberName) (f : FiberId → Result) : Result :=
  match s.fiber? name with
  | some id => f id
  | none => s.refuse

/-- Goes on with the address of a place, if there is one. -/
def withPlace (s : Session) (place : Place) (f : Nat → Result) : Result :=
  match s.place? place with
  | some address => f address
  | none => s.refuse

/-- Goes on with the system after an operation that answers nothing. -/
def update (s : Session) (system : Except Fault FiberSystem) : Result := do
  pure (.nothing, { s with system := ← system })

end Session

end PooledFibers.Script
