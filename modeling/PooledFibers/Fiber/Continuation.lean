/-!
# Continuations

A continuation is the managed object that a fiber runs. It may stand for a virtual thread, which
has a name and a numbered state.
-/

namespace PooledFibers

inductive ContinuationKind
  | plain
  | virtualThread
  deriving DecidableEq, Repr

def ContinuationKind.text : ContinuationKind → String
  | plain => "Plain"
  | virtualThread => "VirtualThread"

structure VirtualThread where
  name : Option String
  state : Int
  deriving DecidableEq, Repr

/-- What a virtual thread's state is called. -/
def VirtualThread.stateName : Int → String
  | 0 => "NEW"
  | 1 => "STARTED"
  | 2 => "RUNNABLE"
  | 3 => "RUNNING"
  | 4 => "PARKING"
  | 5 => "PARKED"
  | 6 => "PINNED"
  | 99 => "TERMINATED"
  | _ => "ERROR STATE"

structure Continuation where
  kind : ContinuationKind
  /-- What the continuation says of its virtual thread. -/
  info : Option VirtualThread
  deriving DecidableEq, Repr

/-- The virtual thread, if the continuation is of that kind and knows it. -/
def Continuation.virtualThread? (c : Continuation) : Option VirtualThread :=
  if c.kind = .virtualThread then c.info else none

/-- Continuations are numbered in the order in which they are made. -/
structure ContinuationId where
  number : Nat
  deriving DecidableEq, Repr

end PooledFibers
