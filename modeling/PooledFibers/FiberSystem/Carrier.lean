import PooledFibers.Fiber.Basic
import PooledFibers.Scratch.Basic

/-!
# Carriers

A carrier is an attached thread: the fiber that stands for it, the fiber current on it, its idle
cache of terminated fibers, the fiber that terminated itself and whose stack may still be in use,
and the thread's scratch resources.
-/

namespace PooledFibers

inductive ExecutionMode
  | managed
  | vm
  | native
  deriving DecidableEq, Repr

def ExecutionMode.text : ExecutionMode → String
  | managed => "InManaged"
  | vm => "InVm"
  | native => "InNative"

/-- Why the current fiber cannot leave its thread. -/
inductive PinReason
  | free
  | monitor
  | native
  deriving DecidableEq, Repr

def PinReason.text : PinReason → String
  | free => "None"
  | monitor => "Monitor"
  | native => "Native"

structure Carrier where
  token : ThreadToken
  name : String
  threadFiber : FiberId
  current : FiberId
  /-- Terminated fibers kept for reuse, the latest first. -/
  idle : List FiberId := []
  /-- The fiber that terminated itself last, until its stack has been left. -/
  pending : Option FiberId := none
  scratch : Scratch := {}
  mode : ExecutionMode := .managed
  /-- The statistics slot, if one was free. -/
  slot : Option Nat := none
  deriving DecidableEq, Repr

namespace Carrier

def refersTo (c : Carrier) (id : FiberId) : Bool :=
  c.threadFiber = id || c.current = id || c.idle.contains id || c.pending = some id

def pinReason (c : Carrier) : PinReason :=
  if c.scratch.counts.locks ≠ 0 then .monitor
  else if c.scratch.counts.foreignFrames ≠ 0 then .native
  else .free

end Carrier

end PooledFibers
