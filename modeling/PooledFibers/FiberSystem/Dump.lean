import PooledFibers.Fiber.Print
import PooledFibers.FiberSystem.Basic

/-!
# Dumps of all stacks

The dumps of the registered fibers, one after the other in the order of the registry.
-/

namespace PooledFibers.FiberSystem

def dumpFiber (s : FiberSystem) (id : FiberId) (maxDepth : Nat) (source : FrameSource Frame)
    (sink : Text.Sink) : Except Fault Text.Sink :=
  let fiber := s.fiber id
  fiber.dump s.machine (s.continuationOf fiber) maxDepth source sink

def dumpFibers (s : FiberSystem) (maxDepth : Nat) (source : FrameSource Frame) :
    List FiberId → Text.Sink → Except Fault Text.Sink
  | [], sink => .ok sink
  | id :: rest, sink => do
    let sink ← s.dumpFiber id maxDepth source sink
    if sink.full then pure sink else s.dumpFibers maxDepth source rest sink

def dumpAll (s : FiberSystem) (maxDepth : Nat) (source : FrameSource Frame) (sink : Text.Sink) :
    Except Fault Text.Sink := do
  s.dumpFibers maxDepth source (← s.registry.toList) sink

end PooledFibers.FiberSystem
