import PooledFibers.Fiber.Walk
import PooledFibers.Text.Sink

/-!
# Stack dumps

The dump of a suspended fiber that has run: a blank line, its identity with its thread, and one
line per method of its trace.
-/

namespace PooledFibers.Fiber

def dumpHeader (f : Fiber) (continuation : Option Continuation) : String :=
  "\n   Fiber: " ++ f.id.text
    ++ (if f.isThreadFiber then "  [thread fiber]\n" else f.threadLine continuation ++ "\n")

/-- Writes the fiber's dump. The stack is walked only if the header fits. -/
def dump (f : Fiber) (m : Machine) (continuation : Option Continuation) (maxDepth : Nat)
    (source : FrameSource Frame) (sink : Text.Sink) : Except Fault Text.Sink :=
  if !f.entered || f.state ≠ .onStack then .ok sink
  else
    let sink := sink.put (f.dumpHeader continuation)
    if sink.full then .ok sink
    else do
      let methods ← f.trace m maxDepth source
      pure (methods.foldl (fun sink method => sink.put (method.traceText ++ "\n")) sink)

end PooledFibers.Fiber
