import PooledFibers.FiberSystem.Basic

/-!
# Compensation

A heap fiber that is about to block its thread may ask the host to compensate, and says so again
when it goes on. While the host is asked, the thread is in the mode of the virtual machine.
-/

namespace PooledFibers.FiberSystem

def compensates (s : FiberSystem) (t : ThreadToken) : Bool :=
  s.settings.yieldWithMonitor && !(s.fiber (s.carrier t).current).isThreadFiber

/-- Whether a thread may block now; true where nobody has to be asked. -/
def tryCompensate (s : FiberSystem) (t : ThreadToken) : Bool :=
  if s.compensates t then s.policy.getD true else true

/-- The modes in which the host's policy sees the thread while it is asked. -/
def policyCalls (s : FiberSystem) (t : ThreadToken) : List ExecutionMode :=
  if s.compensates t && s.policy.isSome then [.vm] else []

end PooledFibers.FiberSystem
