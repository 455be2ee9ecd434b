import PooledFibers.FiberSystem.Basic

/-!
# Owners of locks

A lock's owner word is the address of a fiber, or of a lock record on some fiber's stack. The
first reading goes before the second, which is dropped where lock records never lie on stacks.
-/

namespace PooledFibers

/-- The fiber that a lock's owner word stands for, among the registered fibers and those running.
Busy shards are not waited for; a lookup that waits finds none busy. -/
def Registry.lockOwner? (r : Registry) (owner : Nat) (busy : Nat → Bool) (heavyMonitors : Bool)
    (running : List Fiber) : Except Fault (Option FiberId) := do
  if owner = 0 then pure none
  else
    match ← r.tryFind? ⟨owner⟩ busy with
    | some id => pure (some id)
    | none =>
      if heavyMonitors then pure none
      else pure ((running.find? fun f => f.region.contains owner).map (·.id))

def FiberSystem.lockOwner? (s : FiberSystem) (owner : Nat) (running : List FiberId) :
    Except Fault (Option FiberId) :=
  s.registry.lockOwner? owner (fun _ => false) s.settings.heavyMonitors (running.map s.fiber)

end PooledFibers
