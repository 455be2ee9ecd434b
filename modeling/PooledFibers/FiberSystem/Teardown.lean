import PooledFibers.FiberSystem.Lifecycle

/-!
# Taking a system down

A teardown goes on after a fault and remembers the first one. A fault while a thread is detached
leaves the registry unusable, so the threads after it are only let go of.
-/

namespace PooledFibers

structure Teardown where
  system : FiberSystem
  /-- The first fault met. -/
  fault : Option Fault := none

namespace Teardown

/-- Runs a stage; a stage that meets a fault has no effect. -/
def attempt (d : Teardown) (stage : FiberSystem → Except Fault FiberSystem) : Teardown :=
  match stage d.system with
  | .ok system => { d with system }
  | .error fault => { d with fault := d.fault.or (some fault) }

def attemptIfSound (d : Teardown) (stage : FiberSystem → Except Fault FiberSystem) : Teardown :=
  if d.fault.isSome then d else d.attempt stage

/-- Takes a thread and its orphans out of the registry, and frees the orphans. -/
def signOff (d : Teardown) (t : ThreadToken) : Teardown :=
  match d.system.orphans t with
  | .error fault => { d with fault := some fault }
  | .ok orphans =>
    let d := d.attempt fun s => s.disown t orphans
    let d := d.attemptIfSound fun s => s.signOff t
    d.attempt fun s => s.reapAll orphans

def detach (d : Teardown) (t : ThreadToken) : Teardown :=
  let d := d.attempt fun s => s.dropEnded t
  let d := if d.fault.isSome then d else d.signOff t
  d.attempt fun s => s.dropCarrier t

/-- Lets go of the registered fibers and gives the slabs back. -/
def close (d : Teardown) : Teardown :=
  let fibers := d.system.registry.linked
  let registry : Registry := { shards := d.system.registry.shards.map fun _ => {} }
  let d := { d with system := { d.system with registry } }
  let d := d.attempt fun s => s.reapAll fibers
  { d with system := { d.system with pool := d.system.pool.close } }

end Teardown

end PooledFibers
