import PooledFibers.FiberSystem.Basic
import PooledFibers.Settings.Environment

/-!
# The system of the process

A process that does not make a fiber system of its own uses a common one, made on first use from
the environment, and hands its fibers to one entry, which is installed once.
-/

namespace PooledFibers

structure GlobalState where
  /-- The common system, once something has used it. -/
  system : Option FiberSystem := none
  /-- Whether an entry for new fibers is installed. -/
  entryInstalled : Bool := false

namespace GlobalState

/-- Installs an entry; answers whether there was none before. -/
def installEntry (g : GlobalState) : Bool × GlobalState :=
  (!g.entryInstalled, { g with entryInstalled := true })

/-- A system from the environment. Settings read from it can always be used, so the fault does not
arise. -/
def makeSystem (host : Host) (lookup : String → Option String) (provider : PageProvider) :
    Except Fault FiberSystem := do
  let settings := (Settings.ofVariables host.debugAssertions lookup host.pageSize).value
  match ← FiberSystem.ofSettings host settings provider none with
  | .ok system => pure system
  | .error failure => throw (.systemNotMade failure)

/-- The common system, made now if there is none. -/
def useSystem (g : GlobalState) (host : Host) (lookup : String → Option String)
    (provider : PageProvider) : Except Fault (FiberSystem × GlobalState) :=
  match g.system with
  | some system => .ok (system, g)
  | none => do
    let system ← makeSystem host lookup provider
    pure (system, { g with system := some system })

end GlobalState

end PooledFibers
