import Mathlib.Tactic.Common
import PooledFibers.Proofs.FiberSystem.Balance
import PooledFibers.Proofs.FiberSystem.Partition

/-!
# What the states of a run have in common

In every state of a run without a fault the fibers are where they belong, what they hold is on the
books of the pool, the threads keep apart, and stacks have the sizes that the settings give
(`Run.regular_of_after`).
-/

namespace PooledFibers.Run

open FiberSystem

structure Regular (r : Run) (geometry : Geometry) : Prop where
  orderly : r.Orderly
  partitioned : r.system.Partitioned
  geometry : r.system.pool.geometry = geometry

variable {host : Host} {settings : Settings} {provider : PageProvider} {policy : Option Bool}
  {s : FiberSystem} {operation : Operation} {operations : List Operation} {r r' : Run}
  {geometry : Geometry}

theorem Regular.perform (h : r.Regular geometry) (hr : r.perform operation = .ok r') :
    r'.Regular geometry := by
  obtain ⟨event, hperform, -⟩ := perform_eq_ok_iff.1 hr
  obtain ⟨hinherits, hpartitioned⟩ := h.partitioned.perform h.orderly.sound hperform
  exact ⟨(h.orderly.perform hr).1, hpartitioned, hinherits.geometry.trans h.geometry⟩

theorem Regular.after (h : r.Regular geometry) (hr : r.after operations = .ok r') :
    r'.Regular geometry :=
  after_induction (P := fun r => r.Regular geometry) (fun _ _ _ h hr => h.perform hr) hr h

theorem Regular.stocked (h : r.Regular geometry) : r.system.Stocked :=
  h.orderly.kept.stocked h.partitioned

theorem regular_of_after (hs : ofSettings host settings provider policy = .ok (.ok s))
    (hp : 0 < provider.pageSize) (hg : 0 < provider.granularity)
    (hr : Run.after ⟨s, []⟩ operations = .ok r) :
    r.Regular (.ofSettings settings provider.pageSize) := by
  refine Regular.after ⟨orderly_of_ofSettings hs hp hg, partitioned_of_ofSettings hs, ?_⟩ hr
  obtain ⟨-, registry, -, rfl⟩ := ofSettings_cases hs
  rfl

theorem stocked_of_after (hs : ofSettings host settings provider policy = .ok (.ok s))
    (hp : 0 < provider.pageSize) (hg : 0 < provider.granularity)
    (hr : Run.after ⟨s, []⟩ operations = .ok r) : r.system.Sound ∧ r.system.Stocked := by
  have h := regular_of_after hs hp hg hr
  exact ⟨h.orderly.sound, h.stocked⟩

end PooledFibers.Run
