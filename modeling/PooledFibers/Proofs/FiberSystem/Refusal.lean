import Mathlib.Tactic.Common
import PooledFibers.Proofs.FiberSystem.Regular
import PooledFibers.Proofs.Stack.Refusal

/-!
# Requests for a fiber that are refused

A stack of another size than the pool's is never to be had. A fiber on a stack from the pool is
refused only if the idle cache is empty and the pool has no stack to lease, both once the fiber that
terminated itself has been reclaimed (`create_pooled_eq_error_iff`). The refused request has then
done no more than to reclaim that fiber (`Run.refused_of_after`).
-/

namespace PooledFibers

open Outcome

namespace FiberSystem

/-- The request leaves the system `s` as it is, where it finds no parked fiber and the pool without
a stack. -/
structure Refused (s s' : FiberSystem) (t : ThreadToken) (failure : Failure) : Prop where
  idle : (s.carrier t).idle = []
  acquire : s.pool.acquire = .ok (.error failure, s'.pool)
  exhausted : ∃ bytes source, failure = .exhausted bytes source
  pool : s.pool.Untouched s'.pool
  /-- Whatever is not in the pool is as it was. -/
  same : s' = { s with pool := s'.pool }

variable {s s' s₁ : FiberSystem} {t : ThreadToken} {failure : Failure}

theorem supply_eq_error_iff : s.supply t = .ok (.error failure, s')
    ↔ (s.carrier t).idle = []
      ∧ ∃ pool, s.pool.acquire = .ok (.error failure, pool) ∧ s' = { s with pool } := by
  simp only [supply]
  split <;> rename_i hidle
  · simp [hidle, bind_eq_ok_iff]
  · simp only [hidle, true_and, makeFiber]
    constructor
    · intro h
      obtain ⟨⟨_ | lease, pool⟩, hacquire, h⟩ := bind_eq_ok_iff.1 h
      · obtain ⟨hfailure, rfl⟩ := Prod.mk.inj (Except.ok.inj h)
        exact ⟨pool, Except.error.inj hfailure ▸ hacquire, rfl⟩
      · simp at h
    · rintro ⟨pool, hacquire, rfl⟩
      simp [hacquire]

/-- A pooled fiber is refused just when none is parked and the pool has no stack, once the fiber
that terminated itself has been reclaimed. -/
theorem create_pooled_eq_error_iff (hreclaim : s.reclaim t = .ok s₁)
    (continuation : Option ContinuationId) :
    s.create t .pooled continuation = .ok (.error failure, s')
      ↔ (s₁.carrier t).idle = []
        ∧ ∃ pool, s₁.pool.acquire = .ok (.error failure, pool) ∧ s' = { s₁ with pool } := by
  rw [← supply_eq_error_iff]
  simp only [create, hreclaim, ok_bind]
  constructor
  · intro h
    obtain ⟨⟨_ | id, s₂⟩, hsupply, h⟩ := bind_eq_ok_iff.1 h
    · obtain ⟨hfailure, rfl⟩ := Prod.mk.inj (Except.ok.inj h)
      exact Except.error.inj hfailure ▸ hsupply
    · obtain ⟨_, -, h⟩ := bind_eq_ok_iff.1 h
      simp at h
  · intro h
    simp [h]

theorem create_pooled_eq_error_iff_refused (hreclaim : s.reclaim t = .ok s₁)
    (continuation : Option ContinuationId) :
    s.create t .pooled continuation = .ok (.error failure, s') ↔ s₁.Refused s' t failure := by
  rw [create_pooled_eq_error_iff hreclaim]
  constructor
  · rintro ⟨hidle, pool, hacquire, rfl⟩
    obtain ⟨-, -, made, hbarred, rfl⟩ := Pool.acquire_eq_error_iff.1 hacquire
    exact ⟨hidle, hacquire, hbarred.exhausted, hbarred.untouched, rfl⟩
  · rintro ⟨hidle, hacquire, -, -, hsame⟩
    exact ⟨hidle, s'.pool, hacquire, hsame⟩

end FiberSystem

namespace Run

open FiberSystem

variable {host : Host} {settings : Settings} {provider : PageProvider} {policy : Option Bool}
  {s : FiberSystem} {operations : List Operation} {r : Run} {t : ThreadToken} {c : Carrier}

/-- In every state of a run without a fault, a stack of a given size is refused and nothing happens.
A fiber on a stack from the pool is handed out, or the request is refused for want of memory and
only the fiber that terminated itself has been reclaimed. -/
theorem refused_of_after (hs : ofSettings host settings provider policy = .ok (.ok s))
    (hp : 0 < provider.pageSize) (hg : 0 < provider.granularity)
    (hr : Run.after ⟨s, []⟩ operations = .ok r) (hc : r.system.carrier? t = some c)
    (continuation : Option ContinuationId) :
    (∀ size, r.system.create t (.bytes size) continuation
        = .ok (.error (.unsupportedSize size), r.system))
      ∧ ∃ s₁, r.system.reclaim t = .ok s₁
        ∧ (∃ outcome s', r.system.create t .pooled continuation = .ok (outcome, s'))
        ∧ ∀ failure s', r.system.create t .pooled continuation = .ok (.error failure, s')
          ↔ s₁.Refused s' t failure := by
  obtain ⟨hsound, hstocked⟩ := stocked_of_after hs hp hg hr
  obtain ⟨s₁, hreclaim⟩ := hstocked.exists_reclaim t
  have hpooled : StackRequest.pooled ≠ .kernel := nofun
  refine ⟨fun _ => rfl, s₁, hreclaim, hstocked.exists_create hsound hc hpooled continuation, ?_⟩
  exact fun _ _ => create_pooled_eq_error_iff_refused hreclaim continuation

/-- There is memory for one stack, and no room to park a fiber. A fiber has terminated itself and
is still held when another one is asked for. -/
theorem refused_of_held_fiber : ∃ s r c s₁ s',
    ofSettings .simulated
        { registryShards := 2, stacksPerSlab := 1, idleCacheSize := 0, verifyOnYield := false }
        (.granting 1) none = .ok (.ok s)
      ∧ Run.after ⟨s, []⟩
          [.attach 1 "main" (.ok ⟨0x10000000, 0x100000⟩), .perform ⟨1⟩ (.create .pooled none),
           .perform ⟨1⟩ (.switch (.ofNumber 1) .returning),
           .perform ⟨1⟩ (.switch (.ofNumber 0) .terminating)] = .ok r
      ∧ r.system.carrier? ⟨1⟩ = some c ∧ c.pending = some (.ofNumber 1)
      ∧ r.system.reclaim ⟨1⟩ = .ok s₁ ∧ (s₁.carrier ⟨1⟩).pending = none
      ∧ r.system.create ⟨1⟩ .pooled none = .ok (.error (.exhausted 356352 (.number 12)), s')
      ∧ s₁.Refused s' ⟨1⟩ (.exhausted 356352 (.number 12)) := by
  refine ⟨?s, ?r, ?c, ?s₁, ?s', ?hs, ?hr, ?hc, ?hpending, ?hreclaim, ?hreclaimed, ?hcreate,
    (refused_of_after ?hs (by decide) (by decide) ?hr ?hc none).2.elim fun _ h =>
      Except.ok.inj (h.1.symm.trans ?hreclaim) ▸ (h.2.2 _ _).1 ?hcreate⟩
  case hs => rfl
  case hr => rfl
  case hc => rfl
  case hpending => rfl
  case hreclaim => rfl
  case hreclaimed => rfl
  case hcreate => rfl

end Run

end PooledFibers
