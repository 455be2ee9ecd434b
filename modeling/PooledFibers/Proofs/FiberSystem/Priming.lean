import Mathlib.Tactic.Common
import PooledFibers.Proofs.FiberSystem.Placement
import PooledFibers.Proofs.Stack.Contents

/-!
# The stack that is primed

A fiber that is handed out has a primed stack, and no other stack is written to (`primes_create`).
-/

namespace PooledFibers.FiberSystem

open Outcome

variable {s s' s₁ : FiberSystem} {t : ThreadToken} {id : FiberId}

/-- All that is written is the top of the fiber's stack. -/
def Primes (s : FiberSystem) (id : FiberId) (s' : FiberSystem) : Prop :=
  ∃ machine, s.machine.Fades machine ∧ s'.machine = Fiber.prime machine (s'.fiber id).region.base

theorem machine_record (s : FiberSystem) (t : ThreadToken) (g : Statistics → Nat → Statistics) :
    (s.record t g).machine = s.machine := by
  simp only [record]
  split <;> rfl

theorem fiber_record (s : FiberSystem) (t : ThreadToken) (g : Statistics → Nat → Statistics) :
    (s.record t g).fiber id = s.fiber id := by
  simp only [record]
  split <;> rfl

/-- A change of fibers that leaves their stacks alone. -/
theorem region_modifyFiber {g : Fiber → Fiber} (hg : ∀ f, (g f).stack = f.stack) (j : FiberId) :
    ((s.modifyFiber j g).fiber id).region = (s.fiber id).region := by
  simp only [fiber, modifyFiber, Table.get?_modify]
  split_ifs
  · cases s.fibers.get? id <;> simp [Fiber.region, hg]
  · rfl

theorem fades_of_reap (hr : s.reap id = .ok s') : s.machine.Fades s'.machine := by
  obtain rfl | ⟨-, f, pool, -, hleased, hnative, rfl⟩ := reap_cases hr
  · exact .refl _
  · cases hstack : f.stack with
    | native region => exact Machine.fades_of_words (by rw [hnative region hstack]; rfl)
    | leased lease => exact Pool.fades_of_release (hleased lease hstack)

theorem fades_of_reclaim (hr : s.reclaim t = .ok s') : s.machine.Fades s'.machine := by
  simp only [reclaim] at hr
  split at hr
  · exact Except.ok.inj hr ▸ .refl _
  · simp only [parkOrRelease] at hr
    split_ifs at hr
    · obtain rfl := Except.ok.inj hr
      exact Machine.fades_of_words (by rw [recordIdle, machine_record]; rfl)
    · have hreap := fades_of_reap hr
      exact hreap

section Create

theorem machine_renew (hr : s.renew id = .ok s') :
    s'.machine = Fiber.prime s.machine (s'.fiber id).region.base := by
  simp only [renew] at hr
  split_ifs at hr
  obtain rfl := Except.ok.inj hr
  rw [region_modifyFiber (g := Fiber.renewed) fun _ => rfl]
  simp only [machine, withMachine, modifyFiber, fiber]

theorem primes_wakeIdle {rest : List FiberId} (hr : s.wakeIdle t id rest = .ok s') :
    s.Primes id s' := by
  obtain ⟨s₁, hrenew, hr⟩ := bind_eq_ok_iff.1 hr
  obtain rfl := Except.ok.inj hr
  refine ⟨s.machine, .refl _, ?_⟩
  rw [recordIdle, machine_record, machine_record, fiber_record, fiber_record]
  have hprime := machine_renew hrenew
  exact hprime

theorem primes_makeFiber (hr : s.makeFiber t = .ok (.ok id, s')) : s.Primes id s' := by
  obtain ⟨⟨_ | lease, pool⟩, hacquire, hr⟩ := bind_eq_ok_iff.1 hr <;>
    simp only [pure_eq_ok, Except.ok.injEq, Prod.mk.injEq, reduceCtorEq, false_and] at hr
  obtain ⟨rfl, rfl⟩ := hr
  refine ⟨pool.machine, Pool.fades_of_acquire hacquire, ?_⟩
  rw [machine_record, fiber_record]
  simp only [fiber, hold, addFiber, withMachine, machine, nextFiber, Fiber.ofLease,
    Table.get?_insert, if_true, Option.getD_some, Fiber.region, Lease.base]

theorem Primes.enroll {continuation : Option ContinuationId} (h : s.Primes id s₁)
    (hr : s₁.enroll id continuation = .ok s') : s.Primes id s' := by
  obtain ⟨machine, hfades, hprime⟩ := h
  obtain ⟨registry, -, hs'⟩ := bind_eq_ok_iff.1 hr
  obtain rfl := Except.ok.inj hs'
  refine ⟨machine, hfades, ?_⟩
  rw [← region_modifyFiber (g := fun f => { f with continuation }) (fun _ => rfl) id] at hprime
  exact hprime

/-- Handing out a fiber primes the fiber's own stack and writes nowhere else. -/
theorem primes_create {continuation : Option ContinuationId}
    (hr : s.create t .pooled continuation = .ok (.ok id, s')) : s.Primes id s' := by
  obtain ⟨s₁, hreclaim, hr⟩ := bind_eq_ok_iff.1 hr
  obtain ⟨⟨made, s₂⟩, hsupply, hr⟩ := bind_eq_ok_iff.1 hr
  cases made with
  | error failure => simp at hr
  | ok j =>
    obtain ⟨s₃, henroll, hr⟩ := bind_eq_ok_iff.1 hr
    simp only [pure_eq_ok, Except.ok.injEq, Prod.mk.injEq] at hr
    obtain ⟨rfl, rfl⟩ := hr
    have hsupplied : s₁.Primes j s₂ := by
      simp only [supply] at hsupply
      split at hsupply
      · obtain ⟨s₄, hwake, hsupply⟩ := bind_eq_ok_iff.1 hsupply
        simp only [pure_eq_ok, Except.ok.injEq, Prod.mk.injEq] at hsupply
        obtain ⟨rfl, rfl⟩ := hsupply
        exact primes_wakeIdle hwake
      · exact primes_makeFiber hsupply
    obtain ⟨machine, hfades, hprime⟩ := hsupplied.enroll henroll
    exact ⟨machine, (fades_of_reclaim hreclaim).trans hfades, hprime⟩

end Create

end PooledFibers.FiberSystem
