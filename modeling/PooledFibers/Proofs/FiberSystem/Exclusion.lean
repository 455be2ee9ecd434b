import Mathlib.Tactic.Common
import PooledFibers.Proofs.FiberSystem.Registration

/-!
# One fiber at a time

Of all fibers of an attached thread, only the one that its carrier has as current can be in the
state `current`, and only the one that it has as thread fiber is a thread fiber. So a scanner that
leaves out the fibers in the state `current` leaves out at most one of each thread, and a request
for the thread's own stack is answered by the thread fiber or is fatal (`Run.exclusive_of_after`).
-/

namespace PooledFibers

namespace FiberSystem

open Outcome

variable {s s' s₁ : FiberSystem} {t : ThreadToken} {c : Carrier} {id target : FiberId} {f : Fiber}
  {e : Option Event}

/-- All fibers of an attached thread that have a property are the one that its carrier names. -/
def Sole (s : FiberSystem) (p : Fiber → Prop) (named : FiberId × FiberId → FiberId) : Prop :=
  ∀ id f, s.fibers.get? id = some f → p f → f.owner.number ≤ s.tokensGiven
    ∧ ∀ c, s.carrier? f.owner = some c → named c.place = id

section Sole

variable {p : Fiber → Prop} {named : FiberId × FiberId → FiberId}

theorem Sole.calm (h : s.Sole p named) (hfresh : ∀ f, f.IsFresh → ¬p f)
    (halike : ∀ f f', Fiber.Alike f f' → p f' → p f) (hs : s.Calm s')
    (hplaces : ∀ u c', s'.carrier? u = some c' →
      (s'.carrier? u).map Carrier.place = (s.carrier? u).map Carrier.place) :
    s'.Sole p named := by
  intro id f' hf' hp'
  obtain hnew | ⟨f, hf, ha⟩ := hs.fiber_cases id f' hf'
  · exact absurd hp' (hfresh f' hnew)
  obtain ⟨hgiven, hnamed⟩ := h id f hf (halike f f' ha hp')
  rw [ha.owner, hs.tokensGiven]
  refine ⟨hgiven, fun c' hc' => ?_⟩
  have hplace := hplaces f.owner c' hc'
  rw [hc', Option.map_some, eq_comm, Option.map_eq_some_iff] at hplace
  obtain ⟨c, hc, hplace⟩ := hplace
  rw [← hplace]
  exact hnamed c hc

/-- The fiber of a thread that comes is both its thread fiber and its current fiber. -/
theorem Sole.attached (h : s.Sole p named) (hnamed : ∀ id, named (id, id) = id)
    (ha : s.Attached s') : s'.Sole p named := by
  obtain ⟨c₀, hplace, hcarrier⟩ := ha.carrier?
  obtain ⟨name, region, hget⟩ := ha.get?
  intro id f hf hp
  rw [hget] at hf
  rw [ha.tokensGiven]
  split_ifs at hf with hid
  · obtain rfl := Option.some.inj hf
    refine ⟨Nat.le_refl _, fun c hc => ?_⟩
    replace hc := (hcarrier s.nextToken).symm.trans hc
    rw [if_pos rfl] at hc
    rw [← Option.some.inj hc, hplace, hnamed, hid]
  · obtain ⟨hgiven, hunique⟩ := h id f hf hp
    refine ⟨Nat.le_succ_of_le hgiven, fun c hc => ?_⟩
    have hne : f.owner ≠ s.nextToken := by
      intro heq
      rw [heq] at hgiven
      exact absurd hgiven (Nat.not_succ_le_self _)
    rw [hcarrier, if_neg hne] at hc
    exact hunique c hc

/-- Only an exchange of current fibers has to be looked at for each property by itself. -/
theorem Sole.step (h : s.Sole p named) (hfresh : ∀ f, f.IsFresh → ¬p f)
    (halike : ∀ f f', Fiber.Alike f f' → p f' → p f) (hnamed : ∀ id, named (id, id) = id)
    (hexchange : ∀ t c target f s₁, s.carrier? t = some c → s.fibers.get? target = some f →
      f.owner = t → s.Exchanged t c.current target s₁ → s₁.Sole p named)
    (hstep : s.Step s' e) : s'.Sole p named := by
  cases hstep with
  | attach ha => exact h.attached hnamed ha
  | quiet hs _ hplaces => exact h.calm hfresh halike hs fun u _ _ => hplaces u
  | create hs _ _ _ _ hplaces => exact h.calm hfresh halike hs fun u _ _ => hplaces u
  | terminate _ he => exact h.calm hfresh halike he.toCalm fun u _ _ => he.places u
  | detach hs _ _ hplaces =>
    exact h.calm hfresh halike hs fun u c' hc' => (place_eq_of_detached hplaces hc').2
  | switch hc _ hf howner _ _ hx hkind =>
    have h₁ := hexchange _ _ _ _ _ hc hf howner hx
    obtain ⟨-, rfl⟩ | ⟨-, he⟩ := hkind
    · exact h₁
    · exact h₁.calm hfresh halike he.toCalm fun u _ _ => he.places u

end Sole

section ThreadFibers

/-- A thread has no thread fiber but its own. -/
def OneThreadFiber (s : FiberSystem) : Prop :=
  ∀ t id, s.Owns t true id → t.number ≤ s.tokensGiven
    ∧ ∀ c, s.carrier? t = some c → c.threadFiber = id

theorem oneThreadFiber_iff :
    s.OneThreadFiber ↔ s.Sole (fun f => f.isThreadFiber = true) Prod.fst := by
  constructor
  · intro h id f hf hthread
    exact h f.owner id ⟨f, hf, rfl, hthread⟩
  · rintro h t id ⟨f, hf, rfl, hthread⟩
    exact h id f hf hthread

theorem OneThreadFiber.exchanged {source : FiberId} (h : s.OneThreadFiber)
    (hf : s.fibers.get? target = some f) (hx : s.Exchanged t source target s') :
    s'.OneThreadFiber := by
  intro u id ho
  obtain ⟨hgiven, hunique⟩ := h u id ((hx.owns_iff hf).1 ho)
  refine ⟨hx.tokensGiven ▸ hgiven, fun c' hc' => ?_⟩
  obtain ⟨c, hc, hthread, -⟩ := hx.carrier_cases hc'
  exact hthread.trans (hunique c hc)

theorem OneThreadFiber.step (h : s.OneThreadFiber) (hstep : s.Step s' e) :
    s'.OneThreadFiber := by
  refine oneThreadFiber_iff.2 ((oneThreadFiber_iff.1 h).step ?_ ?_ (fun _ => rfl) ?_ hstep)
  · exact fun f hfresh hthread => Bool.noConfusion (hfresh.1.symm.trans hthread)
  · exact fun f f' ha hthread => ha.isThreadFiber.symm.trans hthread
  · exact fun t c target f s₁ _ hf _ hx => oneThreadFiber_iff.1 (h.exchanged hf hx)

theorem OneThreadFiber.ofFibers (hfibers : s.fibers = .empty) : s.OneThreadFiber := by
  rintro t id ⟨f, hf, -⟩
  simp [hfibers] at hf

/-- A current fiber of the thread other than its own is a heap fiber. -/
theorem OneThreadFiber.isThreadFiber_eq (h : s.OneThreadFiber) (hs : s.Sound)
    (hc : s.carrier? t = some c) (hf : s.fibers.get? c.current = some f)
    (hne : c.current ≠ c.threadFiber) : f.isThreadFiber = false := by
  obtain ⟨b, f', hf', howner, -⟩ := (hs.carries t c hc).current
  obtain rfl : f = f' := Option.some.inj (hf.symm.trans hf')
  refine Bool.eq_false_iff.2 fun hthread => hne ?_
  exact ((h t c.current ⟨f, hf, howner, hthread⟩).2 c hc).symm

end ThreadFibers

section CurrentFibers

/-- A thread has no fiber in the state `current` but its current one. -/
def OneCurrent (s : FiberSystem) : Prop := s.Sole (fun f => f.state = .current) Prod.snd

/-- The target becomes current, and the source, the only fiber of the thread that was in the state
`current`, leaves it. -/
theorem OneCurrent.exchanged (h : s.OneCurrent) (hs : s.Sound) (hc : s.carrier? t = some c)
    (hf : s.fibers.get? target = some f) (howner : f.owner = t)
    (hx : s.Exchanged t c.current target s') : s'.OneCurrent := by
  intro id f' hf' hstate
  by_cases htarget : id = target
  · subst htarget
    rw [hx.get?_target f hf] at hf'
    obtain rfl := Option.some.inj hf'
    refine ⟨?_, fun c' hc' => ?_⟩
    · rw [howner, hx.tokensGiven]
      exact (hs.carries t c hc).token.2
    · rw [howner, hx.carrier?_self hc] at hc'
      exact Option.some.inj hc' ▸ rfl
  have hsource : id ≠ c.current := by
    rintro rfl
    rw [hx.get?_source htarget, Option.map_eq_some_iff] at hf'
    obtain ⟨f₀, -, rfl⟩ := hf'
    exact FiberState.noConfusion hstate
  rw [hx.get? id hsource htarget] at hf'
  obtain ⟨hgiven, hcurrent⟩ := h id f' hf' hstate
  refine ⟨hx.tokensGiven ▸ hgiven, fun c' hc' => ?_⟩
  have hne : f'.owner ≠ t := by
    rintro rfl
    exact hsource (hcurrent c hc).symm
  rw [hx.carrier?, if_neg hne] at hc'
  exact hcurrent c' hc'

theorem OneCurrent.step (h : s.OneCurrent) (hs : s.Sound) (hstep : s.Step s' e) :
    s'.OneCurrent := by
  refine Sole.step h ?_ ?_ (fun _ => rfl) ?_ hstep
  · exact fun f hfresh hstate => FiberState.noConfusion (hfresh.2.1.symm.trans hstate)
  · exact fun f f' ha hstate => ha.state.symm.trans hstate
  · exact fun t c target f s₁ hc hf howner hx => h.exchanged hs hc hf howner hx

/-- The current fiber is a thread fiber exactly if it is the thread's own. -/
theorem OneThreadFiber.isThreadFiber_current_iff (h : s.OneThreadFiber) (hs : s.Sound)
    (hc : s.carrier? t = some c) :
    (s.fiber c.current).isThreadFiber = true ↔ c.current = c.threadFiber := by
  constructor
  · intro hthread
    obtain ⟨b, f, hf, -⟩ := (hs.carries t c hc).current
    rw [fiber_eq hf] at hthread
    by_contra hne
    exact Bool.noConfusion ((h.isThreadFiber_eq hs hc hf hne).symm.trans hthread)
  · intro heq
    obtain ⟨f, hf, -, hthread⟩ := (hs.carries t c hc).threadFiber
    rw [heq, fiber_eq hf]
    exact hthread

/-- A request for the thread's own stack. -/
theorem create_kernel (h : s.OneThreadFiber) (hs : s.Sound) (hc : s.carrier? t = some c)
    (continuation : Option ContinuationId) : s.create t .kernel continuation
      = if c.current = c.threadFiber then .ok (.ok c.threadFiber, s.hold c.threadFiber)
        else .error (.kernelRequestFromHeapFiber c.current) := by
  have hkind := h.isThreadFiber_current_iff hs hc
  simp only [create, carrier_eq hc]
  split_ifs with hthread hcurrent hcurrent
  · rw [hcurrent]
    rfl
  · exact absurd (hkind.1 hthread) hcurrent
  · exact absurd (hkind.2 hcurrent) hthread
  · rfl

end CurrentFibers

end FiberSystem

namespace Run

open FiberSystem

variable {host : Host} {settings : Settings} {provider : PageProvider} {policy : Option Bool}
  {s : FiberSystem}
  {operations : List Operation} {r : Run} {t : ThreadToken} {c : Carrier}

theorem sole_of_after (hs : FiberSystem.ofSettings host settings provider policy = .ok (.ok s))
    (hr : Run.after ⟨s, []⟩ operations = .ok r) :
    r.system.Sound ∧ r.system.OneThreadFiber ∧ r.system.OneCurrent := by
  obtain ⟨hsound, -, -, hfibers, -⟩ := sound_of_ofSettings hs
  refine after_induction (P := fun r =>
    r.system.Sound ∧ r.system.OneThreadFiber ∧ r.system.OneCurrent) ?_ hr
    ⟨hsound, .ofFibers hfibers, fun id f hf => ?_⟩
  · rintro r operation r' ⟨hsound, hthread, hcurrent⟩ hr
    obtain ⟨event, hperform, -⟩ := perform_eq_ok_iff.1 hr
    obtain ⟨hsound', hstep⟩ := hsound.perform hperform
    exact ⟨hsound', hthread.step hstep, hcurrent.step hsound hstep⟩
  · simp [hfibers] at hf

/-- The current fiber of an attached thread is the thread's, and no other fiber of the thread is in
the state `current`. A request for the thread's own stack is answered by the fiber with which the
thread attached, unless another fiber is current, which is fatal. -/
theorem exclusive_of_after (hs : FiberSystem.ofSettings host settings provider policy = .ok (.ok s))
    (hr : Run.after ⟨s, []⟩ operations = .ok r) (hc : r.system.carrier? t = some c) :
    (∃ b, r.system.Owns t b c.current)
      ∧ (∀ id f, r.system.fibers.get? id = some f → f.owner = t → f.state = .current →
        id = c.current)
      ∧ threadFiberOf t r.history = some c.threadFiber
      ∧ ∀ continuation, r.system.create t .kernel continuation
        = if c.current = c.threadFiber then
            .ok (.ok c.threadFiber, r.system.hold c.threadFiber)
          else .error (.kernelRequestFromHeapFiber c.current) := by
  obtain ⟨hsound, hthread, hcurrent⟩ := sole_of_after hs hr
  refine ⟨(hsound.carries t c hc).current, fun id f hf howner hstate => ?_, ?_, fun _ => ?_⟩
  · exact ((hcurrent id f hf hstate).2 c (howner ▸ hc)).symm
  · rw [(recorded_of_after hs hr).thread, hc, Option.map_some]
  · exact create_kernel hthread hsound hc _

/-- Two fibers are entered one inside the other, and the inner one ends. -/
theorem exclusive_of_nested_switches : ∃ s r c,
    FiberSystem.ofSettings .simulated { registryShards := 2, verifyOnYield := true }
        ({} : Simulation).provider none = .ok (.ok s)
      ∧ Run.after ⟨s, []⟩
          [.attach 1 "main" (.ok ⟨0x10000000, 0x100000⟩), .perform ⟨1⟩ (.create .pooled none),
           .perform ⟨1⟩ (.create .pooled none),
           .perform ⟨1⟩ (.switch (.ofNumber 1) .returning),
           .perform ⟨1⟩ (.switch (.ofNumber 2) .returning),
           .perform ⟨1⟩ (.scratch (.enter .nativeCalls)),
           .perform ⟨1⟩ (.switch (.ofNumber 0) .terminating)] = .ok r
      ∧ r.system.carrier? ⟨1⟩ = some c
      ∧ (∃ b, r.system.Owns ⟨1⟩ b c.current)
      ∧ (∀ id f, r.system.fibers.get? id = some f → f.owner = ⟨1⟩ → f.state = .current →
        id = c.current)
      ∧ threadFiberOf ⟨1⟩ r.history = some c.threadFiber
      ∧ ∀ continuation, r.system.create ⟨1⟩ .kernel continuation
        = if c.current = c.threadFiber then
            .ok (.ok c.threadFiber, r.system.hold c.threadFiber)
          else .error (.kernelRequestFromHeapFiber c.current) := by
  refine ⟨?s, ?r, ?c, ?hs, ?hr, ?hc, exclusive_of_after ?hs ?hr ?hc⟩
  case hs => rfl
  case hr => rfl
  case hc => rfl

end Run

end PooledFibers
