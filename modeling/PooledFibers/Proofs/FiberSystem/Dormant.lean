import Mathlib.Tactic.Common
import PooledFibers.Proofs.Fiber.Reads
import PooledFibers.Proofs.FiberSystem.Detachment
import PooledFibers.Proofs.FiberSystem.Moves

/-!
# Fibers that have not run

A fiber that is handed out has not run, and this stays so for as long as it is not switched to and
the host does not set its resume point (`Dormant.perform`), even if it is ended, parked and handed
out again.
-/

namespace PooledFibers

section Unstarted

variable {f : Fiber} {base : Nat}

theorem Fiber.Unstarted.renewed (h : f.Unstarted base) : f.renewed.Unstarted base where
  heap := h.heap
  region := h.region
  state := rfl
  entered := rfl
  resume := congrArg (some ∘ primedResume) h.region

theorem Fiber.Unstarted.continuation (h : f.Unstarted base)
    (continuation : Option ContinuationId) : { f with continuation }.Unstarted base :=
  ⟨h.heap, h.region, h.state, h.entered, h.resume⟩

/-- The fiber of a switch that leaves it is suspended, as this one is. -/
theorem Fiber.Unstarted.left (h : f.Unstarted base) : { f with state := .onStack }.Unstarted base :=
  ⟨h.heap, h.region, rfl, h.entered, h.resume⟩

end Unstarted

namespace FiberSystem

open Outcome

/-- The fiber has been made, and if it still exists it has not run. -/
structure Dormant (s : FiberSystem) (id : FiberId) (base : Nat) : Prop where
  made : s.Made id
  unstarted : ∀ f, s.fibers.get? id = some f → f.Unstarted base

/-- The operation is no switch to the fiber, and it is not the host that sets its resume point or
writes to the primed words of its stack. -/
def LeavesAlone (id : FiberId) (base : Nat) : Operation → Prop
  | .perform _ (.switch target _) => target ≠ id
  | .saveResume fiber _ => fiber ≠ id
  | .write address words => AddressRange.Apart
      ⟨address, address + Word.bytes * words.length⟩ ⟨Fiber.primedResume base, base⟩
  | _ => True

variable {s s' s₁ : FiberSystem} {t : ThreadToken} {c : Carrier} {id j : FiberId}
  {ids : List FiberId} {base : Nat}

theorem Made.ne_nextFiber (h : s.Made id) : id ≠ s.nextFiber := by
  exact Identities.Given.ne_next h

section Changes

theorem Dormant.of_eq (h : s.Dormant id base) (hfibers : s'.fibers = s.fibers)
    (hmade : s'.identities = s.identities) : s'.Dormant id base where
  made := by rw [Made, hmade]; exact h.made
  unstarted := by rw [hfibers]; exact h.unstarted

theorem Dormant.same (h : s.Dormant id base) (hs : s.SamePlaces s') : s'.Dormant id base :=
  h.of_eq hs.fibers hs.identities

theorem Dormant.modifyFiber {g : Fiber → Fiber} (h : s.Dormant id base)
    (hg : id = j → ∀ f, f.Unstarted base → (g f).Unstarted base) :
    (s.modifyFiber j g).Dormant id base := by
  refine ⟨h.made, fun f hf => ?_⟩
  simp only [FiberSystem.modifyFiber, Table.get?_modify] at hf
  split_ifs at hf with heq
  · obtain ⟨f₀, hf₀, rfl⟩ := Option.map_eq_some_iff.1 hf
    exact hg heq f₀ (h.unstarted f₀ hf₀)
  · exact h.unstarted f hf

/-- Another fiber is made. -/
theorem Dormant.insert {fiber : Fiber} (h : s.Dormant id base)
    (hmade : s'.identities = s.identities.advance)
    (hfibers : s'.fibers = s.fibers.insert s.nextFiber fiber) : s'.Dormant id base := by
  refine ⟨?_, fun f hf => ?_⟩
  · rw [Made, hmade]
    exact h.made.mono s.identities.precedes_advance
  · rw [hfibers, Table.get?_insert, if_neg h.made.ne_nextFiber] at hf
    exact h.unstarted f hf

theorem Dormant.reap (h : s.Dormant id base) (hr : s.reap j = .ok s') : s'.Dormant id base := by
  obtain rfl | ⟨-, _, _, -, -, -, rfl⟩ := reap_cases hr
  · exact h
  · refine ⟨h.made, fun f hf => ?_⟩
    simp only [Table.get?_erase] at hf
    split_ifs at hf
    exact h.unstarted f hf

theorem Dormant.register (h : s.Dormant id base) (hr : s.register j = .ok s') :
    s'.Dormant id base := by
  obtain ⟨registry, -, rfl⟩ := register_eq_ok_iff.1 hr
  exact h.of_eq rfl rfl

theorem Dormant.unregister (h : s.Dormant id base) (hr : s.unregister j = .ok s') :
    s'.Dormant id base := by
  obtain ⟨registry, -, rfl⟩ := unregister_eq_ok_iff.1 hr
  exact h.of_eq rfl rfl

theorem Dormant.enroll {continuation : Option ContinuationId} (h : s.Dormant id base)
    (hr : s.enroll j continuation = .ok s') : s'.Dormant id base := by
  have hchanged := h.modifyFiber (j := j) (g := fun f => { f with continuation })
    fun _ _ hf => hf.continuation continuation
  exact hchanged.register hr

theorem Dormant.withdraw (h : s.Dormant id base) (hr : s.withdraw j = .ok s') :
    s'.Dormant id base := by
  have hchanged := h.modifyFiber (j := j) (g := fun f => { f with continuation := none })
    fun _ _ hf => hf.continuation none
  exact hchanged.unregister hr

theorem Dormant.withdrawAll (h : s.Dormant id base) (hr : s.withdrawAll ids = .ok s') :
    s'.Dormant id base := by
  induction ids generalizing s with
  | nil => exact Except.ok.inj hr ▸ h
  | cons j rest ih =>
    obtain ⟨s₁, hwithdraw, hr⟩ := bind_eq_ok_iff.1 hr
    exact ih (h.withdraw hwithdraw) hr

/-- A fiber that is primed anew has not run either. -/
theorem Dormant.upkeep (h : s.Dormant id base) (hu : s.Upkeep s') : s'.Dormant id base := by
  induction hu with
  | same hs => exact h.same hs.toSamePlaces
  | reap hr => exact h.reap hr
  | renew _ => exact h.modifyFiber fun _ _ hf => hf.renewed
  | make _ _ => exact h.insert rfl rfl
  | lease hl => exact h.same (samePlaces_of_lease hl)
  | unlease _ hl => exact h.same (samePlaces_of_unlease hl)
  | trans _ _ ih ih' => exact ih' (ih h)
  | _ => exact h.of_eq rfl rfl

end Changes

section Operations

theorem Dormant.attach {thread : Nat} {name : String} {bounds : Except IoError StackBounds}
    {outcome : Except Failure ThreadToken} (h : s.Dormant id base)
    (hr : s.attach thread name bounds = .ok (outcome, s')) : s'.Dormant id base := by
  obtain ⟨rfl, -⟩ | ⟨-, region, registry, statistics, slot, -, -, rfl⟩ := attach_cases hr
  · exact h
  · exact h.insert rfl rfl

theorem Dormant.create {request : StackRequest} {continuation : Option ContinuationId}
    {outcome : Except Failure FiberId} (h : s.Dormant id base) (hs : s.Sound)
    (hc : s.carrier? t = some c) (hr : s.create t request continuation = .ok (outcome, s')) :
    s'.Dormant id base := by
  obtain ⟨hupkeep, -⟩ | ⟨-, j, s₁, -, hupkeep, -, henroll⟩ := create_cases hs hc hr
  · exact h.upkeep hupkeep
  · exact (h.upkeep hupkeep).enroll henroll

theorem Dormant.terminate (h : s.Dormant id base) (hs : s.Sound)
    (hr : s.terminate t j = .ok s') : s'.Dormant id base := by
  obtain ⟨-, -, s₁, hwithdraw, hupkeep⟩ := terminate_cases hs hr
  exact (h.withdraw hwithdraw).upkeep hupkeep

theorem Dormant.exchange {target : FiberId} (h : s.Dormant id base) (hne : id ≠ target)
    (t : ThreadToken) (source : FiberId) : (s.exchange t source target).Dormant id base := by
  have hleft := h.modifyFiber (j := source) (g := fun f => { f with state := .onStack })
    fun _ _ hf => hf.left
  have hentered := hleft.modifyFiber (j := target)
    (g := fun f => { f with state := .current, entered := true }) fun heq => absurd heq hne
  exact hentered.of_eq rfl rfl

/-- A switch to another fiber. -/
theorem Dormant.enter {target : FiberId} {kind : SwitchKind} (h : s.Dormant id base) (hs : s.Sound)
    (hc : s.carrier? t = some c) (hne : id ≠ target)
    (hr : s.enter t target kind = .ok s') : s'.Dormant id base := by
  simp only [FiberSystem.enter, carrier_eq hc] at hr
  obtain ⟨⟨⟩, hcheck, hr⟩ := bind_eq_ok_iff.1 hr
  obtain ⟨s₁, hverify, hr⟩ := bind_eq_ok_iff.1 hr
  obtain ⟨-, hsound⟩ := move_of_exchanged hs hc hcheck hverify
  obtain ⟨f, hf, -⟩ := hs.exists_fiber hc (checkTarget_cases hcheck).1
  have hverified : s₁.Dormant id base := by
    obtain ⟨-, bookmark, -, ⟨rfl, -⟩ | rfl⟩ := verifySwitch_cases hf hverify
    · exact h
    · exact h.modifyFiber fun heq => absurd heq hne
  have hexchanged : { s₁.exchange t c.current target with
      calls := ⟨t, kind, c.current, target⟩ :: s₁.calls }.Dormant id base :=
    (hverified.exchange hne t c.current).of_eq rfl rfl
  cases kind with
  | returning => exact Except.ok.inj hr ▸ hexchanged
  | terminating =>
    obtain ⟨-, -, s₂, hwithdraw, hupkeep⟩ := retireSource_cases hsound hr
    exact (hexchanged.withdraw hwithdraw).upkeep hupkeep

theorem Dormant.returnFrom {call : SwitchCall} (h : s.Dormant id base) (hs : s.Sound)
    (hr : s.returnFrom call = .ok s') : s'.Dormant id base := by
  obtain ⟨s₁, hreclaim, hr⟩ := bind_eq_ok_iff.1 hr
  have hreclaimed := h.upkeep (upkeep_reclaim hs hreclaim)
  exact (hreclaimed.same (same_calls s₁ _).toSamePlaces).upkeep (upkeep_reapAll hr)

theorem Dormant.detach (h : s.Dormant id base) (hr : s.detach t = .ok s') : s'.Dormant id base := by
  obtain ⟨s₁, hended, hr⟩ := bind_eq_ok_iff.1 hr
  obtain ⟨orphans, -, hr⟩ := bind_eq_ok_iff.1 hr
  obtain ⟨s₂, hdisown, hr⟩ := bind_eq_ok_iff.1 hr
  obtain ⟨s₃, hsignOff, hr⟩ := bind_eq_ok_iff.1 hr
  obtain ⟨s₄, hreap, hdrop⟩ := bind_eq_ok_iff.1 hr
  obtain ⟨s₅, hunregister, hrecord⟩ := bind_eq_ok_iff.1 hsignOff
  have h₁ := h.upkeep (upkeep_dropEnded hended)
  have h₂ : s₂.Dormant id base := by
    cases orphans with
    | nil => exact Except.ok.inj hdisown ▸ h₁
    | cons j rest => exact (h₁.same (same_notice s₁ _).toSamePlaces).withdrawAll hdisown
  have h₃ : s₃.Dormant id base := Except.ok.inj hrecord ▸
    (h₂.unregister hunregister).same (same_record s₅ t Statistics.unregister).toSamePlaces
  have h₄ : { s₄ with carriers := s₄.carriers.filter fun c => c.token ≠ t }.Dormant id base :=
    (h₃.upkeep (upkeep_reapAll hreap)).of_eq rfl rfl
  exact h₄.upkeep (upkeep_reapAll hdrop)

theorem Dormant.performOn {operation : ThreadOperation} {e : Option Event} (h : s.Dormant id base)
    (hs : s.Sound) (hc : s.carrier? t = some c) (halone : LeavesAlone id base (.perform t operation))
    (hr : s.performOn t c operation = .ok (s', e)) : s'.Dormant id base := by
  cases operation with
  | create request continuation =>
    obtain ⟨⟨outcome, s₁⟩, hcreate, heq⟩ := map_eq_ok_iff.1 hr
    obtain ⟨rfl, -⟩ := Prod.mk.inj heq
    exact h.create hs hc hcreate
  | terminate fiber => exact h.terminate hs (eq_ok_of_map_mk hr)
  | switch target kind => exact h.enter hs hc (Ne.symm halone) (eq_ok_of_map_mk hr)
  | reclaim => exact h.upkeep (upkeep_reclaim hs (eq_ok_of_map_mk hr))
  | detach => exact h.detach (eq_ok_of_map_mk hr)
  | scratch operation =>
    obtain ⟨scratch, -, heq⟩ := map_eq_ok_iff.1 hr
    obtain ⟨rfl, -⟩ := Prod.mk.inj heq
    exact h.of_eq rfl rfl
  | setMode mode =>
    obtain ⟨rfl, -⟩ := Prod.mk.inj (Except.ok.inj hr)
    exact h.of_eq rfl rfl

/-- Whatever happens to it but a switch to it and a new resume point, the fiber has not run. -/
theorem Dormant.perform {operation : Operation} {e : Option Event} (h : s.Dormant id base)
    (hs : s.Sound) (halone : LeavesAlone id base operation)
    (hr : s.perform operation = .ok (s', e)) : s'.Dormant id base := by
  cases performed_of_perform hr with
  | nothing => exact h
  | attach hattach => exact h.attach hattach
  | perform hc hperform => exact h.performOn hs hc halone hperform
  | returnFrom _ hreturn => exact h.returnFrom hs hreturn
  | drop hdrop => exact (h.same (same_held s _).toSamePlaces).reap hdrop
  | lease hlease => exact h.same (samePlaces_of_lease hlease)
  | unlease _ hunlease => exact h.same (samePlaces_of_unlease hunlease)
  | saveResume => exact h.modifyFiber fun heq => absurd heq (Ne.symm halone)
  | hold _ | write | addContinuation | dropContinuation => exact h.of_eq rfl rfl

end Operations

end FiberSystem

end PooledFibers
