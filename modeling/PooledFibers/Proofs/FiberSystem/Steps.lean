import Mathlib.Data.List.Basic
import Mathlib.Tactic.Common
import PooledFibers.Proofs.FiberSystem.Upkeep

/-!
# What the operations come to

Each operation of a fiber system is upkeep around a few steps that matter: a fiber is registered or
taken out of the registry, the current fiber is exchanged, a carrier comes or goes. The `_cases`
lemmas take the operations apart so.
-/

namespace PooledFibers

/-- The fibers have the same owner and stack and the same part in switches. -/
structure Fiber.Alike (f f' : Fiber) : Prop where
  owner : f'.owner = f.owner
  stack : f'.stack = f.stack
  state : f'.state = f.state
  bookmark : f'.bookmark = f.bookmark

theorem Fiber.Alike.refl (f : Fiber) : f.Alike f := ⟨rfl, rfl, rfl, rfl⟩

theorem Fiber.Alike.trans {f f' f'' : Fiber} (h : f.Alike f') (h' : f'.Alike f'') :
    f.Alike f'' :=
  ⟨h'.owner.trans h.owner, h'.stack.trans h.stack, h'.state.trans h.state,
    h'.bookmark.trans h.bookmark⟩

theorem Fiber.Alike.isThreadFiber {f f' : Fiber} (h : f.Alike f') :
    f'.isThreadFiber = f.isThreadFiber := by
  rw [Fiber.isThreadFiber, Fiber.isThreadFiber, lease?, lease?, h.stack]

namespace FiberSystem

open Outcome

variable {s s' s₁ : FiberSystem} {t u : ThreadToken} {c : Carrier} {id j : FiberId} {b : Bool}

section Ended

theorem Loose.same (h : s.Loose t id) (hs : s.SamePlaces s') : s'.Loose t id where
  owns := (owns_of_eq hs.fibers).2 h.owns
  unregistered := hs.registry ▸ h.unregistered
  not_ended c hc := h.not_ended c (hs.carrier? t ▸ hc)

theorem Loose.modifyFiber (h : s.Loose t id) {g : Fiber → Fiber}
    (hg : ∀ f, (g f).owner = f.owner ∧ (g f).isThreadFiber = f.isThreadFiber) (j : FiberId) :
    (s.modifyFiber j g).Loose t id where
  owns := (owns_modifyFiber hg id).2 h.owns
  unregistered := h.unregistered
  not_ended := h.not_ended

theorem upkeep_reapAll {ids : List FiberId} (hr : s.reapAll ids = .ok s') : s.Upkeep s' := by
  induction ids generalizing s with
  | nil => exact Except.ok.inj hr ▸ .refl s
  | cons id rest ih =>
    obtain ⟨s₁, hreap, hr⟩ := bind_eq_ok_iff.1 hr
    exact (Upkeep.reap hreap).trans (ih hr)

theorem upkeep_parkOrRelease (hid : s.Loose t id) (hr : s.parkOrRelease t id = .ok s') :
    s.Upkeep s' := by
  simp only [parkOrRelease] at hr
  split_ifs at hr
  · exact Except.ok.inj hr ▸ (Upkeep.park hid).trans (.same (same_record _ _ _))
  · exact .reap hr

/-- A fiber that its carrier lets go of is loose. -/
theorem Sound.loose_of_mem_ended (h : s.Sound) {g : Carrier → Carrier}
    (hg : ∀ c, (g c).token = c.token) (hc : s.carrier? t = some c) (hid : id ∈ c.ended)
    (hgone : id ∉ (g c).ended) : (s.modifyCarrier t g).Loose t id where
  owns := ((h.carries t c hc).ended id hid).1
  unregistered := ((h.carries t c hc).ended id hid).2
  not_ended c' hc' := by
    rw [carrier?_modifyCarrier hg, if_pos rfl, hc] at hc'
    exact Option.some.inj hc' ▸ hgone

theorem upkeep_reclaim (h : s.Sound) (hr : s.reclaim t = .ok s') : s.Upkeep s' := by
  simp only [reclaim] at hr
  split at hr <;> rename_i hpending
  · exact Except.ok.inj hr ▸ .refl s
  · rename_i id
    cases hc : s.carrier? t with
    | none => simp [carrier, hc, default] at hpending
    | some c =>
      rw [carrier_eq hc] at hpending
      have hnodup := (h.carries t c hc).nodup
      simp only [Carrier.ended, hpending, Option.toList_some, List.singleton_append,
        List.nodup_cons] at hnodup
      have hid : (s.modifyCarrier t fun c => { c with pending := none }).Loose t id :=
        h.loose_of_mem_ended (fun _ => rfl) hc (by simp [Carrier.ended, hpending])
          (by simpa [Carrier.ended] using hnodup.1)
      have hease : s.Upkeep (s.modifyCarrier t fun c => { c with pending := none }) :=
        .ease (fun _ => rfl) fun c _ => List.sublist_append_right _ _
      exact hease.trans (upkeep_parkOrRelease hid hr)

end Ended

section Create

theorem upkeep_renew (hid : s.Loose t id) (hr : s.renew id = .ok s') :
    s.Upkeep s' ∧ s'.Loose t id := by
  simp only [renew] at hr
  split_ifs at hr
  obtain rfl := Except.ok.inj hr
  have hsame : s.Same (s.withMachine (Fiber.prime s.machine (s.fiber id).region.base)) :=
    same_withMachine (Machine.keeps_writeAll _ _)
  have hid' := hid.same hsame.toSamePlaces
  exact ⟨(Upkeep.same hsame).trans (.renew hid'),
    hid'.modifyFiber (g := Fiber.renewed) (fun _ => ⟨rfl, rfl⟩) id⟩

/-- The fiber parked last is made as new. -/
theorem upkeep_wakeIdle {rest : List FiberId} (h : s.Sound) (hc : s.carrier? t = some c)
    (hidle : c.idle = id :: rest) (hr : s.wakeIdle t id rest = .ok s') :
    s.Upkeep s' ∧ s'.Loose t id := by
  obtain ⟨s₁, hrenew, hr⟩ := bind_eq_ok_iff.1 hr
  obtain rfl := Except.ok.inj hr
  have hhold := same_held s (id :: s.held)
  have hnodup := (h.carries t c hc).nodup
  simp only [Carrier.ended, hidle, List.nodup_append, List.nodup_cons] at hnodup
  have hid : ((s.hold id).modifyCarrier t fun c => { c with idle := rest }).Loose t id := by
    refine (h.same hhold.toSamePlaces).loose_of_mem_ended (fun _ => rfl) hc ?_ ?_
    · simp [Carrier.ended, hidle]
    · simp only [Carrier.ended, List.mem_append, not_or]
      exact ⟨fun hmem => hnodup.2.2 id hmem id List.mem_cons_self rfl, hnodup.2.1.1⟩
  have hease : (s.hold id).Upkeep
      ((s.hold id).modifyCarrier t fun c => { c with idle := rest }) := by
    refine .ease (fun _ => rfl) fun c' hc' => ?_
    obtain rfl : c = c' := Option.some.inj (hc.symm.trans hc')
    simp [Carrier.ended, hidle]
  obtain ⟨hrenewed, hid⟩ := upkeep_renew hid hrenew
  have hrecord : s₁.Same ((s₁.recordIdle t).record t Statistics.recordReused) :=
    (same_record _ _ _).trans (same_record _ _ _)
  exact ⟨.trans (.same hhold) (hease.trans (hrenewed.trans (.same hrecord))),
    hid.same hrecord.toSamePlaces⟩

/-- A fiber that is not made yet is nowhere to be found. -/
theorem Sound.not_owns_nextFiber (h : s.Sound) : ¬s.Owns t b s.nextFiber := by
  rintro ⟨f, hf, -⟩
  exact Option.some_ne_none f (hf.symm.trans h.nextFiber_not_made)

theorem Sound.loose_of_make (h : s.Sound) {f : Fiber} (hf : f.id = s.nextFiber)
    (howner : f.owner = t) (hheap : f.isThreadFiber = false) :
    (s.addFiber f).Loose t s.nextFiber where
  owns := by
    refine ⟨f, ?_, howner, hheap⟩
    simp [FiberSystem.addFiber, hf]
  unregistered := by
    refine Bool.eq_false_iff.2 fun hid => ?_
    obtain ⟨_, _, _, howns, -⟩ := h.registered _ hid
    exact h.not_owns_nextFiber howns
  not_ended c hc hid := h.not_owns_nextFiber ((h.carries t c hc).ended _ hid).1

theorem upkeep_makeFiber {made : Except Failure FiberId} (h : s.Sound)
    (hc : s.carrier? t = some c) (hr : s.makeFiber t = .ok (made, s')) :
    s.Upkeep s' ∧ ∀ id, made = .ok id → s'.Loose t id := by
  obtain ⟨⟨_ | lease, pool⟩, hacquire, hr⟩ := bind_eq_ok_iff.1 hr <;>
    simp only [pure_eq_ok, Except.ok.injEq, Prod.mk.injEq] at hr <;> obtain ⟨rfl, rfl⟩ := hr
  · exact ⟨.makeNone hacquire, by simp⟩
  · set fiber := Fiber.ofLease s.nextFiber t (s.carrier t).name lease s.settings.verifyOnYield
    have hpool : { s with pool }.Sound := h.same ⟨rfl, rfl, rfl, rfl, rfl, rfl⟩
    have hmake : s.Upkeep ({ s with pool }.addFiber fiber) := .make hc hacquire
    have hloose := hpool.loose_of_make (f := fiber) rfl rfl rfl
    have hsame : ({ s with pool }.addFiber fiber).Same
        (((({ s with pool }.addFiber fiber).withMachine
          (Fiber.prime pool.machine lease.base)).hold s.nextFiber).record t
            Statistics.recordCreated) :=
      (same_withMachine (Machine.keeps_writeAll _ _)).trans
        ((same_held _ _).trans (same_record _ _ _))
    refine ⟨hmake.trans (.same hsame), ?_⟩
    rintro id ⟨⟩
    exact hloose.same hsame.toSamePlaces

theorem upkeep_supply {made : Except Failure FiberId} (h : s.Sound)
    (hc : s.carrier? t = some c) (hr : s.supply t = .ok (made, s')) :
    s.Upkeep s' ∧ ∀ id, made = .ok id → s'.Loose t id := by
  simp only [supply, carrier_eq hc] at hr
  split at hr <;> rename_i hidle
  · obtain ⟨s₁, hwake, hr⟩ := bind_eq_ok_iff.1 hr
    simp only [pure_eq_ok, Except.ok.injEq, Prod.mk.injEq] at hr
    obtain ⟨rfl, rfl⟩ := hr
    obtain ⟨hupkeep, hloose⟩ := upkeep_wakeIdle h hc hidle hwake
    exact ⟨hupkeep, fun id hid => Except.ok.inj hid ▸ hloose⟩
  · exact upkeep_makeFiber h hc hr

/-- A fiber is handed out if one can be had; else nothing but upkeep is done. -/
theorem create_cases {request : StackRequest} {continuation : Option ContinuationId}
    {outcome : Except Failure FiberId} (h : s.Sound) (hc : s.carrier? t = some c)
    (hr : s.create t request continuation = .ok (outcome, s')) :
    (s.Upkeep s' ∧ (request = .pooled → ∃ failure, outcome = .error failure))
      ∨ request = .pooled ∧ ∃ id s₁, outcome = .ok id ∧ s.Upkeep s₁ ∧ s₁.Loose t id
        ∧ s₁.enroll id continuation = .ok s' := by
  cases request with
  | kernel =>
    simp only [create] at hr
    split_ifs at hr
    simp only [pure_eq_ok, Except.ok.injEq, Prod.mk.injEq] at hr
    exact .inl ⟨hr.2 ▸ .same (same_held _ _), by simp⟩
  | bytes size =>
    simp only [create, pure_eq_ok, Except.ok.injEq, Prod.mk.injEq] at hr
    exact .inl ⟨hr.2 ▸ .refl s, by simp⟩
  | pooled =>
    obtain ⟨s₁, hreclaim, hr⟩ := bind_eq_ok_iff.1 hr
    have hreclaimed := upkeep_reclaim h hreclaim
    obtain ⟨c₁, hc₁, -⟩ := hreclaimed.exists_carrier hc
    obtain ⟨⟨made, s₂⟩, hsupply, hr⟩ := bind_eq_ok_iff.1 hr
    obtain ⟨hsupplied, hloose⟩ := upkeep_supply (hreclaimed.sound h) hc₁ hsupply
    cases made with
    | error failure =>
      simp only [pure_eq_ok, Except.ok.injEq, Prod.mk.injEq] at hr
      exact .inl ⟨hr.2 ▸ hreclaimed.trans hsupplied, fun _ => ⟨failure, hr.1.symm⟩⟩
    | ok id =>
      obtain ⟨s₃, hregister, hr⟩ := bind_eq_ok_iff.1 hr
      simp only [pure_eq_ok, Except.ok.injEq, Prod.mk.injEq] at hr
      obtain ⟨rfl, rfl⟩ := hr
      exact .inr ⟨rfl, id, s₂, rfl, hreclaimed.trans hsupplied, hloose id rfl, hregister⟩

end Create

section Withdraw

/-- Some fibers, and no others, are taken out of the registry. -/
structure Deregistered (s : FiberSystem) (ids : List FiberId) (s' : FiberSystem) : Prop where
  settings : s'.settings = s.settings
  tokensGiven : s'.tokensGiven = s.tokensGiven
  isRegistered : ∀ j, s'.registry.isRegistered j = true
    ↔ j ∉ ids ∧ s.registry.isRegistered j = true
  was_registered : ∀ j ∈ ids, s.registry.isRegistered j = true
  carrier? : ∀ u, s'.carrier? u = s.carrier? u
  get? : ∀ j, j ∉ ids → s'.fibers.get? j = s.fibers.get? j
  alike : ∀ j f', s'.fibers.get? j = some f' → ∃ f, s.fibers.get? j = some f ∧ f.Alike f'

theorem deregistered_of_unregister (h : s.registry.Sound) (hr : s.unregister id = .ok s') :
    s.Deregistered [id] s' := by
  obtain ⟨hid, registry, rfl, -, hregistry⟩ := unregister_cases h hr
  refine ⟨rfl, rfl, fun j => ?_, fun j hj => ?_, fun _ => rfl, fun _ _ => rfl, fun _ f hf => ?_⟩
  · simp [hregistry]
  · exact List.mem_singleton.1 hj ▸ hid
  · exact ⟨f, hf, .refl f⟩

theorem deregistered_of_withdraw (h : s.registry.Sound) (hr : s.withdraw id = .ok s') :
    s.Deregistered [id] s' := by
  obtain ⟨settings, tokensGiven, isRegistered, was_registered, carrier?, hget, halike⟩ :=
    deregistered_of_unregister (s := s.modifyFiber id fun f => { f with continuation := none }) h hr
  refine ⟨settings, tokensGiven, isRegistered, was_registered, carrier?, fun j hj => ?_,
    fun j f' hf' => ?_⟩
  · refine (hget j hj).trans ((Table.get?_modify _ _ _ _).trans (if_neg ?_))
    simpa using hj
  · obtain ⟨f₁, hf₁, halike⟩ := halike j f' hf'
    replace hf₁ := (Table.get?_modify _ _ _ _).symm.trans hf₁
    split_ifs at hf₁
    · obtain ⟨f, hf, rfl⟩ := Option.map_eq_some_iff.1 hf₁
      exact ⟨f, hf, halike.owner, halike.stack, halike.state, halike.bookmark⟩
    · exact ⟨f₁, hf₁, halike⟩

theorem Deregistered.trans {ids ids' : List FiberId} (h : s.Deregistered ids s₁)
    (h' : s₁.Deregistered ids' s') : s.Deregistered (ids ++ ids') s' := by
  refine ⟨h'.settings.trans h.settings, h'.tokensGiven.trans h.tokensGiven, fun j => ?_,
    fun j hj => ?_, fun u => (h'.carrier? u).trans (h.carrier? u), fun j hj => ?_, fun j f'' hf'' => ?_⟩
  · rw [h'.isRegistered, h.isRegistered, List.mem_append, not_or]
    tauto
  · rcases List.mem_append.1 hj with hj | hj
    · exact h.was_registered j hj
    · exact ((h.isRegistered j).1 (h'.was_registered j hj)).2
  · rw [List.mem_append, not_or] at hj
    rw [h'.get? j hj.2, h.get? j hj.1]
  · obtain ⟨f', hf', halike'⟩ := h'.alike j f'' hf''
    obtain ⟨f, hf, halike⟩ := h.alike j f' hf'
    exact ⟨f, hf, halike.trans halike'⟩

theorem Sound.withdraw (h : s.Sound) (hr : s.withdraw id = .ok s') : s'.Sound :=
  (h.modifyFiber (g := fun f => { f with continuation := none }) (fun _ => ⟨rfl, rfl⟩) id).unregister hr

/-- A registered heap fiber is loose once it is withdrawn. -/
theorem Sound.loose_of_withdraw (h : s.Sound) (hid : s.Owns t false id)
    (hr : s.withdraw id = .ok s') : s'.Loose t id := by
  obtain ⟨hregistered, registry, rfl, -, hregistry⟩ := unregister_cases
    (s := s.modifyFiber id fun f => { f with continuation := none }) h.registry hr
  refine ⟨?_, by simp [hregistry], fun c hc hmem => ?_⟩
  · exact (owns_modifyFiber (g := fun f => { f with continuation := none })
      (fun _ => ⟨rfl, rfl⟩) id).2 hid
  · have hnot := ((h.carries t c hc).ended id hmem).2
    exact Bool.noConfusion (hregistered.symm.trans hnot)

theorem owns_of_not_isThreadFiber (h : (s.fiber id).isThreadFiber = false) :
    s.Owns (s.fiber id).owner false id := by
  cases hf : s.fibers.get? id with
  | none => simp [fiber, hf, default, Fiber.ofThread, Fiber.isThreadFiber, Fiber.lease?] at h
  | some f =>
    rw [fiber_eq hf] at h ⊢
    exact ⟨f, hf, rfl, h⟩

theorem retire_cases (hr : s.retire t id = .ok s') :
    s.Owns t false id ∧ (s.carrier t).current ≠ id
      ∧ ∃ s₁, s.withdraw id = .ok s₁ ∧ s₁.Same s' := by
  simp only [retire, check_eq_ok_iff, not_not] at hr
  obtain ⟨howner, hheap, hcurrent, hr⟩ := hr
  obtain ⟨s₁, hwithdraw, hr⟩ := bind_eq_ok_iff.1 hr
  refine ⟨?_, hcurrent, s₁, hwithdraw, Except.ok.inj hr ▸ same_record _ _ _⟩
  exact howner ▸ owns_of_not_isThreadFiber (by simpa using hheap)

theorem terminate_cases (h : s.Sound) (hr : s.terminate t id = .ok s') :
    s.Owns t false id ∧ (s.carrier t).current ≠ id
      ∧ ∃ s₁, s.withdraw id = .ok s₁ ∧ s₁.Upkeep s' := by
  obtain ⟨s₂, hretire, hr⟩ := bind_eq_ok_iff.1 hr
  obtain ⟨howns, hcurrent, s₁, hwithdraw, hsame⟩ := retire_cases hretire
  have hloose := (h.loose_of_withdraw howns hwithdraw).same hsame.toSamePlaces
  have hunhold := same_held s₂ (s₂.held.erase id)
  refine ⟨howns, hcurrent, s₁, hwithdraw, .trans (.same (hsame.trans hunhold)) ?_⟩
  exact upkeep_parkOrRelease (hloose.same hunhold.toSamePlaces) hr

end Withdraw

end FiberSystem

end PooledFibers
