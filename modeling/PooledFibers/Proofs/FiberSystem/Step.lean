import Mathlib.Data.List.Basic
import Mathlib.Tactic.Common
import PooledFibers.Proofs.FiberSystem.Detachment
import PooledFibers.Proofs.FiberSystem.Entry
import PooledFibers.Proofs.FiberSystem.Run

/-!
# The steps of a run

Seen from the registry and the current fibers, an operation of a run is one of six steps: nothing
happens, a thread comes or goes, a fiber is handed out or ends, or the current fiber is exchanged
(`Sound.perform`). An invariant of all runs has these six cases.
-/

namespace PooledFibers

/-- The fibers to which a carrier belongs. -/
def Carrier.place (c : Carrier) : FiberId × FiberId := (c.threadFiber, c.current)

theorem Fiber.IsFresh.of_alike {f f' : Fiber} (h : f.IsFresh) (ha : f.Alike f') : f'.IsFresh := by
  obtain ⟨hheap, hstate, hbookmark⟩ := h
  exact ⟨ha.isThreadFiber.trans hheap, ha.state.trans hstate, by rw [ha.bookmark, hbookmark]⟩

namespace FiberSystem

open Outcome

/-- Without a switch, a fiber that stays registered keeps its part, and any other is as it was or
freshly primed. -/
structure Calm (s s' : FiberSystem) : Prop where
  settings : s'.settings = s.settings
  tokensGiven : s'.tokensGiven = s.tokensGiven
  stays : ∀ j f, s.registry.isRegistered j = true → s'.registry.isRegistered j = true →
    s.fibers.get? j = some f → ∃ f', s'.fibers.get? j = some f' ∧ f.Alike f'
  fiber_cases : ∀ j f', s'.fibers.get? j = some f' →
    f'.IsFresh ∨ ∃ f, s.fibers.get? j = some f ∧ f.Alike f'

/-- A fiber of the thread ends that is not current. -/
structure Ended (s : FiberSystem) (t : ThreadToken) (id : FiberId) (s' : FiberSystem) : Prop
    extends s.Calm s' where
  owns : s.Owns t false id
  not_current : (s.carrier t).current ≠ id
  was_registered : s.registry.isRegistered id = true
  isRegistered : ∀ j, s'.registry.isRegistered j = true
    ↔ j ≠ id ∧ s.registry.isRegistered j = true
  places : ∀ u, (s'.carrier? u).map Carrier.place = (s.carrier? u).map Carrier.place

/-- A thread comes with a fiber of its own. -/
structure Attached (s s' : FiberSystem) : Prop where
  settings : s'.settings = s.settings
  tokensGiven : s'.tokensGiven = s.tokensGiven + 1
  isRegistered : ∀ j, s'.registry.isRegistered j = true
    ↔ j = s.nextFiber ∨ s.registry.isRegistered j = true
  carrier? : ∃ c : Carrier, c.place = (s.nextFiber, s.nextFiber)
    ∧ ∀ u, s'.carrier? u = if u = s.nextToken then some c else s.carrier? u
  get? : ∃ name region, ∀ j, s'.fibers.get? j
    = if j = s.nextFiber then some (.ofThread s.nextFiber s.nextToken name region)
      else s.fibers.get? j

/-- What an operation of a run comes to, and what the history notes of it. -/
inductive Step (s : FiberSystem) : FiberSystem → Option Event → Prop
  | quiet {s'} (h : s.Calm s')
    (hreg : ∀ j, s'.registry.isRegistered j = true ↔ s.registry.isRegistered j = true)
    (hplaces : ∀ u, (s'.carrier? u).map Carrier.place = (s.carrier? u).map Carrier.place) :
    Step s s' none
  | attach {s'} (h : s.Attached s') : Step s s' (some (.attached s.nextToken s.nextFiber))
  | create {s' t c id} (h : s.Calm s') (hc : s.carrier? t = some c)
    (hid : s.registry.isRegistered id = false) (howns : s'.Owns t false id)
    (hreg : ∀ j, s'.registry.isRegistered j = true
      ↔ j = id ∨ s.registry.isRegistered j = true)
    (hplaces : ∀ u, (s'.carrier? u).map Carrier.place = (s.carrier? u).map Carrier.place) :
    Step s s' (some (.created t id))
  | terminate {s' t c id} (hc : s.carrier? t = some c) (h : s.Ended t id s') :
    Step s s' (some (.terminated id))
  | switch {s' t c target kind f s₁} (hc : s.carrier? t = some c)
    (hsource : s.settings.verifyOnYield = true → s.checkSource t c.current kind = .ok ())
    (hf : s.fibers.get? target = some f) (howner : f.owner = t) (hstate : f.state = .onStack)
    (hs₁ : s₁.Sound) (h : s.Exchanged t c.current target s₁)
    (hkind : kind = .returning ∧ s' = s₁ ∨ kind = .terminating ∧ s₁.Ended t c.current s') :
    Step s s' (some (.switched t c.current target kind c.scratch.snapshot))
  | detach {s' t c} (h : s.Calm s') (hc : s.carrier? t = some c)
    (hreg : ∀ j, s'.registry.isRegistered j = true
      ↔ s.registry.isRegistered j = true ∧ ¬∃ b, s.Owns t b j)
    (hplaces : ∀ u, (s'.carrier? u).map Carrier.place
      = if u = t then none else (s.carrier? u).map Carrier.place) :
    Step s s' (some (.detached t))

variable {s s' s'' s₁ : FiberSystem} {t u : ThreadToken} {c c' : Carrier} {id j : FiberId}
  {ids : List FiberId} {b : Bool}

section Calm

theorem Calm.trans (h : s.Calm s') (h' : s'.Calm s'')
    (hmid : ∀ j, s.registry.isRegistered j = true → s''.registry.isRegistered j = true →
      s'.registry.isRegistered j = true) : s.Calm s'' := by
  refine ⟨h'.settings.trans h.settings, h'.tokensGiven.trans h.tokensGiven, ?_, ?_⟩
  · intro j f hj hj'' hf
    have hj' := hmid j hj hj''
    obtain ⟨f', hf', ha⟩ := h.stays j f hj hj' hf
    obtain ⟨f'', hf'', ha'⟩ := h'.stays j f' hj' hj'' hf'
    exact ⟨f'', hf'', ha.trans ha'⟩
  · intro j f'' hf''
    obtain hfresh | ⟨f', hf', ha'⟩ := h'.fiber_cases j f'' hf''
    · exact .inl hfresh
    obtain hfresh | ⟨f, hf, ha⟩ := h.fiber_cases j f' hf'
    · exact .inl (hfresh.of_alike ha')
    · exact .inr ⟨f, hf, ha.trans ha'⟩

theorem calm_of_fibers (hsettings : s'.settings = s.settings)
    (htokens : s'.tokensGiven = s.tokensGiven) (hfibers : s'.fibers = s.fibers) : s.Calm s' := by
  refine ⟨hsettings, htokens, fun j f _ _ hf => ⟨f, hfibers ▸ hf, .refl f⟩, fun j f hf => ?_⟩
  exact .inr ⟨f, hfibers ▸ hf, .refl f⟩

/-- A change of one fiber in what has no part in switches. -/
theorem calm_modifyFiber {g : Fiber → Fiber} (hg : ∀ f, Fiber.Alike f (g f)) :
    s.Calm (s.modifyFiber id g) := by
  have hget : ∀ j, (s.modifyFiber id g).fibers.get? j
      = if j = id then (s.fibers.get? j).map g else s.fibers.get? j :=
    fun j => Table.get?_modify _ _ _ _
  refine ⟨rfl, rfl, fun j f _ _ hf => ?_, fun j f' hf' => .inr ?_⟩
  · rw [hget, hf]
    split_ifs
    · exact ⟨g f, rfl, hg f⟩
    · exact ⟨f, rfl, .refl f⟩
  · rw [hget] at hf'
    split_ifs at hf'
    · obtain ⟨f, hf, rfl⟩ := Option.map_eq_some_iff.1 hf'
      exact ⟨f, hf, hg f⟩
    · exact ⟨f', hf', .refl f'⟩

theorem Upkeep.calm (hu : s.Upkeep s') (h : s.Sound) : s.Calm s' := by
  refine ⟨hu.settings, hu.tokensGiven, fun j f hj _ hf => ?_, fun j f' hf' => ?_⟩
  · exact ⟨f, (hu.get?_of_registered h hj).trans hf, .refl f⟩
  · exact (hu.fiber_cases hf').symm.imp_right fun hf => ⟨f', hf, .refl f'⟩

theorem Deregistered.calm (hd : s.Deregistered ids s') : s.Calm s' := by
  refine ⟨hd.settings, hd.tokensGiven, fun j f _ hj hf => ?_, fun j f' hf' => ?_⟩
  · exact ⟨f, (hd.get? j ((hd.isRegistered j).1 hj).1).trans hf, .refl f⟩
  · exact .inr (hd.alike j f' hf')

/-- A fiber that stays registered stays whose it is. -/
theorem Calm.owns_iff (hs : s.Calm s') (h : s.Sound) (hj : s.registry.isRegistered j = true)
    (hj' : s'.registry.isRegistered j = true) : s'.Owns t b j ↔ s.Owns t b j := by
  obtain ⟨u, b', c, ⟨f, hf, -⟩, -⟩ := h.registered j hj
  obtain ⟨f', hf', ha⟩ := hs.stays j f hj hj' hf
  simp only [Owns, hf, hf', Option.some.injEq, exists_eq_left', ha.owner, ha.isThreadFiber]

theorem Upkeep.places (hu : s.Upkeep s') (u : ThreadToken) :
    (s'.carrier? u).map Carrier.place = (s.carrier? u).map Carrier.place := by
  have hseats := congrArg (Option.map Carrier.place) (hu.seats u)
  rwa [Option.map_map, Option.map_map] at hseats

theorem exists_place_eq
    (h : (s'.carrier? u).map Carrier.place = (s.carrier? u).map Carrier.place)
    (hc' : s'.carrier? u = some c') : ∃ c, s.carrier? u = some c
      ∧ c'.threadFiber = c.threadFiber ∧ c'.current = c.current := by
  rw [hc', Option.map_some, eq_comm, Option.map_eq_some_iff] at h
  obtain ⟨c, hc, hplace⟩ := h
  exact ⟨c, hc, (congrArg Prod.fst hplace).symm, (congrArg Prod.snd hplace).symm⟩

/-- The carriers that are there after a thread has gone are those of the others. -/
theorem place_eq_of_detached (h : ∀ u, (s'.carrier? u).map Carrier.place
      = if u = t then none else (s.carrier? u).map Carrier.place)
    (hc' : s'.carrier? u = some c') :
    u ≠ t ∧ (s'.carrier? u).map Carrier.place = (s.carrier? u).map Carrier.place := by
  have hplace := h u
  split_ifs at hplace with hu
  · simp [hc'] at hplace
  · exact ⟨hu, hplace⟩

theorem threadFiber_eq_of_place
    (h : (s'.carrier? u).map Carrier.place = (s.carrier? u).map Carrier.place) :
    (s'.carrier? u).map Carrier.threadFiber = (s.carrier? u).map Carrier.threadFiber := by
  have hthread := congrArg (Option.map Prod.fst) h
  rwa [Option.map_map, Option.map_map] at hthread

end Calm

/-- A fiber of another thread is not current. -/
theorem Sound.current_ne (h : s.Sound) (hc : s.carrier? u = some c)
    (ho : s.Owns t b id) (hu : u ≠ t) : c.current ≠ id := by
  rintro rfl
  obtain ⟨_, ho'⟩ := (h.carries u c hc).current
  exact hu (ho'.unique ho).1

section Exchanged

variable {source target : FiberId} {f : Fiber}

theorem Exchanged.carrier_cases (hx : s.Exchanged t source target s')
    (hc' : s'.carrier? u = some c') : ∃ c, s.carrier? u = some c
      ∧ c'.threadFiber = c.threadFiber ∧ c'.current = if u = t then target else c.current := by
  rw [hx.carrier?] at hc'
  split_ifs at hc' with hu
  · obtain ⟨c, hc, rfl⟩ := Option.map_eq_some_iff.1 hc'
    exact ⟨c, hc, rfl, (if_pos hu).symm⟩
  · exact ⟨c', hc', rfl, (if_neg hu).symm⟩

theorem Exchanged.threadFiber (hx : s.Exchanged t source target s') (u : ThreadToken) :
    (s'.carrier? u).map Carrier.threadFiber = (s.carrier? u).map Carrier.threadFiber := by
  rw [hx.carrier?]
  split_ifs
  · cases s.carrier? u <;> rfl
  · rfl

/-- The source and the target stay whose they are. -/
theorem Exchanged.owns_iff (hx : s.Exchanged t source target s')
    (hf : s.fibers.get? target = some f) : s'.Owns u b j ↔ s.Owns u b j := by
  by_cases htarget : j = target
  · subst htarget
    rw [Owns, Owns, hx.get?_target f hf, hf]
    simp [Fiber.isThreadFiber, Fiber.lease?]
  by_cases hsource : j = source
  · subst hsource
    rw [Owns, Owns, hx.get?_source htarget]
    cases s.fibers.get? j <;> simp [Fiber.isThreadFiber, Fiber.lease?]
  · rw [Owns, Owns, hx.get? j hsource htarget]

end Exchanged

section Step

theorem Upkeep.step (hu : s.Upkeep s') (h : s.Sound) : s'.Sound ∧ s.Step s' none :=
  ⟨hu.sound h, .quiet (hu.calm h) (fun j => by rw [hu.registry]) hu.places⟩

theorem step_modifyFiber (h : s.Sound) {g : Fiber → Fiber} (hg : ∀ f, Fiber.Alike f (g f)) :
    (s.modifyFiber id g).Sound ∧ s.Step (s.modifyFiber id g) none := by
  refine ⟨h.modifyFiber (fun f => ⟨(hg f).owner, (hg f).isThreadFiber⟩) id, ?_⟩
  exact .quiet (calm_modifyFiber hg) (fun _ => .rfl) fun _ => rfl

/-- A change of a carrier in what has nothing to do with fibers. -/
theorem step_modifyCarrier (h : s.Sound) {g : Carrier → Carrier}
    (hg : ∀ c, g c = { c with scratch := (g c).scratch, mode := (g c).mode }) :
    (s.modifyCarrier t g).Sound ∧ s.Step (s.modifyCarrier t g) none := by
  have hfields : ∀ c, (g c).token = c.token ∧ (g c).place = c.place ∧ (g c).ended = c.ended := by
    intro c
    rw [hg c]
    exact ⟨rfl, rfl, rfl⟩
  refine ⟨h.modifyCarrier (fun c => ⟨(hfields c).1, congrArg Prod.fst (hfields c).2.1⟩) ?_,
    .quiet (calm_of_fibers rfl rfl rfl) (fun _ => .rfl) fun u => ?_⟩
  · intro c hc
    exact (h.carries t c hc).ease (congrArg Prod.fst (hfields c).2.1)
      (congrArg Prod.snd (hfields c).2.1) ((hfields c).2.2 ▸ .refl _)
  · rw [carrier?_modifyCarrier fun c => (hfields c).1]
    split_ifs
    · cases s.carrier? u <;> simp [hfields]
    · rfl

theorem attached_of_insert {name : String} {region : Region} {registry : Registry}
    {statistics : Statistics} {slot : Option Nat} (h : s.Sound)
    (hr : s.registry.insert s.nextFiber = .ok registry) :
    s.Attached { s with
      tokensGiven := s.tokensGiven + 1
      fibers := s.fibers.insert s.nextFiber (.ofThread s.nextFiber s.nextToken name region)
      identities := s.identities.advance
      registry
      statistics
      carriers := s.carriers ++ [{ token := s.nextToken, name, threadFiber := s.nextFiber
                                   current := s.nextFiber, slot }] } := by
  obtain ⟨-, -, hregistered⟩ := h.registry.insert hr
  refine ⟨rfl, rfl, fun j => ?_, ⟨_, rfl, fun u => carrier?_append _ h.nextToken_not_given⟩, name,
    region, fun j => Table.get?_insert _ _ _ _⟩
  simp [hregistered]

theorem Attached.threadFiber (h : s.Attached s') :
    (s'.carrier s.nextToken).threadFiber = s.nextFiber := by
  obtain ⟨c, hplace, hcarrier⟩ := h.carrier?
  rw [carrier_eq ((hcarrier s.nextToken).trans (if_pos rfl))]
  exact congrArg Prod.fst hplace

/-- What the history notes of an attempt to attach a thread. -/
theorem step_attach {thread : Nat} {name : String} {bounds : Except IoError StackBounds}
    {e : Option Event} (h : s.Sound)
    (hr : s.perform (.attach thread name bounds) = .ok (s', e)) : s'.Sound ∧ s.Step s' e := by
  obtain ⟨⟨outcome, s₁⟩, hattach, heq⟩ := map_eq_ok_iff.1 hr
  obtain ⟨rfl, rfl⟩ := Prod.mk.inj heq
  refine ⟨h.attach hattach, ?_⟩
  obtain ⟨rfl, failure, rfl⟩ | ⟨rfl, _, _, _, _, hinsert, -, hs₁⟩ := attach_cases hattach
  · exact ((Upkeep.refl s₁).step h).2
  · have hattached : s.Attached s₁ := hs₁ ▸ attached_of_insert h hinsert
    simp only [hattached.threadFiber]
    exact .attach hattached

theorem step_create {request : StackRequest} {continuation : Option ContinuationId}
    {e : Option Event} (h : s.Sound) (hc : s.carrier? t = some c)
    (hr : s.performOn t c (.create request continuation) = .ok (s', e)) :
    s'.Sound ∧ s.Step s' e := by
  obtain ⟨⟨outcome, s₂⟩, hcreate, heq⟩ := map_eq_ok_iff.1 hr
  obtain ⟨rfl, rfl⟩ := Prod.mk.inj heq
  obtain ⟨hupkeep, hfailed⟩ | ⟨rfl, id, s₁, rfl, hupkeep, hid, henroll⟩ :=
    create_cases h hc hcreate
  · have hnone : Event.ofRequest? t request outcome = none := by
      cases request with
      | pooled =>
        obtain ⟨failure, rfl⟩ := hfailed rfl
        rfl
      | _ => rfl
    rw [hnone]
    exact hupkeep.step h
  have hs₁ := hupkeep.sound h
  have hmodify : s₁.Calm (s₁.modifyFiber id fun f => { f with continuation }) :=
    calm_modifyFiber fun f => ⟨rfl, rfl, rfl, rfl⟩
  have hid' : (s₁.modifyFiber id fun f => { f with continuation }).Loose t id :=
    hid.modifyFiber (g := fun f => { f with continuation }) (fun _ => ⟨rfl, rfl⟩) id
  obtain ⟨c₁, hc₁, -⟩ := hupkeep.exists_carrier hc
  have hmodified := hs₁.modifyFiber (g := fun f => { f with continuation })
    (fun _ => ⟨rfl, rfl⟩) id
  refine ⟨hmodified.register henroll hid' hc₁, ?_⟩
  obtain ⟨hnew, registry, rfl, -, hregistered⟩ := register_cases hmodified.registry henroll
  have hreg : ∀ j, registry.isRegistered j = true ↔ j = id ∨ s.registry.isRegistered j = true := by
    simp [hregistered, ← hupkeep.registry, modifyFiber]
  refine .create ?_ hc (hupkeep.registry ▸ hnew) hid'.owns hreg hupkeep.places
  refine (hupkeep.calm h).trans (hmodify.trans (calm_of_fibers rfl rfl rfl) ?_) ?_
  · exact fun j hj _ => hj
  · exact fun j hj _ => hupkeep.registry ▸ hj

theorem ended_of_withdraw (h : s.Sound) (howns : s.Owns t false id)
    (hcurrent : (s.carrier t).current ≠ id) (hr : s.withdraw id = .ok s₁) (hu : s₁.Upkeep s') :
    s'.Sound ∧ s.Ended t id s' := by
  have hd := deregistered_of_withdraw h.registry hr
  have hs₁ := h.withdraw hr
  have hreg : ∀ j, s'.registry.isRegistered j = true
      ↔ j ≠ id ∧ s.registry.isRegistered j = true := by
    simpa [hu.registry] using hd.isRegistered
  refine ⟨hu.sound hs₁, ?_, howns, hcurrent, hd.was_registered id (by simp), hreg, fun u => ?_⟩
  · exact hd.calm.trans (hu.calm hs₁) fun j _ hj => hu.registry ▸ hj
  · rw [hu.places, hd.carrier?]

theorem step_switch {target : FiberId} {kind : SwitchKind} {e : Option Event} (h : s.Sound)
    (hc : s.carrier? t = some c) (hr : s.performOn t c (.switch target kind) = .ok (s', e)) :
    s'.Sound ∧ s.Step s' e := by
  obtain ⟨s₂, henter, heq⟩ := map_eq_ok_iff.1 hr
  obtain ⟨rfl, rfl⟩ := Prod.mk.inj heq
  obtain ⟨hsource, ⟨f, hf, howner, hstate⟩, s₁, hs₁, hexchanged, hkind⟩ := enter_cases h hc henter
  obtain ⟨rfl, rfl⟩ | ⟨rfl, howns, hne, s₃, hwithdraw, hupkeep⟩ := hkind
  · exact ⟨hs₁, .switch hc hsource hf howner hstate hs₁ hexchanged (.inl ⟨rfl, rfl⟩)⟩
  · have hcurrent : (s₁.carrier t).current ≠ c.current := by
      rwa [carrier_eq (hexchanged.carrier?_self hc)]
    obtain ⟨hs₂, hended⟩ := ended_of_withdraw hs₁ howns hcurrent hwithdraw hupkeep
    exact ⟨hs₂, .switch hc hsource hf howner hstate hs₁ hexchanged (.inr ⟨rfl, hended⟩)⟩

theorem step_detach {e : Option Event} (h : s.Sound) (hc : s.carrier? t = some c)
    (hr : s.performOn t c .detach = .ok (s', e)) : s'.Sound ∧ s.Step s' e := by
  obtain ⟨s₂, hdetach, heq⟩ := map_eq_ok_iff.1 hr
  obtain ⟨rfl, rfl⟩ := Prod.mk.inj heq
  obtain ⟨ids, s₁, s₃, s₄, hids, hu₁, hs₁, hd, hs₃, hu₃, hs₅, hu₅⟩ := detach_cases h hc hdetach
  have hreg₅ : ∀ j, s₂.registry.isRegistered j = true ↔ s₃.registry.isRegistered j = true := by
    intro j
    rw [hu₅.registry, hu₃.registry]
  have hreg₁ : ∀ j, s₁.registry.isRegistered j = true ↔ s.registry.isRegistered j = true := by
    intro j
    rw [hu₁.registry]
  refine ⟨hu₅.sound hs₅, .detach ?_ hc (fun j => ?_) fun u => ?_⟩
  · have hafter : s₃.Calm s₂ := by
      have hdropped : s₄.Calm { s₄ with carriers := s₄.carriers.filter fun c => c.token ≠ t } :=
        calm_of_fibers rfl rfl rfl
      refine (hu₃.calm hs₃).trans (hdropped.trans (hu₅.calm hs₅) ?_) ?_
      · exact fun j hj _ => hj
      · exact fun j hj _ => hu₃.registry ▸ hj
    refine (hu₁.calm h).trans (hd.calm.trans hafter fun j _ hj => (hreg₅ j).1 hj) ?_
    exact fun j hj _ => (hreg₁ j).2 hj
  · rw [hreg₅, hd.isRegistered, hreg₁, hids]
    tauto
  · rw [hu₅.places, carrier?_filter]
    split_ifs
    · rfl
    · rw [hu₃.places, hd.carrier?, hu₁.places]

theorem step_returnFrom {call : SwitchCall} (h : s.Sound) (hr : s.returnFrom call = .ok s') :
    s'.Sound ∧ s.Step s' none := by
  obtain ⟨s₁, hreclaim, hr⟩ := bind_eq_ok_iff.1 hr
  have hupkeep := (upkeep_reclaim h hreclaim).trans
    ((Upkeep.same (same_calls s₁ _)).trans (upkeep_reapAll hr))
  exact hupkeep.step h

/-- An operation of an attached thread. -/
theorem Sound.performOn {operation : ThreadOperation} {e : Option Event} (h : s.Sound)
    (hc : s.carrier? t = some c) (hr : s.performOn t c operation = .ok (s', e)) :
    s'.Sound ∧ s.Step s' e := by
  cases operation with
  | create request continuation => exact step_create h hc hr
  | switch target kind => exact step_switch h hc hr
  | detach => exact step_detach h hc hr
  | terminate fiber =>
    obtain ⟨s₂, hterminate, heq⟩ := map_eq_ok_iff.1 hr
    obtain ⟨rfl, rfl⟩ := Prod.mk.inj heq
    obtain ⟨howns, hcurrent, s₁, hwithdraw, hupkeep⟩ := terminate_cases h hterminate
    exact (ended_of_withdraw h howns hcurrent hwithdraw hupkeep).imp_right (.terminate hc)
  | reclaim =>
    obtain ⟨s₂, hreclaim, heq⟩ := map_eq_ok_iff.1 hr
    obtain ⟨rfl, rfl⟩ := Prod.mk.inj heq
    exact (upkeep_reclaim h hreclaim).step h
  | scratch operation =>
    obtain ⟨scratch, -, heq⟩ := map_eq_ok_iff.1 hr
    obtain ⟨rfl, rfl⟩ := Prod.mk.inj heq
    exact step_modifyCarrier h fun _ => rfl
  | setMode mode =>
    obtain ⟨rfl, rfl⟩ := Prod.mk.inj (Except.ok.inj hr)
    exact step_modifyCarrier h fun _ => rfl

/-- Each operation of a run is one of the steps, and keeps the fibers where they belong. -/
theorem Sound.perform {operation : Operation} {e : Option Event} (h : s.Sound)
    (hr : s.perform operation = .ok (s', e)) : s'.Sound ∧ s.Step s' e := by
  have hstays : s.Sound ∧ s.Step s none := (Upkeep.refl s).step h
  have hsame : ∀ {s₁ : FiberSystem}, s.Same s₁ → s₁.Sound ∧ s.Step s₁ none :=
    fun hs => (Upkeep.same hs).step h
  cases performed_of_perform hr with
  | nothing => exact hstays
  | attach _ => exact step_attach h hr
  | perform hc hperform => exact h.performOn hc hperform
  | returnFrom _ hreturn => exact step_returnFrom h hreturn
  | hold _ => exact hsame (same_held s _)
  | drop hdrop => exact ((Upkeep.same (same_held s _)).trans (.reap hdrop)).step h
  | lease hlease => exact (Upkeep.lease hlease).step h
  | unlease hmem hunlease => exact (Upkeep.unlease hmem hunlease).step h
  | saveResume => exact step_modifyFiber h fun f => ⟨rfl, rfl, rfl, rfl⟩
  | write => exact hsame (same_withMachine (Machine.keeps_writeAll _ _))
  | addContinuation | dropContinuation =>
    exact hsame ⟨⟨rfl, rfl, rfl, rfl, rfl, rfl⟩, ⟨_, .refl _, rfl⟩, rfl⟩

/-- A system that has just been made. -/
theorem ofSettings_cases {host : Host} {settings : Settings}
    {provider : PageProvider} {policy : Option Bool}
    (hs : ofSettings host settings provider policy = .ok (.ok s)) :
    settings.validate host.pageSize = .ok () ∧ ∃ registry,
      Registry.ofShards settings.registryShards = .ok registry
      ∧ s = { settings, policy, registry
              pool := .ofSettings settings provider
              identities := host.identities
              statistics := .ofCapacity statisticsSlots } := by
  simp only [ofSettings] at hs
  split at hs <;> rename_i hvalid
  · simp at hs
  · obtain ⟨registry, hregistry, hs⟩ := bind_eq_ok_iff.1 hs
    simp only [pure_eq_ok, Except.ok.injEq] at hs
    exact ⟨hvalid, registry, hregistry, hs.symm⟩

theorem sound_of_ofSettings {host : Host} {settings : Settings}
    {provider : PageProvider} {policy : Option Bool}
    (hs : ofSettings host settings provider policy = .ok (.ok s)) :
    s.Sound ∧ s.settings = settings ∧ s.carriers = [] ∧ s.fibers = .empty
      ∧ ∀ j, s.registry.isRegistered j = false := by
  obtain ⟨-, registry, hregistry, rfl⟩ := ofSettings_cases hs
  have hnone : ∀ j, registry.isRegistered j = false := by
    simp only [Registry.ofShards] at hregistry
    split_ifs at hregistry
    obtain rfl := Except.ok.inj hregistry
    exact fun j => rfl
  refine ⟨⟨⟨_, Registry.holds_ofShards hregistry⟩, ?_, ?_, fun j hj => ?_⟩, rfl, rfl, rfl, hnone⟩
  · intro j f hf
    simp at hf
  · intro t c hc
    simp [carrier?] at hc
  · exact Bool.noConfusion (hj.symm.trans (hnone j))

theorem Step.settings {e : Option Event} (hstep : s.Step s' e) : s'.settings = s.settings := by
  cases hstep with
  | attach ha => exact ha.settings
  | quiet hs | create hs | detach hs => exact hs.settings
  | terminate _ he => exact he.settings
  | switch _ _ _ _ _ _ hx hkind =>
    obtain ⟨-, rfl⟩ | ⟨-, he⟩ := hkind
    · exact hx.settings
    · exact he.settings.trans hx.settings

end Step

end FiberSystem

end PooledFibers
