import Mathlib.Data.List.Basic
import Mathlib.Tactic.Common
import PooledFibers.Machine.Simulated
import PooledFibers.Proofs.FiberSystem.Priming
import PooledFibers.Proofs.FiberSystem.Step

/-!
# Current fibers

A switch asks whose fiber the target is and whether it is suspended, but not whether it has ended.
An ended fiber that a thread enters is current and waits to be handed out at the same time. As long
as no thread enters such a fiber, the current fibers are registered (`Run.always_seated_iff`).
-/

namespace PooledFibers

namespace FiberSystem

variable {s s' s₁ : FiberSystem} {t u : ThreadToken} {c c' : Carrier} {id j source target : FiberId}
  {e : Option Event} {f : Fiber}

/-- The current fiber of each thread is registered and in the state `current`, and the thread keeps
it neither in its idle cache nor in its pending slot. -/
def Seated (s : FiberSystem) : Prop :=
  ∀ t c, s.carrier? t = some c → s.registry.isRegistered c.current = true
    ∧ (∃ f, s.fibers.get? c.current = some f ∧ f.state = .current)
    ∧ c.current ∉ c.idle ∧ c.pending ≠ some c.current

/-- If the operation is a switch of an attached thread, its target is registered. -/
def EntersRegistered (s : FiberSystem) (operation : Operation) : Prop :=
  ∀ t target kind, operation = .perform t (.switch target kind) → (s.carrier? t).isSome = true →
    s.registry.isRegistered target = true

/-- A fiber that is current is neither handed out, changed nor written to when one is handed out. -/
def SparesCurrent (s : FiberSystem) : Prop :=
  ∀ t c continuation id s', s.carrier? t = some c →
    s.create t .pooled continuation = .ok (.ok id, s') → s.Primes id s'
      ∧ ∀ u c', s.carrier? u = some c' →
        c'.current ≠ id ∧ s'.fibers.get? c'.current = s.fibers.get? c'.current

/-- A registered fiber is not among the ended. -/
theorem Sound.seated_of (h : s.Sound)
    (hs : ∀ t c, s.carrier? t = some c → s.registry.isRegistered c.current = true
      ∧ ∃ f, s.fibers.get? c.current = some f ∧ f.state = .current) : s.Seated := by
  intro t c hc
  obtain ⟨hreg, hcurrent⟩ := hs t c hc
  have hnot : c.current ∉ c.ended := fun hmem =>
    Bool.noConfusion (hreg.symm.trans ((h.carries t c hc).ended _ hmem).2)
  simp only [Carrier.ended, List.mem_append, Option.mem_toList, not_or] at hnot
  exact ⟨hreg, hcurrent, hnot.2, hnot.1⟩

section Steps

theorem Seated.of_stays (h : s.Seated) (hs' : s'.Sound) (hs : s.Calm s')
    (hstays : ∀ u c', s'.carrier? u = some c' → ∃ c, s.carrier? u = some c
      ∧ c'.current = c.current ∧ s'.registry.isRegistered c.current = true) : s'.Seated := by
  refine hs'.seated_of fun u c' hc' => ?_
  obtain ⟨c, hc, hcurrent, hreg'⟩ := hstays u c' hc'
  obtain ⟨hreg, ⟨f, hf, hstate⟩, -⟩ := h u c hc
  obtain ⟨f', hf', ha⟩ := hs.stays c.current f hreg hreg' hf
  rw [hcurrent]
  exact ⟨hreg', f', hf', ha.state.trans hstate⟩

theorem Seated.ended (h : s.Seated) (hs : s.Sound) (hs' : s'.Sound) (he : s.Ended t id s') :
    s'.Seated := by
  refine h.of_stays hs' he.toCalm fun u c' hc' => ?_
  obtain ⟨c, hc, -, hcurrent⟩ := exists_place_eq (he.places u) hc'
  refine ⟨c, hc, hcurrent, (he.isRegistered _).2 ⟨?_, (h u c hc).1⟩⟩
  by_cases hu : u = t
  · subst hu
    exact carrier_eq hc ▸ he.not_current
  · exact hs.current_ne hc he.owns hu

theorem Seated.attached (h : s.Seated) (hs : s.Sound) (hs' : s'.Sound) (ha : s.Attached s') :
    s'.Seated := by
  obtain ⟨c₀, hplace, hcarrier⟩ := ha.carrier?
  obtain ⟨name, region, hget⟩ := ha.get?
  refine hs'.seated_of fun u c hc => ?_
  rw [hcarrier] at hc
  split_ifs at hc
  · obtain rfl := Option.some.inj hc
    rw [show c₀.current = s.nextFiber from congrArg Prod.snd hplace, ha.isRegistered, hget]
    exact ⟨.inl rfl, _, if_pos rfl, rfl⟩
  · obtain ⟨hreg, ⟨f, hf, hstate⟩, -⟩ := h u c hc
    have hne : c.current ≠ s.nextFiber := fun heq => by
      simp [heq, hs.nextFiber_not_made] at hf
    rw [ha.isRegistered, hget, if_neg hne]
    exact ⟨.inr hreg, f, hf, hstate⟩

/-- The target becomes current, and is registered if it was. -/
theorem Seated.exchanged (h : s.Seated) (hs : s.Sound) (hc : s.carrier? t = some c)
    (hf : s.fibers.get? target = some f) (howner : f.owner = t) (hs₁ : s₁.Sound)
    (hx : s.Exchanged t c.current target s₁) (hreg : s.registry.isRegistered target = true) :
    s₁.Seated := by
  refine hs₁.seated_of fun u c' hc' => ?_
  obtain ⟨c₀, hc₀, -, hcurrent⟩ := hx.carrier_cases hc'
  rw [hcurrent, hx.registry]
  split_ifs with hu
  · exact ⟨hreg, _, hx.get?_target f hf, rfl⟩
  · obtain ⟨_, howns⟩ := (hs.carries t c hc).current
    have hsource := hs.current_ne hc₀ howns hu
    have htarget := hs.current_ne hc₀ ⟨f, hf, howner, rfl⟩ hu
    rw [hx.get? _ hsource htarget]
    exact ⟨(h u c₀ hc₀).1, (h u c₀ hc₀).2.1⟩

theorem Seated.step (h : s.Seated) (hs : s.Sound) (hs' : s'.Sound) (hstep : s.Step s' e)
    (htarget : ∀ t source target kind snapshot,
      e = some (.switched t source target kind snapshot) →
        s.registry.isRegistered target = true) : s'.Seated := by
  cases hstep with
  | attach ha => exact h.attached hs hs' ha
  | terminate hc he => exact h.ended hs hs' he
  | quiet hcalm hreg hplaces =>
    refine h.of_stays hs' hcalm fun u c' hc' => ?_
    obtain ⟨c, hc, -, hcurrent⟩ := exists_place_eq (hplaces u) hc'
    exact ⟨c, hc, hcurrent, (hreg _).2 (h u c hc).1⟩
  | create hcalm _ _ _ hreg hplaces =>
    refine h.of_stays hs' hcalm fun u c' hc' => ?_
    obtain ⟨c, hc, -, hcurrent⟩ := exists_place_eq (hplaces u) hc'
    exact ⟨c, hc, hcurrent, (hreg _).2 (.inr (h u c hc).1)⟩
  | @detach t _ hcalm _ hreg hplaces =>
    refine h.of_stays hs' hcalm fun u c' hc' => ?_
    obtain ⟨hu, hplace⟩ := place_eq_of_detached hplaces hc'
    obtain ⟨c, hc, -, hcurrent⟩ := exists_place_eq hplace hc'
    refine ⟨c, hc, hcurrent, (hreg _).2 ⟨(h u c hc).1, ?_⟩⟩
    rintro ⟨b, ho⟩
    exact hs.current_ne hc ho hu rfl
  | switch hc _ hf howner _ hs₁ hx hkind =>
    have h₁ := h.exchanged hs hc hf howner hs₁ hx (htarget _ _ _ _ _ rfl)
    obtain ⟨-, rfl⟩ | ⟨-, he⟩ := hkind
    · exact h₁
    · exact h₁.ended hs₁ hs' he

end Steps

/-- A switch after which the current fibers are registered had a registered target. -/
theorem Step.isRegistered_of_seated {kind : SwitchKind} {snapshot : Snapshot}
    (hstep : s.Step s' (some (.switched t source target kind snapshot))) (h : s'.Seated) :
    s.registry.isRegistered target = true := by
  cases hstep with
  | switch hc _ hf howner _ hs₁ hx hkind =>
    have hc₁ := hx.carrier?_self hc
    rw [← hx.registry]
    obtain ⟨-, rfl⟩ | ⟨-, he⟩ := hkind
    · exact (h t _ hc₁).1
    · obtain ⟨c', hc', -, hcurrent⟩ := exists_place_eq (he.places t).symm hc₁
      have hreg := (h t c' hc').1
      rw [← hcurrent] at hreg
      exact ((he.isRegistered _).1 hreg).2

/-- Only a switch of an attached thread is noted as one. -/
theorem perform_of_switched {operation : Operation} {kind : SwitchKind} {snapshot : Snapshot}
    (hr : s.perform operation = .ok (s', some (.switched t source target kind snapshot))) :
    operation = .perform t (.switch target kind) ∧ (s.carrier? t).isSome = true := by
  have hperformed := performed_of_perform hr
  generalize hevent : some (Event.switched t source target kind snapshot) = e at hperformed
  cases hperformed with
  | attach _ =>
    obtain ⟨u, -, hevent⟩ := Option.map_eq_some_iff.1 hevent.symm
    simp at hevent
  | @perform u c operation _ _ hc hperform =>
    subst hevent
    cases operation <;>
      simp only [performOn, Outcome.map_eq_ok_iff, Prod.mk.injEq, Option.some.injEq, reduceCtorEq,
        Event.switched.injEq, and_false, exists_false, Except.ok.injEq] at hperform
    · obtain ⟨⟨made, s₁⟩, -, -, hevent⟩ := hperform
      simp only [Event.ofRequest?] at hevent
      split at hevent <;> simp at hevent
    · obtain ⟨s₁, -, -, rfl, -, rfl, rfl, -⟩ := hperform
      exact ⟨rfl, by rw [hc]; rfl⟩
  | _ => simp at hevent

/-- What is handed out was not registered, so it was not current. -/
theorem Seated.sparesCurrent (h : s.Seated) (hs : s.Sound) : s.SparesCurrent := by
  intro t c continuation id s' hc hr
  refine ⟨primes_create hr, fun u c' hc' => ?_⟩
  obtain ⟨-, hfailed⟩ | ⟨-, j, s₁, hj, hupkeep, hid, henroll⟩ := create_cases hs hc hr
  · obtain ⟨failure, hfailed⟩ := hfailed rfl
    simp at hfailed
  obtain rfl := Except.ok.inj hj
  have hreg := (h u c' hc').1
  have hne : c'.current ≠ id := by
    rintro rfl
    exact Bool.noConfusion (hreg.symm.trans (hupkeep.registry ▸ hid.unregistered))
  obtain ⟨registry, -, hs'⟩ := Outcome.bind_eq_ok_iff.1 henroll
  obtain rfl := Except.ok.inj hs'
  refine ⟨hne, ?_⟩
  rw [← hupkeep.get?_of_registered hs hreg]
  exact (Table.get?_modify _ _ _ _).trans (if_neg hne)

end FiberSystem

namespace Run

open FiberSystem

variable {host : Host} {settings : Settings} {provider : PageProvider} {policy : Option Bool}
  {s : FiberSystem}
  {operations : List Operation} {r r' : Run}

/-- A run whose current fibers are registered at first keeps them so if and only if no ended fiber
is entered. -/
theorem always_seated_iff_of_sound (h : r.system.Sound) (hseated : r.system.Seated)
    (hr : r.after operations = .ok r') :
    r.Always Seated operations ↔ r.AtEach EntersRegistered operations := by
  induction operations generalizing r with
  | nil => exact ⟨fun _ => trivial, fun _ => hseated⟩
  | cons operation rest ih =>
    obtain ⟨r₁, hperform, hr⟩ := after_cons_eq_ok_iff.1 hr
    obtain ⟨event, hperformed, -⟩ := perform_eq_ok_iff.1 hperform
    obtain ⟨hs₁, hstep⟩ := h.perform hperformed
    rw [always_cons_iff hperform, atEach_cons_iff hperform]
    constructor
    · rintro ⟨-, hrest⟩
      refine ⟨fun t target kind hop hattached => ?_, (ih hs₁ hrest.head hr).1 hrest⟩
      subst hop
      obtain ⟨c, hc⟩ := Option.isSome_iff_exists.1 hattached
      simp only [FiberSystem.perform, hc, performOn, Outcome.map_eq_ok_iff,
        Prod.mk.injEq] at hperformed
      obtain ⟨s₂, -, rfl, rfl⟩ := hperformed
      exact hstep.isRegistered_of_seated hrest.head
    · rintro ⟨htarget, hrest⟩
      have hseated₁ : r₁.system.Seated := by
        refine hseated.step h hs₁ hstep ?_
        rintro t source target kind snapshot rfl
        obtain ⟨rfl, hattached⟩ := perform_of_switched hperformed
        exact htarget t target kind rfl hattached
      exact ⟨hseated, (ih hs₁ hseated₁ hr).2 hrest⟩

theorem always_sparesCurrent (h : r.system.Sound) (hseated : r.Always Seated operations) :
    r.Always SparesCurrent operations := by
  induction operations generalizing r with
  | nil => exact hseated.sparesCurrent h
  | cons operation rest ih =>
    refine ⟨hseated.1.sparesCurrent h, fun r₁ hperform => ?_⟩
    obtain ⟨event, hperformed, -⟩ := perform_eq_ok_iff.1 hperform
    exact ih (h.perform hperformed).1 (hseated.2 r₁ hperform)

/-- In a run without a fault the current fibers are registered all the time if and only if each
target of a switch is registered when it is entered. Then no current fiber is ever handed out. -/
theorem always_seated_iff
    (hs : FiberSystem.ofSettings host settings provider policy = .ok (.ok s))
    (hr : Run.after ⟨s, []⟩ operations = .ok r) :
    (Run.Always Seated ⟨s, []⟩ operations ↔ Run.AtEach EntersRegistered ⟨s, []⟩ operations)
      ∧ (Run.AtEach EntersRegistered ⟨s, []⟩ operations →
        Run.Always SparesCurrent ⟨s, []⟩ operations) := by
  obtain ⟨hsound, -, hcarriers, -, -⟩ := sound_of_ofSettings hs
  have hseated : s.Seated := fun t c hc => by simp [carrier?, hcarriers] at hc
  have hiff := always_seated_iff_of_sound (r := ⟨s, []⟩) hsound hseated hr
  exact ⟨hiff, fun h => always_sparesCurrent hsound (hiff.2 h)⟩

/-- A fiber is entered, and ends by switching back. -/
theorem always_seated_of_round_trip : ∃ s r,
    FiberSystem.ofSettings .simulated { registryShards := 2, verifyOnYield := true }
        ({} : Simulation).provider none = .ok (.ok s)
      ∧ Run.after ⟨s, []⟩
          [.attach 1 "main" (.ok ⟨0x10000000, 0x100000⟩), .perform ⟨1⟩ (.create .pooled none),
           .perform ⟨1⟩ (.switch (.ofNumber 1) .returning),
           .perform ⟨1⟩ (.scratch (.enter .nativeCalls)),
           .perform ⟨1⟩ (.switch (.ofNumber 0) .terminating)] = .ok r
      ∧ Run.Always (fun s => s.Seated) ⟨s, []⟩
          [.attach 1 "main" (.ok ⟨0x10000000, 0x100000⟩), .perform ⟨1⟩ (.create .pooled none),
           .perform ⟨1⟩ (.switch (.ofNumber 1) .returning),
           .perform ⟨1⟩ (.scratch (.enter .nativeCalls)),
           .perform ⟨1⟩ (.switch (.ofNumber 0) .terminating)] := by
  refine ⟨?s, ?r, ?hs, ?hr, (always_seated_iff ?hs ?hr).1.2 ?hentered⟩
  case hs => rfl
  case hr => rfl
  case hentered =>
    refine (atEach_cons_iff rfl).2 ⟨by rintro t target kind ⟨⟩, ?_⟩
    refine (atEach_cons_iff rfl).2 ⟨by rintro t target kind ⟨⟩, ?_⟩
    refine (atEach_cons_iff rfl).2 ⟨by rintro t target kind ⟨⟩ -; rfl, ?_⟩
    refine (atEach_cons_iff rfl).2 ⟨by rintro t target kind ⟨⟩, ?_⟩
    exact (atEach_cons_iff rfl).2 ⟨by rintro t target kind ⟨⟩ -; rfl, trivial⟩

/-- A fiber that has ended is entered and handed out while it is current. -/
theorem not_seated_of_ended_target : ∃ s r s',
    FiberSystem.ofSettings .simulated { registryShards := 2, verifyOnYield := true }
        ({} : Simulation).provider none = .ok (.ok s)
      ∧ Run.after ⟨s, []⟩
          [.attach 1 "main" (.ok ⟨0x10000000, 0x100000⟩), .perform ⟨1⟩ (.create .pooled none),
           .hold (.ofNumber 1), .perform ⟨1⟩ (.terminate (.ofNumber 1)),
           .perform ⟨1⟩ (.switch (.ofNumber 1) .returning)] = .ok r
      ∧ (r.system.carrier ⟨1⟩).current = .ofNumber 1 ∧ ¬r.system.Seated
      ∧ r.system.create ⟨1⟩ .pooled none = .ok (.ok (.ofNumber 1), s') := by
  refine ⟨?s, ?r, ?s', ?hs, ?hr, ?hcurrent, ?hseated, ?hcreate⟩
  case hs => rfl
  case hr => rfl
  case hcurrent => rfl
  case hcreate => rfl
  case hseated =>
    intro h
    exact Bool.noConfusion (h ⟨1⟩ _ rfl).1

end Run

end PooledFibers
