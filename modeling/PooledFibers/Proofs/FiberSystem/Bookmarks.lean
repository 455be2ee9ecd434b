import Mathlib.Data.List.Basic
import Mathlib.Tactic.Common
import PooledFibers.Proofs.FiberSystem.Exclusion

/-!
# Bookmarks

With verification on, a switch compares the scratch resources of the thread only with the bookmark
of the fiber that leaves. Still, when the thread's own fiber is entered again the resources are those
with which it was left, whatever heap fibers have run in between (`Run.scratch_of_return`): the
bookmark of the current heap fiber always tells the resources at the departure of the thread's own.
-/

namespace PooledFibers

namespace FiberSystem

variable {s s' s₁ : FiberSystem} {t u : ThreadToken} {c c' : Carrier} {id j target : FiberId}
  {f : Fiber} {kind : SwitchKind} {history : List Event} {e : Option Event}

/-- The current fibers as the history has them: a thread fiber is in the state `current`, and the
bookmark of a heap fiber tells the scratch resources when the thread's own fiber was left. -/
def Bookmarked (s : FiberSystem) (history : List Event) : Prop :=
  ∀ u c, s.carrier? u = some c → ∃ f, s.fibers.get? c.current = some f
    ∧ (f.isThreadFiber = true → f.state = .current)
    ∧ (f.isThreadFiber = false → ∀ snapshot, f.bookmark = .taken snapshot →
      departureOf u history = some snapshot)

/-- What happens between two switches leaves the bookmarks right. -/
theorem Bookmarked.calm (h : s.Bookmarked history) (hs' : s'.Sound) (hs : s.Calm s')
    (hplaces : ∀ u c', s'.carrier? u = some c' →
      (s'.carrier? u).map Carrier.place = (s.carrier? u).map Carrier.place) :
    s'.Bookmarked history := by
  intro u c' hc'
  obtain ⟨_, f', hf', -⟩ := (hs'.carries u c' hc').current
  refine ⟨f', hf', ?_⟩
  obtain ⟨hheap, -, hblank⟩ | ⟨f, hf, ha⟩ := hs.fiber_cases _ f' hf'
  · refine ⟨fun hthread => Bool.noConfusion (hheap.symm.trans hthread), fun _ snapshot htaken => ?_⟩
    rw [htaken] at hblank
    exact absurd hblank (Option.some_ne_none _)
  · obtain ⟨c, hc, -, hcurrent⟩ := exists_place_eq (hplaces u c' hc') hc'
    obtain ⟨f₀, hf₀, hthread, hheap⟩ := h u c hc
    obtain rfl : f₀ = f := Option.some.inj (hf₀.symm.trans (hcurrent ▸ hf))
    rw [ha.isThreadFiber, ha.state, ha.bookmark]
    exact ⟨hthread, hheap⟩

theorem Bookmarked.attached (h : s.Bookmarked history) (hs : s.Sound) (ha : s.Attached s') :
    s'.Bookmarked (.attached s.nextToken s.nextFiber :: history) := by
  obtain ⟨c₀, hplace, hcarrier⟩ := ha.carrier?
  obtain ⟨name, region, hget⟩ := ha.get?
  intro u c hc
  rw [hcarrier] at hc
  split_ifs at hc
  · obtain rfl := Option.some.inj hc
    rw [show c₀.current = s.nextFiber from congrArg Prod.snd hplace, hget, if_pos rfl]
    exact ⟨_, rfl, fun _ => rfl, fun hheap => Bool.noConfusion hheap⟩
  · obtain ⟨f, hf, hfiber⟩ := h u c hc
    have hne : c.current ≠ s.nextFiber := fun heq => by
      simp [heq, hs.nextFiber_not_made] at hf
    rw [hget, if_neg hne]
    exact ⟨f, hf, hfiber⟩

/-- The resources are those at the last departure of the thread's own fiber: it leaves right now,
or the heap fiber that leaves has them in its bookmark. -/
theorem departureOf_switched (h : s.Bookmarked history) (hs : s.Recorded history)
    (hone : s.OneThreadFiber) (hc : s.carrier? t = some c)
    (hsource : s.checkSource t c.current kind = .ok ()) :
    departureOf t (.switched t c.current target kind c.scratch.snapshot :: history)
      = some c.scratch.snapshot := by
  have hown : threadFiberOf t history = some c.threadFiber := by
    rw [hs.thread, hc, Option.map_some]
  rw [departureOf, hown]
  split_ifs with hdeparts
  · rfl
  · have hne : c.current ≠ c.threadFiber := fun heq => hdeparts ⟨rfl, heq ▸ rfl⟩
    obtain ⟨f, hf, -, hheap⟩ := h t c hc
    have hkind := hone.isThreadFiber_eq hs.sound hc hf hne
    rw [← fiber_eq hf] at hkind hheap
    obtain ⟨hbookmark, -⟩ := checkSource_cases hsource hkind
    rw [carrier_eq hc] at hbookmark
    exact hheap hkind _ hbookmark

theorem Bookmarked.exchanged (h : s.Bookmarked history) (hs : s.Recorded history)
    (hone : s.OneThreadFiber) (hverify : s.settings.verifyOnYield = true)
    (hc : s.carrier? t = some c) (hsource : s.checkSource t c.current kind = .ok ())
    (hf : s.fibers.get? target = some f) (howner : f.owner = t)
    (hx : s.Exchanged t c.current target s₁) :
    s₁.Bookmarked (.switched t c.current target kind c.scratch.snapshot :: history) := by
  intro u c' hc'
  obtain ⟨c₀, hc₀, -, hcurrent⟩ := hx.carrier_cases hc'
  rw [hcurrent]
  split_ifs with hu
  · subst hu
    refine ⟨_, hx.get?_target f hf, fun _ => rfl, fun hheap snapshot htaken => ?_⟩
    have hheap : f.isThreadFiber = false := hheap
    have hentry : s.entryBookmark u f = .taken c.scratch.snapshot := by
      simp [entryBookmark, hverify, hheap, carrier_eq hc]
    rw [departureOf_switched h hs hone hc hsource]
    exact congrArg some (Bookmark.taken.inj (hentry.symm.trans htaken))
  · obtain ⟨_, howns⟩ := (hs.sound.carries t c hc).current
    have hleft := hs.sound.current_ne hc₀ howns hu
    have hentered := hs.sound.current_ne hc₀ ⟨f, hf, howner, rfl⟩ hu
    rw [hx.get? _ hleft hentered, departureOf, if_neg fun heq => hu heq.1.symm]
    exact h u c₀ hc₀

theorem Bookmarked.step (h : s.Bookmarked history) (hs : s.Recorded history)
    (hone : s.OneThreadFiber) (hverify : s.settings.verifyOnYield = true) (hs' : s'.Sound)
    (hstep : s.Step s' e) : s'.Bookmarked (e.toList ++ history) := by
  cases hstep with
  | attach ha => exact h.attached hs.sound ha
  | quiet hcalm _ hplaces => exact h.calm hs' hcalm fun u _ _ => hplaces u
  | create hcalm _ _ _ _ hplaces => exact h.calm hs' hcalm fun u _ _ => hplaces u
  | terminate _ he => exact h.calm hs' he.toCalm fun u _ _ => he.places u
  | detach hcalm _ _ hplaces =>
    exact h.calm hs' hcalm fun u c' hc' => (place_eq_of_detached hplaces hc').2
  | switch hc hsource hf howner _ _ hx hkind =>
    have h₁ := h.exchanged hs hone hverify hc (hsource hverify) hf howner hx
    obtain ⟨-, rfl⟩ | ⟨-, he⟩ := hkind
    · exact h₁
    · exact h₁.calm hs' he.toCalm fun u _ _ => he.places u

/-- A switch leaves the scratch resources alone. -/
theorem scratch_of_enter {kind : SwitchKind} (h : s.Sound) (hc : s.carrier? t = some c)
    (hr : s.enter t target kind = .ok s') :
    ∃ c', s'.carrier? t = some c' ∧ c'.current = target ∧ c'.scratch = c.scratch := by
  obtain ⟨-, -, s₁, hs₁, hx, hkind⟩ := enter_cases h hc hr
  have hc₁ := hx.carrier?_self hc
  obtain ⟨-, rfl⟩ | ⟨-, -, -, s₂, hwithdraw, hupkeep⟩ := hkind
  · exact ⟨_, hc₁, rfl, rfl⟩
  · have hd := deregistered_of_withdraw hs₁.registry hwithdraw
    obtain ⟨c', hc', hseat⟩ := hupkeep.exists_carrier ((hd.carrier? t).trans hc₁)
    obtain ⟨-, -, hcurrent, hscratch⟩ := Carrier.of_seat_eq hseat
    exact ⟨c', hc', hcurrent, hscratch⟩

end FiberSystem

namespace Run

open FiberSystem

variable {host : Host} {settings : Settings} {provider : PageProvider} {policy : Option Bool}
  {s : FiberSystem}
  {operations : List Operation} {r r' : Run} {t : ThreadToken} {target : FiberId}
  {kind : SwitchKind}

theorem bookmarked_of_after (hverify : settings.verifyOnYield = true)
    (hs : FiberSystem.ofSettings host settings provider policy = .ok (.ok s))
    (hr : Run.after ⟨s, []⟩ operations = .ok r) :
    r.system.Recorded r.history ∧ r.system.OneThreadFiber ∧ r.system.settings = settings
      ∧ r.system.Bookmarked r.history := by
  refine after_induction (P := fun r => r.system.Recorded r.history ∧ r.system.OneThreadFiber
    ∧ r.system.settings = settings ∧ r.system.Bookmarked r.history) ?_ hr ?_
  · rintro r operation r' ⟨hrecorded, hone, hsettings, hbookmarked⟩ hr
    obtain ⟨event, hperform, hhistory⟩ := perform_eq_ok_iff.1 hr
    obtain ⟨hsound, hstep⟩ := hrecorded.sound.perform hperform
    have hverify' : r.system.settings.verifyOnYield = true := hsettings ▸ hverify
    rw [hhistory]
    exact ⟨hrecorded.step hsound hstep, hone.step hstep, hstep.settings.trans hsettings,
      hbookmarked.step hrecorded hone hverify' hsound hstep⟩
  · obtain ⟨-, hsettings, hcarriers, hfibers, -⟩ := sound_of_ofSettings hs
    refine ⟨recorded_of_ofSettings hs, .ofFibers hfibers, hsettings, fun u c hc => ?_⟩
    simp [carrier?, hcarriers] at hc

/-- When a thread's own fiber is entered again, the active handle block, its live handles and both
areas are those with which it was last left, and no monitor chunk is held; if the outgoing fiber
ends, it is in one native call. -/
theorem scratch_of_return (hverify : settings.verifyOnYield = true)
    (hs : FiberSystem.ofSettings host settings provider policy = .ok (.ok s))
    (hr : Run.after ⟨s, []⟩ operations = .ok r) (hown : threadFiberOf t r.history = some target)
    (hswitch : r.perform (.perform t (.switch target kind)) = .ok r') :
    ∃ c departure, r'.system.carrier? t = some c ∧ c.current = target
      ∧ departureOf t r.history = some departure ∧ c.scratch.snapshot = departure
      ∧ c.scratch.active.id = departure.block
      ∧ c.scratch.active.live = departure.liveHandles
      ∧ c.scratch.handleArea = departure.handleArea
      ∧ c.scratch.resourceArea = departure.resourceArea
      ∧ c.scratch.counts.monitorChunks = 0
      ∧ (kind = .terminating → c.scratch.counts.nativeCalls = 1) := by
  obtain ⟨hrecorded, hone, hsettings, hbookmarked⟩ := bookmarked_of_after hverify hs hr
  rw [hrecorded.thread, Option.map_eq_some_iff] at hown
  obtain ⟨c, hc, rfl⟩ := hown
  obtain ⟨event, hperform, -⟩ := perform_eq_ok_iff.1 hswitch
  simp only [FiberSystem.perform, hc, performOn, Outcome.map_eq_ok_iff] at hperform
  obtain ⟨s', henter, heq⟩ := hperform
  obtain ⟨rfl, -⟩ := Prod.mk.inj heq
  obtain ⟨hsource, ⟨f, hf, -, hstate⟩, -⟩ := enter_cases hrecorded.sound hc henter
  obtain ⟨f₀, hf₀, hthread, hheap⟩ := hbookmarked t c hc
  -- The thread's own fiber is suspended, so a heap fiber is current.
  have hne : c.current ≠ c.threadFiber := by
    intro heq
    obtain rfl : f = f₀ := Option.some.inj (hf.symm.trans (heq ▸ hf₀))
    obtain ⟨f', hf', -, hkind⟩ := (hrecorded.sound.carries t c hc).threadFiber
    obtain rfl : f = f' := Option.some.inj (hf.symm.trans hf')
    exact FiberState.noConfusion (hstate.symm.trans (hthread hkind))
  have hkind := hone.isThreadFiber_eq hrecorded.sound hc hf₀ hne
  rw [← fiber_eq hf₀] at hkind hheap
  obtain ⟨hbookmark, hchunks, hdepth⟩ := checkSource_cases (hsource (hsettings ▸ hverify)) hkind
  rw [carrier_eq hc] at hbookmark hchunks hdepth
  obtain ⟨c', hc', hcurrent, hscratch⟩ := scratch_of_enter hrecorded.sound hc henter
  rw [← hscratch] at hbookmark hchunks hdepth
  exact ⟨c', _, hc', hcurrent, hheap hkind _ hbookmark, rfl, rfl, rfl, rfl, rfl, hchunks, hdepth⟩

/-- The thread's own fiber is left with one handle; two heap fibers run, the second one ends. -/
theorem scratch_of_return_after_two : ∃ s r r',
    FiberSystem.ofSettings .simulated { registryShards := 2, verifyOnYield := true }
        ({} : Simulation).provider none = .ok (.ok s)
      ∧ Run.after ⟨s, []⟩
          [.attach 1 "main" (.ok ⟨0x10000000, 0x100000⟩), .perform ⟨1⟩ (.create .pooled none),
           .perform ⟨1⟩ (.create .pooled none), .perform ⟨1⟩ (.scratch .makeHandle),
           .perform ⟨1⟩ (.scratch (.enter .nativeCalls)),
           .perform ⟨1⟩ (.switch (.ofNumber 1) .returning),
           .perform ⟨1⟩ (.scratch (.allocate .handle 64 true)),
           .perform ⟨1⟩ (.scratch (.releaseTo .handle 0)),
           .perform ⟨1⟩ (.switch (.ofNumber 2) .returning)] = .ok r
      ∧ threadFiberOf ⟨1⟩ r.history = some (.ofNumber 0)
      ∧ r.perform (.perform ⟨1⟩ (.switch (.ofNumber 0) .terminating)) = .ok r'
      ∧ departureOf ⟨1⟩ r.history = some ⟨0, 1, 0, 0⟩
      ∧ ∃ c departure, r'.system.carrier? ⟨1⟩ = some c ∧ c.current = .ofNumber 0
        ∧ departureOf ⟨1⟩ r.history = some departure ∧ c.scratch.snapshot = departure
        ∧ c.scratch.active.id = departure.block
        ∧ c.scratch.active.live = departure.liveHandles
        ∧ c.scratch.handleArea = departure.handleArea
        ∧ c.scratch.resourceArea = departure.resourceArea
        ∧ c.scratch.counts.monitorChunks = 0
        ∧ (SwitchKind.terminating = .terminating → c.scratch.counts.nativeCalls = 1) := by
  refine ⟨?s, ?r, ?r', ?hs, ?hr, ?hown, ?hswitch, ?hdeparture,
    scratch_of_return (by rfl) ?hs ?hr ?hown ?hswitch⟩
  case hs => rfl
  case hr => rfl
  case hown => rfl
  case hswitch => rfl
  case hdeparture => rfl

end Run

end PooledFibers
