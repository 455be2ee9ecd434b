import Mathlib.Tactic.Common
import PooledFibers.Machine.Simulated
import PooledFibers.Proofs.FiberSystem.Bookmarks
import PooledFibers.Proofs.FiberSystem.Pristine
import PooledFibers.Proofs.FiberSystem.Sparing
import PooledFibers.Proofs.Scratch.Brackets

/-!
# The stay on a heap fiber

With verification on, a heap fiber is entered with a bookmark and may be left only with the scratch
resources that the bookmark tells. While its thread is on it (`Dwells`), neither the other threads
nor the switches that return touch the bookmark or the resources. So a thread that closes every
bracket it opens is not stopped when it leaves (`Run.unreported_of_visit`).
-/

namespace PooledFibers

open Outcome

/-- The use that the thread makes of its scratch resources in an operation. -/
def Operation.useBy? (t : ThreadToken) : Operation → Option ScratchOperation
  | .perform u (.scratch use) => if u = t then some use else none
  | _ => none

namespace FiberSystem

/-- The thread is on the fiber `id`. -/
structure Dwells (s : FiberSystem) (t : ThreadToken) (id : FiberId) (bookmark : Bookmark)
    (scratch : Scratch) : Prop where
  seat : ∃ c, s.carrier? t = some c ∧ c.current = id ∧ c.scratch = scratch
  marked : ∃ f, s.fibers.get? id = some f ∧ f.bookmark = bookmark

variable {s s' s₁ : FiberSystem} {t u : ThreadToken} {c : Carrier} {id j target : FiberId}
  {f : Fiber} {bookmark : Bookmark} {scratch : Scratch} {kind : SwitchKind} {ids : List FiberId}

section Others

/-- A thread's moves leave the fibers of the others alone. -/
theorem Move.get?_of_ne (h : s.Move t s') (hu : u ≠ t) (hf : s.fibers.get? id = some f)
    (howner : f.owner = u) : s'.fibers.get? id = some f := by
  induction h with
  | tally s h => rwa [fibers_record]
  | fiber howned hg _ => exact (get?_modify_iff howned hu (fun f => (hg f).1) howner).2 hf
  | @enroll s s' j continuation howned hr =>
    rw [fibers_of_enroll hr]
    exact (get?_modify_iff (g := fun f => { f with continuation }) howned hu (fun _ => rfl)
      howner).2 hf
  | withdraw howned hr =>
    rw [fibers_of_withdraw hr]
    exact (get?_modify_iff (g := fun f => { f with continuation := none }) howned hu
      (fun _ => rfl) howner).2 hf
  | renew howned hr =>
    rw [fibers_of_renew hr]
    exact (get?_modify_iff (g := Fiber.renewed) howned hu (fun _ => rfl) howner).2 hf
  | unregister _ hr => rwa [fibers_of_unregister hr]
  | reap howned hr =>
    obtain rfl | ⟨-, _, _, -, -, -, rfl⟩ := reap_cases hr
    · exact hf
    · exact (Table.get?_erase ..).trans ((if_neg (howned.ne hu hf howner)).trans hf)
  | @make s name lease pool hnew _ =>
    have hne : id ≠ s.nextFiber := by
      rintro rfl
      exact Option.some_ne_none f (hf.symm.trans hnew)
    exact (Table.get?_insert ..).trans ((if_neg hne).trans hf)
  | trans _ _ ih ih' => exact ih' (ih hf)
  | _ => exact hf

theorem get?_of_performOn_ne {operation : ThreadOperation} {e : Option Event} (hs : s.Sound)
    (hc : s.carrier? t = some c) (hr : s.performOn t c operation = .ok (s', e)) (hu : u ≠ t)
    (hf : s.fibers.get? id = some f) (howner : f.owner = u) : s'.fibers.get? id = some f := by
  cases operation with
  | detach =>
    obtain ⟨s₁, s₂, hmove₁, hmove₂, hmove₃⟩ := moves_of_detach hs hc (eq_ok_of_map_mk hr)
    have hf₁ := hmove₁.get?_of_ne hu hf howner
    have hf₂ := hmove₂.get?_of_ne hu ((congrArg (·.get? id) (fibers_record _)).trans hf₁) howner
    exact hmove₃.get?_of_ne hu hf₂ howner
  | _ => exact (move_of_performOn hs hc hr nofun).get?_of_ne hu hf howner

end Others

section Stay

theorem Dwells.same (h : s.Dwells t id bookmark scratch) (hs : s.SamePlaces s') :
    s'.Dwells t id bookmark scratch where
  seat := by
    rw [hs.carrier?]
    exact h.seat
  marked := by
    rw [hs.fibers]
    exact h.marked

/-- A change of a carrier that concerns neither its current fiber nor its scratch resources. -/
theorem Dwells.modifyCarrier {g : Carrier → Carrier} (h : s.Dwells t id bookmark scratch)
    (hg : ∀ c, (g c).token = c.token ∧ (g c).current = c.current ∧ (g c).scratch = c.scratch) :
    (s.modifyCarrier u g).Dwells t id bookmark scratch := by
  obtain ⟨⟨c, hc, hcurrent, hscratch⟩, hmarked⟩ := h
  refine ⟨?_, hmarked⟩
  rw [carrier?_modifyCarrier fun c => (hg c).1, hc]
  split_ifs
  · exact ⟨g c, rfl, (hg c).2.1.trans hcurrent, (hg c).2.2.trans hscratch⟩
  · exact ⟨c, rfl, hcurrent, hscratch⟩

theorem Dwells.modifyFiber {g : Fiber → Fiber} (h : s.Dwells t id bookmark scratch)
    (hg : ∀ f, (g f).bookmark = f.bookmark) : (s.modifyFiber j g).Dwells t id bookmark scratch := by
  obtain ⟨hseat, f, hf, hbookmark⟩ := h
  refine ⟨hseat, ?_⟩
  rw [show (s.modifyFiber j g).fibers = s.fibers.modify j g from rfl, Table.get?_modify, hf]
  split_ifs
  · exact ⟨g f, rfl, (hg f).trans hbookmark⟩
  · exact ⟨f, rfl, hbookmark⟩

/-- The fiber is not freed, since the thread refers to it. -/
theorem Dwells.reap (h : s.Dwells t id bookmark scratch) (hr : s.reap j = .ok s') :
    s'.Dwells t id bookmark scratch := by
  obtain rfl | ⟨hunreferenced, _, _, -, -, -, rfl⟩ := reap_cases hr
  · exact h
  obtain ⟨⟨c, hc, rfl, hscratch⟩, f, hf, hmarked⟩ := h
  have hne : c.current ≠ j := by
    rintro rfl
    have hrefers := (unregistered_of_not_isReferenced hunreferenced).2 t c hc
    simp [Carrier.refersTo] at hrefers
  exact ⟨⟨c, hc, rfl, hscratch⟩, f, (Table.get?_erase ..).trans ((if_neg hne).trans hf), hmarked⟩

theorem Dwells.reapAll (h : s.Dwells t id bookmark scratch) (hr : s.reapAll ids = .ok s') :
    s'.Dwells t id bookmark scratch := by
  induction ids generalizing s with
  | nil => exact Except.ok.inj hr ▸ h
  | cons j rest ih =>
    obtain ⟨s₁, hreap, hr⟩ := bind_eq_ok_iff.1 hr
    exact ih (h.reap hreap) hr

theorem Dwells.reclaim (h : s.Dwells t id bookmark scratch) (hr : s.reclaim u = .ok s') :
    s'.Dwells t id bookmark scratch := by
  simp only [FiberSystem.reclaim] at hr
  split at hr
  · exact Except.ok.inj hr ▸ h
  have hemptied : (s.modifyCarrier u fun c => { c with pending := none }).Dwells t id bookmark
      scratch := h.modifyCarrier fun _ => ⟨rfl, rfl, rfl⟩
  simp only [parkOrRelease] at hr
  split_ifs at hr
  · obtain rfl := Except.ok.inj hr
    refine Dwells.same ?_ (same_record _ _ _).toSamePlaces
    exact hemptied.modifyCarrier fun _ => ⟨rfl, rfl, rfl⟩
  · exact hemptied.reap hr

theorem Dwells.returnFrom {call : SwitchCall} (h : s.Dwells t id bookmark scratch)
    (hr : s.returnFrom call = .ok s') : s'.Dwells t id bookmark scratch := by
  obtain ⟨s₁, hreclaim, hreap⟩ := bind_eq_ok_iff.1 hr
  exact ((h.reclaim hreclaim).same (same_calls s₁ _).toSamePlaces).reapAll hreap

theorem Dwells.attach {thread : Nat} {name : String} {bounds : Except IoError StackBounds}
    {outcome : Except Failure ThreadToken} (h : s.Dwells t id bookmark scratch) (hs : s.Sound)
    (hr : s.attach thread name bounds = .ok (outcome, s')) : s'.Dwells t id bookmark scratch := by
  obtain ⟨rfl, -⟩ | ⟨-, region, registry, statistics, slot, -, -, rfl⟩ := attach_cases hr
  · exact h
  obtain ⟨⟨c, hc, hseat⟩, f, hf, hmarked⟩ := h
  have hthread : t ≠ s.nextToken := by
    rintro rfl
    exact Option.some_ne_none c (hc.symm.trans hs.nextToken_not_given)
  have hfiber : id ≠ s.nextFiber := by
    rintro rfl
    exact Option.some_ne_none f (hf.symm.trans hs.nextFiber_not_made)
  have hcarrier := carrier?_append (s := s) (u := t)
    { token := s.nextToken, name, threadFiber := s.nextFiber, current := s.nextFiber, slot }
    hs.nextToken_not_given
  refine ⟨⟨c, hcarrier.trans ((if_neg hthread).trans hc), hseat⟩, f, ?_, hmarked⟩
  exact (Table.get?_insert ..).trans ((if_neg hfiber).trans hf)

theorem Dwells.performOn_ne {operation : ThreadOperation} {e : Option Event}
    (h : s.Dwells u id bookmark scratch) (hs : s.Sound) (hc : s.carrier? t = some c)
    (hr : s.performOn t c operation = .ok (s', e)) (hu : u ≠ t) :
    s'.Dwells u id bookmark scratch := by
  obtain ⟨⟨c', hc', rfl, hscratch⟩, f, hf, hmarked⟩ := h
  obtain ⟨_, f', hf', howner, -⟩ := (hs.carries u c' hc').current
  obtain rfl : f = f' := Option.some.inj (hf.symm.trans hf')
  exact ⟨⟨c', (carrier?_of_performOn_ne hs hc hr hu).trans hc', rfl, hscratch⟩, f,
    get?_of_performOn_ne hs hc hr hu hf howner, hmarked⟩

/-- Whatever is not an operation of the thread itself leaves it where it is. -/
theorem Dwells.perform {operation : Operation} {e : Option Event}
    (h : s.Dwells t id bookmark scratch) (hs : s.Sound) (hr : s.perform operation = .ok (s', e))
    (hother : ∀ own, operation ≠ .perform t own) : s'.Dwells t id bookmark scratch := by
  cases performed_of_perform hr with
  | nothing => exact h
  | attach hattach => exact h.attach hs hattach
  | perform hc hperform =>
    refine h.performOn_ne hs hc hperform ?_
    rintro rfl
    exact hother _ rfl
  | returnFrom _ hreturn => exact h.returnFrom hreturn
  | hold _ => exact h.same (same_held s _).toSamePlaces
  | drop hdrop => exact (h.same (same_held s _).toSamePlaces).reap hdrop
  | lease hlease => exact h.same (samePlaces_of_lease hlease)
  | unlease _ hunlease => exact h.same (samePlaces_of_unlease hunlease)
  | saveResume => exact h.modifyFiber fun _ => rfl
  | write | addContinuation | dropContinuation => exact h.same ⟨rfl, rfl, rfl, rfl, rfl, rfl⟩

/-- The thread itself uses its scratch resources. -/
theorem Dwells.exists_use {use : ScratchOperation} {e : Option Event}
    (h : s.Dwells t id bookmark scratch)
    (hr : s.perform (.perform t (.scratch use)) = .ok (s', e)) :
    ∃ next, scratch.perform use = .ok next ∧ s'.Dwells t id bookmark next := by
  obtain ⟨⟨c, hc, hcurrent, rfl⟩, hmarked⟩ := h
  simp only [FiberSystem.perform, hc, performOn, map_eq_ok_iff] at hr
  obtain ⟨next, huse, heq⟩ := hr
  obtain ⟨rfl, -⟩ := Prod.mk.inj heq
  refine ⟨next, huse, ⟨{ c with scratch := next }, ?_, hcurrent, rfl⟩, hmarked⟩
  exact carrier?_modifyCarrier_self (g := fun c => { c with scratch := next }) hc fun _ => rfl

end Stay

section Switches

/-- With verification on, no switch that ends its source enters a heap fiber. -/
theorem returning_of_enter (hverify : s.settings.verifyOnYield = true)
    (hheap : (s.fiber target).isThreadFiber = false) (hr : s.enter t target kind = .ok s') :
    kind = .returning := by
  obtain ⟨⟨⟩, -, hr⟩ := bind_eq_ok_iff.1 hr
  obtain ⟨s₁, hr, -⟩ := bind_eq_ok_iff.1 hr
  simp only [verifySwitch, hverify, if_true] at hr
  obtain ⟨⟨⟩, -, hr⟩ := bind_eq_ok_iff.1 hr
  simp only [bookmarkTarget, hheap, Bool.false_eq_true, if_false] at hr
  cases kind with
  | returning => rfl
  | terminating => simp at hr

/-- The bookmark tells the scratch resources with which the fiber is entered. -/
theorem dwells_of_enter (hs : s.Sound) (hverify : s.settings.verifyOnYield = true)
    (hc : s.carrier? t = some c) (hheap : (s.fiber target).isThreadFiber = false)
    (hr : s.enter t target kind = .ok s') :
    s'.Dwells t target (.taken c.scratch.snapshot) c.scratch := by
  obtain rfl := returning_of_enter hverify hheap hr
  obtain ⟨-, ⟨f, hf, -⟩, s₁, -, hx, ⟨-, rfl⟩ | ⟨hkind, -⟩⟩ := enter_cases hs hc hr
  · rw [fiber_eq hf] at hheap
    refine ⟨⟨_, hx.carrier?_self hc, rfl, rfl⟩, _, hx.get?_target f hf, ?_⟩
    simp [entryBookmark, hverify, hheap, carrier_eq hc]
  · simp at hkind

theorem exists_dwells_of_enter (hs : s.Sound) (hs' : s'.Sound) (hc : s.carrier? t = some c)
    (hheap : (s.fiber target).isThreadFiber = false) (hr : s.enter t target kind = .ok s') :
    ∃ bookmark, s'.Dwells t target bookmark c.scratch
      ∧ (s.settings.verifyOnYield = true → bookmark = .taken c.scratch.snapshot) := by
  by_cases hverify : s.settings.verifyOnYield = true
  · exact ⟨_, dwells_of_enter hs hverify hc hheap hr, fun _ => rfl⟩
  · obtain ⟨c', hc', rfl, hscratch⟩ := scratch_of_enter hs hc hr
    obtain ⟨_, f, hf, -⟩ := (hs'.carries t c' hc').current
    exact ⟨f.bookmark, ⟨⟨c', hc', rfl, hscratch⟩, f, hf, rfl⟩, fun h => absurd h hverify⟩

/-- A fiber that has given everything back may leave. -/
theorem Dwells.checkSource_eq {saved : Scratch}
    (h : s.Dwells t id (.taken saved.snapshot) scratch) (hrestored : saved.Restored scratch)
    (hchunks : saved.counts.monitorChunks = 0) : s.checkSource t id .returning = .ok () := by
  obtain ⟨⟨c, hc, -, rfl⟩, f, hf, hbookmark⟩ := h
  have hleak : saved.snapshot.leak? c.scratch.snapshot = none :=
    Snapshot.leak?_eq_none_iff.2 hrestored.snapshot.symm
  rw [← hrestored.counts] at hchunks
  simp [checkSource, fiber_eq hf, carrier_eq hc, hbookmark, Bookmark.snapshot?, hleak, hchunks]

/-- Every heap fiber has a bookmark on record to be taken. -/
theorem Verified.exists_bookmarkTarget (h : s.Verified) (hs : s.Sound)
    (hverify : s.settings.verifyOnYield = true) (hc : s.carrier? t = some c)
    (hcheck : s.checkTarget t target = .ok ()) :
    ∃ s', s.bookmarkTarget t id target .returning = .ok s' := by
  obtain ⟨f, hf, -⟩ := hs.exists_fiber hc (checkTarget_cases hcheck).1
  simp only [bookmarkTarget, fiber_eq hf]
  split_ifs with hthread hkind hblank
  · exact ⟨s, rfl⟩
  · exact hkind.elim
  · rw [h target f hf (Bool.eq_false_iff.2 hthread), hverify] at hblank
    simp at hblank
  · exact ⟨_, rfl⟩

/-- A switch that verification does not stop is done. -/
theorem exists_perform_switch (hc : s.carrier? t = some c)
    (hcheck : s.checkTarget t target = .ok ())
    (hverify : ∃ s₁, s.verifySwitch t c.current target .returning = .ok s₁) :
    ∃ s' e, s.perform (.perform t (.switch target .returning)) = .ok (s', e) := by
  obtain ⟨s₁, hverify⟩ := hverify
  simp [FiberSystem.perform, hc, performOn, enter, carrier_eq hc, hcheck, hverify, Except.map]

end Switches

end FiberSystem

namespace Run

open FiberSystem

/-- Thread `t` with carrier `c` enters a heap fiber while it holds no monitor chunk, and does nothing
then but use its scratch resources and close every bracket it opens. What the others do in the
meantime, and which switches return, is left open. -/
structure Visit (r : Run) (t : ThreadToken) (fiber : FiberId) (kind : SwitchKind) (c : Carrier)
    (stay : List Operation) (r' : Run) : Prop where
  carrier : r.system.carrier? t = some c
  heap : (r.system.fiber fiber).isThreadFiber = false
  chunks : c.scratch.counts.monitorChunks = 0
  runs : r.after (.perform t (.switch fiber kind) :: stay) = .ok r'
  uses : ∀ own, .perform t own ∈ stay → ∃ use, own = .scratch use
  bracketed : Scratch.Bracketed [] c.scratch (stay.filterMap (Operation.useBy? t))

variable {host : Host} {settings : Settings} {provider : PageProvider} {policy : Option Bool}
  {s : FiberSystem}
  {before stay : List Operation} {r r' : Run} {t : ThreadToken} {c : Carrier} {fiber : FiberId}
  {kind : SwitchKind} {bookmark : Bookmark} {scratch : Scratch} {operation : Operation}

theorem useBy?_eq_none (hother : ∀ own, operation ≠ .perform t own) :
    operation.useBy? t = none := by
  simp only [Operation.useBy?]
  split
  · refine if_neg ?_
    rintro rfl
    exact hother _ rfl
  · rfl

/-- What lasts while a thread is on a heap fiber and does nothing but use its scratch resources. -/
theorem exists_dwells_of_after (hs : r.system.Sound) (hverified : r.system.Verified)
    (h : r.system.Dwells t fiber bookmark scratch)
    (huses : ∀ own, .perform t own ∈ stay → ∃ use, own = .scratch use)
    (hr : r.after stay = .ok r') :
    r'.system.Sound ∧ r'.system.Verified ∧ r'.system.settings = r.system.settings
      ∧ ∃ scratch', scratch.after (stay.filterMap (Operation.useBy? t)) = .ok scratch'
        ∧ r'.system.Dwells t fiber bookmark scratch' := by
  induction stay generalizing r scratch with
  | nil =>
    obtain rfl := Except.ok.inj hr
    exact ⟨hs, hverified, rfl, scratch, rfl, h⟩
  | cons operation rest ih =>
    obtain ⟨r₁, hfirst, hrest⟩ := after_cons_eq_ok_iff.1 hr
    obtain ⟨e, hperform, -⟩ := perform_eq_ok_iff.1 hfirst
    obtain ⟨hs₁, hstep⟩ := hs.perform hperform
    have hverified₁ := lasting_verified.perform hverified hs hperform
    have huses₁ := fun own hown => huses own (List.mem_cons_of_mem _ hown)
    rw [← hstep.settings]
    -- only what the thread does itself changes its scratch resources
    by_cases hown : ∃ own, operation = .perform t own
    · obtain ⟨own, rfl⟩ := hown
      obtain ⟨use, rfl⟩ := huses own List.mem_cons_self
      obtain ⟨next, huse, h₁⟩ := h.exists_use hperform
      obtain ⟨hs', hverified', hsettings, scratch', hafter, h'⟩ :=
        ih hs₁ hverified₁ h₁ huses₁ hrest
      have hused : Operation.useBy? t (.perform t (.scratch use)) = some use := if_pos rfl
      refine ⟨hs', hverified', hsettings, scratch', ?_, h'⟩
      rw [List.filterMap_cons_some hused]
      exact Scratch.after_cons_eq_ok_iff.2 ⟨next, huse, hafter⟩
    · have hother := not_exists.1 hown
      rw [List.filterMap_cons_none (useBy?_eq_none hother)]
      exact ih hs₁ hverified₁ (h.perform hs hperform hother) huses₁ hrest

/-- At the end of the visit the thread is on the fiber and has given everything back, and
verification does not stop it. -/
theorem Visit.exists_carrier (h : r.Visit t fiber kind c stay r') (hs : r.system.Sound)
    (hverified : r.system.Verified) : ∃ c', r'.system.carrier? t = some c' ∧ c'.current = fiber
      ∧ c.scratch.Restored c'.scratch
      ∧ ∀ next, r'.system.checkTarget t next = .ok () →
        ∃ s', r'.system.verifySwitch t c'.current next .returning = .ok s' := by
  obtain ⟨hc, hheap, hchunks, hruns, huses, hbracketed⟩ := h
  obtain ⟨r₁, hfirst, hrest⟩ := after_cons_eq_ok_iff.1 hruns
  obtain ⟨e, hperform, -⟩ := perform_eq_ok_iff.1 hfirst
  obtain ⟨hs₁, hstep⟩ := hs.perform hperform
  have hverified₁ := lasting_verified.perform hverified hs hperform
  simp only [FiberSystem.perform, hc, performOn] at hperform
  obtain ⟨bookmark, h₁, hbookmark⟩ :=
    exists_dwells_of_enter hs hs₁ hc hheap (eq_ok_of_map_mk hperform)
  obtain ⟨hs', hverified', hsettings, scratch', hafter, h'⟩ :=
    exists_dwells_of_after hs₁ hverified₁ h₁ huses hrest
  have hrestored : c.scratch.Restored scratch' := hbracketed.ends_restored.of_after hafter
  obtain ⟨c', hc', hcurrent, hscratch⟩ := h'.seat
  refine ⟨c', hc', hcurrent, hscratch ▸ hrestored, fun next hcheck => ?_⟩
  simp only [verifySwitch]
  split_ifs with hverify
  · rw [hsettings, hstep.settings] at hverify
    obtain rfl := hbookmark hverify
    rw [hcurrent, h'.checkSource_eq hrestored hchunks, ok_bind]
    exact hverified'.exists_bookmarkTarget hs' (by rw [hsettings, hstep.settings, hverify]) hc'
      hcheck
  · exact ⟨_, rfl⟩

/-- Scratch operations that close every bracket they open give everything back, and nothing stops
them but a counter that runs over or memory that is not granted. If they are all that a thread does
on a heap fiber, the only fault in leaving the fiber is a target that is not a suspended fiber of
the thread. -/
theorem unreported_of_visit : (∀ scratch operations, Scratch.Bracketed [] scratch operations →
      scratch.Ends scratch.Restored operations
      ∧ (Scratch.Granted operations → scratch.Roomy operations →
        ∃ scratch', scratch.after operations = .ok scratch' ∧ scratch.Restored scratch'))
    ∧ ∀ host settings provider policy s before r t fiber kind c stay r',
      ofSettings host settings provider policy = .ok (.ok s) → Run.after ⟨s, []⟩ before = .ok r →
      r.Visit t fiber kind c stay r' →
      (∃ c', r'.system.carrier? t = some c' ∧ c'.current = fiber
        ∧ c.scratch.Restored c'.scratch)
      ∧ ∀ next fault, r'.perform (.perform t (.switch next .returning)) = .error fault →
        r'.system.checkTarget t next = .error fault := by
  refine ⟨fun _ _ h => ⟨h.ends_restored, h.ends_restored.exists_ok⟩, ?_⟩
  intro host settings provider policy s before r t fiber kind c stay r' hs hr hvisit
  have hsound := (recorded_of_after hs hr).sound
  obtain ⟨c', hc', hcurrent, hrestored, hverify⟩ :=
    hvisit.exists_carrier hsound (verified_of_after hs hr)
  refine ⟨⟨c', hc', hcurrent, hrestored⟩, fun next fault hfault => ?_⟩
  cases hcheck : r'.system.checkTarget t next with
  | error fault' =>
    simp only [perform, FiberSystem.perform, hc', performOn, enter, hcheck, error_bind,
      Except.map] at hfault
    rw [Except.error.inj hfault]
  | ok =>
    obtain ⟨s', e, hperform⟩ := exists_perform_switch hc' hcheck (hverify next hcheck)
    simp [perform, hperform, Except.map] at hfault

/-- The thread's own fiber has filled the handle area up to 8. On a heap fiber a handle block is
opened and the area is filled further above a mark. In the meantime another thread attaches. -/
theorem unreported_of_nested_brackets :
    (∃ scratch', ({ handleArea := 8 } : Scratch).after
        [.pushBlock, .makeHandle, .allocate .handle 64 true, .popBlock, .enter .monitorChunks,
         .leave .monitorChunks, .releaseTo .handle 8] = .ok scratch'
      ∧ Scratch.Restored { handleArea := 8 } scratch')
    ∧ ∃ s r c r', ofSettings .simulated { registryShards := 2, verifyOnYield := true }
        ({} : Simulation).provider none = .ok (.ok s)
      ∧ Run.after ⟨s, []⟩
          [.attach 1 "main" (.ok ⟨0x10000000, 0x100000⟩), .perform ⟨1⟩ (.create .pooled none),
           .perform ⟨1⟩ (.scratch (.allocate .handle 8 true))] = .ok r
      ∧ r.Visit ⟨1⟩ (.ofNumber 1) .returning c
          [.perform ⟨1⟩ (.scratch .pushBlock), .perform ⟨1⟩ (.scratch .makeHandle),
           .perform ⟨1⟩ (.scratch (.allocate .handle 64 true)), .perform ⟨1⟩ (.scratch .popBlock),
           .attach 2 "second" (.ok ⟨0x20000000, 0x100000⟩),
           .perform ⟨1⟩ (.scratch (.enter .monitorChunks)),
           .perform ⟨1⟩ (.scratch (.leave .monitorChunks)),
           .perform ⟨1⟩ (.scratch (.releaseTo .handle 8))] r'
      ∧ (∃ c', r'.system.carrier? ⟨1⟩ = some c' ∧ c'.current = .ofNumber 1
        ∧ c.scratch.Restored c'.scratch)
      ∧ (r'.perform (.perform ⟨1⟩ (.switch (.ofNumber 0) .returning))).toBool = true
      ∧ r'.perform (.perform ⟨1⟩ (.switch (.ofNumber 1) .returning))
        = .error (.targetNotSuspended (.ofNumber 1) .current)
      ∧ r'.system.checkTarget ⟨1⟩ (.ofNumber 1)
        = .error (.targetNotSuspended (.ofNumber 1) .current) := by
  have hbracketed : ∀ scratch, Scratch.Bracketed [] scratch
      ((.pushBlock :: ([.makeHandle] ++ [.allocate .handle 64 true]) ++ [.popBlock])
        ++ (.enter .monitorChunks :: [] ++ [.leave .monitorChunks])
        ++ [.releaseTo .handle (scratch.used .handle)]) := fun scratch =>
    .mark .handle (.sequence (.block fun _ _ => .sequence (.makeHandle (by decide)) fun _ _ =>
      .allocate 64 true (by decide)) fun _ _ => .count .monitorChunks fun _ _ => .nothing)
  refine ⟨(unreported_of_visit.1 _ _ (hbracketed _)).2 ?granted ?roomy, ?s, ?r, ?c, ?r', ?hs, ?hr, ?hvisit,
    (unreported_of_visit.2 _ _ _ _ _ _ _ _ _ _ _ _ _ ?hs ?hr ?hvisit).1, ?hleaves, ?hfault,
    (unreported_of_visit.2 _ _ _ _ _ _ _ _ _ _ _ _ _ ?hs ?hr ?hvisit).2 _ _ ?hfault⟩
  case granted => simp [Scratch.Granted]
  case roomy =>
    constructor
    case nextBlock => decide
    case live => decide
    case used => exact fun area => by cases area <;> decide
    case counts => exact fun counter => by cases counter <;> decide
  case hs => rfl
  case hr => rfl
  case hvisit =>
    constructor
    case carrier => rfl
    case heap => rfl
    case chunks => rfl
    case runs => rfl
    case uses => simp
    case bracketed => exact hbracketed _
  case hleaves => rfl
  case hfault => rfl

end Run

end PooledFibers
