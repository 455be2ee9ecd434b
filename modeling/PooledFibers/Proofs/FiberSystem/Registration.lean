import Mathlib.Data.List.Basic
import Mathlib.Tactic.Common
import PooledFibers.Machine.Simulated
import PooledFibers.Proofs.FiberSystem.Step

/-!
# Which fibers are registered

After every operation of a run the registered fibers are the thread fibers of the attached threads
and the fibers handed out to them that have not ended (`Run.registry_lists_of_after`). The invariant
compares the system with the history of the run, which knows nothing of the registry.
-/

namespace PooledFibers

namespace FiberSystem

variable {s s' s₁ : FiberSystem} {t u : ThreadToken} {c c' : Carrier} {id j source target : FiberId}
  {history : List Event} {e : Event} {b : Bool} {f : Fiber}

/-- A registered heap fiber of a thread. -/
def Live (s : FiberSystem) (t : ThreadToken) (id : FiberId) : Prop :=
  s.registry.isRegistered id = true ∧ s.Owns t false id

/-- The history tells the threads and their live fibers. -/
structure Recorded (s : FiberSystem) (history : List Event) : Prop where
  sound : s.Sound
  thread : ∀ u, threadFiberOf u history = (s.carrier? u).map Carrier.threadFiber
  registered : ∀ u c, s.carrier? u = some c → s.registry.isRegistered c.threadFiber = true
  creator : ∀ u c id, s.carrier? u = some c → (creatorOf id history = some u ↔ s.Live u id)
  given : ∀ u id, creatorOf id history = some u → u.number ≤ s.tokensGiven

section Live

theorem Calm.live_iff (hs : s.Calm s') (h : s.Sound)
    (hj : s'.registry.isRegistered j = true ↔ s.registry.isRegistered j = true) :
    s'.Live u j ↔ s.Live u j := by
  constructor
  · rintro ⟨hj', ho⟩
    exact ⟨hj.1 hj', (hs.owns_iff h (hj.1 hj') hj').1 ho⟩
  · rintro ⟨hj', ho⟩
    exact ⟨hj.2 hj', (hs.owns_iff h hj' (hj.2 hj')).2 ho⟩

theorem Live.unique (h : s.Live t id) (h' : s.Live u id) : t = u := (h.2.unique h'.2).1

theorem Calm.live_iff_of_created (hs : s.Calm s') (h : s.Sound)
    (hid : s.registry.isRegistered id = false) (howns : s'.Owns t false id)
    (hreg : ∀ j, s'.registry.isRegistered j = true ↔ j = id ∨ s.registry.isRegistered j = true) :
    s'.Live u j ↔ (t = u ∧ j = id) ∨ s.Live u j := by
  by_cases hj : j = id
  · subst hj
    have hlive : s'.Live t j := ⟨(hreg j).2 (.inl rfl), howns⟩
    have hnot : ¬s.Live u j := fun hl => Bool.noConfusion (hid.symm.trans hl.1)
    constructor
    · exact fun hl => .inl ⟨hlive.unique hl, rfl⟩
    · rintro (⟨rfl, -⟩ | hl)
      · exact hlive
      · exact absurd hl hnot
  · rw [hs.live_iff h (by simp [hreg, hj])]
    simp [hj]

theorem Ended.live_iff (he : s.Ended t id s') (h : s.Sound) :
    s'.Live u j ↔ j ≠ id ∧ s.Live u j := by
  by_cases hj : j = id
  · subst hj
    simp [Live, he.isRegistered]
  · rw [he.toCalm.live_iff h (by simp [he.isRegistered, hj])]
    simp [hj]

theorem Exchanged.live_iff (hx : s.Exchanged t source target s')
    (hf : s.fibers.get? target = some f) : s'.Live u j ↔ s.Live u j := by
  rw [Live, Live, hx.registry, hx.owns_iff hf]

/-- The fibers of the other threads stay as they are. -/
theorem Calm.live_iff_of_detached (hs : s.Calm s') (h : s.Sound)
    (hreg : ∀ j, s'.registry.isRegistered j = true
      ↔ s.registry.isRegistered j = true ∧ ¬∃ b, s.Owns t b j) (hu : u ≠ t) :
    s'.Live u j ↔ s.Live u j := by
  constructor
  · rintro ⟨hj, ho⟩
    have hj₀ := ((hreg j).1 hj).1
    exact ⟨hj₀, (hs.owns_iff h hj₀ hj).1 ho⟩
  · rintro ⟨hj, ho⟩
    have hj' := (hreg j).2 ⟨hj, fun ⟨b, ho'⟩ => hu (ho.unique ho').1⟩
    exact ⟨hj', (hs.owns_iff h hj hj').2 ho⟩

theorem Attached.live_iff (ha : s.Attached s') (h : s.Sound) : s'.Live u j ↔ s.Live u j := by
  obtain ⟨name, region, hget⟩ := ha.get?
  have hnew : ¬s'.Owns u false s.nextFiber := by
    rintro ⟨f, hf, -, hheap⟩
    rw [hget, if_pos rfl] at hf
    obtain rfl := Option.some.inj hf
    exact Bool.noConfusion hheap
  by_cases hj : j = s.nextFiber
  · subst hj
    exact ⟨fun hl => absurd hl.2 hnew, fun hl => absurd hl.2 h.not_owns_nextFiber⟩
  · simp only [Live, Owns, ha.isRegistered, hget, hj, false_or, if_false]

end Live

/-- A thread fiber is not a heap fiber. -/
theorem Sound.threadFiber_ne (h : s.Sound) (hc : s.carrier? u = some c)
    (ho : s.Owns t false id) : c.threadFiber ≠ id := by
  rintro rfl
  exact Bool.noConfusion ((h.carries u c hc).threadFiber.unique ho).2

section Steps

theorem Recorded.quiet (h : s.Recorded history) (hs' : s'.Sound) (hs : s.Calm s')
    (hreg : ∀ j, s'.registry.isRegistered j = true ↔ s.registry.isRegistered j = true)
    (hplaces : ∀ u, (s'.carrier? u).map Carrier.place = (s.carrier? u).map Carrier.place) :
    s'.Recorded history := by
  refine ⟨hs', fun u => ?_, fun u c' hc' => ?_, fun u c' id hc' => ?_, fun u id hid => ?_⟩
  · rw [h.thread, threadFiber_eq_of_place (hplaces u)]
  · obtain ⟨c, hc, hthread, -⟩ := exists_place_eq (hplaces u) hc'
    rw [hreg, hthread]
    exact h.registered u c hc
  · obtain ⟨c, hc, -⟩ := exists_place_eq (hplaces u) hc'
    rw [hs.live_iff h.sound (hreg id), h.creator u c id hc]
  · exact hs.tokensGiven ▸ h.given u id hid

/-- A fiber ends, and the event says so. -/
theorem Recorded.ended (h : s.Recorded history) (hs' : s'.Sound) (he : s.Ended t id s')
    (hattached : ∀ u, threadFiberOf u (e :: history) = threadFiberOf u history)
    (hcreator : ∀ j, creatorOf j (e :: history) = if id = j then none else creatorOf j history) :
    s'.Recorded (e :: history) := by
  refine ⟨hs', fun u => ?_, fun u c' hc' => ?_, fun u c' j hc' => ?_, fun u j hj => ?_⟩
  · rw [hattached, h.thread, threadFiber_eq_of_place (he.places u)]
  · obtain ⟨c, hc, hthread, -⟩ := exists_place_eq (he.places u) hc'
    rw [he.isRegistered, hthread]
    exact ⟨h.sound.threadFiber_ne hc he.owns, h.registered u c hc⟩
  · obtain ⟨c, hc, -⟩ := exists_place_eq (he.places u) hc'
    rw [hcreator]
    rw [he.live_iff h.sound]
    split_ifs with hj
    · simp [hj]
    · rw [h.creator u c j hc, and_iff_right (Ne.symm hj)]
  · rw [hcreator] at hj
    split_ifs at hj
    exact he.tokensGiven ▸ h.given u j hj

theorem Recorded.exchanged (h : s.Recorded history) (hs₁ : s₁.Sound)
    (hf : s.fibers.get? target = some f) (hx : s.Exchanged t source target s₁) :
    s₁.Recorded history := by
  refine ⟨hs₁, fun u => ?_, fun u c' hc' => ?_, fun u c' id hc' => ?_, fun u id hid => ?_⟩
  · rw [h.thread, hx.threadFiber]
  · obtain ⟨c, hc, hthread, -⟩ := hx.carrier_cases hc'
    rw [hx.registry, hthread]
    exact h.registered u c hc
  · obtain ⟨c, hc, -⟩ := hx.carrier_cases hc'
    rw [hx.live_iff hf, h.creator u c id hc]
  · exact hx.tokensGiven ▸ h.given u id hid

theorem Recorded.created (h : s.Recorded history) (hs' : s'.Sound) (hs : s.Calm s')
    (hc : s.carrier? t = some c) (howns : s'.Owns t false id)
    (hreg : ∀ j, s'.registry.isRegistered j = true ↔ j = id ∨ s.registry.isRegistered j = true)
    (hplaces : ∀ u, (s'.carrier? u).map Carrier.place = (s.carrier? u).map Carrier.place) :
    s'.Recorded (.created t id :: history) := by
  refine ⟨hs', fun u => ?_, fun u c' hc' => ?_, fun u c' j hc' => ?_, fun u j hj => ?_⟩
  · exact (h.thread u).trans (threadFiber_eq_of_place (hplaces u)).symm
  · obtain ⟨c₀, hc₀, hthread, -⟩ := exists_place_eq (hplaces u) hc'
    rw [hreg, hthread]
    exact .inr (h.registered u c₀ hc₀)
  · obtain ⟨c₀, hc₀, -⟩ := exists_place_eq (hplaces u) hc'
    rw [creatorOf]
    split_ifs with hj
    · subst hj
      have hlive : s'.Live t id := ⟨(hreg id).2 (.inl rfl), howns⟩
      rw [Option.some.injEq]
      exact ⟨fun hu => hu ▸ hlive, fun hl => hlive.unique hl⟩
    · rw [hs.live_iff h.sound (by simp [hreg, Ne.symm hj]), h.creator u c₀ j hc₀]
  · rw [creatorOf] at hj
    split_ifs at hj
    · obtain rfl := Option.some.inj hj
      exact hs.tokensGiven ▸ (h.sound.carries t c hc).token.2
    · exact hs.tokensGiven ▸ h.given u j hj

theorem Recorded.detached (h : s.Recorded history) (hs' : s'.Sound) (hs : s.Calm s')
    (hreg : ∀ j, s'.registry.isRegistered j = true
      ↔ s.registry.isRegistered j = true ∧ ¬∃ b, s.Owns t b j)
    (hplaces : ∀ u, (s'.carrier? u).map Carrier.place
      = if u = t then none else (s.carrier? u).map Carrier.place) :
    s'.Recorded (.detached t :: history) := by
  refine ⟨hs', fun u => ?_, fun u c' hc' => ?_, fun u c' j hc' => ?_, fun u j hj => ?_⟩
  · rw [threadFiberOf]
    split_ifs with hu
    · subst hu
      have hgone := hplaces t
      rw [if_pos rfl, Option.map_eq_none_iff] at hgone
      rw [hgone, Option.map_none]
    · rw [h.thread, threadFiber_eq_of_place ((hplaces u).trans (if_neg (Ne.symm hu)))]
  · obtain ⟨hu, hplace⟩ := place_eq_of_detached hplaces hc'
    obtain ⟨c, hc, hthread, -⟩ := exists_place_eq hplace hc'
    have howns := (h.sound.carries u c hc).threadFiber
    rw [hthread, hreg]
    exact ⟨h.registered u c hc, fun ⟨b, ho⟩ => hu (howns.unique ho).1⟩
  · obtain ⟨hu, hplace⟩ := place_eq_of_detached hplaces hc'
    obtain ⟨c, hc, -⟩ := exists_place_eq hplace hc'
    rw [creatorOf_detached, h.creator u c j hc, hs.live_iff_of_detached h.sound hreg hu]
  · exact hs.tokensGiven ▸ h.given u j hj

theorem Recorded.attached (h : s.Recorded history) (hs' : s'.Sound) (ha : s.Attached s') :
    s'.Recorded (.attached s.nextToken s.nextFiber :: history) := by
  obtain ⟨c₀, hplace, hcarrier⟩ := ha.carrier?
  have hthread : c₀.threadFiber = s.nextFiber := congrArg Prod.fst hplace
  refine ⟨hs', fun u => ?_, fun u c' hc' => ?_, fun u c' j hc' => ?_, fun u j hj => ?_⟩
  · rw [threadFiberOf, hcarrier]
    by_cases hu : u = s.nextToken
    · simp [hu, hthread]
    · rw [if_neg (Ne.symm hu), if_neg hu, h.thread]
  · rw [hcarrier] at hc'
    rw [ha.isRegistered]
    split_ifs at hc'
    · exact .inl (Option.some.inj hc' ▸ hthread)
    · exact .inr (h.registered u c' hc')
  · rw [creatorOf_attached, ha.live_iff h.sound]
    rw [hcarrier] at hc'
    split_ifs at hc' with hu
    · subst hu
      constructor
      · intro hj
        have hle := h.given _ j hj
        simp only [nextToken] at hle
        omega
      · rintro ⟨hj, ho⟩
        obtain ⟨t, b, c, ho', hc, -⟩ := h.sound.registered j hj
        obtain ⟨rfl, -⟩ := ho.unique ho'
        exact absurd hc (by simp [h.sound.nextToken_not_given])
    · exact h.creator u c' j hc'
  · exact ha.tokensGiven ▸ Nat.le_succ_of_le (h.given u j hj)

theorem Recorded.step {e : Option Event} (h : s.Recorded history) (hs' : s'.Sound)
    (hstep : s.Step s' e) : s'.Recorded (e.toList ++ history) := by
  cases hstep with
  | quiet hs hreg hplaces => exact h.quiet hs' hs hreg hplaces
  | attach ha => exact h.attached hs' ha
  | create hs hc _ howns hreg hplaces => exact h.created hs' hs hc howns hreg hplaces
  | terminate hc he => exact h.ended hs' he (fun _ => rfl) fun _ => rfl
  | detach hs hc hreg hplaces => exact h.detached hs' hs hreg hplaces
  | switch hc _ hf _ _ hs₁ hx hkind =>
    have h₁ := h.exchanged hs₁ hf hx
    obtain ⟨rfl, rfl⟩ | ⟨rfl, he⟩ := hkind
    · exact ⟨hs₁, h₁.thread, h₁.registered, by simpa [creatorOf] using h₁.creator,
        by simpa [creatorOf] using h₁.given⟩
    · exact h₁.ended hs' he (fun _ => rfl) fun _ => by simp [creatorOf]

end Steps

theorem Recorded.isRegistered_iff (h : s.Recorded history) :
    s.registry.isRegistered id = true ↔ LiveIn history id := by
  constructor
  · intro hid
    obtain ⟨t, b, c, ho, hc, hb⟩ := h.sound.registered id hid
    have hthread : threadFiberOf t history = some c.threadFiber := by rw [h.thread, hc]; rfl
    cases b with
    | true => exact .inl ⟨t, hb rfl ▸ hthread⟩
    | false => exact .inr ⟨t, (h.creator t c id hc).2 ⟨hid, ho⟩, by rw [hthread]; rfl⟩
  · rintro (⟨t, hthread⟩ | ⟨t, hcreator, hthread⟩)
    · rw [h.thread, Option.map_eq_some_iff] at hthread
      obtain ⟨c, hc, rfl⟩ := hthread
      exact h.registered t c hc
    · rw [h.thread, Option.isSome_map, Option.isSome_iff_exists] at hthread
      obtain ⟨c, hc⟩ := hthread
      exact ((h.creator t c id hc).1 hcreator).1

theorem recorded_of_ofSettings {host : Host} {settings : Settings}
    {provider : PageProvider}
    {policy : Option Bool} (hs : ofSettings host settings provider policy = .ok (.ok s)) :
    s.Recorded [] := by
  obtain ⟨hsound, -, hcarriers, -, -⟩ := sound_of_ofSettings hs
  have hnone : ∀ u, s.carrier? u = none := fun u => by simp [carrier?, hcarriers]
  refine ⟨hsound, fun u => ?_, fun u c hc => ?_, fun u c id hc => ?_, fun u id hid => ?_⟩
  · rw [hnone]
    rfl
  · simp [hnone] at hc
  · simp [hnone] at hc
  · simp [creatorOf] at hid

end FiberSystem

/-- The registry holds just these fibers: it finds each of them, visits it once and links it in one
place of one shard. -/
structure Registry.Lists (r : Registry) (p : FiberId → Prop) : Prop where
  isRegistered : ∀ id, r.isRegistered id = true ↔ p id
  find? : ∀ id, r.find? id = .ok (some id) ↔ p id
  toList : ∃ fibers, r.toList = .ok fibers ∧ fibers.Nodup ∧ ∀ id, id ∈ fibers ↔ p id
  linkedAt : ∀ id, p id ↔ ∃! place : Nat × Nat, r.LinkedAt id place.1 place.2

theorem Registry.Sound.lists {r : Registry} (h : r.Sound) :
    r.Lists fun id => r.isRegistered id = true := by
  refine ⟨fun _ => .rfl, fun id => ?_, h.exists_toList, h.existsUnique_linkedAt⟩
  rw [h.find?_eq]
  split_ifs with hid <;> simp [hid]

namespace Run

variable {host : Host} {settings : Settings} {provider : PageProvider} {policy : Option Bool}
  {s : FiberSystem}
  {operations : List Operation} {r : Run}

theorem recorded_of_after (hs : FiberSystem.ofSettings host settings provider policy = .ok (.ok s))
    (hr : Run.after ⟨s, []⟩ operations = .ok r) : r.system.Recorded r.history := by
  refine after_induction (P := fun r => r.system.Recorded r.history) ?_ hr
    (FiberSystem.recorded_of_ofSettings hs)
  intro r operation r' h hr
  obtain ⟨event, hperform, hhistory⟩ := perform_eq_ok_iff.1 hr
  obtain ⟨hsound, hstep⟩ := h.sound.perform hperform
  exact hhistory ▸ h.step hsound hstep

/-- After a run without a fault the registry lists the fibers that have not ended. -/
theorem registry_lists_of_after
    (hs : FiberSystem.ofSettings host settings provider policy = .ok (.ok s))
    (hr : Run.after ⟨s, []⟩ operations = .ok r) : r.system.registry.Lists (LiveIn r.history) := by
  have h := recorded_of_after hs hr
  have hlive : LiveIn r.history = fun id => r.system.registry.isRegistered id = true :=
    funext fun id => propext h.isRegistered_iff.symm
  exact hlive ▸ h.sound.registry.lists

/-- A fiber ends and is handed out again, another is entered, and one of two threads goes. -/
theorem registry_lists_of_two_threads : ∃ s r,
    FiberSystem.ofSettings .simulated { registryShards := 2, verifyOnYield := true }
        ({} : Simulation).provider none = .ok (.ok s)
      ∧ Run.after ⟨s, []⟩
          [.attach 1 "first" (.ok ⟨0x10000000, 0x100000⟩),
           .perform ⟨1⟩ (.create .pooled none), .perform ⟨1⟩ (.create .pooled none),
           .attach 2 "second" (.ok ⟨0x20000000, 0x100000⟩), .perform ⟨2⟩ (.create .pooled none),
           .perform ⟨1⟩ (.terminate (.ofNumber 1)),
           .perform ⟨1⟩ (.switch (.ofNumber 2) .returning),
           .perform ⟨1⟩ (.create .pooled none), .perform ⟨2⟩ .detach] = .ok r
      ∧ r.system.registry.toList = .ok [.ofNumber 2, .ofNumber 0, .ofNumber 1]
      ∧ r.system.registry.Lists (LiveIn r.history) := by
  refine ⟨?s, ?r, ?hs, ?hr, ?hlist, registry_lists_of_after ?hs ?hr⟩
  case hs => rfl
  case hr => rfl
  case hlist => rfl

end Run

end PooledFibers
