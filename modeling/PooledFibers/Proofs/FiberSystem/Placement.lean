import Mathlib.Data.List.Basic
import Mathlib.Data.List.Nodup
import Mathlib.Tactic.Common
import PooledFibers.Proofs.FiberSystem.Lookup
import PooledFibers.Proofs.Registry.Shards

/-!
# Where the fibers are

`FiberSystem.Sound` says where the fibers of a system may be found: the thread fiber and the current
fiber of a carrier are fibers of its thread, the fibers in its idle cache and its pending slot are
ended heap fibers of its thread, each there once and none of them registered, and a registered
fiber has an attached owner. Each small change of the system keeps this.
-/

namespace PooledFibers

/-- The fibers that a carrier keeps though they have ended. -/
def Carrier.ended (c : Carrier) : List FiberId := c.pending.toList ++ c.idle

namespace FiberSystem

/-- A fiber exists and is owned by the thread; `isThread` tells a thread fiber from a heap fiber. -/
def Owns (s : FiberSystem) (t : ThreadToken) (isThread : Bool) (id : FiberId) : Prop :=
  ∃ f, s.fibers.get? id = some f ∧ f.owner = t ∧ f.isThreadFiber = isThread

/-- What a thread's carrier refers to is the thread's; what it keeps has ended. -/
structure Carries (s : FiberSystem) (t : ThreadToken) (c : Carrier) : Prop where
  token : 0 < t.number ∧ t.number ≤ s.tokensGiven
  threadFiber : s.Owns t true c.threadFiber
  current : ∃ b, s.Owns t b c.current
  nodup : c.ended.Nodup
  ended : ∀ id ∈ c.ended, s.Owns t false id ∧ s.registry.isRegistered id = false

structure Sound (s : FiberSystem) : Prop where
  registry : s.registry.Sound
  made : ∀ id f, s.fibers.get? id = some f → s.identities.Given id
  carries : ∀ t c, s.carrier? t = some c → s.Carries t c
  /-- A registered fiber has an attached owner, and is the owner's thread fiber if it is any. -/
  registered : ∀ id, s.registry.isRegistered id = true →
    ∃ t b c, s.Owns t b id ∧ s.carrier? t = some c ∧ (b = true → c.threadFiber = id)

/-- A heap fiber of a thread that is neither registered nor kept by the thread's carrier. -/
structure Loose (s : FiberSystem) (t : ThreadToken) (id : FiberId) : Prop where
  owns : s.Owns t false id
  unregistered : s.registry.isRegistered id = false
  not_ended : ∀ c, s.carrier? t = some c → id ∉ c.ended

variable {s s' : FiberSystem} {t u : ThreadToken} {c : Carrier} {id : FiberId} {f : Fiber}
  {b b' : Bool}

theorem Owns.unique (h : s.Owns t b id) (h' : s.Owns u b' id) : t = u ∧ b = b' := by
  obtain ⟨f, hf, rfl, rfl⟩ := h
  obtain ⟨g, hg, rfl, rfl⟩ := h'
  cases hf.symm.trans hg
  exact ⟨rfl, rfl⟩

theorem owns_of_eq (hf : s'.fibers = s.fibers) : s'.Owns t b id ↔ s.Owns t b id := by
  simp only [Owns, hf]

theorem Sound.nextFiber_not_made (h : s.Sound) : s.fibers.get? s.nextFiber = none := by
  rw [Option.eq_none_iff_forall_ne_some]
  exact fun f hf => (h.made _ f hf).ne_next rfl

theorem Sound.nextToken_not_given (h : s.Sound) : s.carrier? s.nextToken = none := by
  rw [Option.eq_none_iff_forall_ne_some]
  intro c hc
  have := (h.carries _ c hc).token.2
  simp only [nextToken] at this
  omega

/-- What a carrier refers to stays right as long as no fiber of it goes or is registered. -/
theorem Carries.mono (h : s.Carries t c) (htoken : s.tokensGiven ≤ s'.tokensGiven)
    (howns : ∀ b id, c.refersTo id = true → s.Owns t b id → s'.Owns t b id)
    (hregistered : ∀ id ∈ c.ended, s.registry.isRegistered id = false →
      s'.registry.isRegistered id = false) : s'.Carries t c where
  token := ⟨h.token.1, Nat.le_trans h.token.2 htoken⟩
  threadFiber := howns _ _ (by simp [Carrier.refersTo]) h.threadFiber
  current := h.current.imp fun b hb => howns b _ (by simp [Carrier.refersTo]) hb
  nodup := h.nodup
  ended id hid := by
    refine ⟨howns _ _ ?_ (h.ended id hid).1, hregistered id hid (h.ended id hid).2⟩
    simp only [Carrier.ended, List.mem_append, Option.mem_toList] at hid
    obtain hid | hid := hid <;> simp [Carrier.refersTo, hid]

theorem Carries.ease {c' : Carrier} (h : s.Carries t c) (hthread : c'.threadFiber = c.threadFiber)
    (hcurrent : c'.current = c.current) (hended : c'.ended.Sublist c.ended) : s.Carries t c' where
  token := h.token
  threadFiber := hthread ▸ h.threadFiber
  current := hcurrent ▸ h.current
  nodup := hended.nodup h.nodup
  ended id hid := h.ended id (hended.subset hid)

/-- A carrier may keep one more fiber that is loose. -/
theorem Carries.keep {c' : Carrier} {l : List FiberId} (h : s.Carries t c) (hid : s.Loose t id)
    (hc : s.carrier? t = some c) (hthread : c'.threadFiber = c.threadFiber)
    (hcurrent : c'.current = c.current) (hl : l.Sublist c.ended)
    (hended : c'.ended.Perm (id :: l)) : s.Carries t c' where
  token := h.token
  threadFiber := hthread ▸ h.threadFiber
  current := hcurrent ▸ h.current
  nodup := by
    refine hended.nodup_iff.2 (List.nodup_cons.2 ⟨fun hmem => ?_, hl.nodup h.nodup⟩)
    exact hid.not_ended c hc (hl.subset hmem)
  ended j hj := by
    rcases List.mem_cons.1 (hended.mem_iff.1 hj) with rfl | hj
    · exact ⟨hid.owns, hid.unregistered⟩
    · exact h.ended j (hl.subset hj)

section Changes

theorem Sound.same (h : s.Sound) (hs : s.SamePlaces s') : s'.Sound where
  registry := hs.registry ▸ h.registry
  made := by simpa only [hs.fibers, hs.identities] using h.made
  carries t c hc := by
    rw [hs.carrier?] at hc
    refine (h.carries t c hc).mono (Nat.le_of_eq hs.tokensGiven.symm) ?_ ?_
    · exact fun b id _ => (owns_of_eq hs.fibers).2
    · exact fun id _ hid => hs.registry ▸ hid
  registered := by simpa only [hs.carrier?, owns_of_eq hs.fibers, hs.registry] using h.registered

/-- A change of a fiber that keeps its owner and its kind. -/
theorem owns_modifyFiber {g : Fiber → Fiber}
    (hg : ∀ f, (g f).owner = f.owner ∧ (g f).isThreadFiber = f.isThreadFiber) (j : FiberId) :
    (s.modifyFiber id g).Owns t b j ↔ s.Owns t b j := by
  simp only [Owns, modifyFiber, Table.get?_modify]
  by_cases hj : j = id
  · cases hf : s.fibers.get? j <;> simp [hj, hg]
  · simp [hj]

theorem Sound.modifyFiber (h : s.Sound) {g : Fiber → Fiber}
    (hg : ∀ f, (g f).owner = f.owner ∧ (g f).isThreadFiber = f.isThreadFiber) (id : FiberId) :
    (s.modifyFiber id g).Sound where
  registry := h.registry
  made j f hf := by
    simp only [FiberSystem.modifyFiber, Table.get?_modify] at hf
    split_ifs at hf
    · obtain ⟨f₀, hf₀, -⟩ := Option.map_eq_some_iff.1 hf
      exact h.made j f₀ hf₀
    · exact h.made j f hf
  carries t c hc := (h.carries t c hc).mono (Nat.le_refl _)
    (fun _ _ _ => (owns_modifyFiber hg _).2) fun _ _ hid => hid
  registered id hid := by
    obtain ⟨t, b, c, howns, hc⟩ := h.registered id hid
    exact ⟨t, b, c, (owns_modifyFiber hg _).2 howns, hc⟩

/-- A change of a carrier that keeps its thread fiber. -/
theorem Sound.modifyCarrier (h : s.Sound) {g : Carrier → Carrier}
    (hg : ∀ c, (g c).token = c.token ∧ (g c).threadFiber = c.threadFiber)
    (hcarries : ∀ c, s.carrier? t = some c → s.Carries t (g c)) :
    (s.modifyCarrier t g).Sound where
  registry := h.registry
  made := h.made
  carries u c hc := by
    rw [carrier?_modifyCarrier fun c => (hg c).1] at hc
    split_ifs at hc with hu
    · subst hu
      obtain ⟨c₀, hc₀, rfl⟩ := Option.map_eq_some_iff.1 hc
      exact (hcarries c₀ hc₀).mono (Nat.le_refl _) (fun _ _ _ ho => ho) fun _ _ hid => hid
    · exact (h.carries u c hc).mono (Nat.le_refl _) (fun _ _ _ ho => ho) fun _ _ hid => hid
  registered id hid := by
    obtain ⟨u, b, c, howns, hc, hb⟩ := h.registered id hid
    by_cases hu : u = t
    · subst hu
      refine ⟨u, b, g c, howns, ?_, fun hbt => (hg c).2.trans (hb hbt)⟩
      simp [carrier?_modifyCarrier fun c => (hg c).1, hc]
    · refine ⟨u, b, c, howns, ?_, hb⟩
      rw [carrier?_modifyCarrier fun c => (hg c).1, if_neg hu, hc]

/-- A fiber that nothing refers to is nowhere to be found. -/
theorem unregistered_of_not_isReferenced (hid : s.isReferenced id = false) :
    s.registry.isRegistered id = false ∧ ∀ t c, s.carrier? t = some c → c.refersTo id = false := by
  simp only [isReferenced, Bool.or_eq_false_iff, List.any_eq_false, Bool.not_eq_true] at hid
  exact ⟨hid.1.1.1, fun t c hc => hid.1.2 c (mem_carriers hc)⟩

/-- What freeing a fiber comes to. -/
theorem reap_cases (hr : s.reap id = .ok s') :
    s' = s ∨ (s.isReferenced id = false ∧ ∃ f pool, s.fibers.get? id = some f
      ∧ (∀ lease, f.stack = .leased lease → s.pool.release lease.base = .ok pool)
      ∧ (∀ region, f.stack = .native region → pool = s.pool)
      ∧ s' = { s with fibers := s.fibers.erase id, pool }) := by
  simp only [reap] at hr
  split_ifs at hr with href
  · exact .inl (Except.ok.inj hr).symm
  · split at hr <;> rename_i hf
    · exact .inl (Except.ok.inj hr).symm
    · rename_i f
      refine .inr ⟨by simpa using href, f, ?_⟩
      split at hr <;> rename_i hstack
      · refine ⟨s.pool, hf, ?_, fun _ _ => rfl, (Except.ok.inj hr).symm⟩
        simp [hstack]
      · obtain ⟨pool, hpool, hr⟩ := Outcome.bind_eq_ok_iff.1 hr
        refine ⟨pool, hf, ?_, ?_, (Except.ok.inj hr).symm⟩
        · rintro lease hlease
          cases hstack.symm.trans hlease
          exact hpool
        · simp [hstack]

theorem Sound.reap (h : s.Sound) (hr : s.reap id = .ok s') : s'.Sound := by
  obtain rfl | ⟨href, f, pool, -, -, -, rfl⟩ := reap_cases hr
  · exact h
  obtain ⟨hreg, hrefers⟩ := unregistered_of_not_isReferenced href
  have howns : ∀ t b j, j ≠ id → s.Owns t b j →
      { s with fibers := s.fibers.erase id, pool }.Owns t b j := by
    rintro t b j hj ⟨f, hf, ht⟩
    exact ⟨f, by simp [hf, hj], ht⟩
  refine ⟨h.registry, fun j f hf => ?_, fun t c hc => ?_, fun j hj => ?_⟩
  · simp only [Table.get?_erase] at hf
    split_ifs at hf
    exact h.made j f hf
  · refine (h.carries t c hc).mono (Nat.le_refl _) (fun b j hj => howns t b j ?_) fun _ _ hj => hj
    rintro rfl
    simp [hrefers t c hc] at hj
  · obtain ⟨t, b, c, ho, hc⟩ := h.registered j hj
    refine ⟨t, b, c, howns t b j ?_ ho, hc⟩
    rintro rfl
    simp [hreg] at hj

/-- A new fiber of an attached thread. -/
theorem owns_addFiber (h : s.Sound) (hf : f.id = s.nextFiber) (ho : s.Owns t b id) :
    (s.addFiber f).Owns t b id := by
  obtain ⟨g, hg, ht⟩ := ho
  have hne : id ≠ f.id := by
    rintro rfl
    rw [hf, h.nextFiber_not_made] at hg
    simp at hg
  exact ⟨g, by simp [addFiber, hne, hg], ht⟩

theorem Sound.addFiber (h : s.Sound) (hf : f.id = s.nextFiber) : (s.addFiber f).Sound where
  registry := h.registry
  made j g hg := by
    simp only [FiberSystem.addFiber, Table.get?_insert] at hg ⊢
    split_ifs at hg with hj
    · exact hj.trans hf ▸ s.identities.given_advance_next
    · exact (h.made j g hg).mono s.identities.precedes_advance
  carries t c hc := (h.carries t c hc).mono (Nat.le_refl _) (fun _ _ _ => owns_addFiber h hf)
    fun _ _ hid => hid
  registered j hj := by
    obtain ⟨t, b, c, ho, hc⟩ := h.registered j hj
    exact ⟨t, b, c, owns_addFiber h hf ho, hc⟩

theorem register_cases (h : s.registry.Sound) (hr : s.register id = .ok s') :
    s.registry.isRegistered id = false ∧ ∃ registry : Registry, s' = { s with registry }
      ∧ registry.Sound
      ∧ ∀ j, registry.isRegistered j = (decide (j = id) || s.registry.isRegistered j) := by
  obtain ⟨registry, hinsert, hr⟩ := Outcome.bind_eq_ok_iff.1 hr
  obtain ⟨hregistry, hid, hregistered⟩ := h.insert hinsert
  exact ⟨hid, registry, (Except.ok.inj hr).symm, hregistry, hregistered⟩

theorem unregister_cases (h : s.registry.Sound) (hr : s.unregister id = .ok s') :
    s.registry.isRegistered id = true ∧ ∃ registry : Registry, s' = { s with registry }
      ∧ registry.Sound
      ∧ ∀ j, registry.isRegistered j = (!decide (j = id) && s.registry.isRegistered j) := by
  obtain ⟨registry, hremove, hr⟩ := Outcome.bind_eq_ok_iff.1 hr
  obtain ⟨hregistry, hid, hregistered⟩ := h.remove hremove
  exact ⟨hid, registry, (Except.ok.inj hr).symm, hregistry, hregistered⟩

theorem Sound.register (h : s.Sound) (hr : s.register id = .ok s') (hid : s.Loose t id)
    (hc : s.carrier? t = some c) : s'.Sound := by
  obtain ⟨-, registry, rfl, hregistry, hregistered⟩ := register_cases h.registry hr
  refine ⟨hregistry, h.made, fun u c' hc' => ?_, fun j hj => ?_⟩
  · refine (h.carries u c' hc').mono (Nat.le_refl _) (fun _ _ _ ho => ho) fun j hj hnot => ?_
    have hne : j ≠ id := by
      rintro rfl
      obtain ⟨rfl, -⟩ := ((h.carries u c' hc').ended j hj).1.unique hid.owns
      exact hid.not_ended c' hc' hj
    simp [hregistered, hne, hnot]
  · by_cases hne : j = id
    · subst hne
      exact ⟨t, false, c, hid.owns, hc, by simp⟩
    · rw [hregistered] at hj
      exact h.registered j (by simpa [hne] using hj)

theorem Sound.unregister (h : s.Sound) (hr : s.unregister id = .ok s') : s'.Sound := by
  obtain ⟨-, registry, rfl, hregistry, hregistered⟩ := unregister_cases h.registry hr
  refine ⟨hregistry, h.made, fun u c' hc' => ?_, fun j hj => ?_⟩
  · refine (h.carries u c' hc').mono (Nat.le_refl _) (fun _ _ _ ho => ho) fun j hj hnot => ?_
    simp [hregistered, hnot]
  · rw [hregistered, Bool.and_eq_true] at hj
    exact h.registered j hj.2

/-- What attaching a thread comes to. -/
theorem attach_cases {thread : Nat} {name : String} {bounds : Except IoError StackBounds}
    {outcome : Except Failure ThreadToken} (hr : s.attach thread name bounds = .ok (outcome, s')) :
    (s' = s ∧ ∃ failure, outcome = .error failure)
      ∨ outcome = .ok s.nextToken ∧ ∃ region registry statistics slot,
        s.registry.insert s.nextFiber = .ok registry
        ∧ s.statistics.register thread = (slot, statistics)
        ∧ s' = { s with
            tokensGiven := s.tokensGiven + 1
            fibers := s.fibers.insert s.nextFiber (.ofThread s.nextFiber s.nextToken name region)
            identities := s.identities.advance
            registry
            statistics
            carriers := s.carriers ++ [{ token := s.nextToken, name, threadFiber := s.nextFiber
                                         current := s.nextFiber, slot }] } := by
  simp only [attach] at hr
  split at hr
  · simp only [Except.ok.injEq, Prod.mk.injEq] at hr
    exact .inl ⟨hr.2.symm, _, hr.1.symm⟩
  · obtain ⟨s₁, hregister, hr⟩ := Outcome.bind_eq_ok_iff.1 hr
    obtain ⟨registry, hinsert, hs₁⟩ := Outcome.bind_eq_ok_iff.1 hregister
    obtain rfl := Except.ok.inj hs₁
    simp only [Outcome.pure_eq_ok, Except.ok.injEq, Prod.mk.injEq] at hr
    exact .inr ⟨hr.1.symm, _, registry, _, _, hinsert, rfl, hr.2.symm⟩

theorem Sound.attach {thread : Nat} {name : String} {bounds : Except IoError StackBounds}
    {outcome : Except Failure ThreadToken} (h : s.Sound)
    (hr : s.attach thread name bounds = .ok (outcome, s')) : s'.Sound := by
  obtain ⟨rfl, -⟩ | ⟨-, region, registry, statistics, slot, hinsert, -, rfl⟩ := attach_cases hr
  · exact h
  obtain ⟨hregistry, -, hregistered⟩ := h.registry.insert hinsert
  set thread := Fiber.ofThread s.nextFiber s.nextToken name region
  have hcarrier := fun u => carrier?_append (s := s) (u := u)
    { token := s.nextToken, name, threadFiber := s.nextFiber, current := s.nextFiber, slot }
    h.nextToken_not_given
  have hold : ∀ t b id, s.Owns t b id → (s.addFiber thread).Owns t b id :=
    fun t b id => owns_addFiber h rfl
  have hnew : (s.addFiber thread).Owns s.nextToken true s.nextFiber :=
    ⟨thread, by simp [FiberSystem.addFiber, thread, Fiber.ofThread], rfl, rfl⟩
  refine ⟨hregistry, (h.addFiber (f := thread) rfl).made, fun u c hc => ?_,
    fun j hj => ?_⟩
  · replace hc := (hcarrier u).symm.trans hc
    split_ifs at hc with hu
    · obtain rfl := Option.some.inj hc
      subst hu
      refine ⟨⟨Nat.succ_pos _, Nat.le_refl _⟩, hnew, ⟨_, hnew⟩, ?_, ?_⟩ <;> simp [Carrier.ended]
    · refine (h.carries u c hc).mono (Nat.le_succ _) (fun b id _ => hold u b id) ?_
      intro id hid hnot
      have hne : id ≠ s.nextFiber := by
        rintro rfl
        obtain ⟨f, hf, -⟩ := ((h.carries u c hc).ended _ hid).1
        rw [h.nextFiber_not_made] at hf
        simp at hf
      simp [hregistered, hne, hnot]
  · by_cases hne : j = s.nextFiber
    · subst hne
      exact ⟨s.nextToken, true, _, hnew, (hcarrier _).trans (if_pos rfl), fun _ => rfl⟩
    · rw [hregistered] at hj
      obtain ⟨t, b, c, ho, hc, hb⟩ := h.registered j (by simpa [hne] using hj)
      refine ⟨t, b, c, hold t b j ho, (hcarrier t).trans ?_, hb⟩
      have ht : t ≠ s.nextToken := by
        rintro rfl
        rw [h.nextToken_not_given] at hc
        simp at hc
      rw [if_neg ht, hc]

/-- A carrier goes once no fiber of its thread is registered. -/
theorem Sound.dropCarrier (h : s.Sound)
    (hnone : ∀ b id, s.registry.isRegistered id = true → ¬s.Owns t b id) :
    { s with carriers := s.carriers.filter fun c => c.token ≠ t }.Sound := by
  refine ⟨h.registry, h.made, fun u c hc => ?_, fun j hj => ?_⟩
  · rw [carrier?_filter] at hc
    split_ifs at hc
    exact (h.carries u c hc).mono (Nat.le_refl _) (fun _ _ _ ho => ho) fun _ _ hid => hid
  · obtain ⟨u, b, c, ho, hc⟩ := h.registered j hj
    refine ⟨u, b, c, ho, ?_⟩
    have hu : u ≠ t := by
      rintro rfl
      exact hnone b j hj ho
    rwa [carrier?_filter, if_neg hu]

end Changes

end FiberSystem

end PooledFibers
