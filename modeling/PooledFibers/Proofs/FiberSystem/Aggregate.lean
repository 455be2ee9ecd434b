import Mathlib.Algebra.BigOperators.Group.List.Basic
import Mathlib.Algebra.GroupWithZero.Nat
import Mathlib.Algebra.Order.BigOperators.Group.List
import Mathlib.Algebra.Order.Group.Nat
import Mathlib.Tactic.Common
import PooledFibers.Machine.Simulated
import PooledFibers.Proofs.FiberSystem.Counters

/-!
# The statistics agree with the threads

After every operation of a run, the slot of each attached thread tells how many fibers of the thread
are registered and how many wait in its idle cache. A slot is claimed as long as an attached thread
holds it, so the total adds up the tallies of these threads and no others (`Run.reports_of_after`).

The counters are words. What they say is right modulo `2 ^ 64` however long the run, and right
without a modulus before there have been `2 ^ 64` operations: no thread has counted more than the
operations that it performed, and each of these is the operation of one thread only.
-/

namespace PooledFibers

/-- The thread that performs an operation, if it is one of a thread. -/
def Operation.performer? : Operation → Option ThreadToken
  | .perform t _ => some t
  | _ => none

section Sums

variable {α β : Type}

/-- Each item is counted for one key at most. -/
theorem sum_countP_le [DecidableEq β] (key : α → Option β) {ks : List β} (hks : ks.Nodup)
    (xs : List α) : (ks.map fun k => xs.countP (key · = some k)).sum ≤ xs.length := by
  induction ks generalizing xs with
  | nil => exact Nat.zero_le _
  | cons k ks ih =>
    obtain ⟨hk, hks⟩ := List.nodup_cons.1 hks
    -- what is counted for another key is among the items without this one
    have hrest : ∀ k' ∈ ks, xs.countP (key · = some k')
        = (xs.filter (key · ≠ some k)).countP (key · = some k') := by
      intro k' hk'
      rw [List.countP_filter]
      refine List.countP_congr fun x _ => ?_
      have hne : k' ≠ k := fun h => hk (h ▸ hk')
      simp +contextual [hne]
    have hle := ih hks (xs.filter (key · ≠ some k))
    rw [← List.map_congr_left hrest, ← List.countP_eq_length_filter] at hle
    have hsplit := List.length_eq_countP_add_countP (key · = some k) (l := xs)
    simp only [List.map_cons, List.sum_cons, decide_eq_true_eq, ne_eq] at hle hsplit ⊢
    omega

theorem sum_filterMap_le {f : α → Option β} {g : β → Nat} {share : α → Nat} {xs : List α}
    (h : ∀ x ∈ xs, ∀ y, f x = some y → g y ≤ share x) :
    ((xs.filterMap f).map g).sum ≤ (xs.map share).sum := by
  induction xs with
  | nil => exact Nat.le_refl _
  | cons x xs ih =>
    have hle := ih fun x' hx' => h x' (List.mem_cons_of_mem x hx')
    rw [List.map_cons, List.sum_cons, List.filterMap_cons]
    cases hy : f x with
    | none => exact Nat.le_add_left_of_le hle
    | some y =>
      have := h x List.mem_cons_self y hy
      simp only [List.map_cons, List.sum_cons]
      omega

end Sums

namespace FiberSystem

open Outcome

/-- The statistics tell of the attached threads and of no others. -/
structure Reports (s : FiberSystem) : Prop where
  /-- The slot of a thread counts its registered heap fibers and the fibers in its idle cache, in
  the arithmetic of words. -/
  tells : ∀ t c k, s.carrier? t = some c → c.slot = some k →
    ∃ thread tally ids, s.statistics.slot? k = some (thread, tally)
      ∧ s.orphans t = .ok ids ∧ s.HasLive t ids
      ∧ tally.created + tally.reused = tally.terminated + .ofNat ids.length
      ∧ tally.idle = .ofNat c.idle.length
  /-- The slot of a thread is free once the thread is detached. -/
  frees : ∀ t c k s' e, s.carrier? t = some c → c.slot = some k →
    s.perform (.perform t .detach) = .ok (s', e) → s'.statistics.slot? k = none
  /-- The total is the sum over the slots that attached threads hold, and it is there unless one of
  the sums is no word. -/
  total : ∃ held : List Nat, held.Nodup ∧ (∀ k, k ∈ held ↔ ∃ t, s.slotOf t = some k)
    ∧ (∀ total, s.statistics.total = .ok total ↔ total.threads = held.length
        ∧ total.tally.IsSum (held.filterMap s.statistics.tally?)
        ∧ total.overflow = s.statistics.overflow)
    ∧ ∀ fault, s.statistics.total = .error fault ↔
        fault = .overflow ∧ Tally.Exceeds (held.filterMap s.statistics.tally?)

/-- The statistics tell numbers, without a modulus. -/
structure Reckons (s : FiberSystem) : Prop where
  tells : ∀ t c k, s.carrier? t = some c → c.slot = some k →
    ∃ thread tally ids, s.statistics.slot? k = some (thread, tally)
      ∧ s.orphans t = .ok ids ∧ s.HasLive t ids
      ∧ tally.created.toNat + tally.reused.toNat = tally.terminated.toNat + ids.length
      ∧ tally.idle.toNat = c.idle.length
  total : ∃ total, s.statistics.total = .ok total

/-- What makes the reports right is kept by every operation, if the operations that each thread
performs are its work. -/
structure Agrees (s : FiberSystem) (work : ThreadToken → Nat) : Prop where
  sound : s.Sound
  partitioned : s.Partitioned
  /-- The slot of a thread tells its live fibers and the length of its idle cache. -/
  tells : ∀ t k, s.slotOf t = some k → ∃ ids, s.HasLive t ids ∧ s.Tells t ids.length (work t)
  /-- A thread keeps no more fibers that have ended than it can have ended. -/
  kept : ∀ t c, s.carrier? t = some c → c.ended.length ≤ work t
  /-- A slot is claimed only while an attached thread holds it. -/
  held : ∀ k, (s.statistics.slot? k).isSome = true → ∃ t, s.slotOf t = some k

variable {s s' : FiberSystem} {t u : ThreadToken} {c : Carrier} {ids : List FiberId}
  {e : Option Event} {k : Nat} {work work' : ThreadToken → Nat}

section Slots

theorem exists_carrier_of_slotOf (hk : s.slotOf u = some k) : ∃ c, s.carrier? u = some c := by
  obtain ⟨c, hc, -⟩ := Option.bind_eq_some_iff.1 hk
  exact ⟨c, hc⟩

theorem tally?_of_slot (hslot : s'.slotOf u = s.slotOf u)
    (hk : ∀ k, s.slotOf u = some k → s'.statistics.slot? k = s.statistics.slot? k) :
    s'.tally? u = s.tally? u := by
  rw [tally?, tally?, hslot]
  cases hslot : s.slotOf u with
  | none => rfl
  | some k => simp only [Option.bind_some, Statistics.tally?, hk k hslot]

/-- The slots of the other threads are not the thread's. -/
theorem Tallies.tally?_eq (h : s.Tallies t s') (hp : s.Partitioned) (hu : u ≠ t) :
    s'.tally? u = s.tally? u :=
  tally?_of_slot (h.slotOf u) fun k hk => h.others k fun ht => hu (hp.apart u t k hk ht)

theorem slot?_of_detach (hs : s.Sound) (hc : s.carrier? t = some c)
    (hk : s.slotOf t = some k) (hr : s.detach t = .ok s') : s'.statistics.slot? k = none := by
  obtain ⟨s₁, s₂, hmove₁, hmove₂, hmove₃⟩ := moves_of_detach hs hc hr
  have hgivenUp : (s₁.record t Statistics.unregister).statistics.slot? k = none := by
    rw [record_eq, hmove₁.tallies.slotOf, hk]
    exact Statistics.slot?_unregister_self
  rw [← Option.not_isSome_iff_eq_none, hmove₃.tallies.claimed, hmove₂.tallies.claimed, hgivenUp]
  exact Bool.false_ne_true

end Slots

section Steps

theorem Agrees.mono (h : s.Agrees work) (hwork : ∀ u, work u ≤ work' u) : s.Agrees work' where
  sound := h.sound
  partitioned := h.partitioned
  tells t k hk := by
    obtain ⟨ids, hlive, htells⟩ := h.tells t k hk
    exact ⟨ids, hlive, htells.mono (hwork t)⟩
  kept t c hc := Nat.le_trans (h.kept t c hc) (hwork t)
  held := h.held

theorem Agrees.host (h : s.Agrees work) (hs' : s'.Sound) (hp' : s'.Partitioned)
    (hstep : s.Step s' none) (hcarriers : s'.carriers = s.carriers)
    (hstatistics : s'.statistics = s.statistics) : s'.Agrees work := by
  have hcarrier : ∀ u, s'.carrier? u = s.carrier? u := fun u => by
    rw [carrier?, hcarriers, carrier?]
  constructor
  case sound => exact hs'
  case partitioned => exact hp'
  case tells =>
    intro u k hk
    obtain ⟨c, hc⟩ := exists_carrier_of_slotOf hk
    rw [slotOf_congr (hcarrier u)] at hk
    obtain ⟨ids, hlive, htells⟩ := h.tells u k hk
    exact ⟨ids, hlive.step h.sound hstep hc, htells.congr (hcarrier u) hstatistics⟩
  case kept => exact fun u c hc => h.kept u c (hcarrier u ▸ hc)
  case held =>
    intro k hk
    obtain ⟨t, ht⟩ := h.held k (hstatistics ▸ hk)
    exact ⟨t, (slotOf_congr (hcarrier t)).trans ht⟩

/-- A thread that stays attached keeps its counters right if it counts what happens to its own
fibers and nothing happens to those of others. -/
theorem Agrees.move (h : s.Agrees work) (hs' : s'.Sound) (hp' : s'.Partitioned)
    (hm : s.Move t s') (hstep : s.Step s' e) (hwork : ∀ u, work u ≤ work' u)
    (hown : ∀ ids, s.HasLive t ids → s.Tells t ids.length (work t) →
      s'.Tells t (e.elim ids (liveAfter t ids)).length (work' t))
    (hkept : ∀ c, s'.carrier? t = some c → c.ended.length ≤ work' t)
    (hothers : ∀ u ids, u ≠ t → s.HasLive u ids → e.elim ids (liveAfter u ids) = ids) :
    s'.Agrees work' := by
  have htallies := hm.tallies
  constructor
  case sound => exact hs'
  case partitioned => exact hp'
  case tells =>
    intro u k hk
    obtain ⟨c, hc⟩ := exists_carrier_of_slotOf hk
    rw [htallies.slotOf] at hk
    obtain ⟨ids, hlive, htells⟩ := h.tells u k hk
    have hlive' := hlive.step h.sound hstep hc
    by_cases hu : u = t
    · subst hu
      exact ⟨_, hlive', hown ids hlive htells⟩
    · rw [hothers u ids hu hlive] at hlive'
      refine ⟨ids, hlive', (htells.of_tally? (hm.carrier?_of_ne hu) ?_).mono (hwork u)⟩
      exact htallies.tally?_eq h.partitioned hu
  case kept =>
    intro u c hc
    by_cases hu : u = t
    · exact hu ▸ hkept c (hu ▸ hc)
    · exact Nat.le_trans (h.kept u c (hm.carrier?_of_ne hu ▸ hc)) (hwork u)
  case held =>
    intro k hk
    rw [htallies.claimed] at hk
    obtain ⟨u, hu⟩ := h.held k hk
    exact ⟨u, (htallies.slotOf u).trans hu⟩

theorem Agrees.detach (h : s.Agrees work) (hs' : s'.Sound) (hp' : s'.Partitioned)
    (hstep : s.Step s' (some (.detached t))) (hc : s.carrier? t = some c)
    (hr : s.detach t = .ok s') : s'.Agrees work := by
  obtain ⟨hslots, hothers⟩ := slots_of_detach h.sound hc hr
  have hperform : s.performOn t c .detach = .ok (s', some (.detached t)) := by
    simp only [performOn, hr]
    rfl
  constructor
  case sound => exact hs'
  case partitioned => exact hp'
  case tells =>
    intro u k hk
    obtain ⟨c', hc'⟩ := exists_carrier_of_slotOf hk
    have hslot := hslots u
    rw [hslots] at hk
    split_ifs at hk hslot with hu
    obtain ⟨ids, hlive, htells⟩ := h.tells u k hk
    refine ⟨ids, hlive.step h.sound hstep hc', htells.of_tally? ?_ ?_⟩
    · exact carrier?_of_performOn_ne h.sound hc hperform hu
    · exact tally?_of_slot hslot fun k hk =>
        hothers k fun ht => hu (h.partitioned.apart u t k hk ht)
  case kept =>
    intro u c' hc'
    by_cases hu : u = t
    · rw [hu, carrier?_of_detach h.sound hc hr] at hc'
      cases hc'
    · exact h.kept u c' (carrier?_of_performOn_ne h.sound hc hperform hu ▸ hc')
  case held =>
    intro k hk
    have hk₀ : s.slotOf t ≠ some k := by
      intro hslot
      rw [slot?_of_detach h.sound hc hslot hr] at hk
      exact Bool.noConfusion hk
    rw [hothers k hk₀] at hk
    obtain ⟨u, hu⟩ := h.held k hk
    refine ⟨u, (hslots u).trans ((if_neg ?_).trans hu)⟩
    rintro rfl
    exact hk₀ hu

/-- A thread that comes has no fibers yet, and its slot has been cleared. -/
theorem Agrees.attach {thread : Nat} {name : String} {bounds : Except IoError StackBounds}
    {outcome : Except Failure ThreadToken} (h : s.Agrees work) (hs' : s'.Sound)
    (hp' : s'.Partitioned) (hstep : s.Step s' e)
    (he : e = none ∨ ∃ t id, e = some (.attached t id))
    (hr : s.attach thread name bounds = .ok (outcome, s')) : s'.Agrees work := by
  obtain rfl | ⟨c, hended, hcarrier, hnew, hothers⟩ := slots_of_attach h.sound hr
  · exact h
  have hslots := slotOf_of_attach hcarrier
  have hlives : ∀ u k ids, s'.slotOf u = some k → s.HasLive u ids → s'.HasLive u ids := by
    intro u k ids hk hlive
    obtain ⟨c, hc⟩ := exists_carrier_of_slotOf hk
    obtain rfl | ⟨t, id, rfl⟩ := he <;> exact hlive.step h.sound hstep hc
  have hnone : s.HasLive s.nextToken [] := by
    refine ⟨List.nodup_nil, fun id => ⟨nofun, fun ⟨hid, howns⟩ => ?_⟩⟩
    obtain ⟨t, b, c, howns', hc, -⟩ := h.sound.registered id hid
    obtain ⟨rfl, -⟩ := howns.unique howns'
    exact absurd hc (by simp [h.sound.nextToken_not_given])
  constructor
  case sound => exact hs'
  case partitioned => exact hp'
  case tells =>
    intro u k hk
    have hlives := fun ids => hlives u k ids hk
    have hslot := hslots u
    rw [hslot] at hk
    split_ifs at hk hslot with hu
    · subst hu
      have htally : s'.tally? s.nextToken = some {} := by
        rw [tally?, hslot, hk, Option.bind_some, Statistics.tally?, (hnew k hk).2]
        rfl
      refine ⟨[], hlives [] hnone, fun tally ht => ?_, fun c' tally hc' ht => ?_⟩
      · obtain rfl := Option.some.inj (htally.symm.trans ht)
        exact Tally.counted_empty.mono (Nat.zero_le _)
      · obtain rfl := Option.some.inj (htally.symm.trans ht)
        rw [hcarrier, if_pos rfl] at hc'
        rw [← Option.some.inj hc', (List.append_eq_nil_iff.1 hended).2]
        rfl
    · obtain ⟨ids, hlive, htells⟩ := h.tells u k hk
      refine ⟨ids, hlives ids hlive, htells.of_tally? ((hcarrier u).trans (if_neg hu)) ?_⟩
      exact tally?_of_slot hslot fun k hk =>
        hothers k (h.partitioned.slot_ne (fun k hk => (hnew k hk).1) hk)
  case kept =>
    intro u c' hc'
    rw [hcarrier] at hc'
    split_ifs at hc'
    · rw [← Option.some.inj hc', hended]
      exact Nat.zero_le _
    · exact h.kept u c' hc'
  case held =>
    intro k hk
    by_cases hslot : c.slot = some k
    · exact ⟨s.nextToken, (hslots _).trans ((if_pos rfl).trans hslot)⟩
    · rw [hothers k hslot] at hk
      obtain ⟨u, hu⟩ := h.held k hk
      refine ⟨u, (hslots u).trans ((if_neg ?_).trans hu)⟩
      rintro rfl
      simp [slotOf, h.sound.nextToken_not_given] at hu

theorem Agrees.performOn {operation : ThreadOperation} (h : s.Agrees work) (hs' : s'.Sound)
    (hp' : s'.Partitioned) (hstep : s.Step s' e) (hc : s.carrier? t = some c)
    (hr : s.performOn t c operation = .ok (s', e)) (hwork : ∀ u, work u ≤ work' u)
    (ht : work t + 1 ≤ work' t) : s'.Agrees work' := by
  by_cases hstays : operation = .detach
  · subst hstays
    obtain ⟨s₁, hdetach, heq⟩ := map_eq_ok_iff.1 hr
    obtain ⟨rfl, rfl⟩ := Prod.mk.inj heq
    exact (h.detach hs' hp' hstep hc hdetach).mono hwork
  · refine h.move hs' hp' (move_of_performOn h.sound hc hr hstays) hstep hwork ?_ ?_ ?_
    · exact fun ids hlive htells => (htells.performOn hlive h.sound hc hr hstays).mono ht
    · intro c' hc'
      have hmore := length_ended_of_performOn h.sound hc hr hc'
      have := h.kept t c hc
      omega
    · exact fun u ids hu hlive => hlive.liveAfter_eq h.sound hc hr hu

/-- Nothing is counted when a switch returns, and what is parked then was kept before. -/
theorem Agrees.returnFrom {call : SwitchCall} (h : s.Agrees work) (hs' : s'.Sound)
    (hp' : s'.Partitioned) (hstep : s.Step s' none) (hcall : call ∈ s.calls)
    (hr : s.returnFrom call = .ok s') : s'.Agrees work := by
  have hconfined := h.partitioned.calls call hcall
  obtain ⟨s₁, hreclaim, hreap⟩ := bind_eq_ok_iff.1 hr
  refine h.move hs' hp' (move_of_returnFrom h.sound hconfined hr) hstep (fun _ => Nat.le_refl _)
    (fun ids _ htells => ?_) (fun c' hc' => ?_) fun _ _ _ _ => rfl
  · have hreturned :
        { s₁ with calls := s₁.calls.erase call }.Tells call.thread ids.length _ :=
      (htells.reclaim hreclaim).congr rfl rfl
    exact hreturned.congr (carrier?_of_reapAll hreap _) (statistics_of_reapAll hreap)
  · have hc' : s₁.carrier? call.thread = some c' :=
      (carrier?_of_reapAll hreap call.thread).symm.trans hc'
    cases hc : s.carrier? call.thread with
    | none =>
      have hwaiting : s.waiting call.thread = none := by rw [waiting, hc, Option.bind_none]
      obtain rfl := Except.ok.inj ((reclaim_of_waiting_eq_none hwaiting).symm.trans hreclaim)
      cases hc.symm.trans hc'
    | some c =>
      obtain rfl := Option.some.inj (hc'.symm.trans (carrier?_of_reclaim hc hreclaim))
      exact Nat.le_trans (c.length_idleAfter_le s.settings.idleCacheSize) (h.kept _ c hc)

theorem Agrees.perform {operation : Operation} (h : s.Agrees work)
    (hr : s.perform operation = .ok (s', e)) :
    s'.Agrees fun u => work u + if operation.performer? = some u then 1 else 0 := by
  obtain ⟨hs', hstep⟩ := h.sound.perform hr
  obtain ⟨-, hp'⟩ := h.partitioned.perform h.sound hr
  have hwork : ∀ u, work u ≤ work u + if operation.performer? = some u then 1 else 0 :=
    fun u => Nat.le_add_right _ _
  cases act_of_perform hr with
  | comes hattach he => exact (h.attach hs' hp' hstep he hattach).mono hwork
  | performs hc hperform =>
    exact h.performOn hs' hp' hstep hc hperform hwork (by simp [Operation.performer?])
  | host hcarriers hstatistics he =>
    subst he
    exact (h.host hs' hp' hstep hcarriers hstatistics).mono hwork
  | @returns call hcall hreturn he =>
    subst he
    exact (h.returnFrom hs' hp' hstep hcall hreturn).mono hwork

end Steps

theorem agrees_of_ofSettings {host : Host} {settings : Settings}
    {provider : PageProvider}
    {policy : Option Bool} (hs : ofSettings host settings provider policy = .ok (.ok s)) :
    s.Agrees fun _ => 0 := by
  refine ⟨(sound_of_ofSettings hs).1, partitioned_of_ofSettings hs, ?_, ?_, fun k hk => ?_⟩ <;>
    obtain ⟨-, registry, -, rfl⟩ := ofSettings_cases hs
  · exact fun t k hk => absurd hk (Option.some_ne_none k).symm
  · exact fun t c hc => absurd hc (Option.some_ne_none c).symm
  · rw [Statistics.slot?_ofCapacity] at hk
    exact Bool.noConfusion hk

theorem Agrees.mem_claimedSlots_iff (h : s.Agrees work) :
    k ∈ s.statistics.claimedSlots ↔ ∃ t, s.slotOf t = some k :=
  Statistics.mem_claimedSlots_iff.trans ⟨h.held k, fun ⟨t, ht⟩ => h.partitioned.claimed t k ht⟩

theorem slotOf_eq (hc : s.carrier? t = some c) (hk : c.slot = some k) : s.slotOf t = some k := by
  rw [slotOf, hc, Option.bind_some, hk]

/-- The counters of an attached thread, its registered heap fibers and its idle cache. -/
theorem Agrees.exists_tally (h : s.Agrees work) (hc : s.carrier? t = some c)
    (hk : c.slot = some k) :
    ∃ thread tally ids, s.statistics.slot? k = some (thread, tally)
      ∧ s.orphans t = .ok ids ∧ s.HasLive t ids ∧ tally.Counted ids.length (work t)
      ∧ tally.idle = .ofNat c.idle.length := by
  have hslot := slotOf_eq hc hk
  obtain ⟨⟨thread, tally⟩, hentry⟩ := Option.isSome_iff_exists.1 (h.partitioned.claimed t k hslot)
  have htally : s.tally? t = some tally := by
    rw [tally?, hslot, Option.bind_some, Statistics.tally?, hentry, Option.map_some]
  obtain ⟨ids, hids, hlive⟩ := h.sound.hasLive_orphans t
  obtain ⟨ids', hlive', htells⟩ := h.tells t k hslot
  refine ⟨thread, tally, ids, hentry, hids, hlive, ?_, htells.idle c tally hc htally⟩
  rw [hlive.length_eq hlive']
  exact htells.counts tally htally

theorem Agrees.length_idle_le (h : s.Agrees work) (hc : s.carrier? t = some c) :
    c.idle.length ≤ work t := by
  have := h.kept t c hc
  rw [Carrier.ended, List.length_append] at this
  omega

theorem Agrees.reports (h : s.Agrees work) : s.Reports where
  tells t c k hc hk := by
    obtain ⟨thread, tally, ids, hentry, hids, hlive, hcounted, hidle⟩ := h.exists_tally hc hk
    exact ⟨thread, tally, ids, hentry, hids, hlive, hcounted.balance, hidle⟩
  frees t c k s' e hc hk hr := by
    simp only [FiberSystem.perform, hc] at hr
    obtain ⟨s₁, hdetach, heq⟩ := map_eq_ok_iff.1 hr
    obtain ⟨rfl, -⟩ := Prod.mk.inj heq
    exact slot?_of_detach h.sound hc (slotOf_eq hc hk) hdetach
  total := by
    refine ⟨s.statistics.claimedSlots, Statistics.nodup_claimedSlots _,
      fun k => h.mem_claimedSlots_iff, fun total => ?_, fun fault => ?_⟩
    · rw [Statistics.total_eq_ok_iff, Statistics.length_perThread, Statistics.map_perThread]
    · rw [Statistics.total_eq_error_iff, Statistics.map_perThread]

/-- Each count of a slot is within the share that the slot has in the work. -/
theorem Agrees.sum_le (h : s.Agrees work) {share : Nat → Nat}
    (hshare : ∀ t k, s.slotOf t = some k → work t ≤ share k) {count : Tally → UInt64}
    (hcount : count = Tally.created ∨ count = Tally.reused ∨ count = Tally.terminated
      ∨ count = Tally.idle) :
    ((s.statistics.claimedSlots.filterMap s.statistics.tally?).map fun x => (count x).toNat).sum
      ≤ (s.statistics.claimedSlots.map share).sum := by
  refine sum_filterMap_le fun k hk tally htally => ?_
  obtain ⟨t, hslot⟩ := h.mem_claimedSlots_iff.1 hk
  obtain ⟨c, hc, hk⟩ := Option.bind_eq_some_iff.1 hslot
  obtain ⟨thread, tally', ids, hentry, -, -, hcounted, hidle⟩ := h.exists_tally hc hk
  have heq : tally' = tally := by
    rw [Statistics.tally?, hentry] at htally
    exact Option.some.inj htally
  subst heq
  refine Nat.le_trans ?_ (hshare t k hslot)
  obtain ⟨hcreated, hreused, hterminated⟩ := hcounted.toNat_le
  obtain rfl | rfl | rfl | rfl := hcount
  · exact hcreated
  · exact hreused
  · exact hterminated
  · rw [hidle, UInt64.toNat_ofNat']
    exact Nat.le_trans (Nat.mod_le _ _) (h.length_idle_le hc)

/-- As long as all the work is a word, so is everything that is counted. -/
theorem Agrees.reckons (h : s.Agrees work) (share : Nat → Nat)
    (hshare : ∀ t k, s.slotOf t = some k → work t ≤ share k)
    (hword : (s.statistics.claimedSlots.map share).sum < Word.bound) : s.Reckons where
  tells t c k hc hk := by
    obtain ⟨thread, tally, ids, hentry, hids, hlive, hcounted, hidle⟩ := h.exists_tally hc hk
    have hslot := slotOf_eq hc hk
    have hwork : work t < Word.bound := by
      have hmem := List.mem_map_of_mem (f := share) (h.mem_claimedSlots_iff.2 ⟨t, hslot⟩)
      have := List.le_sum_of_mem hmem
      have := hshare t k hslot
      omega
    refine ⟨thread, tally, ids, hentry, hids, hlive, hcounted.balance_toNat hwork, ?_⟩
    rw [hidle, Tally.toNat_ofNat (Nat.lt_of_le_of_lt (h.length_idle_le hc) hwork)]
  total := by
    cases htotal : s.statistics.total with
    | ok total => exact ⟨total, rfl⟩
    | error fault =>
      rw [Statistics.total_eq_error_iff, Statistics.map_perThread] at htotal
      have hcreated := h.sum_le hshare (.inl rfl)
      have hreused := h.sum_le hshare (.inr (.inl rfl))
      have hterminated := h.sum_le hshare (.inr (.inr (.inl rfl)))
      have hidle := h.sum_le hshare (.inr (.inr (.inr rfl)))
      exact absurd htotal.2 (by unfold Tally.Exceeds; omega)

end FiberSystem

namespace Run

open FiberSystem

variable {host : Host} {settings : Settings} {provider : PageProvider} {policy : Option Bool}
  {s : FiberSystem}
  {operations : List Operation} {r : Run}

/-- The work of each thread is what it performs. -/
theorem agrees_of_after {work : ThreadToken → Nat} (h : r.system.Agrees work)
    (hr : r.after operations = .ok r') : r'.system.Agrees fun u =>
      work u + operations.countP fun operation => operation.performer? = some u := by
  induction operations generalizing r work with
  | nil => exact Except.ok.inj hr ▸ h
  | cons operation rest ih =>
    obtain ⟨r₁, hperform, hr⟩ := after_cons_eq_ok_iff.1 hr
    obtain ⟨event, hperform, -⟩ := perform_eq_ok_iff.1 hperform
    refine (ih (h.perform hperform) hr).mono fun u => ?_
    rw [List.countP_cons]
    simp only [decide_eq_true_eq]
    omega

/-- After a run without a fault the statistics tell of the attached threads, and they tell numbers
if there have been fewer operations than there are words. -/
theorem reports_of_after (hs : FiberSystem.ofSettings host settings provider policy = .ok (.ok s))
    (hr : Run.after ⟨s, []⟩ operations = .ok r) :
    r.system.Reports ∧ (operations.length < Word.bound → r.system.Reckons) := by
  have h := agrees_of_after (agrees_of_ofSettings hs) hr
  refine ⟨h.reports, fun hword => ?_⟩
  -- the work is shared among the slots: an operation counts for the slot of its thread
  refine h.reckons (fun k => operations.countP (·.performer?.bind r.system.slotOf = some k))
    (fun t k hk => ?_) ?_
  · rw [Nat.zero_add]
    refine List.countP_mono_left fun operation _ hperformer => ?_
    simp only [decide_eq_true_eq] at hperformer ⊢
    rw [hperformer, Option.bind_some, hk]
  · exact Nat.lt_of_le_of_lt (sum_countP_le _ (Statistics.nodup_claimedSlots _) _) hword

/-- Of three fibers one is parked and handed out again, and one ends itself; another thread is
attached and gone. -/
theorem reports_of_reused_fiber : ∃ s r,
    FiberSystem.ofSettings .simulated { registryShards := 2, verifyOnYield := true }
        ({} : Simulation).provider none = .ok (.ok s)
      ∧ Run.after ⟨s, []⟩
          [.attach 1 "main" (.ok ⟨0x10000000, 0x100000⟩), .perform ⟨1⟩ (.create .pooled none),
           .perform ⟨1⟩ (.create .pooled none), .perform ⟨1⟩ (.terminate (.ofNumber 1)),
           .perform ⟨1⟩ (.create .pooled none),
           .attach 2 "worker" (.ok ⟨0x20000000, 0x100000⟩), .perform ⟨2⟩ (.create .pooled none),
           .perform ⟨2⟩ .detach, .perform ⟨1⟩ (.switch (.ofNumber 2) .returning),
           .perform ⟨1⟩ (.scratch (.enter .nativeCalls)),
           .perform ⟨1⟩ (.switch (.ofNumber 0) .terminating),
           .perform ⟨1⟩ .reclaim] = .ok r
      ∧ r.system.statistics.total = .ok ⟨1, ⟨2, 1, 2, 1⟩, 0⟩ ∧ r.system.Reports
      ∧ r.system.Reckons := by
  refine ⟨?s, ?r, ?hs, ?hr, ?htotal, (reports_of_after ?hs ?hr).1,
    (reports_of_after ?hs ?hr).2 ?hword⟩
  case hs => rfl
  case hr => rfl
  case htotal => rfl
  case hword => decide

end Run

end PooledFibers
