import Mathlib.Data.List.Basic
import Mathlib.Tactic.Common
import PooledFibers.Proofs.FiberSystem.Steps

/-!
# Detaching a thread

`detach` drops the ended fibers of the carrier, takes the thread's fibers out of the registry and
drops the carrier (`detach_cases`). Afterwards no fiber of the thread is registered.
-/

namespace PooledFibers.FiberSystem

open Outcome

variable {s s' : FiberSystem} {t u : ThreadToken} {c : Carrier} {id : FiberId} {ids : List FiberId}

section Ended

theorem upkeep_dropPending (hr : s.dropPending t = .ok s') : s.Upkeep s' := by
  simp only [dropPending] at hr
  split at hr
  · exact Except.ok.inj hr ▸ .refl s
  · have hease : s.Upkeep (s.modifyCarrier t fun c => { c with pending := none }) :=
      .ease (fun _ => rfl) fun c _ => List.sublist_append_right _ _
    exact hease.trans (.reap hr)

theorem carrier?_of_reap (hr : s.reap id = .ok s') (u : ThreadToken) :
    s'.carrier? u = s.carrier? u := by
  obtain rfl | ⟨-, _, _, -, -, -, rfl⟩ := reap_cases hr <;> rfl

theorem carrier?_of_reapAll (hr : s.reapAll ids = .ok s') (u : ThreadToken) :
    s'.carrier? u = s.carrier? u := by
  induction ids generalizing s with
  | nil => exact Except.ok.inj hr ▸ rfl
  | cons id rest ih =>
    obtain ⟨s₁, hreap, hr⟩ := bind_eq_ok_iff.1 hr
    exact (ih hr).trans (carrier?_of_reap hreap u)

theorem upkeep_dropParked (hidle : ∀ c, s.carrier? t = some c → c.idle = ids.reverse)
    (hr : s.dropParked t ids = .ok s') : s.Upkeep s' := by
  induction ids generalizing s with
  | nil => exact Except.ok.inj hr ▸ .refl s
  | cons id rest ih =>
    obtain ⟨s₁, hreap, hr⟩ := bind_eq_ok_iff.1 hr
    have hease : s.Upkeep (s.modifyCarrier t fun c => { c with idle := rest.reverse }) := by
      refine .ease (fun _ => rfl) fun c hc => ?_
      simp [Carrier.ended, hidle c hc]
    refine hease.trans (.trans (.reap hreap) (ih (fun c hc => ?_) hr))
    rw [carrier?_of_reap hreap, carrier?_modifyCarrier (g := fun c =>
      { c with idle := rest.reverse }) fun _ => rfl, if_pos rfl] at hc
    obtain ⟨c₀, -, rfl⟩ := Option.map_eq_some_iff.1 hc
    rfl

theorem upkeep_dropEnded (hr : s.dropEnded t = .ok s') : s.Upkeep s' := by
  obtain ⟨s₁, hpending, hr⟩ := bind_eq_ok_iff.1 hr
  refine (upkeep_dropPending hpending).trans (upkeep_dropParked (fun c hc => ?_) hr)
  rw [carrier_eq hc, List.reverse_reverse]

end Ended

section Orphans

theorem Sound.withdrawAll (h : s.Sound) (hr : s.withdrawAll ids = .ok s') :
    s'.Sound ∧ s.Deregistered ids s' := by
  induction ids generalizing s with
  | nil =>
    obtain rfl := Except.ok.inj hr
    exact ⟨h, rfl, rfl, by simp, by simp, fun _ => rfl, fun _ _ => rfl, fun _ f hf => ⟨f, hf, .refl f⟩⟩
  | cons id rest ih =>
    obtain ⟨s₁, hwithdraw, hr⟩ := bind_eq_ok_iff.1 hr
    obtain ⟨hsound, hrest⟩ := ih (h.withdraw hwithdraw) hr
    exact ⟨hsound, (deregistered_of_withdraw h.registry hwithdraw).trans hrest⟩

theorem owns_of_fiber (h : s.Sound) (hid : s.registry.isRegistered id = true) :
    s.Owns (s.fiber id).owner (s.fiber id).isThreadFiber id := by
  obtain ⟨t, b, c, ⟨f, hf, -⟩, -⟩ := h.registered id hid
  rw [fiber_eq hf]
  exact ⟨f, hf, rfl, rfl⟩

theorem Sound.mem_orphans_iff (h : s.Sound) (hr : s.orphans t = .ok ids) :
    id ∈ ids ↔ s.registry.isRegistered id = true ∧ s.Owns t false id := by
  obtain ⟨fibers, hlist, -, hmem⟩ := h.registry.exists_toList
  simp only [orphans, hlist, ok_bind, pure_eq_ok, Except.ok.injEq] at hr
  subst hr
  rw [List.mem_filter, hmem]
  refine and_congr_right fun hid => ?_
  have howns := owns_of_fiber h hid
  simp only [Bool.and_eq_true, decide_eq_true_eq, Bool.not_eq_true']
  refine ⟨fun ⟨ht, hb⟩ => ht ▸ hb ▸ howns, fun ho => ?_⟩
  exact howns.unique ho

theorem Sound.exists_orphans (h : s.Sound) (t : ThreadToken) :
    ∃ orphans, s.orphans t = .ok orphans ∧ orphans.Nodup := by
  obtain ⟨fibers, hlist, hnodup, -⟩ := h.registry.exists_toList
  refine ⟨fibers.filter fun id => (s.fiber id).owner = t && !(s.fiber id).isThreadFiber, ?_,
    hnodup.filter _⟩
  simp only [orphans, hlist, ok_bind, pure_eq_ok]

theorem disown_cases (h : s.Sound) (hr : s.disown t ids = .ok s') :
    s'.Sound ∧ ∃ s₁, s.Same s₁ ∧ s₁.Deregistered ids s' := by
  cases ids with
  | nil =>
    have hr : s.withdrawAll [] = .ok s' := hr
    obtain ⟨hsound, hderegistered⟩ := h.withdrawAll hr
    exact ⟨hsound, s, .refl s, hderegistered⟩
  | cons id rest =>
    have hnotice := same_notice s (.detachedWithFibers (s.carrier t).name (id :: rest).length)
    obtain ⟨hsound, hderegistered⟩ := (h.same hnotice.toSamePlaces).withdrawAll hr
    exact ⟨hsound, _, hnotice, hderegistered⟩

end Orphans

section Detach

theorem Upkeep.owns_iff {b : Bool} (hu : s.Upkeep s') (h : s.Sound)
    (hid : s.registry.isRegistered id = true) : s'.Owns t b id ↔ s.Owns t b id := by
  simp only [Owns, hu.get?_of_registered h hid]

theorem Deregistered.owns {b : Bool} (hd : s.Deregistered ids s') (ho : s'.Owns t b id) :
    s.Owns t b id := by
  obtain ⟨f', hf', ht, hb⟩ := ho
  obtain ⟨f, hf, halike⟩ := hd.alike id f' hf'
  exact ⟨f, hf, halike.owner ▸ ht, halike.isThreadFiber.symm.trans hb⟩

/-- The thread's fibers are taken out of the registry before its carrier goes. -/
theorem detach_cases (h : s.Sound) (hc : s.carrier? t = some c) (hr : s.detach t = .ok s') :
    ∃ ids s₁ s₂ s₃, (∀ id, id ∈ ids ↔ s.registry.isRegistered id = true ∧ ∃ b, s.Owns t b id)
      ∧ s.Upkeep s₁ ∧ s₁.Sound ∧ s₁.Deregistered ids s₂ ∧ s₂.Sound ∧ s₂.Upkeep s₃
      ∧ { s₃ with carriers := s₃.carriers.filter fun c => c.token ≠ t }.Sound
      ∧ { s₃ with carriers := s₃.carriers.filter fun c => c.token ≠ t }.Upkeep s' := by
  obtain ⟨s₀, hended, hr⟩ := bind_eq_ok_iff.1 hr
  obtain ⟨orphans, horphans, hr⟩ := bind_eq_ok_iff.1 hr
  obtain ⟨s₂, hdisown, hr⟩ := bind_eq_ok_iff.1 hr
  obtain ⟨s₃, hsignOff, hr⟩ := bind_eq_ok_iff.1 hr
  obtain ⟨s₄, hreap, hr⟩ := bind_eq_ok_iff.1 hr
  have hended := upkeep_dropEnded hended
  obtain ⟨c₀, hc₀, hseat⟩ := hended.exists_carrier hc
  have hthread := (Carrier.of_seat_eq hseat).2.1
  have hs₀ := hended.sound h
  obtain ⟨hs₂, s₁, hsame, hdisowned⟩ := disown_cases hs₀ hdisown
  have hs₁ := hs₀.same hsame.toSamePlaces
  have hc₁ : s₁.carrier? t = some c₀ := (hsame.carrier? t).trans hc₀
  obtain ⟨s₂', hunregister, hrecord⟩ := bind_eq_ok_iff.1 hsignOff
  rw [carrier_eq ((hdisowned.carrier? t).trans hc₁)] at hunregister
  have hderegistered := hdisowned.trans (deregistered_of_unregister hs₂.registry hunregister)
  have hs₂' := hs₂.unregister hunregister
  have hrecorded : s₂'.Upkeep s₃ := Except.ok.inj hrecord ▸ .same (same_record _ _ _)
  have hupkeep : s.Upkeep s₁ := hended.trans (.same hsame)
  have hids : ∀ id, id ∈ orphans ++ [c₀.threadFiber]
      ↔ s.registry.isRegistered id = true ∧ ∃ b, s.Owns t b id := by
    intro id
    rw [List.mem_append, hs₀.mem_orphans_iff horphans, List.mem_singleton, hended.registry]
    constructor
    · rintro (⟨hid, ho⟩ | rfl)
      · exact ⟨hid, false, (hended.owns_iff h hid).1 ho⟩
      · have hid := hderegistered.was_registered c₀.threadFiber (by simp)
        exact ⟨hupkeep.registry ▸ hid, true, hthread ▸ (h.carries t c hc).threadFiber⟩
    · rintro ⟨hid, b | b, ho⟩
      · exact .inl ⟨hid, (hended.owns_iff h hid).2 ho⟩
      · obtain ⟨u, b, c', ho', hc', hb⟩ := h.registered id hid
        obtain ⟨rfl, rfl⟩ := ho'.unique ho
        obtain rfl := Option.some.inj (hc.symm.trans hc')
        exact .inr ((hthread.trans (hb rfl)).symm)
  have hreaped := hrecorded.trans (upkeep_reapAll hreap)
  refine ⟨orphans ++ [c₀.threadFiber], s₁, s₂', s₄, hids, hupkeep, hs₁, hderegistered, hs₂',
    hreaped, (hreaped.sound hs₂').dropCarrier fun b id hid ho => ?_, upkeep_reapAll hr⟩
  rw [hreaped.registry] at hid
  obtain ⟨hnot, hid₁⟩ := (hderegistered.isRegistered id).1 hid
  have ho₁ := hderegistered.owns ((hreaped.owns_iff hs₂' hid).1 ho)
  rw [hupkeep.registry] at hid₁
  exact hnot ((hids id).2 ⟨hid₁, b, (hupkeep.owns_iff h hid₁).1 ho₁⟩)

end Detach

end PooledFibers.FiberSystem
