import Mathlib.Tactic.Common
import PooledFibers.Proofs.FiberSystem.Steps
import PooledFibers.Proofs.Scratch.Blocks

/-!
# Entering a fiber

What `enter` checks and what it changes. `Exchanged` describes the system right after the target
has become current; a terminating switch then withdraws the source (`enter_cases`).
-/

namespace PooledFibers

open Outcome

namespace FiberSystem

variable {s s' s₁ : FiberSystem} {t u : ThreadToken} {c : Carrier} {id source target : FiberId}
  {kind : SwitchKind} {f : Fiber}

section Checks

theorem checkTarget_cases (hr : s.checkTarget t target = .ok ()) :
    (s.fiber target).owner = t ∧ (s.fiber target).state = .onStack := by
  simp only [checkTarget, check_eq_ok_iff, not_not] at hr
  obtain ⟨howner, hr⟩ := hr
  split_ifs at hr with hstate
  exact ⟨howner, not_not.1 hstate⟩

/-- A heap fiber leaves with the scratch resources it was entered with. -/
theorem checkSource_cases (hr : s.checkSource t source kind = .ok ())
    (hheap : (s.fiber source).isThreadFiber = false) :
    (s.fiber source).bookmark = .taken (s.carrier t).scratch.snapshot
      ∧ (s.carrier t).scratch.counts.monitorChunks = 0
      ∧ (kind = .terminating → (s.carrier t).scratch.counts.nativeCalls = 1) := by
  simp only [checkSource, hheap, Bool.not_false, if_true] at hr
  split at hr <;> rename_i hsaved
  · simp at hr
  · split at hr <;> rename_i hleak
    · simp at hr
    · simp only [check_eq_ok_iff, not_not] at hr
      obtain ⟨hchunks, hr⟩ := hr
      refine ⟨?_, hchunks, fun hkind => ?_⟩
      · rw [← Snapshot.leak?_eq_none_iff.1 hleak]
        cases hb : (s.fiber source).bookmark <;> simp_all [Bookmark.snapshot?]
      · split_ifs at hr with hdepth
        simpa [hkind] using hdepth

/-- The bookmark with which a fiber is entered. -/
def entryBookmark (s : FiberSystem) (t : ThreadToken) (f : Fiber) : Bookmark :=
  if s.settings.verifyOnYield && !f.isThreadFiber then .taken (s.carrier t).scratch.snapshot
  else f.bookmark

theorem verifySwitch_cases (hf : s.fibers.get? target = some f)
    (hr : s.verifySwitch t source target kind = .ok s') :
    (s.settings.verifyOnYield = true → s.checkSource t source kind = .ok ())
      ∧ ∃ bookmark, bookmark f = s.entryBookmark t f
        ∧ (s' = s ∧ bookmark = Fiber.bookmark
          ∨ s' = s.modifyFiber target fun f => { f with bookmark := bookmark f }) := by
  simp only [verifySwitch] at hr
  split_ifs at hr with hverify
  · obtain ⟨⟨⟩, hcheck, hr⟩ := bind_eq_ok_iff.1 hr
    refine ⟨fun _ => hcheck, ?_⟩
    simp only [bookmarkTarget, fiber_eq hf] at hr
    split_ifs at hr with hthread
    · refine ⟨Fiber.bookmark, ?_, .inl ⟨(Except.ok.inj hr).symm, rfl⟩⟩
      simp [entryBookmark, hthread]
    · refine ⟨fun _ => .taken (s.carrier t).scratch.snapshot, ?_, .inr (Except.ok.inj hr).symm⟩
      simp [entryBookmark, hverify, hthread]
  · refine ⟨fun h => absurd h hverify, Fiber.bookmark, ?_, .inl ⟨(Except.ok.inj hr).symm, rfl⟩⟩
    simp [entryBookmark, hverify]

/-- A fiber that is entered has a bookmark on record just when it had one before. -/
theorem isRecorded_entryBookmark (hf : s.fibers.get? target = some f)
    (hr : s.verifySwitch t source target kind = .ok s') :
    (s.entryBookmark t f).isRecorded = f.bookmark.isRecorded := by
  simp only [entryBookmark]
  split_ifs with hmarks
  · obtain ⟨hverify, hheap⟩ := Bool.and_eq_true_iff.1 hmarks
    simp only [verifySwitch, hverify, if_true] at hr
    obtain ⟨⟨⟩, -, hr⟩ := bind_eq_ok_iff.1 hr
    simp only [bookmarkTarget, fiber_eq hf] at hr
    split_ifs at hr with hthread hkind hblank
    · simp [hthread] at hheap
    · rw [show f.bookmark.isRecorded = true by simpa using hblank]
      rfl
  · rfl

end Checks

section Exchange

theorem Sound.exists_fiber (h : s.Sound) (hc : s.carrier? t = some c)
    (howner : (s.fiber id).owner = t) : ∃ f, s.fibers.get? id = some f ∧ f.owner = t := by
  cases hf : s.fibers.get? id with
  | some f => exact ⟨f, rfl, fiber_eq hf ▸ howner⟩
  | none =>
    have hpos := (h.carries t c hc).token.1
    rw [← howner] at hpos
    simp [fiber, hf, default, Fiber.ofThread] at hpos

/-- The system right after `target` has become current. -/
structure Exchanged (s : FiberSystem) (t : ThreadToken) (source target : FiberId)
    (s' : FiberSystem) : Prop where
  settings : s'.settings = s.settings
  tokensGiven : s'.tokensGiven = s.tokensGiven
  registry : s'.registry = s.registry
  carrier? : ∀ u, s'.carrier? u = if u = t
    then (s.carrier? u).map fun c => { c with current := target } else s.carrier? u
  get?_target : ∀ f, s.fibers.get? target = some f → s'.fibers.get? target = some
    { f with state := .current, entered := true, bookmark := s.entryBookmark t f }
  get?_source : source ≠ target → s'.fibers.get? source
    = (s.fibers.get? source).map fun f => { f with state := .onStack }
  get? : ∀ id, id ≠ source → id ≠ target → s'.fibers.get? id = s.fibers.get? id

theorem Exchanged.carrier?_self (hx : s.Exchanged t source target s')
    (hc : s.carrier? t = some c) : s'.carrier? t = some { c with current := target } := by
  rw [hx.carrier?, if_pos rfl, hc, Option.map_some]

theorem get?_exchange : (s.exchange t source target).fibers.get? id
    = if id = target then
        (s.fibers.get? id).map fun f => { f with state := .current, entered := true }
      else if id = source then (s.fibers.get? id).map fun f => { f with state := .onStack }
      else s.fibers.get? id := by
  simp only [exchange, modifyCarrier, modifyFiber, Table.get?_modify]
  split_ifs <;> simp [Function.comp_def]

theorem carrier?_exchange : (s.exchange t source target).carrier? u
    = if u = t then (s.carrier? u).map fun c => { c with current := target }
      else s.carrier? u :=
  carrier?_modifyCarrier fun _ => rfl

theorem Sound.exchange (h : s.Sound) (hf : s.fibers.get? target = some f) (hf' : f.owner = t)
    (source : FiberId) : (s.exchange t source target).Sound := by
  have hsource := h.modifyFiber (g := fun f => { f with state := .onStack })
    (fun _ => ⟨rfl, rfl⟩) source
  have htarget := hsource.modifyFiber (g := fun f => { f with state := .current, entered := true })
    (fun _ => ⟨rfl, rfl⟩) target
  refine htarget.modifyCarrier (fun _ => ⟨rfl, rfl⟩) fun c hc => ?_
  have hc := htarget.carries t c hc
  refine ⟨hc.token, hc.threadFiber, ⟨f.isThreadFiber, ?_⟩, hc.nodup, hc.ended⟩
  have hget : (s.exchange t source target).fibers.get? target
      = some { f with state := .current, entered := true } := get?_exchange.trans (by simp [hf])
  exact ⟨_, hget, hf', rfl⟩

theorem exchange_spec (h : s.Sound) (hf : s.fibers.get? target = some f) (hf' : f.owner = t)
    (hr : s.verifySwitch t source target kind = .ok s₁) (calls : List SwitchCall) :
    { s₁.exchange t source target with calls }.Sound
      ∧ s.Exchanged t source target { s₁.exchange t source target with calls } := by
  obtain ⟨-, bookmark, hbookmark, ⟨rfl, rfl⟩ | rfl⟩ := verifySwitch_cases hf hr
  · refine ⟨(h.exchange hf hf' source).same (same_calls _ calls).toSamePlaces, rfl, rfl, rfl,
      fun u => carrier?_exchange, ?_, ?_, ?_⟩
    · intro f' hget
      obtain rfl := Option.some.inj (hf.symm.trans hget)
      rw [← hbookmark]
      exact (get?_exchange (t := t)).trans (by simp [hf])
    · exact fun hne => (get?_exchange (t := t)).trans (by simp [hne])
    · exact fun id hs ht => (get?_exchange (t := t)).trans (by simp [hs, ht])
  · have hmarked := h.modifyFiber (g := fun f => { f with bookmark := bookmark f })
      (fun _ => ⟨rfl, rfl⟩) target
    have hget : ∀ id, (s.modifyFiber target fun f => { f with bookmark := bookmark f }).fibers.get? id
        = if id = target then (s.fibers.get? id).map fun f => { f with bookmark := bookmark f }
          else s.fibers.get? id := fun id => Table.get?_modify _ _ _ _
    have hf₁ := (hget target).trans (by rw [if_pos rfl, hf, Option.map_some])
    refine ⟨(hmarked.exchange hf₁ hf' source).same (same_calls _ calls).toSamePlaces, rfl, rfl, rfl,
      fun u => carrier?_exchange, ?_, ?_, ?_⟩
    · intro f' hget'
      obtain rfl := Option.some.inj (hf.symm.trans hget')
      rw [← hbookmark]
      exact (get?_exchange (t := t)).trans (by simp [hget, hf])
    · exact fun hne => (get?_exchange (t := t)).trans (by simp [hget, hne])
    · exact fun id hs ht => (get?_exchange (t := t)).trans (by simp [hget, hs, ht])

end Exchange

section Enter

/-- The source waits in the pending slot; a fiber that waited there is parked or released. -/
theorem retireSource_cases (h : s.Sound) (hr : s.retireSource t source = .ok s') :
    s.Owns t false source ∧ (s.carrier t).current ≠ source
      ∧ ∃ s₁, s.withdraw source = .ok s₁ ∧ s₁.Upkeep s' := by
  obtain ⟨s₂, hretire, hr⟩ := bind_eq_ok_iff.1 hr
  obtain ⟨howns, hcurrent, s₁, hwithdraw, hsame⟩ := retire_cases hretire
  refine ⟨howns, hcurrent, s₁, hwithdraw, .trans (.same hsame) ?_⟩
  have hs₂ := (h.withdraw hwithdraw).same hsame.toSamePlaces
  have hloose := (h.loose_of_withdraw howns hwithdraw).same hsame.toSamePlaces
  have hawait := Upkeep.await hloose
  cases hc : s₂.carrier? t with
  | none =>
    have hpending : (s₂.carrier t).pending = none := by simp [carrier, hc, default]
    simp only [hpending, pure_eq_ok, Except.ok.injEq] at hr
    exact hr ▸ hawait
  | some c =>
    rw [carrier_eq hc] at hr
    cases hpending : c.pending with
    | none =>
      simp only [hpending] at hr
      exact Except.ok.inj hr ▸ hawait
    | some earlier =>
      simp only [hpending] at hr
      have hmem : earlier ∈ c.ended := by simp [Carrier.ended, hpending]
      refine hawait.trans (upkeep_parkOrRelease ?_ hr)
      refine hs₂.loose_of_mem_ended (fun _ => rfl) hc hmem ?_
      have hnodup := (hs₂.carries t c hc).nodup
      simp only [Carrier.ended, hpending, Option.toList_some, List.singleton_append,
        List.nodup_cons] at hnodup
      simp only [Carrier.ended, Option.toList_some, List.singleton_append, List.mem_cons, not_or]
      exact ⟨fun heq => hloose.not_ended c hc (heq ▸ hmem), hnodup.1⟩

theorem enter_cases (h : s.Sound) (hc : s.carrier? t = some c)
    (hr : s.enter t target kind = .ok s') :
    (s.settings.verifyOnYield = true → s.checkSource t c.current kind = .ok ())
      ∧ (∃ f, s.fibers.get? target = some f ∧ f.owner = t ∧ f.state = .onStack)
      ∧ ∃ s₁, s₁.Sound ∧ s.Exchanged t c.current target s₁
        ∧ (kind = .returning ∧ s' = s₁
          ∨ kind = .terminating ∧ s₁.Owns t false c.current ∧ target ≠ c.current
            ∧ ∃ s₂, s₁.withdraw c.current = .ok s₂ ∧ s₂.Upkeep s') := by
  simp only [enter, carrier_eq hc] at hr
  obtain ⟨⟨⟩, hcheck, hr⟩ := bind_eq_ok_iff.1 hr
  obtain ⟨s₀, hverify, hr⟩ := bind_eq_ok_iff.1 hr
  obtain ⟨howner, hstate⟩ := checkTarget_cases hcheck
  obtain ⟨f, hf, hf'⟩ := h.exists_fiber hc howner
  rw [fiber_eq hf] at hstate
  obtain ⟨hsound, hexchanged⟩ := exchange_spec h hf hf' hverify
    (⟨t, kind, c.current, target⟩ :: s₀.calls)
  refine ⟨(verifySwitch_cases hf hverify).1, ⟨f, hf, hf', hstate⟩, _, hsound, hexchanged, ?_⟩
  cases kind with
  | returning => exact .inl ⟨rfl, (Except.ok.inj hr).symm⟩
  | terminating =>
    obtain ⟨howns, hcurrent, hwithdraw⟩ := retireSource_cases hsound hr
    rw [carrier_eq (hexchanged.carrier?_self hc)] at hcurrent
    exact .inr ⟨rfl, howns, hcurrent, hwithdraw⟩

end Enter

end FiberSystem

end PooledFibers
