import Mathlib.Data.List.Basic
import Mathlib.Tactic.Common
import PooledFibers.Proofs.FiberSystem.Detachment
import PooledFibers.Proofs.FiberSystem.Entry
import PooledFibers.Proofs.FiberSystem.Holdings

/-!
# No fiber is forgotten

Where an operation takes a reference away, the fiber becomes loose, and before the operation is
over it is referred to again or freed. The operations that make no fiber and lease no stack are
followed here from one such change to the next.
-/

namespace PooledFibers

theorem Carrier.refersTo_iff {c : Carrier} {id : FiberId} : c.refersTo id = true
    ↔ c.threadFiber = id ∨ c.current = id ∨ id ∈ c.idle ∨ c.pending = some id := by
  simp [refersTo, or_assoc]

theorem SwitchCall.refersTo_iff {call : SwitchCall} {id : FiberId} : call.refersTo id = true
    ↔ call.target = id ∨ call.kind = .returning ∧ call.source = id := by
  simp [refersTo]

namespace FiberSystem

open Outcome

variable {s₀ s s' s₁ : FiberSystem} {t u : ThreadToken} {c : Carrier} {id j : FiberId}
  {loose loose' ids : List FiberId}

section Changes

theorem Flow.record (h : s₀.Flow s loose) (t : ThreadToken) (g : Statistics → Nat → Statistics) :
    s₀.Flow (s.record t g) loose := by
  simp only [FiberSystem.record]
  split
  · exact h.same (sameHoldings_of_eq rfl rfl rfl rfl) rfl rfl rfl rfl
  · exact h

theorem Flow.withMachine (h : s₀.Flow s loose) {machine : Machine} (hm : s.machine.Keeps machine) :
    s₀.Flow (s.withMachine machine) loose :=
  h.same (same_withMachine hm).sameHoldings rfl rfl rfl rfl

theorem Flow.modifyFiber (h : s₀.Flow s loose) {g : Fiber → Fiber}
    (hg : ∀ f, (g f).stack = f.stack) (id : FiberId) : s₀.Flow (s.modifyFiber id g) loose :=
  h.same (sameHoldings_modifyFiber hg id) rfl rfl rfl rfl

theorem tokens_modifyCarrier {g : Carrier → Carrier} (hg : ∀ c, (g c).token = c.token) :
    (s.modifyCarrier t g).carriers.map (·.token) = s.carriers.map (·.token) := by
  simp only [FiberSystem.modifyCarrier, List.map_map]
  refine List.map_congr_left fun c _ => ?_
  simp only [Function.comp]
  split_ifs
  · exact hg c
  · rfl

theorem carrier?_modifyCarrier_self {g : Carrier → Carrier} (hc : s.carrier? t = some c)
    (hg : ∀ c, (g c).token = c.token) : (s.modifyCarrier t g).carrier? t = some (g c) := by
  rw [carrier?_modifyCarrier hg, if_pos rfl, hc, Option.map_some]

/-- What a carrier no longer refers to becomes loose. -/
theorem Flow.modifyCarrier (h : s₀.Flow s loose) (hc : s.carrier? t = some c)
    {g : Carrier → Carrier} (hg : ∀ c, (g c).token = c.token)
    (hrefers : ∀ id, c.refersTo id = true ∨ id ∈ loose →
      (g c).refersTo id = true ∨ id ∈ loose') : s₀.Flow (s.modifyCarrier t g) loose' := by
  have hself := carrier?_modifyCarrier_self hc hg
  refine h.change (sameHoldings_of_eq rfl rfl rfl rfl) h.registry ?_ (fun _ hid => .inl hid) ?_
  · rw [tokens_modifyCarrier hg]
    exact h.tokens
  · have hcarrier : ∀ id, c.refersTo id = true ∨ id ∈ loose →
        (s.modifyCarrier t g).Refers id ∨ id ∈ loose' := fun id hid =>
      (hrefers id hid).imp_left fun href => .inr (.inr ⟨t, g c, hself, href⟩)
    rintro id ((hreg | hlent | ⟨u, c', hc', href⟩) | hid)
    · exact .inl (.inl hreg)
    · exact .inl (.inr (.inl hlent))
    · by_cases hu : u = t
      · subst hu
        obtain rfl := Option.some.inj (hc.symm.trans hc')
        exact hcarrier id (.inl href)
      · refine .inl (.inr (.inr ⟨u, c', ?_, href⟩))
        rw [carrier?_modifyCarrier hg, if_neg hu, hc']
    · exact hcarrier id (.inr hid)

theorem Flow.hold (h : s₀.Flow s loose) (hid : id ∈ s.fibers.keys) :
    s₀.Flow (s.hold id) loose := by
  refine h.change (sameHoldings_of_eq rfl rfl rfl rfl) h.registry h.tokens ?_ ?_
  · rintro j (hj | hj)
    · rcases List.mem_cons.1 hj with rfl | hj
      · exact .inr hid
      · exact .inl (.inl hj)
    · exact .inl (.inr hj)
  · rintro j ((hreg | (hheld | hcall) | hcarrier) | hj)
    · exact .inl (.inl hreg)
    · exact .inl (.inr (.inl (.inl (List.mem_cons_of_mem _ hheld))))
    · exact .inl (.inr (.inl (.inr hcall)))
    · exact .inl (.inr (.inr hcarrier))
    · exact .inr hj

theorem Flow.unhold (h : s₀.Flow s loose) (id : FiberId) : s₀.Flow (s.unhold id) (id :: loose) := by
  refine h.change (sameHoldings_of_eq rfl rfl rfl rfl) h.registry h.tokens ?_ ?_
  · exact fun j hj => .inl (hj.imp_left List.mem_of_mem_erase)
  · rintro j ((hreg | (hheld | hcall) | hcarrier) | hj)
    · exact .inl (.inl hreg)
    · by_cases hne : j = id
      · exact .inr (hne ▸ List.mem_cons_self)
      · exact .inl (.inr (.inl (.inl ((List.mem_erase_of_ne hne).2 hheld))))
    · exact .inl (.inr (.inl (.inr hcall)))
    · exact .inl (.inr (.inr hcarrier))
    · exact .inr (List.mem_cons_of_mem _ hj)

theorem Flow.register (h : s₀.Flow s loose) (hr : s.register id = .ok s') : s₀.Flow s' loose := by
  obtain ⟨-, registry, rfl, hregistry, hregistered⟩ := register_cases h.registry hr
  refine h.change (sameHoldings_of_eq rfl rfl rfl rfl) hregistry h.tokens (fun _ => .inl) ?_
  rintro j ((hreg | hrest) | hj)
  · exact .inl (.inl (by simp [hregistered, hreg]))
  · exact .inl (.inr hrest)
  · exact .inr hj

theorem Flow.unregister (h : s₀.Flow s loose) (hr : s.unregister id = .ok s') :
    s₀.Flow s' (id :: loose) := by
  obtain ⟨-, registry, rfl, hregistry, hregistered⟩ := unregister_cases h.registry hr
  refine h.change (sameHoldings_of_eq rfl rfl rfl rfl) hregistry h.tokens (fun _ => .inl) ?_
  rintro j ((hreg | hrest) | hj)
  · by_cases hne : j = id
    · exact .inr (hne ▸ List.mem_cons_self)
    · exact .inl (.inl (by simp [hregistered, hreg, hne]))
  · exact .inl (.inr hrest)
  · exact .inr (List.mem_cons_of_mem _ hj)

theorem Flow.enroll {continuation : Option ContinuationId} (h : s₀.Flow s loose)
    (hr : s.enroll id continuation = .ok s') : s₀.Flow s' loose :=
  (h.modifyFiber (g := fun f => { f with continuation }) (fun _ => rfl) id).register hr

theorem Flow.withdraw (h : s₀.Flow s loose) (hr : s.withdraw id = .ok s') :
    s₀.Flow s' (id :: loose) :=
  (h.modifyFiber (g := fun f => { f with continuation := none }) (fun _ => rfl) id).unregister hr

end Changes

section Parking

theorem Flow.parkOrRelease (h : s₀.Flow s (id :: loose)) (hc : s.carrier? t = some c)
    (hr : s.parkOrRelease t id = .ok s') : s₀.Flow s' loose := by
  simp only [FiberSystem.parkOrRelease] at hr
  split_ifs at hr
  · obtain rfl := Except.ok.inj hr
    refine Flow.record ?_ _ _
    refine h.modifyCarrier hc (fun _ => rfl) fun j hj => ?_
    simp only [Carrier.refersTo_iff, List.mem_cons] at hj ⊢
    tauto
  · exact h.reap hr

/-- The pending slot is emptied. -/
theorem Flow.release_pending (h : s₀.Flow s loose) (hc : s.carrier? t = some c)
    (hpending : c.pending = some id) :
    s₀.Flow (s.modifyCarrier t fun c => { c with pending := none }) (id :: loose) := by
  refine h.modifyCarrier hc (fun _ => rfl) fun j hj => ?_
  simp only [Carrier.refersTo_iff, hpending, Option.some.injEq, List.mem_cons] at hj ⊢
  have : id = j ↔ j = id := eq_comm
  tauto

theorem Flow.reclaim (h : s₀.Flow s loose) (hr : s.reclaim t = .ok s') : s₀.Flow s' loose := by
  simp only [FiberSystem.reclaim] at hr
  split at hr <;> rename_i hpending
  · exact Except.ok.inj hr ▸ h
  · obtain ⟨c, hc, hpending⟩ := carrier?_of_pending hpending
    have hc' := carrier?_modifyCarrier_self (g := fun c => { c with pending := none }) hc
      fun _ => rfl
    exact (h.release_pending hc hpending).parkOrRelease hc' hr

end Parking

section Ending

theorem Flow.retire (h : s₀.Flow s loose) (hr : s.retire t id = .ok s') :
    s₀.Flow s' (id :: loose) ∧ ∀ u, s'.carrier? u = s.carrier? u := by
  obtain ⟨-, -, s₁, hwithdraw, hsame⟩ := retire_cases hr
  simp only [FiberSystem.retire, check_eq_ok_iff] at hr
  obtain ⟨-, -, -, hr⟩ := hr
  obtain ⟨s₂, hwithdraw', hr⟩ := bind_eq_ok_iff.1 hr
  refine ⟨Except.ok.inj hr ▸ (h.withdraw hwithdraw').record _ _, fun u => ?_⟩
  rw [hsame.carrier?, (deregistered_of_withdraw h.registry hwithdraw).carrier?]

theorem Flow.terminate (h : s₀.Flow s loose) (hc : s.carrier? t = some c)
    (hr : s.terminate t id = .ok s') : s₀.Flow s' loose := by
  obtain ⟨s₁, hretire, hr⟩ := bind_eq_ok_iff.1 hr
  obtain ⟨hretired, hcarrier⟩ := h.retire hretire
  have hdropped : s₀.Flow (s₁.unhold id) (id :: loose) :=
    (hretired.unhold id).weaken (List.cons_subset.2 ⟨List.mem_cons_self, List.Subset.refl _⟩)
  exact hdropped.parkOrRelease ((hcarrier t).trans hc) hr

/-- The outgoing fiber waits in the pending slot; one found waiting there is parked or freed. -/
theorem Flow.retireSource (h : s₀.Flow s (id :: loose)) (hc : s.carrier? t = some c)
    (hr : s.retireSource t id = .ok s') : s₀.Flow s' loose := by
  obtain ⟨s₁, hretire, hr⟩ := bind_eq_ok_iff.1 hr
  obtain ⟨hretired, hcarrier⟩ := h.retire hretire
  have hc₁ : s₁.carrier? t = some c := (hcarrier t).trans hc
  have hawait : s₀.Flow (s₁.modifyCarrier t fun c => { c with pending := some id })
      (c.pending.toList ++ loose) := by
    refine hretired.modifyCarrier hc₁ (fun _ => rfl) fun j hj => ?_
    simp only [Carrier.refersTo_iff, List.mem_cons, List.mem_append, Option.mem_toList,
      Option.some.injEq] at hj ⊢
    have : id = j ↔ j = id := eq_comm
    tauto
  rw [carrier_eq hc₁] at hr
  cases hpending : c.pending with
  | none =>
    simp only [hpending] at hr hawait
    exact Except.ok.inj hr ▸ hawait
  | some earlier =>
    simp only [hpending] at hr hawait
    have hc₂ := carrier?_modifyCarrier_self (g := fun c => { c with pending := some id }) hc₁
      fun _ => rfl
    exact hawait.parkOrRelease hc₂ hr

end Ending

section Switching

theorem stack_bookmark (bookmark : Fiber → Bookmark) (f : Fiber) :
    ({ f with bookmark := bookmark f } : Fiber).stack = f.stack := rfl

/-- The source is no longer current; a returning call goes on referring to it. -/
theorem Flow.exchange (h : s₀.Flow s loose) (hc : s.carrier? t = some c) {target : FiberId}
    (kind : SwitchKind) (htarget : target ∈ s.fibers.keys)
    (hsource : c.current ∈ s.fibers.keys) :
    s₀.Flow { s.exchange t c.current target with
      calls := ⟨t, kind, c.current, target⟩ :: s.calls } (c.current :: loose) := by
  have hsuspended := h.modifyFiber (g := fun f => { f with state := .onStack }) (fun _ => rfl)
    c.current
  have hentered := hsuspended.modifyFiber
    (g := fun f => { f with state := .current, entered := true }) (fun _ => rfl) target
  have hcurrent : s₀.Flow (s.exchange t c.current target) (c.current :: loose) := by
    refine hentered.modifyCarrier hc (fun _ => rfl) fun j hj => ?_
    simp only [Carrier.refersTo_iff, List.mem_cons] at hj ⊢
    have : c.current = j ↔ j = c.current := eq_comm
    tauto
  have hkeys : (s.exchange t c.current target).fibers.keys = s.fibers.keys := by
    simp only [FiberSystem.exchange, FiberSystem.modifyCarrier, FiberSystem.modifyFiber,
      Table.keys_modify]
  refine hcurrent.change (sameHoldings_of_eq rfl rfl rfl rfl) hcurrent.registry hcurrent.tokens
    ?_ ?_
  · rintro j (hj | ⟨call, hcall, href⟩)
    · exact .inl (.inl hj)
    rcases List.mem_cons.1 hcall with rfl | hcall
    · rw [hkeys]
      obtain rfl | ⟨-, rfl⟩ := SwitchCall.refersTo_iff.1 href
      · exact .inr htarget
      · exact .inr hsource
    · exact .inl (.inr ⟨call, hcall, href⟩)
  · rintro j ((hreg | (hheld | ⟨call, hcall, href⟩) | hcarrier) | hj)
    · exact .inl (.inl hreg)
    · exact .inl (.inr (.inl (.inl hheld)))
    · exact .inl (.inr (.inl (.inr ⟨call, List.mem_cons_of_mem _ hcall, href⟩)))
    · exact .inl (.inr (.inr hcarrier))
    · exact .inr hj

theorem Flow.enter (h : s₀.Flow s loose) (hs : s.Sound) (hc : s.carrier? t = some c)
    {target : FiberId} {kind : SwitchKind} (hr : s.enter t target kind = .ok s') :
    s₀.Flow s' loose := by
  simp only [FiberSystem.enter, carrier_eq hc] at hr
  obtain ⟨⟨⟩, hcheck, hr⟩ := bind_eq_ok_iff.1 hr
  obtain ⟨s₁, hverify, hr⟩ := bind_eq_ok_iff.1 hr
  obtain ⟨f, hf, -⟩ := hs.exists_fiber hc (checkTarget_cases hcheck).1
  have htarget : target ∈ s.fibers.keys := Table.mem_keys_iff.2 ⟨f, hf⟩
  have hsource : c.current ∈ s.fibers.keys := by
    obtain ⟨b, g, hg, -⟩ := (hs.carries t c hc).current
    exact Table.mem_keys_iff.2 ⟨g, hg⟩
  have hverified : s₀.Flow s₁ loose ∧ s₁.fibers.keys = s.fibers.keys
      ∧ s₁.carrier? t = some c := by
    obtain ⟨-, bookmark, -, ⟨rfl, -⟩ | rfl⟩ := verifySwitch_cases hf hverify
    · exact ⟨h, rfl, hc⟩
    · exact ⟨h.modifyFiber (stack_bookmark bookmark) target, Table.keys_modify _, hc⟩
  obtain ⟨h₁, hkeys, hc₁⟩ := hverified
  have hexchanged := h₁.exchange hc₁ kind (hkeys ▸ htarget) (hkeys ▸ hsource)
  cases kind with
  | returning =>
    refine Except.ok.inj hr ▸ hexchanged.settle (.inr (.inl (.inr ⟨_, List.mem_cons_self, ?_⟩)))
    exact SwitchCall.refersTo_iff.2 (.inr ⟨rfl, rfl⟩)
  | terminating =>
    refine hexchanged.retireSource (c := { c with current := target }) ?_ hr
    exact carrier?_exchange.trans (by rw [if_pos rfl, hc₁, Option.map_some])

/-- A call that returns refers to its fibers no more. -/
theorem Flow.returnFrom {call : SwitchCall} (h : s₀.Flow s loose)
    (hr : s.returnFrom call = .ok s') : s₀.Flow s' loose := by
  obtain ⟨s₁, hreclaim, hr⟩ := bind_eq_ok_iff.1 hr
  have h₁ := h.reclaim hreclaim
  refine Flow.reapAll ?_ hr
  refine h₁.change (sameHoldings_of_eq rfl rfl rfl rfl) h₁.registry h₁.tokens ?_ ?_
  · rintro j (hj | ⟨call', hcall, href⟩)
    · exact .inl (.inl hj)
    · exact .inl (.inr ⟨call', List.mem_of_mem_erase hcall, href⟩)
  · rintro j ((hreg | (hheld | ⟨call', hcall, href⟩) | hcarrier) | hj)
    · exact .inl (.inl hreg)
    · exact .inl (.inr (.inl (.inl hheld)))
    · by_cases hne : call' = call
      · refine .inr ?_
        obtain rfl | ⟨-, rfl⟩ := SwitchCall.refersTo_iff.1 (hne ▸ href) <;> simp
      · exact .inl (.inr (.inl (.inr ⟨call', (List.mem_erase_of_ne hne).2 hcall, href⟩)))
    · exact .inl (.inr (.inr hcarrier))
    · exact .inr (List.mem_append_right _ hj)

end Switching

section Waking

theorem Flow.renew (h : s₀.Flow s loose) (hr : s.renew id = .ok s') : s₀.Flow s' loose := by
  simp only [FiberSystem.renew] at hr
  split_ifs at hr
  obtain rfl := Except.ok.inj hr
  refine Flow.modifyFiber ?_ (g := Fiber.renewed) (fun _ => rfl) id
  exact h.withMachine (Machine.keeps_writeAll _ _)

/-- A parked fiber that is woken is held by the host. -/
theorem Flow.wakeIdle {rest : List FiberId} (h : s₀.Flow s loose) (hs : s.Sound)
    (hc : s.carrier? t = some c) (hidle : c.idle = id :: rest)
    (hr : s.wakeIdle t id rest = .ok s') : s₀.Flow s' loose := by
  obtain ⟨s₁, hrenew, hr⟩ := bind_eq_ok_iff.1 hr
  have hmem : id ∈ s.fibers.keys := by
    obtain ⟨⟨f, hf, -⟩, -⟩ := (hs.carries t c hc).ended id (by simp [Carrier.ended, hidle])
    exact Table.mem_keys_iff.2 ⟨f, hf⟩
  have hheld := h.hold hmem
  have hunparked : s₀.Flow ((s.hold id).modifyCarrier t fun c => { c with idle := rest })
      (id :: loose) := by
    refine hheld.modifyCarrier (c := c) hc (fun _ => rfl) fun j hj => ?_
    simp only [Carrier.refersTo_iff, hidle, List.mem_cons] at hj ⊢
    tauto
  have hrenewed := (hunparked.settle (.inr (.inl (.inl List.mem_cons_self)))).renew hrenew
  exact Except.ok.inj hr ▸ (hrenewed.record _ _).record _ _

end Waking

section Detaching

theorem Flow.dropPending (h : s₀.Flow s loose) (hc : s.carrier? t = some c)
    (hr : s.dropPending t = .ok s') :
    s₀.Flow s' loose ∧ s'.carrier? t = some { c with pending := none } := by
  simp only [FiberSystem.dropPending, carrier_eq hc] at hr
  split at hr <;> rename_i hpending
  · obtain rfl := Except.ok.inj hr
    exact ⟨h, by rw [hc, ← hpending]⟩
  · have hc' := carrier?_modifyCarrier_self (g := fun c => { c with pending := none }) hc
      fun _ => rfl
    exact ⟨(h.release_pending hc hpending).reap hr, (carrier?_of_reap hr t).trans hc'⟩

theorem Flow.dropParked (h : s₀.Flow s loose) (hc : s.carrier? t = some c)
    (hidle : c.idle = ids.reverse) (hr : s.dropParked t ids = .ok s') :
    s₀.Flow s' loose ∧ s'.carrier? t = some { c with idle := [] } := by
  induction ids generalizing s c with
  | nil =>
    obtain rfl := Except.ok.inj hr
    rw [List.reverse_nil] at hidle
    exact ⟨h, by rw [hc, ← hidle]⟩
  | cons id rest ih =>
    obtain ⟨s₁, hreap, hr⟩ := bind_eq_ok_iff.1 hr
    have hunparked : s₀.Flow (s.modifyCarrier t fun c => { c with idle := rest.reverse })
        (id :: loose) := by
      refine h.modifyCarrier hc (fun _ => rfl) fun j hj => ?_
      simp only [Carrier.refersTo_iff, hidle, List.reverse_cons, List.mem_append,
        List.mem_cons, List.not_mem_nil, or_false] at hj ⊢
      tauto
    have hc₁ := carrier?_modifyCarrier_self (g := fun c => { c with idle := rest.reverse }) hc
      fun _ => rfl
    exact ih (c := { c with idle := rest.reverse }) (hunparked.reap hreap)
      ((carrier?_of_reap hreap t).trans hc₁) rfl hr

/-- The carrier then refers to its thread fiber and the current fiber only. -/
theorem Flow.dropEnded (h : s₀.Flow s loose) (hc : s.carrier? t = some c)
    (hr : s.dropEnded t = .ok s') :
    s₀.Flow s' loose ∧ s'.carrier? t = some { c with pending := none, idle := [] } := by
  obtain ⟨s₁, hpending, hr⟩ := bind_eq_ok_iff.1 hr
  obtain ⟨h₁, hc₁⟩ := h.dropPending hc hpending
  rw [carrier_eq hc₁] at hr
  exact h₁.dropParked hc₁ (List.reverse_reverse _).symm hr

theorem Flow.withdrawAll (h : s₀.Flow s loose) (hr : s.withdrawAll ids = .ok s') :
    s₀.Flow s' (ids ++ loose) ∧ s'.carrier? t = s.carrier? t := by
  induction ids generalizing s loose with
  | nil => exact Except.ok.inj hr ▸ ⟨h, rfl⟩
  | cons id rest ih =>
    obtain ⟨s₁, hwithdraw, hr⟩ := bind_eq_ok_iff.1 hr
    obtain ⟨hrest, hcarrier⟩ := ih (h.withdraw hwithdraw) hr
    refine ⟨hrest.weaken List.perm_middle.subset, hcarrier.trans ?_⟩
    exact (deregistered_of_withdraw h.registry hwithdraw).carrier? t

theorem Flow.disown (h : s₀.Flow s loose) (hr : s.disown t ids = .ok s') :
    s₀.Flow s' (ids ++ loose) ∧ s'.carrier? t = s.carrier? t := by
  cases ids with
  | nil => exact h.withdrawAll hr
  | cons id rest =>
    have hnoticed := h.withMachine
      (Machine.keeps_notice (.detachedWithFibers (s.carrier t).name (id :: rest).length))
    exact hnoticed.withdrawAll hr

theorem Flow.signOff (h : s₀.Flow s loose) (hc : s.carrier? t = some c)
    (hr : s.signOff t = .ok s') :
    s₀.Flow s' (c.threadFiber :: loose) ∧ s'.carrier? t = s.carrier? t := by
  obtain ⟨s₁, hunregister, hr⟩ := bind_eq_ok_iff.1 hr
  rw [carrier_eq hc] at hunregister
  obtain rfl := Except.ok.inj hr
  refine ⟨(h.unregister hunregister).record _ _, ?_⟩
  rw [(same_record _ _ _).carrier?,
    (deregistered_of_unregister h.registry hunregister).carrier?]

theorem Flow.dropCarrier (h : s₀.Flow s (c.threadFiber :: loose)) (hc : s.carrier? t = some c)
    (hidle : c.idle = []) (hpending : c.pending = none) (hr : s.dropCarrier t = .ok s') :
    s₀.Flow s' loose := by
  simp only [FiberSystem.dropCarrier, carrier_eq hc] at hr
  refine Flow.reapAll ?_ hr
  refine h.change (sameHoldings_of_eq rfl rfl rfl rfl) h.registry
    ((List.filter_sublist.map _).nodup h.tokens) (fun _ => .inl) ?_
  rintro j ((hreg | hlent | ⟨u, c', hc', href⟩) | hj)
  · exact .inl (.inl hreg)
  · exact .inl (.inr (.inl hlent))
  · by_cases hu : u = t
    · subst hu
      obtain rfl := Option.some.inj (hc.symm.trans hc')
      simp only [Carrier.refersTo_iff, hidle, hpending, List.not_mem_nil, reduceCtorEq,
        or_false] at href
      obtain rfl | rfl := href <;> simp
    · refine .inl (.inr (.inr ⟨u, c', ?_, href⟩))
      rw [carrier?_filter, if_neg hu, hc']
  · rcases List.mem_cons.1 hj with rfl | hj <;> simp [hj]

theorem Flow.detach (h : s₀.Flow s loose) (hc : s.carrier? t = some c)
    (hr : s.detach t = .ok s') : s₀.Flow s' loose := by
  obtain ⟨s₁, hended, hr⟩ := bind_eq_ok_iff.1 hr
  obtain ⟨orphans, -, hr⟩ := bind_eq_ok_iff.1 hr
  obtain ⟨s₂, hdisown, hr⟩ := bind_eq_ok_iff.1 hr
  obtain ⟨s₃, hsignOff, hr⟩ := bind_eq_ok_iff.1 hr
  obtain ⟨s₄, hreap, hr⟩ := bind_eq_ok_iff.1 hr
  obtain ⟨h₁, hc₁⟩ := h.dropEnded hc hended
  obtain ⟨h₂, hcarrier₂⟩ := h₁.disown (t := t) hdisown
  have hc₂ := hcarrier₂.trans hc₁
  obtain ⟨h₃, hcarrier₃⟩ := h₂.signOff hc₂ hsignOff
  have h₄ : s₀.Flow s₄ (c.threadFiber :: loose) :=
    (h₃.weaken List.perm_middle.symm.subset).reapAll hreap
  have hc₄ := (carrier?_of_reapAll hreap t).trans (hcarrier₃.trans hc₂)
  exact h₄.dropCarrier (c := { c with pending := none, idle := [] }) hc₄ rfl rfl hr

end Detaching

end FiberSystem

end PooledFibers
