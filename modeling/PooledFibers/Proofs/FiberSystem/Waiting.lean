import Mathlib.Data.List.Basic
import Mathlib.Tactic.Common
import PooledFibers.Proofs.FiberSystem.Balance
import PooledFibers.Proofs.FiberSystem.Moves

/-!
# Pending slots

What waits in the pending slot of a thread after an operation is determined by the operation and by
what waited before (`waiting_of_perform`): a terminating switch puts the outgoing fiber there, some
operations of the thread drain the slot, and nothing else touches it.
-/

namespace PooledFibers

/-- The idle cache once what waits in the pending slot has been parked, if there is room. -/
def Carrier.idleAfter (c : Carrier) (room : Nat) : List FiberId :=
  match c.pending with
  | some id => if c.idle.length < room then id :: c.idle else c.idle
  | none => c.idle

theorem Carrier.length_idleAfter_le (c : Carrier) (room : Nat) :
    (c.idleAfter room).length ≤ c.ended.length := by
  rw [idleAfter, ended, List.length_append]
  cases c.pending with
  | none => simp
  | some id =>
    simp only [Option.toList_some, List.length_singleton]
    split_ifs
    · rw [List.length_cons, Nat.add_comm]
    · exact Nat.le_add_left _ _

namespace FiberSystem

open Outcome

/-- The fiber that waits in the pending slot of a thread. -/
def waiting (s : FiberSystem) (t : ThreadToken) : Option FiberId :=
  (s.carrier? t).bind (·.pending)

/-- The operation takes out what waits in the pending slot of the thread. -/
def drains (s : FiberSystem) (t : ThreadToken) : Operation → Bool
  | .perform u (.create .pooled _) | .perform u .reclaim | .perform u .detach
  | .perform u (.switch _ .terminating) => u = t
  | .returnFrom call => call ∈ s.calls ∧ call.thread = t
  | _ => false

/-- What waits in the pending slot of the thread once the operation is done. -/
def waitingAfter (s : FiberSystem) (t : ThreadToken) (operation : Operation) : Option FiberId :=
  if s.drains t operation then
    match operation with
    | .perform _ (.switch _ _) => (s.carrier? t).map (·.current)
    | _ => none
  else s.waiting t

variable {s s' : FiberSystem} {t u : ThreadToken} {c : Carrier} {id : FiberId}

section Carriers

variable {source target : FiberId} {kind : SwitchKind} {made outcome : Except Failure FiberId}
  {continuation : Option ContinuationId}

theorem carrier?_of_parkOrRelease (hc : s.carrier? t = some c)
    (hr : s.parkOrRelease t id = .ok s') : s'.carrier? t = some { c with
      idle := if c.idle.length < s.settings.idleCacheSize then id :: c.idle else c.idle } := by
  simp only [parkOrRelease, carrier_eq hc] at hr
  split_ifs at hr with hroom
  · rw [if_pos hroom, ← Except.ok.inj hr, recordIdle, (same_record _ _ _).carrier?]
    exact carrier?_modifyCarrier_self hc fun _ => rfl
  · rw [if_neg hroom, carrier?_of_reap hr, hc]

theorem reclaim_of_waiting_eq_none (h : s.waiting t = none) : s.reclaim t = .ok s := by
  cases hc : s.carrier? t with
  | none => simp [reclaim, carrier, hc, default]
  | some c =>
    have hpending : c.pending = none := by simpa [waiting, hc] using h
    simp [reclaim, carrier_eq hc, hpending]

theorem carrier?_of_reclaim (hc : s.carrier? t = some c) (hr : s.reclaim t = .ok s') :
    s'.carrier? t = some { c with
      pending := none, idle := c.idleAfter s.settings.idleCacheSize } := by
  simp only [reclaim, carrier_eq hc] at hr
  split at hr <;> rename_i hpending
  · obtain rfl := Except.ok.inj hr
    cases c
    simp_all [Carrier.idleAfter]
  · have hc' := carrier?_modifyCarrier_self (g := fun c => { c with pending := none }) hc
      fun _ => rfl
    rw [carrier?_of_parkOrRelease hc' hr, Carrier.idleAfter, hpending]
    rfl

theorem carrier?_of_retire (hr : s.retire t id = .ok s') : s'.carrier? u = s.carrier? u := by
  simp only [retire, check_eq_ok_iff] at hr
  obtain ⟨-, -, -, hr⟩ := hr
  obtain ⟨s₁, hwithdraw, hr⟩ := bind_eq_ok_iff.1 hr
  obtain ⟨registry, -, rfl⟩ := unregister_eq_ok_iff.1 hwithdraw
  rw [← Except.ok.inj hr, (same_record _ _ _).carrier?]
  rfl

theorem carrier?_of_retireSource (hc : s.carrier? t = some c)
    (hr : s.retireSource t source = .ok s') : s'.carrier? t = some { c with
      pending := some source, idle := c.idleAfter s.settings.idleCacheSize } := by
  obtain ⟨s₁, hretire, hr⟩ := bind_eq_ok_iff.1 hr
  have hsettings : s₁.settings = s.settings := (move_of_retire hretire).settings
  have hc₁ : s₁.carrier? t = some c := (carrier?_of_retire hretire).trans hc
  have hc₂ := carrier?_modifyCarrier_self (g := fun c => { c with pending := some source }) hc₁
    fun _ => rfl
  simp only [carrier_eq hc₁] at hr
  rw [Carrier.idleAfter, ← hsettings]
  split at hr <;> rename_i hpending
  · rw [← Except.ok.inj hr, hc₂, hpending]
  · rw [carrier?_of_parkOrRelease hc₂ hr, hpending]
    rfl

theorem settings_of_verifySwitch (hr : s.verifySwitch t source target kind = .ok s') :
    s'.settings = s.settings ∧ s'.carriers = s.carriers ∧ s'.statistics = s.statistics := by
  simp only [verifySwitch] at hr
  split_ifs at hr
  · obtain ⟨⟨⟩, -, hr⟩ := bind_eq_ok_iff.1 hr
    simp only [bookmarkTarget] at hr
    split_ifs at hr <;> exact Except.ok.inj hr ▸ ⟨rfl, rfl, rfl⟩
  · exact Except.ok.inj hr ▸ ⟨rfl, rfl, rfl⟩

theorem carrier?_of_enter (hc : s.carrier? t = some c) (hr : s.enter t target kind = .ok s') :
    s'.carrier? t = some (match kind with
      | .returning => { c with current := target }
      | .terminating => { c with
          current := target, pending := some c.current
          idle := c.idleAfter s.settings.idleCacheSize }) := by
  simp only [enter, carrier_eq hc] at hr
  obtain ⟨⟨⟩, hcheck, hr⟩ := bind_eq_ok_iff.1 hr
  obtain ⟨s₁, hverify, hr⟩ := bind_eq_ok_iff.1 hr
  obtain ⟨hsettings, hcarriers, -⟩ := settings_of_verifySwitch hverify
  have hc₁ : s₁.carrier? t = some c := by rwa [FiberSystem.carrier?, hcarriers]
  have hc₂ : { s₁.exchange t c.current target with
      calls := ⟨t, kind, c.current, target⟩ :: s₁.calls }.carrier? t
        = some { c with current := target } :=
    carrier?_exchange.trans (by rw [if_pos rfl, hc₁, Option.map_some])
  cases kind with
  | returning => exact Except.ok.inj hr ▸ hc₂
  | terminating =>
    have hc₃ := carrier?_of_retireSource (c := { c with current := target }) hc₂ hr
    rw [hc₃, ← hsettings]
    rfl

theorem carrier?_of_wakeIdle {rest : List FiberId} (hc : s.carrier? t = some c)
    (hr : s.wakeIdle t id rest = .ok s') : s'.carrier? t = some { c with idle := rest } := by
  obtain ⟨s₁, hrenew, hr⟩ := bind_eq_ok_iff.1 hr
  obtain ⟨machine, -, rfl⟩ := exists_of_renew hrenew
  rw [← Except.ok.inj hr, (same_record _ _ _).carrier?, recordIdle, (same_record _ _ _).carrier?]
  exact carrier?_modifyCarrier_self (s := s.hold id) (g := fun c => { c with idle := rest }) hc
    fun _ => rfl

theorem carrier?_of_makeFiber (hr : s.makeFiber t = .ok (made, s')) :
    s'.carrier? u = s.carrier? u := by
  obtain ⟨⟨_ | lease, pool⟩, -, hr⟩ := bind_eq_ok_iff.1 hr <;>
    simp only [pure_eq_ok, Except.ok.injEq, Prod.mk.injEq] at hr <;> obtain ⟨-, rfl⟩ := hr
  · rfl
  · exact (same_record _ _ _).carrier? u

/-- The fiber in front is taken, if there is one. -/
theorem carrier?_of_supply (hc : s.carrier? t = some c) (hr : s.supply t = .ok (made, s')) :
    s'.carrier? t = some { c with idle := c.idle.tail } := by
  simp only [supply, carrier_eq hc] at hr
  split at hr <;> rename_i hidle
  · obtain ⟨s₁, hwake, hr⟩ := bind_eq_ok_iff.1 hr
    simp only [pure_eq_ok, Except.ok.injEq, Prod.mk.injEq] at hr
    rw [← hr.2, carrier?_of_wakeIdle hc hwake, hidle, List.tail_cons]
  · rw [carrier?_of_makeFiber hr, hc, hidle, List.tail_nil, ← hidle]

theorem carrier?_of_create (hc : s.carrier? t = some c)
    (hr : s.create t .pooled continuation = .ok (outcome, s')) :
    s'.carrier? t = some { c with
      pending := none, idle := (c.idleAfter s.settings.idleCacheSize).tail } := by
  obtain ⟨s₁, hreclaim, hr⟩ := bind_eq_ok_iff.1 hr
  obtain ⟨⟨made, s₂⟩, hsupply, hr⟩ := bind_eq_ok_iff.1 hr
  rw [← carrier?_of_supply (carrier?_of_reclaim hc hreclaim) hsupply]
  cases made with
  | error failure =>
    simp only [pure_eq_ok, Except.ok.injEq, Prod.mk.injEq] at hr
    exact hr.2 ▸ rfl
  | ok id =>
    obtain ⟨s₃, henroll, hr⟩ := bind_eq_ok_iff.1 hr
    simp only [pure_eq_ok, Except.ok.injEq, Prod.mk.injEq] at hr
    obtain ⟨registry, -, rfl⟩ := register_eq_ok_iff.1 henroll
    exact hr.2 ▸ rfl

theorem carrier?_of_create_ne {request : StackRequest} (hrequest : request ≠ .pooled)
    (hr : s.create t request continuation = .ok (outcome, s')) :
    s'.carrier? u = s.carrier? u := by
  cases request with
  | kernel =>
    simp only [create] at hr
    split_ifs at hr
    simp only [pure_eq_ok, Except.ok.injEq, Prod.mk.injEq] at hr
    exact hr.2 ▸ rfl
  | bytes size =>
    simp only [create, pure_eq_ok, Except.ok.injEq, Prod.mk.injEq] at hr
    exact hr.2 ▸ rfl
  | pooled => exact absurd rfl hrequest

end Carriers

section Waiting

theorem waiting_of_carriers_eq (h : s'.carrier? t = s.carrier? t) :
    s'.waiting t = s.waiting t := by
  rw [waiting, h, waiting]

theorem waiting_eq_of_carrier? (hc : s.carrier? t = some c) : s.waiting t = c.pending := by
  rw [waiting, hc, Option.bind_some]

theorem waiting_modifyCarrier {g : Carrier → Carrier}
    (hg : ∀ c, (g c).token = c.token ∧ (g c).pending = c.pending) :
    (s.modifyCarrier t g).waiting u = s.waiting u := by
  rw [waiting, carrier?_modifyCarrier fun c => (hg c).1, waiting]
  split_ifs
  · cases s.carrier? u <;> simp [hg]
  · rfl

theorem waiting_of_reclaim (hr : s.reclaim t = .ok s') : s'.waiting t = none := by
  cases hc : s.carrier? t with
  | none =>
    have hwait : s.waiting t = none := by rw [waiting, hc, Option.bind_none]
    obtain rfl := Except.ok.inj ((reclaim_of_waiting_eq_none hwait).symm.trans hr)
    exact hwait
  | some c => rw [waiting, carrier?_of_reclaim hc hr, Option.bind_some]

/-- A pooled fiber is made as if what waits in the pending slot had been reclaimed before. -/
theorem exists_reclaim_of_create {continuation : Option ContinuationId}
    {outcome : Except Failure FiberId}
    (hr : s.create t .pooled continuation = .ok (outcome, s')) : ∃ s₁, s.reclaim t = .ok s₁
      ∧ s₁.waiting t = none ∧ s₁.create t .pooled continuation = .ok (outcome, s') := by
  obtain ⟨s₁, hreclaim, hr⟩ := bind_eq_ok_iff.1 hr
  have hwait := waiting_of_reclaim hreclaim
  refine ⟨s₁, hreclaim, hwait, ?_⟩
  rw [create, reclaim_of_waiting_eq_none hwait, ok_bind]
  exact hr

/-- What a thread does leaves the pending slots of the others alone. -/
theorem carrier?_of_performOn_ne {operation : ThreadOperation} {e : Option Event} (hs : s.Sound)
    (hc : s.carrier? t = some c) (hr : s.performOn t c operation = .ok (s', e)) (hu : u ≠ t) :
    s'.carrier? u = s.carrier? u := by
  cases operation with
  | detach =>
    obtain ⟨s₁, s₂, hmove₁, hmove₂, hmove₃⟩ := moves_of_detach hs hc (eq_ok_of_map_mk hr)
    rw [hmove₃.carrier?_of_ne hu, carrier?_filter, if_neg hu, hmove₂.carrier?_of_ne hu,
      (same_record s₁ t _).carrier?, hmove₁.carrier?_of_ne hu]
  | _ => exact (move_of_performOn hs hc hr nofun).carrier?_of_ne hu

theorem carrier?_of_detach (hs : s.Sound) (hc : s.carrier? t = some c)
    (hr : s.detach t = .ok s') : s'.carrier? t = none := by
  obtain ⟨_, s₁, s₂, s₃, -, -, -, -, -, -, -, hupkeep⟩ := detach_cases hs hc hr
  have hseat := hupkeep.seats t
  rwa [carrier?_filter, if_pos rfl, Option.map_none, Option.map_eq_none_iff] at hseat

theorem waiting_of_performOn {operation : ThreadOperation} {e : Option Event} (hs : s.Sound)
    (hc : s.carrier? t = some c) (hr : s.performOn t c operation = .ok (s', e)) :
    s'.waiting t = s.waitingAfter t (.perform t operation) := by
  cases operation with
  | create request continuation =>
    obtain ⟨⟨outcome, s₁⟩, hcreate, heq⟩ := map_eq_ok_iff.1 hr
    obtain ⟨rfl, -⟩ := Prod.mk.inj heq
    by_cases hrequest : request = .pooled
    · subst hrequest
      rw [waiting, carrier?_of_create hc hcreate]
      simp [waitingAfter, drains]
    · rw [waiting_of_carriers_eq (carrier?_of_create_ne hrequest hcreate)]
      cases request with
      | pooled => exact absurd rfl hrequest
      | _ => rfl
  | terminate fiber =>
    obtain ⟨s₁, hretire, hr⟩ := bind_eq_ok_iff.1 (eq_ok_of_map_mk hr)
    have hc₁ : (s₁.unhold fiber).carrier? t = some c := (carrier?_of_retire hretire).trans hc
    rw [waiting, carrier?_of_parkOrRelease hc₁ hr]
    simp [waitingAfter, drains, waiting, hc]
  | switch target kind =>
    rw [waiting, carrier?_of_enter hc (eq_ok_of_map_mk hr)]
    cases kind <;> simp [waitingAfter, drains, waiting, hc]
  | reclaim =>
    rw [waiting_of_reclaim (eq_ok_of_map_mk hr)]
    simp [waitingAfter, drains]
  | detach =>
    rw [waiting, carrier?_of_detach hs hc (eq_ok_of_map_mk hr)]
    simp [waitingAfter, drains]
  | scratch operation =>
    obtain ⟨scratch, -, heq⟩ := map_eq_ok_iff.1 hr
    obtain ⟨rfl, -⟩ := Prod.mk.inj heq
    exact waiting_modifyCarrier (g := fun c => { c with scratch }) fun _ => ⟨rfl, rfl⟩
  | setMode mode =>
    obtain ⟨rfl, -⟩ := Prod.mk.inj (Except.ok.inj hr)
    exact waiting_modifyCarrier (g := fun c => { c with mode }) fun _ => ⟨rfl, rfl⟩

theorem waiting_of_attach {thread : Nat} {name : String} {bounds : Except IoError StackBounds}
    {outcome : Except Failure ThreadToken} (hs : s.Sound)
    (hr : s.attach thread name bounds = .ok (outcome, s')) : s'.waiting t = s.waiting t := by
  obtain ⟨rfl, -⟩ | ⟨-, region, registry, statistics, slot, -, -, rfl⟩ := attach_cases hr
  · rfl
  have hcarrier := carrier?_append (s := s) (u := t)
    { token := s.nextToken, name, threadFiber := s.nextFiber, current := s.nextFiber, slot }
    hs.nextToken_not_given
  refine (congrArg (fun c? : Option Carrier => c?.bind (·.pending)) hcarrier).trans ?_
  split_ifs with ht
  · rw [waiting, ht, hs.nextToken_not_given]
    rfl
  · rfl

theorem waiting_of_returnFrom {call : SwitchCall} (hs : s.Sound)
    (hr : s.returnFrom call = .ok s') :
    s'.waiting t = if call.thread = t then none else s.waiting t := by
  obtain ⟨s₁, hreclaim, hreap⟩ := bind_eq_ok_iff.1 hr
  rw [waiting_of_carriers_eq (carrier?_of_reapAll hreap t)]
  split_ifs with ht
  · have hdone : s₁.waiting t = none := waiting_of_reclaim (ht ▸ hreclaim)
    exact hdone
  · exact waiting_of_carriers_eq ((move_of_reclaim hs hreclaim).carrier?_of_ne (Ne.symm ht))

theorem drains_perform_ne {operation : ThreadOperation} (h : t ≠ u) :
    s.drains t (.perform u operation) = false := by
  cases operation with
  | create request _ => cases request <;> simp [drains, Ne.symm h]
  | switch _ kind => cases kind <;> simp [drains, Ne.symm h]
  | _ => simp [drains, Ne.symm h]

theorem waitingAfter_of_not_drains {operation : Operation} (h : s.drains t operation = false) :
    s.waitingAfter t operation = s.waiting t :=
  if_neg (Bool.eq_false_iff.1 h)

theorem waiting_of_perform {operation : Operation} {e : Option Event} (hs : s.Sound)
    (hr : s.perform operation = .ok (s', e)) : s'.waiting t = s.waitingAfter t operation := by
  cases operation with
  | attach thread name bounds =>
    obtain ⟨⟨outcome, s₁⟩, hattach, heq⟩ := map_eq_ok_iff.1 hr
    obtain ⟨rfl, -⟩ := Prod.mk.inj heq
    exact waiting_of_attach hs hattach
  | perform u operation =>
    simp only [FiberSystem.perform] at hr
    split at hr <;> rename_i hc
    · by_cases ht : t = u
      · subst ht
        exact waiting_of_performOn hs hc hr
      · rw [waiting_of_carriers_eq (carrier?_of_performOn_ne hs hc hr ht)]
        exact (waitingAfter_of_not_drains (drains_perform_ne ht)).symm
    · obtain ⟨rfl, -⟩ := Prod.mk.inj (Except.ok.inj hr)
      by_cases ht : t = u
      · simp only [waiting, waitingAfter, ht, hc, Option.bind_none, Option.map_none]
        split_ifs
        · split <;> rfl
        · rfl
      · exact (waitingAfter_of_not_drains (drains_perform_ne ht)).symm
  | returnFrom call =>
    simp only [FiberSystem.perform] at hr
    split_ifs at hr with hcall
    · rw [waiting_of_returnFrom hs (eq_ok_of_map_mk hr)]
      simp [waitingAfter, drains, hcall]
    · obtain ⟨rfl, -⟩ := Prod.mk.inj (Except.ok.inj hr)
      simp [waitingAfter, drains, hcall]
  | drop fiber =>
    simp only [FiberSystem.perform] at hr
    split_ifs at hr
    · exact waiting_of_carriers_eq (carrier?_of_reap (eq_ok_of_map_mk hr) t)
    · exact (Prod.mk.inj (Except.ok.inj hr)).1 ▸ rfl
  | lease =>
    obtain ⟨⟨outcome, s₁⟩, hlease, heq⟩ := map_eq_ok_iff.1 hr
    obtain ⟨rfl, -⟩ := Prod.mk.inj heq
    exact waiting_of_carriers_eq ((samePlaces_of_lease hlease).carrier? t)
  | unlease lease =>
    simp only [FiberSystem.perform] at hr
    split_ifs at hr
    · exact waiting_of_carriers_eq ((samePlaces_of_unlease (eq_ok_of_map_mk hr)).carrier? t)
    · exact (Prod.mk.inj (Except.ok.inj hr)).1 ▸ rfl
  | hold fiber =>
    obtain ⟨rfl, -⟩ := Prod.mk.inj (Except.ok.inj hr)
    split_ifs <;> rfl
  | _ =>
    obtain ⟨rfl, -⟩ := Prod.mk.inj (Except.ok.inj hr)
    rfl

end Waiting

end FiberSystem

namespace Run

open FiberSystem

variable {rest : List Operation} {r r' : Run} {t : ThreadToken}

/-- A fiber waits in the pending slot until the slot is drained. -/
theorem waiting_of_after (h : r.Orderly) (hr : r.after rest = .ok r')
    (hrest : r.AtEach (fun s operation => s.drains t operation = false) rest) :
    r'.system.waiting t = r.system.waiting t := by
  induction rest generalizing r with
  | nil => exact Except.ok.inj hr ▸ rfl
  | cons operation rest ih =>
    obtain ⟨r₁, hperform, hr⟩ := after_cons_eq_ok_iff.1 hr
    obtain ⟨hdrains, hrest⟩ := (atEach_cons_iff hperform).1 hrest
    obtain ⟨event, hperformed, -⟩ := perform_eq_ok_iff.1 hperform
    rw [ih (h.perform hperform).1 hr hrest, waiting_of_perform h.sound hperformed,
      waitingAfter_of_not_drains hdrains]

end Run

end PooledFibers
