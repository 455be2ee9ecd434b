import Mathlib.Data.List.Basic
import Mathlib.Tactic.Common
import PooledFibers.Proofs.FiberSystem.Waiting

/-!
# The order of the idle cache

An idle cache is a stack: a fiber is parked in front of the others, and the one in front is the
next to be woken (`restocks_of_perform`). So as long as a fiber stays parked, the fibers behind it
are those that were parked before it (`Run.exists_idle_eq_of_after`).
-/

namespace PooledFibers

/-- One fiber at most has been put in front, and any may have been taken from the front. -/
def Restocks (idle idle' : List FiberId) : Prop :=
  ∃ parked : Option FiberId, idle' <:+ parked.toList ++ idle

section Restocks

variable {idle idle' newer older : List FiberId} {id : FiberId}

theorem Restocks.of_suffix (h : idle' <:+ idle) : Restocks idle idle' := ⟨none, h⟩

theorem Restocks.refl (idle : List FiberId) : Restocks idle idle := .of_suffix (List.suffix_refl _)

theorem Restocks.tail (h : Restocks idle idle') : Restocks idle idle'.tail :=
  h.imp fun _ hsuffix => (List.tail_suffix _).trans hsuffix

theorem restocks_ite (p : Prop) [Decidable p] (id : FiberId) (idle : List FiberId) :
    Restocks idle (if p then id :: idle else idle) := by
  split_ifs
  · exact ⟨some id, List.suffix_refl _⟩
  · exact .refl idle

theorem restocks_idleAfter (c : Carrier) (room : Nat) : Restocks c.idle (c.idleAfter room) := by
  simp only [Carrier.idleAfter]
  split
  · exact restocks_ite _ _ _
  · exact .refl _

/-- What lies behind a fiber that stays does not change. -/
theorem Restocks.exists_eq (h : Restocks idle idle') (hidle : idle = newer ++ id :: older)
    (hnodup : idle.Nodup) (hnodup' : idle'.Nodup) (hid : id ∈ idle') :
    ∃ newer', idle' = newer' ++ id :: older := by
  obtain ⟨parked, taken, heq⟩ := h
  obtain ⟨newer', older', rfl⟩ := List.append_of_mem hid
  subst hidle
  have holder : id ∉ older := (List.nodup_cons.1 (List.nodup_append.1 hnodup).2.1).1
  have holder' : id ∉ older' := (List.nodup_cons.1 (List.nodup_append.1 hnodup').2.1).1
  refine ⟨newer', ?_⟩
  rw [← List.append_assoc, ← List.append_assoc] at heq
  -- the two lists are the same from the last occurrence of the fiber on
  obtain ⟨between, -, hrest⟩ | ⟨between, -, hrest⟩ := List.append_eq_append_iff.1 heq
  · rcases between with _ | ⟨_, between⟩
    · rw [(List.cons.inj hrest).2]
    · exact absurd ((List.cons.inj hrest).2 ▸ by simp) holder'
  · rcases between with _ | ⟨_, between⟩
    · rw [(List.cons.inj hrest).2]
    · exact absurd ((List.cons.inj hrest).2 ▸ by simp) holder

end Restocks

namespace FiberSystem

open Outcome

variable {s s' : FiberSystem} {t : ThreadToken} {c : Carrier}

theorem restocks_of_carrier?_eq (h : s'.carrier? t = s.carrier? t) :
    Restocks (s.carrier t).idle (s'.carrier t).idle := by
  rw [carrier, carrier, h]
  exact .refl _

theorem restocks_of_carrier? {c' : Carrier} (hc : s.carrier? t = some c)
    (hc' : s'.carrier? t = some c') (h : Restocks c.idle c'.idle) :
    Restocks (s.carrier t).idle (s'.carrier t).idle := by
  rwa [carrier_eq hc, carrier_eq hc']

theorem restocks_of_reclaim (hr : s.reclaim t = .ok s') :
    Restocks (s.carrier t).idle (s'.carrier t).idle := by
  cases hc : s.carrier? t with
  | none =>
    have hwait : s.waiting t = none := by rw [waiting, hc, Option.bind_none]
    obtain rfl := Except.ok.inj ((reclaim_of_waiting_eq_none hwait).symm.trans hr)
    exact .refl _
  | some c => exact restocks_of_carrier? hc (carrier?_of_reclaim hc hr) (restocks_idleAfter c _)

theorem restocks_of_performOn {operation : ThreadOperation} {e : Option Event} (hs : s.Sound)
    (hc : s.carrier? t = some c) (hr : s.performOn t c operation = .ok (s', e)) :
    Restocks (s.carrier t).idle (s'.carrier t).idle := by
  cases operation with
  | create request continuation =>
    obtain ⟨⟨outcome, s₁⟩, hcreate, heq⟩ := map_eq_ok_iff.1 hr
    obtain ⟨rfl, -⟩ := Prod.mk.inj heq
    by_cases hrequest : request = .pooled
    · subst hrequest
      exact restocks_of_carrier? hc (carrier?_of_create hc hcreate) (restocks_idleAfter c _).tail
    · exact restocks_of_carrier?_eq (carrier?_of_create_ne hrequest hcreate)
  | terminate fiber =>
    obtain ⟨s₁, hretire, hr⟩ := bind_eq_ok_iff.1 (eq_ok_of_map_mk hr)
    have hc₁ : (s₁.unhold fiber).carrier? t = some c := (carrier?_of_retire hretire).trans hc
    exact restocks_of_carrier? hc (carrier?_of_parkOrRelease hc₁ hr) (restocks_ite _ _ _)
  | switch target kind =>
    refine restocks_of_carrier? hc (carrier?_of_enter hc (eq_ok_of_map_mk hr)) ?_
    cases kind with
    | returning => exact .refl _
    | terminating => exact restocks_idleAfter c _
  | reclaim => exact restocks_of_reclaim (eq_ok_of_map_mk hr)
  | detach =>
    rw [carrier, carrier, carrier?_of_detach hs hc (eq_ok_of_map_mk hr)]
    exact .of_suffix List.nil_suffix
  | scratch operation =>
    obtain ⟨scratch, -, heq⟩ := map_eq_ok_iff.1 hr
    obtain ⟨rfl, -⟩ := Prod.mk.inj heq
    exact restocks_of_carrier? hc
      (carrier?_modifyCarrier_self (g := fun c => { c with scratch }) hc fun _ => rfl) (.refl _)
  | setMode mode =>
    obtain ⟨rfl, -⟩ := Prod.mk.inj (Except.ok.inj hr)
    exact restocks_of_carrier? hc
      (carrier?_modifyCarrier_self (g := fun c => { c with mode }) hc fun _ => rfl) (.refl _)

/-- Whatever is done parks a fiber in front of a thread's idle cache, or takes some from there. -/
theorem restocks_of_perform {operation : Operation} {e : Option Event} (hs : s.Sound)
    (hr : s.perform operation = .ok (s', e)) :
    Restocks (s.carrier t).idle (s'.carrier t).idle := by
  cases act_of_perform hr with
  | @comes thread name bounds outcome hattach _ =>
    obtain ⟨rfl, -⟩ | ⟨-, region, registry, statistics, slot, -, -, hs'⟩ := attach_cases hattach
    · exact .refl _
    let arrived : Carrier :=
      { token := s.nextToken, name, threadFiber := s.nextFiber, current := s.nextFiber, slot }
    have hcarrier : s'.carrier? t = if t = s.nextToken then some arrived else s.carrier? t :=
      hs' ▸ carrier?_append arrived hs.nextToken_not_given
    split_ifs at hcarrier
    · rw [carrier_eq hcarrier]
      exact .of_suffix List.nil_suffix
    · exact restocks_of_carrier?_eq hcarrier
  | @performs u c operation hc hperform =>
    by_cases ht : t = u
    · subst ht
      exact restocks_of_performOn hs hc hperform
    · exact restocks_of_carrier?_eq (carrier?_of_performOn_ne hs hc hperform ht)
  | @returns call hcall hreturn _ =>
    obtain ⟨s₁, hreclaim, hreap⟩ := bind_eq_ok_iff.1 hreturn
    have hreaped : s'.carrier? t = s₁.carrier? t := carrier?_of_reapAll hreap t
    by_cases ht : t = call.thread
    · have hreclaimed := restocks_of_reclaim hreclaim
      rwa [← ht, carrier, carrier, ← hreaped] at hreclaimed
    · exact restocks_of_carrier?_eq
        (hreaped.trans ((move_of_reclaim hs hreclaim).carrier?_of_ne ht))
  | host hcarriers _ _ => exact restocks_of_carrier?_eq (by rw [carrier?, hcarriers, carrier?])

theorem Sound.nodup_idle (h : s.Sound) (t : ThreadToken) : (s.carrier t).idle.Nodup := by
  cases hc : s.carrier? t with
  | none =>
    rw [carrier, hc]
    exact List.nodup_nil
  | some c =>
    rw [carrier_eq hc]
    exact (List.sublist_append_right _ _).nodup (h.carries t c hc).nodup

end FiberSystem

namespace Run

open FiberSystem

variable {rest : List Operation} {r r' : Run} {t : ThreadToken} {newer older : List FiberId}
  {id : FiberId}

/-- As long as a fiber stays parked, those behind it in the idle cache stay the same, and whatever
is parked goes before it. -/
theorem exists_idle_eq_of_after (h : r.system.Sound) (hr : r.after rest = .ok r')
    (hstays : r.Always (fun s => id ∈ (s.carrier t).idle) rest)
    (hidle : (r.system.carrier t).idle = newer ++ id :: older) :
    ∃ newer', (r'.system.carrier t).idle = newer' ++ id :: older := by
  induction rest generalizing r newer with
  | nil => exact ⟨newer, Except.ok.inj hr ▸ hidle⟩
  | cons operation rest ih =>
    obtain ⟨r₁, hperform, hr⟩ := after_cons_eq_ok_iff.1 hr
    obtain ⟨-, hstays₁⟩ := (always_cons_iff hperform).1 hstays
    obtain ⟨event, hperformed, -⟩ := perform_eq_ok_iff.1 hperform
    have h₁ := (h.perform hperformed).1
    obtain ⟨newer₁, hidle₁⟩ := (restocks_of_perform h hperformed).exists_eq hidle
      (h.nodup_idle t) (h₁.nodup_idle t) hstays₁.head
    exact ih h₁ hr hstays₁ hidle₁

end Run

end PooledFibers
