import Mathlib.Data.List.Basic
import Mathlib.Order.MinMax
import Mathlib.Tactic.Common
import PooledFibers.Proofs.FiberSystem.Moves
import PooledFibers.Proofs.FiberSystem.Step

/-!
# Tidy systems

In every state of a run a heap fiber that has a continuation is registered, and no idle cache holds
more than the settings allow (`Tidy`). An ended fiber is therefore in one place at most, and nothing
of what it ran is left in the idle cache (`Kempt`).
-/

namespace PooledFibers

namespace FiberSystem

/-- The registry is sound, fibers outside it have no continuation, and no idle cache is overfull. -/
structure Tidy (s : FiberSystem) : Prop where
  registry : s.registry.Sound
  plain : ∀ id f, s.fibers.get? id = some f → f.isThreadFiber = false → f.continuation ≠ none →
    s.registry.isRegistered id = true
  room : ∀ t c, s.carrier? t = some c → c.idle.length ≤ s.settings.idleCacheSize

/-- Where the ended fibers of the carriers are. -/
structure Kempt (s : FiberSystem) (room : Nat) : Prop where
  /-- A heap fiber is in one place at most. -/
  once : ∀ t c id, s.carrier? t = some c → s.Owns t false id →
    ¬(s.registry.isRegistered id = true ∧ id ∈ c.idle)
      ∧ ¬(s.registry.isRegistered id = true ∧ c.pending = some id)
      ∧ ¬(id ∈ c.idle ∧ c.pending = some id)
  nodup : ∀ t c, s.carrier? t = some c → c.idle.Nodup
  length_le : ∀ t c, s.carrier? t = some c → c.idle.length ≤ room
  idle : ∀ t c, s.carrier? t = some c → ∀ id ∈ c.idle, s.registry.isRegistered id = false
    ∧ ∃ f, s.fibers.get? id = some f ∧ f.owner = t ∧ f.isThreadFiber = false
      ∧ f.continuation = none

variable {s s' : FiberSystem} {t : ThreadToken} {id : FiberId}

section Tidy

theorem Tidy.same (h : s.Tidy) (hs : s.SamePlaces s') : s'.Tidy where
  registry := hs.registry ▸ h.registry
  plain id f := by simpa only [hs.fibers, hs.registry] using h.plain id f
  room t c := by simpa only [hs.carrier?, hs.settings] using h.room t c

theorem Tidy.modifyFiber (h : s.Tidy) {g : Fiber → Fiber}
    (hg : ∀ f, (g f).stack = f.stack ∧ (g f).continuation = f.continuation) :
    (s.modifyFiber id g).Tidy := by
  refine ⟨h.registry, fun j f hf hheap hcont => ?_, h.room⟩
  simp only [FiberSystem.modifyFiber, Table.get?_modify] at hf
  split_ifs at hf
  · obtain ⟨f₀, hf₀, rfl⟩ := Option.map_eq_some_iff.1 hf
    rw [Fiber.isThreadFiber, Fiber.lease?, (hg f₀).1] at hheap
    exact h.plain j f₀ hf₀ hheap ((hg f₀).2 ▸ hcont)
  · exact h.plain j f hf hheap hcont

theorem Tidy.reap (h : s.Tidy) (hr : s.reap id = .ok s') : s'.Tidy := by
  obtain rfl | ⟨-, _, _, -, -, -, rfl⟩ := reap_cases hr
  · exact h
  · refine ⟨h.registry, fun j f hf hheap hcont => ?_, h.room⟩
    simp only [Table.get?_erase] at hf
    split_ifs at hf
    exact h.plain j f hf hheap hcont

/-- A fiber that gets a continuation is registered with it. -/
theorem Tidy.enroll {continuation : Option ContinuationId} (h : s.Tidy)
    (hr : s.enroll id continuation = .ok s') : s'.Tidy := by
  obtain ⟨-, registry, rfl, hregistry, hregistered⟩ := register_cases
    (s := s.modifyFiber id fun f => { f with continuation }) h.registry hr
  refine ⟨hregistry, fun j f hf hheap hcont => ?_, h.room⟩
  replace hf := (Table.get?_modify _ _ _ _).symm.trans hf
  rw [hregistered]
  split_ifs at hf with hj
  · simp [hj]
  · exact Bool.or_eq_true_iff.2 (.inr (h.plain j f hf hheap hcont))

/-- A fiber that leaves the registry loses its continuation. -/
theorem Tidy.withdraw (h : s.Tidy) (hr : s.withdraw id = .ok s') : s'.Tidy := by
  obtain ⟨-, registry, rfl, hregistry, hregistered⟩ := unregister_cases
    (s := s.modifyFiber id fun f => { f with continuation := none }) h.registry hr
  refine ⟨hregistry, fun j f hf hheap hcont => ?_, h.room⟩
  replace hf := (Table.get?_modify _ _ _ _).symm.trans hf
  rw [hregistered]
  split_ifs at hf with hj
  · obtain ⟨f₀, -, rfl⟩ := Option.map_eq_some_iff.1 hf
    exact absurd rfl hcont
  · exact Bool.and_eq_true_iff.2 ⟨by simp [hj], h.plain j f hf hheap hcont⟩

theorem Tidy.unregister (h : s.Tidy) (howns : s.Owns t true id)
    (hr : s.unregister id = .ok s') : s'.Tidy := by
  obtain ⟨-, registry, rfl, hregistry, hregistered⟩ := unregister_cases h.registry hr
  refine ⟨hregistry, fun j f hf hheap hcont => ?_, h.room⟩
  have hne : j ≠ id := by
    rintro rfl
    obtain ⟨f', hf', -, hthread⟩ := howns
    obtain rfl := Option.some.inj (hf.symm.trans hf')
    exact Bool.noConfusion (hheap.symm.trans hthread)
  simpa [hregistered, hne] using h.plain j f hf hheap hcont

theorem Tidy.move (h : s.Tidy) (hm : s.Move t s') : s'.Tidy := by
  induction hm with
  | tally s _ => exact h.same (same_record s t _).toSamePlaces
  | @carrier s g hg hroom =>
    refine ⟨h.registry, h.plain, fun u c' hc' => ?_⟩
    rw [carrier?_modifyCarrier fun c => (hg c).1] at hc'
    split_ifs at hc' with hu
    · subst hu
      obtain ⟨c, hc, rfl⟩ := Option.map_eq_some_iff.1 hc'
      exact (hroom c hc).trans (max_le (h.room u c hc) (le_refl _))
    · exact h.room u c' hc'
  | fiber _ hg => exact h.modifyFiber fun f => (hg f).2
  | enroll _ hr => exact h.enroll hr
  | withdraw _ hr => exact h.withdraw hr
  | unregister howns hr => exact h.unregister howns hr
  | reap _ hr => exact h.reap hr
  | renew _ hr =>
    rw [(renew_cases hr).2]
    exact (h.same (same_withMachine (Machine.keeps_writeAll _ _)).toSamePlaces).modifyFiber
      fun _ => ⟨rfl, rfl⟩
  | make _ _ =>
    refine ⟨h.registry, fun j f hf hheap hcont => ?_, h.room⟩
    simp only [addFiber, Table.get?_insert] at hf
    split_ifs at hf
    · obtain rfl := Option.some.inj hf
      exact absurd rfl hcont
    · exact h.plain j f hf hheap hcont
  | trans _ _ ih ih' => exact ih' (ih h)
  | _ => exact ⟨h.registry, h.plain, h.room⟩

end Tidy

section TidyRuns

theorem Tidy.attach {thread : Nat} {name : String} {bounds : Except IoError StackBounds}
    {outcome : Except Failure ThreadToken} (h : s.Tidy) (hs : s.Sound)
    (hr : s.attach thread name bounds = .ok (outcome, s')) : s'.Tidy := by
  obtain ⟨rfl, -⟩ | ⟨-, region, registry, statistics, slot, hinsert, -, rfl⟩ := attach_cases hr
  · exact h
  obtain ⟨hregistry, -, hregistered⟩ := h.registry.insert hinsert
  refine ⟨hregistry, fun j f hf hheap hcont => ?_, fun u c hc => ?_⟩
  · simp only [Table.get?_insert] at hf
    split_ifs at hf
    · obtain rfl := Option.some.inj hf
      exact absurd rfl hcont
    · simp [hregistered, h.plain j f hf hheap hcont]
  · replace hc := (carrier?_append (s := s) (u := u)
      { token := s.nextToken, name, threadFiber := s.nextFiber, current := s.nextFiber, slot }
      hs.nextToken_not_given).symm.trans hc
    split_ifs at hc
    · obtain rfl := Option.some.inj hc
      exact Nat.zero_le _
    · exact h.room u c hc

/-- A system stays tidy whatever is done to it. -/
theorem lasting_tidy : Lasting Tidy where
  same := Tidy.same
  move := Tidy.move
  attach := Tidy.attach
  leave t h := by
    refine ⟨h.registry, h.plain, fun u c hc => ?_⟩
    rw [carrier?_filter] at hc
    split_ifs at hc
    exact h.room u c hc

theorem Tidy.kempt (h : s.Tidy) (hs : s.Sound) : s.Kempt s.settings.idleCacheSize := by
  have hended : ∀ {t c id}, s.carrier? t = some c → id ∈ c.ended →
      s.registry.isRegistered id = false := fun hc hid => ((hs.carries _ _ hc).ended _ hid).2
  have hidle : ∀ {c : Carrier} {id}, id ∈ c.idle → id ∈ c.ended := List.mem_append_right _
  have hpending : ∀ {c : Carrier} {id}, c.pending = some id → id ∈ c.ended := fun hid => by
    simp [Carrier.ended, hid]
  constructor
  case once =>
    intro t c id hc _
    refine ⟨?_, ?_, ?_⟩
    · rintro ⟨hreg, hid⟩
      exact Bool.noConfusion (hreg.symm.trans (hended hc (hidle hid)))
    · rintro ⟨hreg, hid⟩
      exact Bool.noConfusion (hreg.symm.trans (hended hc (hpending hid)))
    · rintro ⟨hid, hwait⟩
      have hnodup := (hs.carries t c hc).nodup
      simp only [Carrier.ended, hwait, Option.toList_some, List.singleton_append,
        List.nodup_cons] at hnodup
      exact hnodup.1 hid
  case nodup => exact fun t c hc => (List.sublist_append_right _ _).nodup (hs.carries t c hc).nodup
  case length_le => exact h.room
  case idle =>
    intro t c hc id hid
    have hreg := hended hc (hidle hid)
    obtain ⟨⟨f, hf, howner, hheap⟩, -⟩ := (hs.carries t c hc).ended id (hidle hid)
    refine ⟨hreg, f, hf, howner, hheap, ?_⟩
    by_contra hcont
    exact Bool.noConfusion (hreg.symm.trans (h.plain id f hf hheap hcont))

end TidyRuns

end FiberSystem

namespace Run

open FiberSystem

variable {host : Host} {settings : Settings} {provider : PageProvider} {policy : Option Bool}
  {s : FiberSystem} {operations : List Operation} {r : Run}

theorem kempt_of_after (hs : ofSettings host settings provider policy = .ok (.ok s))
    (hr : Run.after ⟨s, []⟩ operations = .ok r) :
    r.system.Sound ∧ r.system.Kempt settings.idleCacheSize := by
  have h : r.system.Sound ∧ r.system.Tidy ∧ r.system.settings = settings := by
    refine after_induction (P := fun r => r.system.Sound ∧ r.system.Tidy
      ∧ r.system.settings = settings) ?_ hr ?_
    · rintro r operation r' ⟨hsound, htidy, hsettings⟩ hr
      obtain ⟨event, hperform, -⟩ := perform_eq_ok_iff.1 hr
      obtain ⟨hsound', hstep⟩ := hsound.perform hperform
      exact ⟨hsound', lasting_tidy.perform htidy hsound hperform, hstep.settings.trans hsettings⟩
    · obtain ⟨hsound, hsettings, hcarriers, hfibers, -⟩ := sound_of_ofSettings hs
      refine ⟨hsound, ⟨hsound.registry, fun id f hf => ?_, fun t c hc => ?_⟩, hsettings⟩
      · simp [hfibers] at hf
      · simp [carrier?, hcarriers] at hc
  exact ⟨h.1, h.2.2 ▸ h.2.1.kempt h.1⟩

end Run

end PooledFibers
