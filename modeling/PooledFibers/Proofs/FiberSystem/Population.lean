import Mathlib.Data.List.Basic
import Mathlib.Data.List.Nodup
import Mathlib.Tactic.Common
import PooledFibers.Proofs.FiberSystem.Registration

/-!
# The live fibers of a thread

A list of the live fibers of each thread can be kept up by the events of a run alone: a fiber that is
handed out is put in front, one that ends is taken out (`HasLive.step`). So whoever counts these
events knows how many fibers of the thread are registered.
-/

namespace PooledFibers

/-- The live fibers of a thread after an event. -/
def liveAfter (t : ThreadToken) (ids : List FiberId) : Event → List FiberId
  | .created u id => if u = t then id :: ids else ids
  | .terminated id => ids.erase id
  | .switched _ source _ .terminating _ => ids.erase source
  | _ => ids

namespace FiberSystem

variable {s s' : FiberSystem} {t u : ThreadToken} {c : Carrier} {id : FiberId} {ids : List FiberId}
  {e : Option Event}

/-- These are the live fibers of the thread. -/
structure HasLive (s : FiberSystem) (t : ThreadToken) (ids : List FiberId) : Prop where
  nodup : ids.Nodup
  mem_iff : ∀ id, id ∈ ids ↔ s.Live t id

theorem HasLive.congr (h : s.HasLive t ids) (hlive : ∀ id, s'.Live t id ↔ s.Live t id) :
    s'.HasLive t ids :=
  ⟨h.nodup, fun id => (h.mem_iff id).trans (hlive id).symm⟩

theorem HasLive.erase (h : s.HasLive t ids)
    (hlive : ∀ j, s'.Live t j ↔ j ≠ id ∧ s.Live t j) : s'.HasLive t (ids.erase id) :=
  ⟨h.nodup.erase id, fun j => by rw [h.nodup.mem_erase_iff, h.mem_iff, hlive]⟩

theorem HasLive.cons (h : s.HasLive t ids) (hid : s.registry.isRegistered id = false)
    (hlive : ∀ j, s'.Live t j ↔ j = id ∨ s.Live t j) : s'.HasLive t (id :: ids) := by
  refine ⟨List.nodup_cons.2 ⟨fun hmem => ?_, h.nodup⟩, fun j => ?_⟩
  · exact Bool.noConfusion (hid.symm.trans ((h.mem_iff id).1 hmem).1)
  · rw [List.mem_cons, h.mem_iff, hlive]

/-- A thread that is attached afterwards has the live fibers that the event leaves it. -/
theorem HasLive.step (h : s.HasLive u ids) (hs : s.Sound) (hstep : s.Step s' e)
    (hc : s'.carrier? u = some c) : s'.HasLive u (e.elim ids (liveAfter u ids)) := by
  cases hstep with
  | quiet hcalm hreg => exact h.congr fun j => hcalm.live_iff hs (hreg j)
  | attach ha => exact h.congr fun j => ha.live_iff hs
  | @create t c id hcalm _ hid howns hreg =>
    have hlive := fun j => hcalm.live_iff_of_created (u := u) (j := j) hs hid howns hreg
    simp only [Option.elim_some, liveAfter]
    split_ifs with ht
    · exact h.cons hid fun j => by simp [hlive, ht]
    · exact h.congr fun j => by simp [hlive, ht]
  | terminate _ he => exact h.erase fun j => he.live_iff hs
  | detach hcalm _ hreg hplaces =>
    have hu := (place_eq_of_detached hplaces hc).1
    exact h.congr fun j => hcalm.live_iff_of_detached hs hreg hu
  | switch _ _ hf _ _ hs₁ hx hkind =>
    have h₁ := h.congr fun j => hx.live_iff hf
    obtain ⟨rfl, rfl⟩ | ⟨rfl, he⟩ := hkind
    · exact h₁
    · exact h₁.erase fun j => he.live_iff hs₁

/-- What the thread itself calls its orphans are its live fibers. -/
theorem Sound.hasLive_orphans (h : s.Sound) (t : ThreadToken) :
    ∃ ids, s.orphans t = .ok ids ∧ s.HasLive t ids := by
  obtain ⟨ids, hids, hnodup⟩ := h.exists_orphans t
  exact ⟨ids, hids, hnodup, fun id => h.mem_orphans_iff hids⟩

theorem HasLive.length_eq {ids' : List FiberId} (h : s.HasLive t ids) (h' : s.HasLive t ids') :
    ids.length = ids'.length := by
  refine ((List.perm_ext_iff_of_nodup h.nodup h'.nodup).2 fun id => ?_).length_eq
  rw [h.mem_iff, h'.mem_iff]

end FiberSystem

end PooledFibers
