import Mathlib.Data.List.Basic
import Mathlib.Tactic.Common
import PooledFibers.Proofs.FiberSystem.Placement

/-!
# Upkeep

Most of what the operations do is upkeep: ended fibers are parked, woken or freed, new ones are
made, books are kept. `Upkeep` lists these small changes and allows any number of them. None touches
the registry, the current fibers or a registered fiber; what an operation does besides is named by
the `_cases` lemmas.
-/

namespace PooledFibers

/-- A carrier without the fibers that it keeps though they have ended. -/
def Carrier.seat (c : Carrier) : Carrier := { c with idle := [], pending := none }

theorem Carrier.of_seat_eq {c c' : Carrier} (h : c.seat = c'.seat) :
    c.token = c'.token ∧ c.threadFiber = c'.threadFiber ∧ c.current = c'.current
      ∧ c.scratch = c'.scratch := by
  simp only [seat, mk.injEq] at h
  tauto

/-- A heap fiber as it is when its stack has been primed. -/
def Fiber.IsFresh (f : Fiber) : Prop :=
  f.isThreadFiber = false ∧ f.state = .onStack ∧ f.bookmark.snapshot? = none

namespace FiberSystem

open Outcome

/-- Changes that leave the registry, the current fibers and the registered fibers alone. -/
inductive Upkeep : FiberSystem → FiberSystem → Prop
  | same {s s'} (h : s.Same s') : Upkeep s s'
  | reap {s s' id} (h : s.reap id = .ok s') : Upkeep s s'
  | park {s t id} (h : s.Loose t id) :
    Upkeep s (s.modifyCarrier t fun c => { c with idle := id :: c.idle })
  /-- The fiber waits in the pending slot; one that waited there is let go of. -/
  | await {s t id} (h : s.Loose t id) :
    Upkeep s (s.modifyCarrier t fun c => { c with pending := some id })
  /-- A carrier keeps fewer ended fibers. -/
  | ease {s t} {g : Carrier → Carrier} (hg : ∀ c, (g c).seat = c.seat)
    (h : ∀ c, s.carrier? t = some c → (g c).ended.Sublist c.ended) : Upkeep s (s.modifyCarrier t g)
  | renew {s t id} (h : s.Loose t id) : Upkeep s (s.modifyFiber id Fiber.renewed)
  | make {s : FiberSystem} {t c name lease verified pool} (hc : s.carrier? t = some c)
    (h : s.pool.acquire = .ok (.ok lease, pool)) :
    Upkeep s ({ s with pool }.addFiber (.ofLease s.nextFiber t name lease verified))
  | makeNone {s : FiberSystem} {failure pool} (h : s.pool.acquire = .ok (.error failure, pool)) :
    Upkeep s { s with pool }
  | lease {s s' outcome} (h : s.lease = .ok (outcome, s')) : Upkeep s s'
  | unlease {s s' lease} (hl : lease ∈ s.leases) (h : s.unlease lease = .ok s') : Upkeep s s'
  | trans {s s' s''} (h : Upkeep s s') (h' : Upkeep s' s'') : Upkeep s s''

variable {s s' s'' : FiberSystem} {t u : ThreadToken} {c : Carrier} {id : FiberId}

theorem Upkeep.refl (s : FiberSystem) : s.Upkeep s := .same (.refl s)

theorem samePlaces_of_lease {outcome : Except Failure Lease}
    (h : s.lease = .ok (outcome, s')) : s.SamePlaces s' := by
  obtain ⟨⟨_ | lease, pool⟩, -, h⟩ := bind_eq_ok_iff.1 h <;>
    simp only [pure_eq_ok, Except.ok.injEq, Prod.mk.injEq] at h <;>
    exact h.2 ▸ ⟨rfl, rfl, rfl, rfl, rfl, rfl⟩

theorem samePlaces_of_unlease {lease : Lease} (h : s.unlease lease = .ok s') :
    s.SamePlaces s' := by
  obtain ⟨pool, -, h⟩ := bind_eq_ok_iff.1 h
  simp only [pure_eq_ok, Except.ok.injEq] at h
  exact h ▸ ⟨rfl, rfl, rfl, rfl, rfl, rfl⟩

section Invariants

theorem Upkeep.sound (hu : s.Upkeep s') (h : s.Sound) : s'.Sound := by
  induction hu with
  | same hs => exact h.same hs.toSamePlaces
  | reap hr => exact h.reap hr
  | park hid =>
    refine h.modifyCarrier (fun _ => ⟨rfl, rfl⟩) fun c hc => ?_
    exact (h.carries _ c hc).keep hid hc rfl rfl (List.Sublist.refl _) List.perm_middle
  | await hid =>
    refine h.modifyCarrier (fun _ => ⟨rfl, rfl⟩) fun c hc => ?_
    exact (h.carries _ c hc).keep hid hc rfl rfl (List.sublist_append_right _ _) (.refl _)
  | ease hg hsub =>
    have hseat := fun c => Carrier.of_seat_eq (hg c)
    refine h.modifyCarrier (fun c => ⟨(hseat c).1, (hseat c).2.1⟩) fun c hc => ?_
    exact (h.carries _ c hc).ease (hseat c).2.1 (hseat c).2.2.1 (hsub c hc)
  | renew hid => exact h.modifyFiber (g := Fiber.renewed) (fun _ => ⟨rfl, rfl⟩) _
  | @make s t c name lease verified pool hc hacquire =>
    have hpool : { s with pool }.Sound := h.same ⟨rfl, rfl, rfl, rfl, rfl, rfl⟩
    exact hpool.addFiber rfl
  | makeNone hacquire => exact h.same ⟨rfl, rfl, rfl, rfl, rfl, rfl⟩
  | lease hl => exact h.same (samePlaces_of_lease hl)
  | unlease _ hl => exact h.same (samePlaces_of_unlease hl)
  | trans _ _ ih ih' => exact ih' (ih h)

/-- What upkeep leaves alone in the system itself. -/
theorem Upkeep.frame (hu : s.Upkeep s') :
    s'.settings = s.settings ∧ s'.registry = s.registry ∧ s'.tokensGiven = s.tokensGiven := by
  have hsame : ∀ {s s' : FiberSystem}, s.SamePlaces s' →
      s'.settings = s.settings ∧ s'.registry = s.registry ∧ s'.tokensGiven = s.tokensGiven :=
    fun hs => ⟨hs.settings, hs.registry, hs.tokensGiven⟩
  induction hu with
  | same hs => exact hsame hs.toSamePlaces
  | reap hr =>
    obtain rfl | ⟨-, _, _, -, -, -, rfl⟩ := reap_cases hr <;> exact ⟨rfl, rfl, rfl⟩
  | lease hl => exact hsame (samePlaces_of_lease hl)
  | unlease _ hl => exact hsame (samePlaces_of_unlease hl)
  | trans _ _ ih ih' =>
    exact ⟨ih'.1.trans ih.1, ih'.2.1.trans ih.2.1, ih'.2.2.trans ih.2.2⟩
  | _ => exact ⟨rfl, rfl, rfl⟩

theorem Upkeep.settings (hu : s.Upkeep s') : s'.settings = s.settings := hu.frame.1

theorem Upkeep.registry (hu : s.Upkeep s') : s'.registry = s.registry := hu.frame.2.1

theorem Upkeep.tokensGiven (hu : s.Upkeep s') : s'.tokensGiven = s.tokensGiven := hu.frame.2.2

/-- Each carrier is as it was but for the ended fibers that it keeps. -/
theorem Upkeep.seats (hu : s.Upkeep s') (u : ThreadToken) :
    (s'.carrier? u).map Carrier.seat = (s.carrier? u).map Carrier.seat := by
  have hmodify : ∀ (s : FiberSystem) t (g : Carrier → Carrier), (∀ c, (g c).seat = c.seat) →
      ((s.modifyCarrier t g).carrier? u).map Carrier.seat
        = (s.carrier? u).map Carrier.seat := by
    intro s t g hg
    rw [carrier?_modifyCarrier fun c => (Carrier.of_seat_eq (hg c)).1]
    split_ifs
    · cases s.carrier? u <;> simp [hg]
    · rfl
  induction hu with
  | same hs => rw [hs.carrier?]
  | reap hr => obtain rfl | ⟨-, _, _, -, -, -, rfl⟩ := reap_cases hr <;> rfl
  | park _ => exact hmodify _ _ _ fun _ => rfl
  | await _ => exact hmodify _ _ _ fun _ => rfl
  | ease hg _ => exact hmodify _ _ _ hg
  | lease hl => rw [(samePlaces_of_lease hl).carrier?]
  | unlease _ hl => rw [(samePlaces_of_unlease hl).carrier?]
  | trans _ _ ih ih' => exact ih'.trans ih
  | _ => rfl

theorem Upkeep.exists_carrier (hu : s.Upkeep s') (hc : s.carrier? u = some c) :
    ∃ c', s'.carrier? u = some c' ∧ c'.seat = c.seat := by
  have hseat := hu.seats u
  rwa [hc, Option.map_some, Option.map_eq_some_iff] at hseat

theorem Upkeep.get?_of_registered (hu : s.Upkeep s') (h : s.Sound)
    (hid : s.registry.isRegistered id = true) : s'.fibers.get? id = s.fibers.get? id := by
  induction hu with
  | same hs => rw [hs.fibers]
  | reap hr =>
    obtain rfl | ⟨href, _, _, -, -, -, rfl⟩ := reap_cases hr
    · rfl
    · have hne := (unregistered_of_not_isReferenced href).1
      simp only [Table.get?_erase]
      rw [if_neg fun heq => by simp [heq, hne] at hid]
  | renew hloose =>
    have hne := hloose.unregistered
    simp only [modifyFiber, Table.get?_modify]
    rw [if_neg fun heq => by simp [heq, hne] at hid]
  | make hc hacquire =>
    obtain ⟨t, b, c, ⟨f, hf, -⟩, -⟩ := h.registered id hid
    simp only [addFiber, Table.get?_insert]
    rw [if_neg]
    rintro rfl
    exact Option.some_ne_none f (hf.symm.trans h.nextFiber_not_made)
  | lease hl => rw [(samePlaces_of_lease hl).fibers]
  | unlease _ hl => rw [(samePlaces_of_unlease hl).fibers]
  | trans hu hu' ih ih' =>
    rw [ih' (hu.sound h) (hu.registry ▸ hid), ih h hid]
  | _ => rfl

end Invariants

/-- A fiber is as it was, or has been primed. -/
theorem Upkeep.fiber_cases {f : Fiber} (hu : s.Upkeep s') (hf : s'.fibers.get? id = some f) :
    s.fibers.get? id = some f ∨ f.IsFresh := by
  induction hu with
  | same hs => exact .inl (hs.fibers ▸ hf)
  | reap hr =>
    obtain rfl | ⟨-, _, _, -, -, -, rfl⟩ := reap_cases hr
    · exact .inl hf
    · simp only [Table.get?_erase] at hf
      split_ifs at hf
      exact .inl hf
  | renew hloose =>
    simp only [modifyFiber, Table.get?_modify] at hf
    split_ifs at hf with heq
    · obtain ⟨f₀, hf₀, rfl⟩ := Option.map_eq_some_iff.1 hf
      obtain ⟨f₁, hf₁, -, hheap⟩ := hloose.owns
      rw [heq] at hf₀
      obtain rfl : f₀ = f₁ := Option.some.inj (hf₀.symm.trans hf₁)
      refine .inr ⟨hheap, rfl, ?_⟩
      simp only [Fiber.renewed]
      split_ifs <;> rfl
    · exact .inl hf
  | @make s t c name lease verified pool hc hacquire =>
    simp only [addFiber, Table.get?_insert] at hf
    split_ifs at hf
    · obtain rfl := Option.some.inj hf
      refine .inr ⟨rfl, rfl, ?_⟩
      cases verified <;> rfl
    · exact .inl hf
  | lease hl => exact .inl ((samePlaces_of_lease hl).fibers ▸ hf)
  | unlease _ hl => exact .inl ((samePlaces_of_unlease hl).fibers ▸ hf)
  | trans _ _ ih ih' => exact (ih' hf).elim ih .inr
  | _ => exact .inl hf

end FiberSystem

end PooledFibers
