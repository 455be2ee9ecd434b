import Mathlib.Data.List.Basic
import Mathlib.Tactic.Common
import PooledFibers.FiberSystem.Switch
import PooledFibers.Proofs.Outcome
import PooledFibers.Proofs.Stack.Pool

/-!
# Looking things up in a fiber system

What the small changes of a system do to the lookup of a carrier or a fiber. `Same` relates systems
that differ in neither; nearly all bookkeeping is of this kind. Identities are given one after the
other, and none of those given comes again (`Identities.Given.not_coming`).
-/

namespace PooledFibers

namespace Identities

def Given (i : Identities) (id : FiberId) : Prop := ∃ n < i.given, id = i.identity n

/-- The identity has not been given yet. -/
def Coming (i : Identities) (id : FiberId) : Prop := ∃ n, i.given ≤ n ∧ id = i.identity n

/-- Some more of the same identities may have been given. -/
structure Precedes (i j : Identities) : Prop where
  identity : j.identity = i.identity
  given : i.given ≤ j.given

variable {i j k : Identities} {id : FiberId}

theorem Given.not_coming (h : i.Given id) : ¬i.Coming id := by
  obtain ⟨n, hn, rfl⟩ := h
  rintro ⟨m, hm, heq⟩
  exact absurd hn (Nat.not_lt.2 (i.distinct n m heq ▸ hm))

theorem coming_next (i : Identities) : i.Coming i.next := ⟨i.given, Nat.le_refl _, rfl⟩

theorem Given.ne_next (h : i.Given id) : id ≠ i.next := fun heq =>
  h.not_coming (heq ▸ i.coming_next)

theorem given_advance_next (i : Identities) : i.advance.Given i.next :=
  ⟨i.given, Nat.lt_succ_self _, rfl⟩

theorem Precedes.refl (i : Identities) : i.Precedes i := ⟨rfl, Nat.le_refl _⟩

theorem Precedes.trans (h : i.Precedes j) (h' : j.Precedes k) : i.Precedes k :=
  ⟨h'.identity.trans h.identity, Nat.le_trans h.given h'.given⟩

theorem precedes_advance (i : Identities) : i.Precedes i.advance := ⟨rfl, Nat.le_succ _⟩

theorem Given.mono (h : i.Given id) (hij : i.Precedes j) : j.Given id := by
  obtain ⟨n, hn, rfl⟩ := h
  exact ⟨n, Nat.lt_of_lt_of_le hn hij.given, by rw [hij.identity]⟩

theorem Coming.mono (h : j.Coming id) (hij : i.Precedes j) : i.Coming id := by
  obtain ⟨n, hn, rfl⟩ := h
  exact ⟨n, Nat.le_trans hij.given hn, by rw [hij.identity]⟩

end Identities

theorem Fiber.keeps_prime (m : Machine) (base : Nat) : m.Keeps (prime m base) :=
  Machine.keeps_writeAll (primedResume base) primedWords

namespace FiberSystem

variable {s s' s'' : FiberSystem} {t u : ThreadToken} {c : Carrier} {id : FiberId} {f : Fiber}

section Carriers

theorem carrier_eq (h : s.carrier? t = some c) : s.carrier t = c := by
  simp [carrier, h]

theorem carrier?_modifyCarrier {g : Carrier → Carrier} (hg : ∀ c, (g c).token = c.token) :
    (s.modifyCarrier t g).carrier? u = if u = t then (s.carrier? u).map g else s.carrier? u := by
  simp only [carrier?, modifyCarrier]
  induction s.carriers with
  | nil => simp
  | cons c cs ih =>
    rw [List.map_cons, List.find?_cons, List.find?_cons]
    have htoken : (if c.token = t then g c else c).token = c.token := by
      split_ifs
      · exact hg c
      · rfl
    rw [htoken]
    by_cases hu : c.token = u
    · subst hu
      by_cases ht : c.token = t <;> simp [ht]
    · simpa [hu] using ih

theorem carrier?_append (carrier : Carrier) (ht : s.carrier? carrier.token = none) :
    { s with carriers := s.carriers ++ [carrier] }.carrier? u
      = if u = carrier.token then some carrier else s.carrier? u := by
  simp only [carrier?, List.find?_append] at ht ⊢
  by_cases hu : u = carrier.token
  · subst hu
    simp [ht]
  · simp [hu, Ne.symm hu]

theorem carrier?_filter :
    { s with carriers := s.carriers.filter fun c => c.token ≠ t }.carrier? u
      = if u = t then none else s.carrier? u := by
  simp only [carrier?, List.find?_filter]
  split_ifs with hu
  · simp [hu]
  · congr 1
    funext c
    by_cases hc : c.token = u <;> simp [hc, hu]

theorem mem_carriers (h : s.carrier? t = some c) : c ∈ s.carriers := List.mem_of_find?_eq_some h

theorem carrier?_of_pending (hpending : (s.carrier t).pending = some id) :
    ∃ c, s.carrier? t = some c ∧ c.pending = some id := by
  cases hc : s.carrier? t with
  | none => simp [carrier, hc, default] at hpending
  | some c => exact ⟨c, rfl, carrier_eq hc ▸ hpending⟩

end Carriers

section Fibers

theorem fiber_eq (h : s.fibers.get? id = some f) : s.fiber id = f := by
  simp [fiber, h]

end Fibers

section Same

/-- The systems differ neither in their fibers nor in where these are. -/
structure SamePlaces (s s' : FiberSystem) : Prop where
  settings : s'.settings = s.settings
  registry : s'.registry = s.registry
  fibers : s'.fibers = s.fibers
  identities : s'.identities = s.identities
  carriers : s'.carriers = s.carriers
  tokensGiven : s'.tokensGiven = s.tokensGiven

/-- Nor do they differ in what is leased. -/
structure Same (s s' : FiberSystem) : Prop extends s.SamePlaces s' where
  pool : ∃ machine, s.machine.Keeps machine ∧ s'.pool = { s.pool with machine }
  leases : s'.leases = s.leases

theorem SamePlaces.carrier? (h : s.SamePlaces s') (t : ThreadToken) :
    s'.carrier? t = s.carrier? t := by
  simp only [FiberSystem.carrier?, h.carriers]

theorem Same.refl (s : FiberSystem) : s.Same s :=
  ⟨⟨rfl, rfl, rfl, rfl, rfl, rfl⟩, ⟨s.machine, .refl _, rfl⟩, rfl⟩

theorem Same.trans (h : s.Same s') (h' : s'.Same s'') : s.Same s'' := by
  obtain ⟨m, hm, hp⟩ := h.pool
  obtain ⟨m', hm', hp'⟩ := h'.pool
  refine ⟨⟨h'.settings.trans h.settings, h'.registry.trans h.registry, h'.fibers.trans h.fibers,
    h'.identities.trans h.identities, h'.carriers.trans h.carriers,
    h'.tokensGiven.trans h.tokensGiven⟩, ⟨m', ?_, ?_⟩, h'.leases.trans h.leases⟩
  · rw [machine, hp] at hm'
    exact hm.trans hm'
  · rw [hp', hp]

theorem same_withMachine {machine : Machine} (h : s.machine.Keeps machine) :
    s.Same (s.withMachine machine) :=
  ⟨⟨rfl, rfl, rfl, rfl, rfl, rfl⟩, ⟨machine, h, rfl⟩, rfl⟩

theorem same_notice (s : FiberSystem) (n : Notice) : s.Same (s.notice n) :=
  same_withMachine (Machine.keeps_notice n)

theorem same_record (s : FiberSystem) (t : ThreadToken) (g : Statistics → Nat → Statistics) :
    s.Same (s.record t g) := by
  simp only [record]
  split
  · exact ⟨⟨rfl, rfl, rfl, rfl, rfl, rfl⟩, ⟨s.machine, .refl _, rfl⟩, rfl⟩
  · exact .refl s

theorem same_held (s : FiberSystem) (held : List FiberId) : s.Same { s with held } :=
  ⟨⟨rfl, rfl, rfl, rfl, rfl, rfl⟩, ⟨s.machine, .refl _, rfl⟩, rfl⟩

theorem same_calls (s : FiberSystem) (calls : List SwitchCall) : s.Same { s with calls } :=
  ⟨⟨rfl, rfl, rfl, rfl, rfl, rfl⟩, ⟨s.machine, .refl _, rfl⟩, rfl⟩

end Same

end FiberSystem

end PooledFibers
