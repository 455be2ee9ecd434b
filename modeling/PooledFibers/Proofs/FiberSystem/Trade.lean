import Mathlib.Data.List.Basic
import Mathlib.Data.List.Perm.Basic
import Mathlib.Tactic.Common
import PooledFibers.Proofs.FiberSystem.Ownership
import PooledFibers.Proofs.FiberSystem.Step

/-!
# What an operation trades

An operation may free some fibers, make one fiber or lease one stack, or take a lease back. `Trades`
accounts for the stacks: each one freed or returned is put on the free list, each one taken from the
free list goes to what is made. Every operation of a run is a trade and leaves the system kept
(`Kept.perform`).
-/

namespace PooledFibers

namespace FiberSystem

/-- The fibers `born` and the leases `given` are new, `freed` and `returned` are gone. -/
structure Trades (s s' : FiberSystem) (born freed : List (FiberId × Nat))
    (given returned : List Lease) : Prop where
  fibers : (born ++ s.holdings).Perm (freed ++ s'.holdings)
  leases : (given ++ s.leases).Perm (returned ++ s'.leases)
  /-- Some of what is new is not carved but taken from the free list. -/
  free : ∃ taken, taken.Sublist (born.map (·.2) ++ given.map (·.base))
    ∧ taken ++ s'.pool.free.toList
      = freed.map (·.2) ++ returned.map (·.base) ++ s.pool.free.toList
  freed_subset : freed ⊆ s.holdings
  returned_subset : returned ⊆ s.leases
  fresh : ∀ h ∈ born, h.1 = s.nextFiber
  one : born.length + given.length ≤ 1
  identities : s.identities.Precedes s'.identities

/-- The system is kept and its stacks are accounted for. -/
def KeptTrade (s s' : FiberSystem) : Prop :=
  s'.Kept [] ∧ ∃ born freed given returned, s.Trades s' born freed given returned

open Outcome

variable {s s' s₁ s₂ : FiberSystem} {t : ThreadToken} {c : Carrier} {id : FiberId} {f : Fiber}
  {born freed gone : List (FiberId × Nat)} {given returned : List Lease}
  {loose : List FiberId} {pool : Pool}

section Trades

theorem Freed.trades (h : s.Freed freed s') : s.Trades s' [] freed [] [] where
  fibers := h.holdings
  leases := h.leases ▸ .refl _
  free := ⟨[], List.nil_sublist _, by simp [h.free]⟩
  freed_subset := fun _ hmem => h.holdings.symm.subset (List.mem_append_left _ hmem)
  returned_subset := List.nil_subset _
  fresh := by simp
  one := Nat.zero_le _
  identities := h.identities ▸ .refl _

theorem Flow.keptTrade (h : s.Flow s' []) : s.KeptTrade s' := by
  obtain ⟨freed, hfreed⟩ := h.freed
  exact ⟨h.toKept, [], freed, [], [], hfreed.trades⟩

theorem trades_of_made (hfibers : s'.holdings = born ++ s.holdings)
    (hleases : s'.leases = given ++ s.leases)
    (hfree : ∃ taken, taken.Sublist (born.map (·.2) ++ given.map (·.base))
      ∧ taken ++ s'.pool.free.toList = s.pool.free.toList)
    (hfresh : ∀ h ∈ born, h.1 = s.nextFiber) (hone : born.length + given.length ≤ 1)
    (hmade : s.identities.Precedes s'.identities) : s.Trades s' born [] given [] where
  fibers := hfibers ▸ .refl _
  leases := hleases ▸ .refl _
  free := hfree
  freed_subset := List.nil_subset _
  returned_subset := List.nil_subset _
  fresh := hfresh
  one := hone
  identities := hmade

theorem Trades.same (h : s.Trades s₁ born freed given returned) (hs : s₁.SameHoldings s') :
    s.Trades s' born freed given returned :=
  { h with
    fibers := hs.holdings ▸ h.fibers
    leases := hs.leases ▸ h.leases
    free := by
      obtain ⟨machine, -, hpool⟩ := hs.pool
      rw [hpool]
      exact h.free
    identities := hs.identities ▸ h.identities }

/-- Fibers may be freed before something is made. -/
theorem Freed.then_trades (h : s.Freed freed s₁) (h' : s₁.Trades s' born [] given []) :
    s.Trades s' born freed given [] where
  fibers := by
    have hborn := (h.holdings.append_left born).trans
      ((List.perm_append_comm_assoc born freed s₁.holdings).trans
        (h'.fibers.append_left freed))
    simpa using hborn
  leases := h.leases ▸ h'.leases
  free := by
    obtain ⟨taken, htaken, hfree⟩ := h'.free
    exact ⟨taken, htaken, by simpa [h.free] using hfree⟩
  freed_subset := fun _ hmem => h.holdings.symm.subset (List.mem_append_left _ hmem)
  returned_subset := List.nil_subset _
  fresh := by
    rw [nextFiber, ← h.identities]
    exact h'.fresh
  one := h'.one
  identities := h.identities ▸ h'.identities

end Trades

section Making

theorem not_mem_keys_of_get?_eq_none (h : s.fibers.get? id = none) : id ∉ s.fibers.keys := by
  rw [Table.mem_keys_iff]
  rintro ⟨f, hf⟩
  exact Option.some_ne_none f (hf.symm.trans h)

/-- A new heap fiber is a new holding. -/
theorem holdings_addFiber (hnew : s.fibers.get? f.id = none) : (s.addFiber f).holdings
    = if f.isThreadFiber then s.holdings else (f.id, f.region.base) :: s.holdings := by
  have herase : (s.fibers.erase f.id).entries = s.fibers.entries := by
    refine List.filter_eq_self.2 fun e he => ?_
    have hne : e.1 ≠ f.id := fun heq =>
      not_mem_keys_of_get?_eq_none hnew (List.mem_map.2 ⟨e, he, heq⟩)
    simpa using hne
  simp only [holdings, addFiber, Table.insert, herase, List.filter_cons]
  cases f.isThreadFiber <;> simp

/-- A fiber that has just been made is loose. -/
theorem Kept.addFiber (h : s.Kept loose) (haccounts : pool.Accounts
      ((s.addFiber f).holdings.map (·.2) ++ s.leases.map (·.base))) :
    ({ s with pool }.addFiber f).Kept (f.id :: loose) := by
  have hkeys : ({ s with pool }.addFiber f).fibers.keys
      = f.id :: s.fibers.keys.filter (· ≠ f.id) := Table.keys_insert
  have hmem : ∀ j, j ∈ s.fibers.keys → j ∈ ({ s with pool }.addFiber f).fibers.keys := by
    intro j hj
    rw [hkeys]
    by_cases hne : j = f.id <;> simp [hne, hj]
  constructor
  case registry => exact h.registry
  case keys =>
    rw [hkeys]
    exact List.nodup_cons.2 ⟨by simp, h.keys.filter _⟩
  case tokens => exact h.tokens
  case accounts => exact haccounts
  case lent => exact fun j hj => hmem j (h.lent j hj)
  case tended =>
    intro j hj
    rw [hkeys] at hj
    rcases List.mem_cons.1 hj with rfl | hj
    · exact .inr List.mem_cons_self
    · exact (h.tended j (List.mem_filter.1 hj).1).imp_right (List.mem_cons_of_mem _)

theorem sameHoldings_of_acquire_error {failure : Failure}
    (h : s.pool.acquire = .ok (.error failure, pool)) : s.SameHoldings { s with pool } := by
  obtain ⟨_, _, _, -, houtcome, -⟩ | ⟨_, machine, -, hroom, -, rfl⟩ | ⟨_, _, _, -, -, houtcome, -⟩ :=
    Pool.acquire_cases h
  · simp at houtcome
  · exact ⟨rfl, rfl, ⟨machine, Pool.slabWithRoom_error hroom, rfl⟩, rfl, rfl⟩
  · simp at houtcome

/-- A fiber is made on a leased stack. -/
theorem Kept.makeFiber (hs : s.Sound) (h : s.Kept []) {made : Except Failure FiberId}
    (hr : s.makeFiber t = .ok (made, s')) :
    s'.Kept [] ∧ ∃ born, s.Trades s' born [] [] [] := by
  obtain ⟨⟨_ | lease, pool⟩, hacquire, hr⟩ := bind_eq_ok_iff.1 hr <;>
    simp only [pure_eq_ok, Except.ok.injEq, Prod.mk.injEq] at hr <;> obtain ⟨-, rfl⟩ := hr
  · have hsame := sameHoldings_of_acquire_error hacquire
    exact ⟨(h.flow.same hsame rfl rfl rfl rfl).toKept, [], hsame.freed.trades⟩
  set fiber := Fiber.ofLease s.nextFiber t (s.carrier t).name lease s.settings.verifyOnYield
  set primed := { pool with machine := Fiber.prime pool.machine lease.base }
  have hholdings : (s.addFiber fiber).holdings = (s.nextFiber, lease.base) :: s.holdings :=
    holdings_addFiber (f := fiber) hs.nextFiber_not_made
  have haccounts : primed.Accounts
      ((s.addFiber fiber).holdings.map (·.2) ++ s.leases.map (·.base)) := by
    rw [hholdings]
    exact (h.accounts.acquire hacquire).withMachine (Fiber.keeps_prime pool.machine lease.base)
  have hmem : s.nextFiber ∈ ({ s with pool := primed }.addFiber fiber).fibers.keys :=
    Table.mem_keys_iff.2 ⟨fiber, by simp [FiberSystem.addFiber, fiber, Fiber.ofLease]⟩
  have hheld := ((h.addFiber haccounts).flow.hold hmem).settle
    (.inr (.inl (.inl List.mem_cons_self)))
  refine ⟨(hheld.record t Statistics.recordCreated).toKept, [(s.nextFiber, lease.base)],
    Trades.same ?_ (same_record _ _ _).sameHoldings⟩
  have hfree := Pool.free_of_acquire hacquire
  exact trades_of_made hholdings rfl hfree (by simp) (Nat.le_refl 1) s.identities.precedes_advance

/-- A thread fiber holds no stack of the pool, and is registered. -/
theorem Kept.attach {thread : Nat} {name : String} {bounds : Except IoError StackBounds}
    {outcome : Except Failure ThreadToken} (hs : s.Sound) (h : s.Kept [])
    (hr : s.attach thread name bounds = .ok (outcome, s')) : s.KeptTrade s' := by
  obtain ⟨rfl, -⟩ | ⟨-, region, registry, statistics, slot, hinsert, -, hs'⟩ := attach_cases hr
  · exact h.flow.keptTrade
  obtain ⟨hregistry, -, hregistered⟩ := h.registry.insert hinsert
  set fiber := Fiber.ofThread s.nextFiber s.nextToken name region
  have hholdings : (s.addFiber fiber).holdings = s.holdings :=
    holdings_addFiber (f := fiber) hs.nextFiber_not_made
  have hadded : (s.addFiber fiber).Kept [s.nextFiber] := h.addFiber (hholdings ▸ h.accounts)
  have hsame : (s.addFiber fiber).SameHoldings s' := hs' ▸ sameHoldings_of_eq rfl rfl rfl rfl
  have hattached : (s.addFiber fiber).Flow s' [] := by
    subst hs'
    refine hadded.flow.change hsame hregistry ?_ (fun _ => .inl) ?_
    · have hnew : s.nextToken ∉ s.carriers.map (·.token) := by
        intro hmem
        obtain ⟨c, hc, heq⟩ := List.mem_map.1 hmem
        have hfound := carrier?_of_mem h.tokens hc
        simp [heq, hs.nextToken_not_given] at hfound
      rw [List.map_append]
      refine List.nodup_append.2 ⟨h.tokens, List.nodup_singleton _, fun t ht u hu heq => ?_⟩
      have hu : u = s.nextToken := List.mem_singleton.1 hu
      exact hnew (hu ▸ heq ▸ ht)
    · rintro j ((hreg | hlent | ⟨u, c, hc, href⟩) | hj)
      · exact .inl (.inl (by simp [hregistered, show s.registry.isRegistered j = true from hreg]))
      · exact .inl (.inr (.inl hlent))
      · refine .inl (.inr (.inr ⟨u, c, ?_, href⟩))
        refine (carrier?_append _ hs.nextToken_not_given).trans ?_
        rw [if_neg]
        · exact hc
        · rintro rfl
          exact Option.some_ne_none c (hc.symm.trans hs.nextToken_not_given)
      · exact .inl (.inl (by simp [hregistered, List.mem_singleton.1 hj]))
  refine ⟨hattached.toKept, [], [], [], [], Trades.same ?_ hsame⟩
  exact trades_of_made hholdings rfl ⟨[], .refl _, rfl⟩ (by simp) (Nat.zero_le 1)
    s.identities.precedes_advance

end Making

section Leasing

theorem Kept.lease {outcome : Except Failure Lease} (h : s.Kept [])
    (hr : s.lease = .ok (outcome, s')) : s.KeptTrade s' := by
  obtain ⟨⟨_ | lease, pool⟩, hacquire, hr⟩ := bind_eq_ok_iff.1 hr <;>
    simp only [pure_eq_ok, Except.ok.injEq, Prod.mk.injEq] at hr <;> obtain ⟨-, rfl⟩ := hr
  · exact (h.flow.same (sameHoldings_of_acquire_error hacquire) rfl rfl rfl rfl).keptTrade
  have haccounts : pool.Accounts (s.holdings.map (·.2) ++ (lease :: s.leases).map (·.base)) :=
    (h.accounts.acquire hacquire).perm (List.perm_append_comm_assoc _ _ _)
  have hfree := Pool.free_of_acquire hacquire
  refine ⟨⟨h.registry, h.keys, h.tokens, haccounts, h.lent, h.tended⟩, [], [], [lease], [], ?_⟩
  exact trades_of_made rfl rfl hfree (by simp) (Nat.le_refl 1) (.refl _)

theorem Kept.unlease {lease : Lease} (h : s.Kept []) (hl : lease ∈ s.leases)
    (hr : s.unlease lease = .ok s') : s.KeptTrade s' := by
  obtain ⟨pool, hrelease, hr⟩ := bind_eq_ok_iff.1 hr
  obtain rfl := Except.ok.inj hr
  have hperm := List.perm_cons_erase hl
  have haccounts : pool.Accounts
      (s.holdings.map (·.2) ++ (s.leases.erase lease).map (·.base)) := by
    have hbases := ((hperm.map (·.base)).append_left (s.holdings.map (·.2))).trans List.perm_middle
    simpa using (h.accounts.perm hbases).release List.mem_cons_self hrelease
  refine ⟨⟨h.registry, h.keys, h.tokens, haccounts, h.lent, h.tended⟩, [], [], [], [lease], ?_⟩
  constructor
  case fibers => exact .refl _
  case leases => exact hperm
  case free => exact ⟨[], .refl _, Pool.free_of_release hrelease⟩
  case freed_subset => exact List.nil_subset _
  case returned_subset => simpa using hl
  case fresh => simp
  case one => exact Nat.zero_le _
  case identities => exact .refl _

end Leasing

section Creating

/-- A pooled fiber that is asked for is woken or made. -/
theorem Flow.supply {made : Except Failure FiberId} (h : s.Flow s₁ []) (hs : s₁.Sound)
    (hc : s₁.carrier? t = some c) (hr : s₁.supply t = .ok (made, s')) : s.KeptTrade s' := by
  simp only [FiberSystem.supply, carrier_eq hc] at hr
  split at hr <;> rename_i hidle
  · obtain ⟨s₂, hwake, hr⟩ := bind_eq_ok_iff.1 hr
    simp only [pure_eq_ok, Except.ok.injEq, Prod.mk.injEq] at hr
    obtain ⟨-, rfl⟩ := hr
    exact (h.wakeIdle hs hc hidle hwake).keptTrade
  · obtain ⟨freed, hfreed⟩ := h.freed
    obtain ⟨hkept, born, htrades⟩ := h.toKept.makeFiber hs hr
    exact ⟨hkept, born, freed, [], [], hfreed.then_trades htrades⟩

theorem sameHoldings_of_enroll {continuation : Option ContinuationId}
    (hr : s.enroll id continuation = .ok s') : s.SameHoldings s' := by
  obtain ⟨registry, -, hr⟩ := bind_eq_ok_iff.1 hr
  have hmodified := sameHoldings_modifyFiber (s := s) (g := fun f => { f with continuation })
    (fun _ => rfl) id
  exact hmodified.trans (Except.ok.inj hr ▸ sameHoldings_of_eq rfl rfl rfl rfl)

theorem Kept.create {request : StackRequest} {continuation : Option ContinuationId}
    {outcome : Except Failure FiberId} (hs : s.Sound) (h : s.Kept [])
    (hc : s.carrier? t = some c) (hr : s.create t request continuation = .ok (outcome, s')) :
    s.KeptTrade s' := by
  cases request with
  | kernel =>
    simp only [FiberSystem.create] at hr
    split_ifs at hr
    simp only [pure_eq_ok, Except.ok.injEq, Prod.mk.injEq] at hr
    obtain ⟨-, f, hf, -⟩ := (hs.carries t c hc).current
    refine hr.2 ▸ (h.flow.hold ?_).keptTrade
    exact Table.mem_keys_iff.2 ⟨f, carrier_eq hc ▸ hf⟩
  | bytes size =>
    simp only [FiberSystem.create, pure_eq_ok, Except.ok.injEq, Prod.mk.injEq] at hr
    exact hr.2 ▸ h.flow.keptTrade
  | pooled =>
    obtain ⟨s₁, hreclaim, hr⟩ := bind_eq_ok_iff.1 hr
    obtain ⟨⟨made, s₂⟩, hsupply, hr⟩ := bind_eq_ok_iff.1 hr
    have hupkeep := upkeep_reclaim hs hreclaim
    obtain ⟨c₁, hc₁, -⟩ := hupkeep.exists_carrier hc
    obtain ⟨hkept, born, freed, given, returned, htrades⟩ :=
      (h.flow.reclaim hreclaim).supply (hupkeep.sound hs) hc₁ hsupply
    cases made with
    | error failure =>
      simp only [pure_eq_ok, Except.ok.injEq, Prod.mk.injEq] at hr
      exact hr.2 ▸ ⟨hkept, born, freed, given, returned, htrades⟩
    | ok id =>
      obtain ⟨s₃, henroll, hr⟩ := bind_eq_ok_iff.1 hr
      simp only [pure_eq_ok, Except.ok.injEq, Prod.mk.injEq] at hr
      obtain ⟨-, rfl⟩ := hr
      refine ⟨(hkept.flow.enroll henroll).toKept, born, freed, given, returned, ?_⟩
      exact htrades.same (sameHoldings_of_enroll henroll)

end Creating

section Perform

/-- A change of a carrier in what has nothing to do with fibers. -/
theorem Kept.modifyCarrier (h : s.Kept []) (hc : s.carrier? t = some c) {g : Carrier → Carrier}
    (hg : ∀ c, g c = { c with scratch := (g c).scratch, mode := (g c).mode }) :
    s.KeptTrade (s.modifyCarrier t g) := by
  refine (h.flow.modifyCarrier hc (fun c => by rw [hg c]) fun id hid => ?_).keptTrade
  rw [hg c]
  exact hid

theorem Kept.performOn {operation : ThreadOperation} {e : Option Event} (hs : s.Sound)
    (h : s.Kept []) (hc : s.carrier? t = some c)
    (hr : s.performOn t c operation = .ok (s', e)) : s.KeptTrade s' := by
  cases operation with
  | create request continuation =>
    obtain ⟨⟨outcome, s₁⟩, hcreate, heq⟩ := map_eq_ok_iff.1 hr
    obtain ⟨rfl, -⟩ := Prod.mk.inj heq
    exact h.create hs hc hcreate
  | terminate fiber => exact (h.flow.terminate hc (eq_ok_of_map_mk hr)).keptTrade
  | switch target kind => exact (h.flow.enter hs hc (eq_ok_of_map_mk hr)).keptTrade
  | reclaim => exact (h.flow.reclaim (eq_ok_of_map_mk hr)).keptTrade
  | detach => exact (h.flow.detach hc (eq_ok_of_map_mk hr)).keptTrade
  | scratch operation =>
    obtain ⟨scratch, -, heq⟩ := map_eq_ok_iff.1 hr
    obtain ⟨rfl, -⟩ := Prod.mk.inj heq
    exact h.modifyCarrier hc fun _ => rfl
  | setMode mode =>
    obtain ⟨rfl, -⟩ := Prod.mk.inj (Except.ok.inj hr)
    exact h.modifyCarrier hc fun _ => rfl

/-- No operation of a run forgets a fiber or loses count of a stack. -/
theorem Kept.perform {operation : Operation} {e : Option Event} (hs : s.Sound) (h : s.Kept [])
    (hr : s.perform operation = .ok (s', e)) : s.KeptTrade s' := by
  have hstays : s.KeptTrade s := h.flow.keptTrade
  cases performed_of_perform hr with
  | nothing => exact hstays
  | attach hattach => exact h.attach hs hattach
  | perform hc hperform => exact h.performOn hs hc hperform
  | returnFrom _ hreturn => exact (h.flow.returnFrom hreturn).keptTrade
  | hold hfiber =>
    refine (h.flow.hold ?_).keptTrade
    exact Table.mem_keys_iff.2 (Option.isSome_iff_exists.1 hfiber)
  | drop hdrop => exact ((h.flow.unhold _).reap hdrop).keptTrade
  | lease hlease => exact h.lease hlease
  | unlease hmem hunlease => exact h.unlease hmem hunlease
  | @saveResume fiber address =>
    exact (h.flow.modifyFiber (g := fun f => { f with resume := Fiber.resumeAt? address })
      (fun _ => rfl) fiber).keptTrade
  | write => exact (h.flow.withMachine (Machine.keeps_writeAll _ _)).keptTrade
  | @addContinuation continuation =>
    have hsame : s.SameHoldings (s.addContinuation continuation).2 :=
      sameHoldings_of_eq rfl rfl rfl rfl
    exact (h.flow.same hsame rfl rfl rfl rfl).keptTrade
  | @dropContinuation continuation =>
    have hsame : s.SameHoldings (s.dropContinuation continuation) :=
      sameHoldings_of_eq rfl rfl rfl rfl
    exact (h.flow.same hsame rfl rfl rfl rfl).keptTrade

end Perform

end FiberSystem

end PooledFibers
