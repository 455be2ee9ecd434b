import Mathlib.Data.List.Basic
import Mathlib.Data.List.Nodup
import Mathlib.Data.List.Perm.Basic
import Mathlib.Tactic.Common
import PooledFibers.Proofs.FiberSystem.Placement

/-!
# What the fibers hold

`FiberSystem.holdings` lists the heap fibers that exist with the bases of their stacks. A system is
`Kept` if the pool's books list these stacks and those leased to the host, and if something refers
to every fiber that exists; in the middle of an operation some fibers may be `loose` for a while.
`Flow` says that a kept system has come from another by small changes that make nothing: what a
fiber that is gone held is back on the free list. Freeing a loose fiber is such a change
(`Flow.reap`), and so is any that leaves the holdings alone (`Flow.change`).
-/

namespace PooledFibers

namespace Table

variable {κ α : Type} [DecidableEq κ] {t : Table κ α} {k j : κ} {a : α}

theorem get?_eq_some_iff (h : t.keys.Nodup) : t.get? k = some a ↔ (k, a) ∈ t.entries := by
  obtain ⟨entries⟩ := t
  simp only [keys, get?, Option.map_eq_some_iff] at h ⊢
  constructor
  · rintro ⟨⟨j, b⟩, hfind, rfl⟩
    obtain rfl : j = k := by simpa using List.find?_some hfind
    exact List.mem_of_find?_eq_some hfind
  · intro hmem
    obtain ⟨⟨j, b⟩, hfind⟩ := Option.isSome_iff_exists.1
      (List.find?_isSome (p := fun e => decide (e.1 = k)).2 ⟨_, hmem, by simp⟩)
    obtain rfl : j = k := by simpa using List.find?_some hfind
    have hsame := List.inj_on_of_nodup_map h (List.mem_of_find?_eq_some hfind) hmem rfl
    exact ⟨_, hfind, congrArg Prod.snd hsame⟩

theorem mem_keys_iff : k ∈ t.keys ↔ ∃ a, t.get? k = some a := by
  rw [← Option.isSome_iff_exists, get?, Option.isSome_map, List.find?_isSome, keys, List.mem_map]
  simp

theorem keys_modify (g : α → α) : (t.modify k g).keys = t.keys := by
  simp only [keys, modify, List.map_map]
  refine List.map_congr_left fun e _ => ?_
  simp only [Function.comp]
  split_ifs <;> rfl

theorem keys_erase : (t.erase k).keys = t.keys.filter (· ≠ k) := by
  simp [keys, erase, eraseIf, List.filter_map, Function.comp_def]

theorem keys_insert : (t.insert k a).keys = k :: t.keys.filter (· ≠ k) := by
  rw [← keys_erase]
  rfl

end Table

namespace FiberSystem

/-- The heap fibers that exist, with the bases of their stacks. -/
def holdings (s : FiberSystem) : List (FiberId × Nat) :=
  (s.fibers.entries.filter fun e => !e.2.isThreadFiber).map fun e => (e.1, e.2.region.base)

/-- The host holds the fiber, or has lent it to a switch that has not returned. -/
def Lends (s : FiberSystem) (id : FiberId) : Prop :=
  id ∈ s.held ∨ ∃ call ∈ s.calls, call.refersTo id = true

def Refers (s : FiberSystem) (id : FiberId) : Prop :=
  s.registry.isRegistered id = true ∨ s.Lends id
    ∨ ∃ t c, s.carrier? t = some c ∧ c.refersTo id = true

/-- The books are right, and something refers to every fiber that is not loose. -/
structure Kept (s : FiberSystem) (loose : List FiberId) : Prop where
  registry : s.registry.Sound
  keys : s.fibers.keys.Nodup
  tokens : (s.carriers.map (·.token)).Nodup
  accounts : s.pool.Accounts (s.holdings.map (·.2) ++ s.leases.map (·.base))
  lent : ∀ id, s.Lends id → id ∈ s.fibers.keys
  tended : ∀ id ∈ s.fibers.keys, s.Refers id ∨ id ∈ loose

/-- The fibers hold the same stacks and nothing else has been leased. -/
structure SameHoldings (s s' : FiberSystem) : Prop where
  keys : s'.fibers.keys = s.fibers.keys
  holdings : s'.holdings = s.holdings
  pool : ∃ machine, s.machine.Keeps machine ∧ s'.pool = { s.pool with machine }
  leases : s'.leases = s.leases
  identities : s'.identities = s.identities

/-- Some heap fibers are gone, the latest first, and their stacks are free. -/
structure Freed (s : FiberSystem) (gone : List (FiberId × Nat)) (s' : FiberSystem) : Prop where
  holdings : s.holdings.Perm (gone ++ s'.holdings)
  free : s'.pool.free.toList = gone.map (·.2) ++ s.pool.free.toList
  leases : s'.leases = s.leases
  identities : s'.identities = s.identities

/-- A kept system that has come from `s₀` by changes that make nothing. -/
structure Flow (s₀ s : FiberSystem) (loose : List FiberId) : Prop extends s.Kept loose where
  freed : ∃ gone, s₀.Freed gone s

open Outcome

variable {s₀ s s' s'' : FiberSystem} {t u : ThreadToken} {c : Carrier} {id j : FiberId}
  {loose loose' : List FiberId} {gone gone' : List (FiberId × Nat)} {base : Nat} {pool : Pool}

section Lookups

theorem mem_holdings_iff (h : s.fibers.keys.Nodup) : (id, base) ∈ s.holdings
    ↔ ∃ f, s.fibers.get? id = some f ∧ f.isThreadFiber = false ∧ f.region.base = base := by
  simp only [holdings, List.mem_map, List.mem_filter, Bool.not_eq_true', Prod.exists,
    Prod.mk.injEq, Table.get?_eq_some_iff h]
  constructor
  · rintro ⟨_, f, ⟨hf, hheap⟩, rfl, hbase⟩
    exact ⟨f, hf, hheap, hbase⟩
  · rintro ⟨f, hf, hheap, hbase⟩
    exact ⟨id, f, ⟨hf, hheap⟩, rfl, hbase⟩

theorem mem_holdings_of_leased (h : s.fibers.keys.Nodup) {f : Fiber} {lease : Lease}
    (hf : s.fibers.get? id = some f) (hstack : f.stack = .leased lease) :
    (id, lease.base) ∈ s.holdings := by
  refine (mem_holdings_iff h).2 ⟨f, hf, ?_, ?_⟩
  · simp [Fiber.isThreadFiber, Fiber.lease?, hstack]
  · simp [Fiber.region, hstack, Lease.base]

/-- The stack of a heap fiber is on the books of the pool. -/
theorem mem_leased_of_holdings (hid : (id, base) ∈ s.holdings) :
    base ∈ s.holdings.map (·.2) ++ s.leases.map (·.base) :=
  List.mem_append_left _ (List.mem_map.2 ⟨_, hid, rfl⟩)

theorem nodup_holdings (h : s.fibers.keys.Nodup) : (s.holdings.map (·.1)).Nodup := by
  rw [holdings, List.map_map]
  exact (List.filter_sublist.map Prod.fst).nodup h

theorem carrier?_of_mem (h : (s.carriers.map (·.token)).Nodup) (hc : c ∈ s.carriers) :
    s.carrier? c.token = some c := by
  obtain ⟨c', hfind⟩ := Option.isSome_iff_exists.1
    (List.find?_isSome (p := fun d : Carrier => decide (d.token = c.token)).2 ⟨c, hc, by simp⟩)
  have htoken : c'.token = c.token := by simpa using List.find?_some hfind
  rw [carrier?, hfind, List.inj_on_of_nodup_map h (List.mem_of_find?_eq_some hfind) hc htoken]

theorem refers_of_isReferenced (h : (s.carriers.map (·.token)).Nodup)
    (hid : s.isReferenced id = true) : s.Refers id := by
  simp only [isReferenced, Bool.or_eq_true, List.contains_iff_mem, List.any_eq_true] at hid
  obtain ((hreg | hheld) | ⟨c, hc, href⟩) | ⟨call, hcall, href⟩ := hid
  · exact .inl hreg
  · exact .inr (.inl (.inl hheld))
  · exact .inr (.inr ⟨c.token, c, carrier?_of_mem h hc, href⟩)
  · exact .inr (.inl (.inr ⟨call, hcall, href⟩))

theorem not_refers_of_not_isReferenced (hid : s.isReferenced id = false) : ¬s.Refers id := by
  simp only [isReferenced, Bool.or_eq_false_iff, List.any_eq_false, Bool.not_eq_true] at hid
  obtain ⟨⟨⟨hreg, hheld⟩, hcarriers⟩, hcalls⟩ := hid
  rintro (hid | (hid | ⟨call, hcall, hid⟩) | ⟨t, c, hc, hid⟩)
  · simp [hreg] at hid
  · simp [hid] at hheld
  · simp [hcalls call hcall] at hid
  · simp [hcarriers c (mem_carriers hc)] at hid

end Lookups

section Same

theorem SameHoldings.trans (h : s.SameHoldings s') (h' : s'.SameHoldings s'') :
    s.SameHoldings s'' := by
  obtain ⟨m, hm, hp⟩ := h.pool
  obtain ⟨m', hm', hp'⟩ := h'.pool
  refine ⟨h'.keys.trans h.keys, h'.holdings.trans h.holdings, ⟨m', ?_, ?_⟩,
    h'.leases.trans h.leases, h'.identities.trans h.identities⟩
  · rw [machine, hp] at hm'
    exact hm.trans hm'
  · rw [hp', hp]

theorem Same.sameHoldings (h : s.Same s') : s.SameHoldings s' where
  keys := by rw [h.fibers]
  holdings := by rw [holdings, h.fibers, holdings]
  pool := h.pool
  leases := h.leases
  identities := h.identities

theorem sameHoldings_of_eq (hfibers : s'.fibers = s.fibers) (hpool : s'.pool = s.pool)
    (hleases : s'.leases = s.leases) (hmade : s'.identities = s.identities) :
    s.SameHoldings s' where
  keys := by rw [hfibers]
  holdings := by rw [holdings, hfibers, holdings]
  pool := ⟨s.machine, .refl _, hpool⟩
  leases := hleases
  identities := hmade

theorem sameHoldings_modifyFiber {g : Fiber → Fiber} (hg : ∀ f, (g f).stack = f.stack)
    (id : FiberId) : s.SameHoldings (s.modifyFiber id g) where
  keys := Table.keys_modify g
  holdings := by
    have hheap : ∀ f, (g f).isThreadFiber = f.isThreadFiber := fun f => by
      rw [Fiber.isThreadFiber, Fiber.isThreadFiber, Fiber.lease?, Fiber.lease?, hg]
    have hregion : ∀ f, (g f).region = f.region := fun f => by
      rw [Fiber.region, Fiber.region, hg]
    simp only [FiberSystem.holdings, modifyFiber, Table.modify, List.filter_map, List.map_map]
    have hfilter : (fun e : FiberId × Fiber => !e.2.isThreadFiber)
        ∘ (fun e => if e.1 = id then (e.1, g e.2) else e) = fun e => !e.2.isThreadFiber := by
      funext e
      simp only [Function.comp]
      split_ifs
      · rw [hheap]
      · rfl
    rw [hfilter]
    refine List.map_congr_left fun e _ => ?_
    simp only [Function.comp]
    split_ifs
    · rw [hregion]
    · rfl
  pool := ⟨s.machine, .refl _, rfl⟩
  leases := rfl
  identities := rfl

end Same

section Flow

theorem Freed.trans (h : s.Freed gone s') (h' : s'.Freed gone' s'') :
    s.Freed (gone' ++ gone) s'' where
  holdings := by
    refine (h.holdings.trans (h'.holdings.append_left gone)).trans ?_
    rw [← List.append_assoc]
    exact List.perm_append_comm.append_right _
  free := by rw [h'.free, h.free, List.map_append, List.append_assoc]
  leases := h'.leases.trans h.leases
  identities := h'.identities.trans h.identities

theorem SameHoldings.freed (h : s.SameHoldings s') : s.Freed [] s' where
  holdings := by rw [h.holdings, List.nil_append]
  free := by
    obtain ⟨machine, -, hpool⟩ := h.pool
    rw [hpool]
    rfl
  leases := h.leases
  identities := h.identities

theorem Kept.flow (h : s.Kept loose) : s.Flow s loose :=
  ⟨h, [], (Same.refl s).sameHoldings.freed⟩

theorem SameHoldings.accounts (h : s.SameHoldings s')
    (ha : s.pool.Accounts (s.holdings.map (·.2) ++ s.leases.map (·.base))) :
    s'.pool.Accounts (s'.holdings.map (·.2) ++ s'.leases.map (·.base)) := by
  obtain ⟨machine, hkeeps, hpool⟩ := h.pool
  rw [h.holdings, h.leases, hpool]
  exact ha.withMachine hkeeps

/-- A change that leaves the holdings alone. What is referred to no more becomes loose. -/
theorem Flow.change (h : s₀.Flow s loose) (hsame : s.SameHoldings s')
    (hregistry : s'.registry.Sound) (htokens : (s'.carriers.map (·.token)).Nodup)
    (hlends : ∀ id, s'.Lends id → s.Lends id ∨ id ∈ s.fibers.keys)
    (hrefers : ∀ id, s.Refers id ∨ id ∈ loose → s'.Refers id ∨ id ∈ loose') :
    s₀.Flow s' loose' := by
  obtain ⟨gone, hfreed⟩ := h.freed
  refine ⟨?_, gone, hfreed.trans hsame.freed⟩
  constructor
  case registry => exact hregistry
  case keys => exact hsame.keys ▸ h.keys
  case tokens => exact htokens
  case accounts => exact hsame.accounts h.accounts
  case lent => exact fun id hid => hsame.keys ▸ (hlends id hid).elim (h.lent id) fun hmem => hmem
  case tended => exact fun id hid => hrefers id (h.tended id (hsame.keys ▸ hid))

/-- A change that has nothing to do with who refers to what. -/
theorem Flow.same (h : s₀.Flow s loose) (hsame : s.SameHoldings s')
    (hregistry : s'.registry = s.registry) (hcarriers : s'.carriers = s.carriers)
    (hheld : s'.held = s.held) (hcalls : s'.calls = s.calls) : s₀.Flow s' loose := by
  have hlends : ∀ id, s'.Lends id ↔ s.Lends id := fun id => by rw [Lends, Lends, hheld, hcalls]
  refine h.change hsame (hregistry ▸ h.registry) (hcarriers ▸ h.tokens) (fun id hid => ?_)
    fun id hid => ?_
  · exact .inl ((hlends id).1 hid)
  · simpa only [Refers, hlends, hregistry, carrier?, hcarriers] using hid

theorem Flow.weaken (h : s₀.Flow s loose) (hsub : loose ⊆ loose') : s₀.Flow s loose' :=
  { h with tended := fun id hid => (h.tended id hid).imp_right (hsub ·) }

/-- A fiber to which something refers need not be loose. -/
theorem Flow.settle (h : s₀.Flow s (id :: loose)) (hid : s.Refers id) : s₀.Flow s loose := by
  refine { h with tended := fun j hj => ?_ }
  obtain href | hmem := h.tended j hj
  · exact .inl href
  · rcases List.mem_cons.1 hmem with rfl | hmem
    · exact .inl hid
    · exact .inr hmem

end Flow

section Reap

theorem holdings_erase : { s with fibers := s.fibers.erase id, pool }.holdings
    = s.holdings.filter fun h => h.1 ≠ id := by
  simp only [holdings, Table.erase, Table.eraseIf, List.filter_map, List.filter_filter]
  congr 1
  refine List.filter_congr fun e _ => ?_
  simp [Bool.and_comm]

/-- A heap fiber that is freed no longer holds its stack. -/
theorem perm_holdings_erase (h : s.fibers.keys.Nodup) (hid : (id, base) ∈ s.holdings) :
    s.holdings.Perm ((id, base) :: { s with fibers := s.fibers.erase id, pool }.holdings) := by
  have hnodup := nodup_holdings h
  rw [holdings_erase]
  obtain ⟨l₁, l₂, hsplit⟩ := List.append_of_mem hid
  rw [hsplit, List.map_append, List.map_cons, List.nodup_middle, List.nodup_cons,
    ← List.map_append] at hnodup
  have hothers : (l₁ ++ l₂).filter (fun h => h.1 ≠ id) = l₁ ++ l₂ := by
    refine List.filter_eq_self.2 fun h hmem => ?_
    simpa using fun heq : h.1 = id => hnodup.1 (List.mem_map.2 ⟨h, hmem, heq⟩)
  rw [hsplit, List.filter_append, List.filter_cons_of_neg (by simp), ← List.filter_append, hothers]
  exact List.perm_middle

theorem holdings_erase_of_isThreadFiber {f : Fiber} (h : s.fibers.keys.Nodup)
    (hf : s.fibers.get? id = some f) (hthread : f.isThreadFiber = true) :
    { s with fibers := s.fibers.erase id, pool }.holdings = s.holdings := by
  rw [holdings_erase]
  refine List.filter_eq_self.2 fun ⟨j, base⟩ hmem => ?_
  obtain ⟨g, hg, hheap, -⟩ := (mem_holdings_iff h).1 hmem
  simp only [ne_eq, decide_not, Bool.not_eq_true', decide_eq_false_iff_not]
  rintro rfl
  obtain rfl := Option.some.inj (hf.symm.trans hg)
  exact Bool.noConfusion (hthread.symm.trans hheap)

/-- The stack of a fiber that is freed goes back to the pool. -/
theorem accounts_of_reap (h : s.fibers.keys.Nodup)
    (haccounts : s.pool.Accounts (s.holdings.map (·.2) ++ s.leases.map (·.base)))
    (hr : s.reap id = .ok s') :
    s'.pool.Accounts (s'.holdings.map (·.2) ++ s'.leases.map (·.base)) := by
  obtain rfl | ⟨-, f, pool, hf, hleased, hnative, rfl⟩ := reap_cases hr
  · exact haccounts
  cases hstack : f.stack with
  | native region =>
    have hthread : f.isThreadFiber = true := by simp [Fiber.isThreadFiber, Fiber.lease?, hstack]
    rw [hnative region hstack, holdings_erase_of_isThreadFiber h hf hthread]
    exact haccounts
  | leased lease =>
    have hperm : s.holdings.Perm
        ((id, lease.base) :: { s with fibers := s.fibers.erase id, pool }.holdings) :=
      perm_holdings_erase h (mem_holdings_of_leased h hf hstack)
    have hreleased := (haccounts.perm ((hperm.map (·.2)).append_right _)).release
      List.mem_cons_self (hleased lease hstack)
    simpa using hreleased

/-- A fiber goes to which nothing refers. -/
theorem Kept.erase (h : s.Kept (id :: loose)) (hid : ¬s.Refers id)
    (haccounts : pool.Accounts
      ((holdings { s with fibers := s.fibers.erase id, pool }).map (·.2)
        ++ s.leases.map (·.base))) :
    { s with fibers := s.fibers.erase id, pool }.Kept loose := by
  have hkeys : ∀ j, j ∈ (s.fibers.erase id).keys ↔ j ∈ s.fibers.keys ∧ j ≠ id := fun j => by
    simp [Table.keys_erase]
  constructor
  case registry => exact h.registry
  case keys =>
    rw [Table.keys_erase]
    exact h.keys.filter _
  case tokens => exact h.tokens
  case accounts => exact haccounts
  case lent => exact fun j hj => (hkeys j).2 ⟨h.lent j hj, fun heq => hid (heq ▸ .inr (.inl hj))⟩
  case tended =>
    intro j hj
    obtain ⟨hj, hne⟩ := (hkeys j).1 hj
    exact (h.tended j hj).imp_right (List.mem_of_ne_of_mem hne)

/-- A fiber that is loose goes, unless something refers to it after all. -/
theorem Flow.reap (h : s₀.Flow s (id :: loose)) (hr : s.reap id = .ok s') : s₀.Flow s' loose := by
  obtain ⟨gone, hfreed⟩ := h.freed
  have haccounts := accounts_of_reap h.keys h.accounts hr
  simp only [FiberSystem.reap] at hr
  split_ifs at hr with href
  · exact Except.ok.inj hr ▸ h.settle (refers_of_isReferenced h.tokens href)
  have hnot := not_refers_of_not_isReferenced (Bool.eq_false_iff.2 href)
  split at hr <;> rename_i hf
  case h_1 =>
    obtain rfl := Except.ok.inj hr
    refine { h with tended := fun j hj => (h.tended j hj).imp_right (List.mem_of_ne_of_mem ?_) }
    rintro rfl
    obtain ⟨f, hf'⟩ := Table.mem_keys_iff.1 hj
    exact Option.some_ne_none f (hf'.symm.trans hf)
  rename_i f
  split at hr <;> rename_i hstack
  case h_1 =>
    obtain rfl := Except.ok.inj hr
    have hthread : f.isThreadFiber = true := by simp [Fiber.isThreadFiber, Fiber.lease?, hstack]
    have hsame : { s with fibers := s.fibers.erase id }.holdings = s.holdings :=
      holdings_erase_of_isThreadFiber h.keys hf hthread
    refine ⟨h.erase hnot haccounts, gone, ?_⟩
    exact ⟨hsame ▸ hfreed.holdings, hfreed.free, hfreed.leases, hfreed.identities⟩
  rename_i lease
  obtain ⟨pool, hrelease, hr⟩ := bind_eq_ok_iff.1 hr
  obtain rfl := Except.ok.inj hr
  have hperm : s.holdings.Perm
      ((id, lease.base) :: { s with fibers := s.fibers.erase id, pool }.holdings) :=
    perm_holdings_erase h.keys (mem_holdings_of_leased h.keys hf hstack)
  refine ⟨h.erase hnot haccounts, (id, lease.base) :: gone, ?_, ?_, hfreed.leases,
    hfreed.identities⟩
  · exact (hfreed.holdings.trans (hperm.append_left gone)).trans List.perm_middle
  · rw [Pool.free_of_release hrelease, hfreed.free]
    rfl

theorem Flow.reapAll {ids : List FiberId} (h : s₀.Flow s (ids ++ loose))
    (hr : s.reapAll ids = .ok s') : s₀.Flow s' loose := by
  induction ids generalizing s with
  | nil => exact Except.ok.inj hr ▸ h
  | cons id rest ih =>
    obtain ⟨s₁, hreap, hr⟩ := bind_eq_ok_iff.1 hr
    exact ih (h.reap hreap) hr

end Reap

end FiberSystem

end PooledFibers
