import Mathlib.Data.List.Pairwise
import Mathlib.Data.List.Perm.Subperm
import Mathlib.Tactic.Common
import PooledFibers.FiberSystem.LockOwner
import PooledFibers.Proofs.Registry.Fairness
import PooledFibers.Proofs.Stack.Tenancy

/-!
# Whom a lock's owner word stands for

The search over the running fibers takes the first one whose stack contains the word. Stacks leased
from one pool share no address, so there is at most one, and the order in which the fibers come
does not matter (`Registry.exists_attributed`). A word where one stack ends and the next begins
belongs to the latter.
-/

namespace PooledFibers

open Outcome

/-- Different fibers, each on a stack of its own that is leased from the pool. -/
structure Tenancy.Hosts (t : Tenancy) (fibers : List Fiber) : Prop where
  ids_nodup : (fibers.map (·.id)).Nodup
  leased : (fibers.map (·.lease?)).Subperm (t.leases.map some)

/-- The address lies on the fiber's stack, which ends before its base. -/
def Fiber.Spans (f : Fiber) (address : Nat) : Prop :=
  f.region.base - f.region.size ≤ address ∧ address < f.region.base

namespace Registry

/-- The word is the identity of a registered fiber. Only a lookup that does not wait can find the
fiber's shard busy. -/
def Knows (r : Registry) (owner : Nat) (busy : Nat → Bool) : Prop :=
  r.isRegistered ⟨owner⟩ = true ∧ busy (r.shardIndex ⟨owner⟩) = false

/-- What a word that is not null stands for. -/
structure Attributed (r : Registry) (owner : Nat) (busy : Nat → Bool) (heavyMonitors : Bool)
    (running : List Fiber) (answer : Option FiberId) : Prop where
  known : r.Knows owner busy → answer = some ⟨owner⟩
  heavy : ¬r.Knows owner busy → heavyMonitors = true → answer = none
  /-- Only one of the running fibers has the word on its stack. -/
  spanned : ¬r.Knows owner busy → heavyMonitors = false → ∀ f ∈ running, f.Spans owner →
    answer = some f.id ∧ ∀ g ∈ running, g.Spans owner → g = f
  nowhere : ¬r.Knows owner busy → heavyMonitors = false → (∀ f ∈ running, ¬f.Spans owner) →
    answer = none
  /-- Where a stack ends and the next begins, the word is on the latter only. -/
  boundary : ¬r.Knows owner busy → heavyMonitors = false → ∀ f ∈ running, ∀ g ∈ running,
    f.region.base = owner → g.region.base - g.region.size = owner →
      answer = some g.id ∧ answer ≠ some f.id

end Registry

section Search

variable {α : Type} {p : α → Bool} {l : List α}

/-- If one element at most satisfies the test, the search finds it wherever it is. -/
theorem find?_eq_some_iff_of_unique (h : ∀ a ∈ l, ∀ b ∈ l, p a = true → p b = true → a = b)
    {a : α} : l.find? p = some a ↔ a ∈ l ∧ p a = true := by
  constructor
  · intro hfind
    exact ⟨List.mem_of_find?_eq_some hfind, List.find?_some hfind⟩
  · rintro ⟨ha, hp⟩
    rcases hfind : l.find? p with _ | b
    · rw [List.find?_eq_none] at hfind
      exact absurd hp (hfind a ha)
    · rw [h a ha b (List.mem_of_find?_eq_some hfind) hp (List.find?_some hfind)]

end Search

section Stacks

variable {t : Tenancy} {fibers : List Fiber} {f g : Fiber} {a : Nat}

theorem Fiber.spans_iff : f.Spans a ↔ f.region.contains a = true := by
  unfold Spans Region.contains Region.low
  rw [Bool.and_eq_true, decide_eq_true_iff, decide_eq_true_iff]

theorem find?_eq_none_of_not_spans (hnone : ∀ f ∈ fibers, ¬f.Spans a) :
    fibers.find? (fun f => f.region.contains a) = none :=
  List.find?_eq_none.2 fun f hf hfa => hnone f hf (Fiber.spans_iff.2 hfa)

theorem Fiber.region_of_lease? {lease : Lease} (h : f.lease? = some lease) :
    f.region = lease.region := by
  unfold lease? at h
  unfold region
  split at h
  · cases h
  · rw [Option.some.inj h]

namespace Tenancy.Hosts

theorem exists_lease (h : t.Hosts fibers) (hf : f ∈ fibers) :
    ∃ lease ∈ t.leases, f.lease? = some lease := by
  have hmem := h.leased.subset (List.mem_map_of_mem hf)
  obtain ⟨lease, hlease, heq⟩ := List.mem_map.1 hmem
  exact ⟨lease, hlease, heq.symm⟩

/-- The stacks of different fibers share no address. -/
theorem pairwise_apart (h : t.Hosts fibers) (ht : t.Separate) :
    fibers.Pairwise fun f g => f.region.range.Apart g.region.range := by
  have hleases : (t.leases.map some).Pairwise fun x y => ∀ lease ∈ x, ∀ lease' ∈ y,
      lease.region.range.Apart lease'.region.range := by
    rw [List.pairwise_map]
    refine (List.pairwise_map.1 (List.pairwise_append.1 ht.apart).1).imp ?_
    rintro x y hapart _ ⟨⟩ _ ⟨⟩
    exact hapart
  obtain ⟨l, hperm, hsub⟩ := h.leased
  have hfibers := (hleases.sublist hsub).perm hperm fun hxy lease hlease lease' hlease' =>
    (hxy lease' hlease' lease hlease).symm
  refine (List.pairwise_map.1 hfibers).imp_of_mem fun {f g} hf hg hapart => ?_
  obtain ⟨x, -, hx⟩ := h.exists_lease hf
  obtain ⟨y, -, hy⟩ := h.exists_lease hg
  rw [Fiber.region_of_lease? hx, Fiber.region_of_lease? hy]
  exact hapart x hx y hy

/-- An address lies on one of the stacks at most. -/
theorem eq_of_spans (h : t.Hosts fibers) (ht : t.Separate) (hf : f ∈ fibers) (hg : g ∈ fibers)
    (hfa : f.Spans a) (hga : g.Spans a) : f = g := by
  by_contra hne
  have : Std.Symm fun f g : Fiber => f.region.range.Apart g.region.range :=
    ⟨fun _ _ => AddressRange.Apart.symm⟩
  have hapart : f.region.range.Apart g.region.range := (h.pairwise_apart ht).forall hf hg hne
  exact hapart a ⟨Fiber.spans_iff.1 hfa, Fiber.spans_iff.1 hga⟩

/-- A stack begins below its base. -/
theorem spans_low (h : t.Hosts fibers) (hbooks : t.Books) (ht : t.Separate) (hf : f ∈ fibers) :
    f.Spans (f.region.base - f.region.size) := by
  obtain ⟨lease, hlease, hf⟩ := h.exists_lease hf
  have hrange : lease.region.range ∈ t.ranges :=
    List.mem_append_left _ (List.mem_map_of_mem hlease)
  have hfull : lease.region.base - lease.region.size + t.pool.stackSize = lease.region.base :=
    (ht.full _ hrange).1
  have hsize := hbooks.accounts.size_pos
  unfold Fiber.Spans
  rw [Fiber.region_of_lease? hf]
  omega

/-- The search by address finds the fiber on whose stack it lies, if there is one. -/
theorem find?_eq_some_iff (h : t.Hosts fibers) (ht : t.Separate) :
    fibers.find? (fun f => f.region.contains a) = some f ↔ f ∈ fibers ∧ f.Spans a := by
  rw [find?_eq_some_iff_of_unique fun f hf g hg hfa hga =>
    h.eq_of_spans ht hf hg (Fiber.spans_iff.2 hfa) (Fiber.spans_iff.2 hga), Fiber.spans_iff]

/-- The fibers may come in any order. -/
theorem perm (h : t.Hosts fibers) {order : List Fiber} (hperm : order.Perm fibers) :
    t.Hosts order :=
  ⟨(hperm.map _).nodup_iff.2 h.ids_nodup, (hperm.map _).subperm.trans h.leased⟩

/-- The search has the same outcome for every order. -/
theorem find?_perm (h : t.Hosts fibers) (ht : t.Separate) {order : List Fiber}
    (hperm : order.Perm fibers) :
    order.find? (fun f => f.region.contains a) = fibers.find? fun f => f.region.contains a := by
  refine Option.ext fun f => ?_
  rw [(h.perm hperm).find?_eq_some_iff ht, h.find?_eq_some_iff ht, hperm.mem_iff]

end Tenancy.Hosts

end Stacks

namespace Registry

variable {r : Registry} {owner : Nat} {busy : Nat → Bool} {heavyMonitors : Bool}
  {running : List Fiber}

section Cases

variable (h : r.Sound) (howner : owner ≠ 0)
include h howner

theorem lockOwner?_of_knows (hk : r.Knows owner busy) :
    r.lockOwner? owner busy heavyMonitors running = .ok (some ⟨owner⟩) := by
  obtain ⟨hregistered, hbusy⟩ := hk
  unfold lockOwner? tryFind?
  rw [if_neg howner, hbusy, if_neg Bool.false_ne_true, h.find?_eq, if_pos hregistered]
  rfl

theorem lockOwner?_of_not_knows (hk : ¬r.Knows owner busy) :
    r.lockOwner? owner busy heavyMonitors running = .ok
      (if heavyMonitors then none
        else (running.find? fun f => f.region.contains owner).map (·.id)) := by
  have hfind : r.tryFind? ⟨owner⟩ busy = .ok none := by
    unfold tryFind?
    rcases hbusy : busy (r.shardIndex ⟨owner⟩) with _ | _
    · have hregistered : ¬r.isRegistered ⟨owner⟩ = true := fun hid => hk ⟨hid, hbusy⟩
      rw [if_neg Bool.false_ne_true, h.find?_eq, if_neg hregistered]
    · rfl
  unfold lockOwner?
  rw [if_neg howner, hfind]
  cases heavyMonitors <;> rfl

end Cases

/-- What the search by address answers is right, if the stacks are apart. -/
theorem attributed_of_hosts {t : Tenancy} (h : t.Hosts running) (hbooks : t.Books)
    (ht : t.Separate) (hk : ¬r.Knows owner busy) :
    r.Attributed owner busy heavyMonitors running (if heavyMonitors then none
      else (running.find? fun f => f.region.contains owner).map (·.id)) := by
  constructor
  case known => exact fun h => absurd h hk
  case heavy => exact fun _ hheavy => if_pos hheavy
  case spanned =>
    rintro - rfl f hf hspans
    have hfind := (h.find?_eq_some_iff ht).2 ⟨hf, hspans⟩
    rw [if_neg Bool.false_ne_true, hfind, Option.map_some]
    exact ⟨rfl, fun g hg hspans' => h.eq_of_spans ht hg hf hspans' hspans⟩
  case nowhere =>
    rintro - rfl hnone
    rw [if_neg Bool.false_ne_true, find?_eq_none_of_not_spans hnone, Option.map_none]
  case boundary =>
    rintro - rfl f hf g hg rfl hlow
    have hspans : g.Spans f.region.base := hlow ▸ h.spans_low hbooks ht hg
    have hfind := (h.find?_eq_some_iff ht).2 ⟨hg, hspans⟩
    rw [if_neg Bool.false_ne_true, hfind, Option.map_some]
    refine ⟨rfl, fun hid => ?_⟩
    have hgf : g = f := List.inj_on_of_nodup_map h.ids_nodup hg hf (Option.some.inj hid)
    subst hgf
    exact Nat.lt_irrefl _ hspans.2

/-- Whatever the order of the running fibers, the search has one answer: the registered fiber that
the word is the identity of, or else the one fiber whose stack holds the word. -/
theorem exists_attributed {settings : Settings} {provider : PageProvider} {page : Nat}
    (hs : settings.validate page = .ok ()) (hp : 0 < provider.pageSize)
    (hg : 0 < provider.granularity) {operations : List PoolOperation} {t : Tenancy}
    (ht : (Tenancy.ofSettings settings provider).after operations = .ok t)
    (hsound : PageCall.Sound t.pool.machine.calls) (hr : r.Reachable) (howner : owner ≠ 0)
    (hrunning : t.Hosts running) (busy : Nat → Bool) (heavyMonitors : Bool) :
    ∃ answer, r.Attributed owner busy heavyMonitors running answer
      ∧ ∀ order, order.Perm running → r.lockOwner? owner busy heavyMonitors order = .ok answer := by
  obtain ⟨l, hcarries⟩ := hr.exists_carries
  have hregistry := hcarries.sound
  by_cases hk : r.Knows owner busy
  · refine ⟨some ⟨owner⟩, ?_, fun order _ => lockOwner?_of_knows hregistry howner hk⟩
    exact ⟨fun _ => rfl, (absurd hk ·), (absurd hk ·), (absurd hk ·), (absurd hk ·)⟩
  · have hbooks := (Tenancy.books_ofSettings hs hp hg).of_after ht
    have hseparate := hbooks.separate hsound
    refine ⟨_, attributed_of_hosts hrunning hbooks hseparate hk, fun order hperm => ?_⟩
    rw [lockOwner?_of_not_knows hregistry howner hk, hrunning.find?_perm hseparate hperm]

/-- The stacks of two fibers touch where the word points, and a third fiber is registered. -/
theorem attributed_of_touching_stacks :
    ∃ r t answer, (do (← ofShards 2).change (.insert ⟨8⟩)) = .ok r
      ∧ (Tenancy.ofSettings
          { stackSize := 16384, shadowPages := 2, yellowPages := 1, redPages := 1
            stacksPerSlab := 1, verifyOnYield := true }
          ({ descending := true, faults := { guard := some 13 } } : Simulation).provider).after
            [.acquire, .acquire] = .ok t
      ∧ answer = some ⟨16⟩
      ∧ r.Attributed 0x1FFFFFFF8000 (fun _ => false) false
          [.ofLease ⟨24⟩ ⟨1⟩ "main" ⟨.ofZone 0x1FFFFFFF8000 32768 16384, .unprotected, true⟩ false,
            .ofLease ⟨16⟩ ⟨1⟩ "main" ⟨.ofZone 0x200000000000 32768 16384, .unprotected, true⟩ false]
          answer := by
  have hs : ({ stackSize := 16384, shadowPages := 2, yellowPages := 1, redPages := 1
               stacksPerSlab := 1, verifyOnYield := true } : Settings).validate 4096 = .ok () := rfl
  have hp : 0 < ({ descending := true, faults := { guard := some 13 } }
      : Simulation).provider.pageSize := by decide
  obtain ⟨t, ht, -⟩ :=
    (Tenancy.books_ofSettings hs hp (by decide)).exists_after [.acquire, .acquire]
  have hdecided : .ok true = Except.ok (decide (PageCall.Sound t.pool.machine.calls)) :=
    congrArg (Except.map fun t : Tenancy => decide (PageCall.Sound t.pool.machine.calls)) ht
  have hsound : PageCall.Sound t.pool.machine.calls :=
    of_decide_eq_true (Except.ok.inj hdecided).symm
  have hleases : .ok [⟨.ofZone 0x1FFFFFFF8000 32768 16384, .unprotected, true⟩,
      ⟨.ofZone 0x200000000000 32768 16384, .unprotected, true⟩] = Except.ok t.leases :=
    congrArg (Except.map fun t : Tenancy => t.leases) ht
  have hhosts : t.Hosts
      [.ofLease ⟨24⟩ ⟨1⟩ "main" ⟨.ofZone 0x1FFFFFFF8000 32768 16384, .unprotected, true⟩ false,
        .ofLease ⟨16⟩ ⟨1⟩ "main" ⟨.ofZone 0x200000000000 32768 16384, .unprotected, true⟩ false] :=
    ⟨by decide, Except.ok.inj hleases ▸ List.Subperm.refl _⟩
  have hmade : ofShards (2 ^ 1) = .ok ⟨[{}, {}], .empty⟩ := rfl
  have hinsert : (Registry.mk [{}, {}] .empty).change (.insert ⟨8⟩)
      = .ok ⟨[{}, ⟨⟨[some ⟨⟨8⟩, 0, 0⟩], [], some 0, 1⟩, 0⟩], Table.empty.insert ⟨8⟩ 0⟩ := rfl
  obtain ⟨answer, hattributed, horder⟩ := exists_attributed hs hp (by decide) ht hsound
    (.change (.made hmade) hinsert) (by decide : 0x1FFFFFFF8000 ≠ 0) hhosts (fun _ => false) false
  exact ⟨_, t, answer, hinsert, ht, (Except.ok.inj (horder _ .rfl)).symm, hattributed⟩

end Registry

end PooledFibers
