import Mathlib.Data.List.Chain
import Mathlib.Data.List.Nodup
import Mathlib.Data.List.Perm.Subperm
import Mathlib.Tactic.Common
import PooledFibers.Proofs.Outcome
import PooledFibers.Registry.Basic

/-!
# What the check of the registry accepts

Whatever the arrays of a registry contain, the walk along a ring comes to an end: its loop
(`Ring.Ends`) stops at a vacant link, at a link that points back to the head, or once it has met
more links than there are. The check accepts exactly the registries in which every ring comes back
to its head (`Ring.Returns`) and every fiber is where it should be (`Registry.Intact`).

A walk that comes back meets no link twice: where it goes on from a link is settled by the link, so
it would be as far from its end the second time as the first (`Closes.nodup`).

## Main statements

* `Registry.verify_eq_ok_iff_intact`
-/

namespace PooledFibers

open Outcome

namespace Ring

/-- From its head on, the ring goes through the links of `l`, all occupied and different, and back
to the head; there are as many as its count says. -/
structure Returns (r : Ring) (l : List (Nat × Link)) : Prop where
  occupied : ∀ e ∈ l, r.links[e.1]? = some (some e.2)
  chained : l.IsChain fun e e' => e.2.next = e'.1
  head : r.head = l.head?.map (·.1)
  closes : r.head = l.getLast?.map (·.2.next)
  nodup : (l.map (·.1)).Nodup
  count : r.count = l.length

/-- The links from an index on until one points to the head. -/
inductive Closes (r : Ring) (head : Nat) : Nat → List (Nat × Link) → Prop
  | last {i k} (link : r.link i = .ok k) (next : k.next = head) : r.Closes head i [(i, k)]
  | cons {i k l} (link : r.link i = .ok k) (next : k.next ≠ head) (rest : r.Closes head k.next l) :
    r.Closes head i ((i, k) :: l)

/-- How the loop over the links ends when it has come to an index with so many entries found. -/
inductive Ends (r : Ring) (head : Nat) :
    List (Nat × FiberId) → Nat → Except Fault (List (Nat × FiberId)) → Prop
  | vacant {found i fault} (link : r.link i = .error fault) : r.Ends head found i (.error fault)
  | stops {found i k} (link : r.link i = .ok k)
    (full : k.next = head ∨ r.links.length < found.length + 1) :
    r.Ends head found i (.ok (found ++ [(i, k.fiber)]))
  | goesOn {found i k outcome} (link : r.link i = .ok k)
    (room : ¬(k.next = head ∨ r.links.length < found.length + 1))
    (rest : r.Ends head (found ++ [(i, k.fiber)]) k.next outcome) : r.Ends head found i outcome

variable {r : Ring} {head i fuel : Nat} {k : Link} {l l' : List (Nat × Link)}
  {found entries : List (Nat × FiberId)}

theorem link_eq_ok_iff : r.link i = .ok k ↔ r.links[i]? = some (some k) := by
  simp only [link]
  split <;> simp_all

section Loop

/-- With so much fuel left that the loop stops of itself, the fuel does not matter. -/
theorem ends_chain (pos : 0 < fuel) (left : found.length + fuel = r.links.length + 1) :
    r.Ends head found i ((r.chain head fuel i).map (found ++ ·)) := by
  induction fuel generalizing found i with
  | zero => omega
  | succ fuel ih =>
    rw [chain]
    cases link : r.link i with
    | error fault => exact .vacant link
    | ok k =>
      rw [ok_bind]
      by_cases next : k.next = head
      · rw [if_pos next]
        exact .stops link (.inl next)
      · rw [if_neg next]
        cases fuel with
        | zero => exact .stops link (.inr (by omega))
        | succ fuel =>
          refine .goesOn link (by omega) ?_
          have rest : r.Ends head (found ++ [(i, k.fiber)]) k.next
              ((r.chain head (fuel + 1) k.next).map (found ++ [(i, k.fiber)] ++ ·)) :=
            ih (by omega) (by simp only [List.length_append, List.length_singleton]; omega)
          cases chain : r.chain head (fuel + 1) k.next with
          | error fault => simpa [chain, Except.map] using rest
          | ok entries => simpa [chain, Except.map] using rest

/-- The loop ends on every ring, and `entries` is what it comes to. -/
theorem ends_entries (h : r.head = some head) : r.Ends head [] head r.entries := by
  have ends : r.Ends head [] head ((r.chain head (r.links.length + 1) head).map ([] ++ ·)) :=
    ends_chain (Nat.succ_pos _) (Nat.zero_add _)
  rw [entries, h]
  cases chain : r.chain head (r.links.length + 1) head with
  | error fault => simpa [chain, Except.map] using ends
  | ok entries => simpa [chain, Except.map] using ends

end Loop

section Closes

theorem Closes.unique (h : r.Closes head i l) (h' : r.Closes head i l') : l = l' := by
  induction h generalizing l' with
  | last link next =>
    cases h' with
    | last link' => cases link.symm.trans link'; rfl
    | cons link' next' => cases link.symm.trans link'; exact absurd next next'
  | cons link next rest ih =>
    cases h' with
    | last link' next' => cases link.symm.trans link'; exact absurd next' next
    | cons link' _ rest' => cases link.symm.trans link'; rw [ih rest']

/-- From any of its links on a walk closes as well, with no more links. -/
theorem Closes.of_mem (h : r.Closes head i l) {j : Nat} (mem : j ∈ l.map (·.1)) :
    ∃ l', r.Closes head j l' ∧ l'.length ≤ l.length := by
  induction h with
  | last link next =>
    obtain rfl := List.mem_singleton.1 mem
    exact ⟨_, .last link next, le_rfl⟩
  | cons link next rest ih =>
    rcases List.mem_cons.1 mem with rfl | mem
    · exact ⟨_, .cons link next rest, le_rfl⟩
    · obtain ⟨l', closes, le⟩ := ih mem
      exact ⟨l', closes, Nat.le_succ_of_le le⟩

theorem Closes.nodup (h : r.Closes head i l) : (l.map (·.1)).Nodup := by
  induction h with
  | last link next => exact List.nodup_singleton _
  | cons link next rest ih =>
    refine List.nodup_cons.2 ⟨fun mem => ?_, ih⟩
    obtain ⟨l', closes, le⟩ := rest.of_mem mem
    obtain rfl := closes.unique (.cons link next rest)
    exact absurd le (Nat.not_succ_le_self _)

theorem Closes.head? (h : r.Closes head i l) : l.head?.map (·.1) = some i := by
  cases h <;> rfl

theorem Closes.getLast? (h : r.Closes head i l) : l.getLast?.map (·.2.next) = some head := by
  induction h with
  | last link next => exact congrArg some next
  | cons link next rest ih => cases rest <;> exact ih

theorem Closes.occupied (h : r.Closes head i l) : ∀ e ∈ l, r.links[e.1]? = some (some e.2) := by
  induction h with
  | last link next => exact List.forall_mem_singleton.2 (link_eq_ok_iff.1 link)
  | cons link next rest ih => exact List.forall_mem_cons.2 ⟨link_eq_ok_iff.1 link, ih⟩

theorem Closes.chained (h : r.Closes head i l) : l.IsChain fun e e' => e.2.next = e'.1 := by
  induction h with
  | last link next => exact .singleton _
  | cons link next rest ih => cases rest <;> exact .cons_cons rfl ih

theorem closes_of_isChain {e : Nat × Link}
    (occupied : ∀ e' ∈ e :: l, r.links[e'.1]? = some (some e'.2))
    (chained : (e :: l).IsChain fun e e' => e.2.next = e'.1)
    (closes : (e :: l).getLast?.map (·.2.next) = some head) (fresh : head ∉ l.map (·.1)) :
    r.Closes head e.1 (e :: l) := by
  have link := link_eq_ok_iff.2 (occupied e List.mem_cons_self)
  induction l generalizing e with
  | nil => exact .last link (Option.some.inj closes)
  | cons e' l ih =>
    obtain ⟨next, chained⟩ := List.isChain_cons_cons.1 chained
    have occupied' := fun e' mem => occupied e' (List.mem_cons_of_mem _ mem)
    have rest := ih occupied' chained (by simpa using closes)
      (fun mem => fresh (List.mem_cons_of_mem _ mem))
      (link_eq_ok_iff.2 (occupied' e' List.mem_cons_self))
    rw [← next] at rest
    exact .cons link (fun eq => fresh (by simp [← eq, next])) rest

/-- A ring that returns to its head is one that closes there, or it is empty. -/
theorem returns_iff : r.Returns l ↔ r.count = l.length ∧
    (r.head = none ∧ l = [] ∨ ∃ head, r.head = some head ∧ r.Closes head head l) := by
  constructor
  · intro h
    refine ⟨h.count, ?_⟩
    cases l with
    | nil => exact .inl ⟨h.head, rfl⟩
    | cons e l =>
      have fresh := (List.nodup_cons.1 h.nodup).1
      exact .inr ⟨e.1, h.head,
        closes_of_isChain h.occupied h.chained (h.closes.symm.trans h.head) fresh⟩
  · rintro ⟨count, ⟨head, rfl⟩ | ⟨head, eq, closes⟩⟩
    · exact ⟨by simp, .nil, head, head, List.nodup_nil, count⟩
    · exact ⟨closes.occupied, closes.chained, eq.trans closes.head?.symm,
        eq.trans closes.getLast?.symm, closes.nodup, count⟩

end Closes

section Chain

theorem Closes.chain_eq (h : r.Closes head i l) (le : l.length ≤ fuel) :
    r.chain head fuel i = .ok (l.map fun e => (e.1, e.2.fiber)) := by
  induction h generalizing fuel with
  | last link next =>
    obtain ⟨fuel, rfl⟩ := Nat.exists_eq_add_one.2 le
    simp [chain, link, next]
  | cons link next rest ih =>
    obtain ⟨fuel, rfl⟩ := Nat.exists_eq_add_one.2 (Nat.zero_lt_of_lt le)
    simp [chain, link, next, ih (Nat.le_of_succ_le_succ le)]

/-- A walk that stops before its fuel is used up has come back to the head. -/
theorem exists_closes_of_chain (h : r.chain head fuel i = .ok entries)
    (lt : entries.length < fuel) :
    ∃ l, r.Closes head i l ∧ entries = l.map fun e => (e.1, e.2.fiber) := by
  induction fuel generalizing i entries with
  | zero => omega
  | succ fuel ih =>
    obtain ⟨k, link, h⟩ := bind_eq_ok_iff.1 h
    split_ifs at h with next
    · exact ⟨[(i, k)], .last link next, (Except.ok.inj h).symm⟩
    · obtain ⟨rest, hrest, h⟩ := bind_eq_ok_iff.1 h
      obtain rfl := Except.ok.inj h
      obtain ⟨l, closes, rfl⟩ := ih hrest (Nat.lt_of_succ_lt_succ lt)
      exact ⟨(i, k) :: l, .cons link next closes, rfl⟩

theorem Closes.length_le (h : r.Closes head i l) : l.length ≤ r.links.length := by
  have bounded : l.map (·.1) ⊆ List.range r.links.length := by
    intro j mem
    obtain ⟨e, he, rfl⟩ := List.mem_map.1 mem
    exact List.mem_range.2 (List.getElem?_eq_some_iff.1 (h.occupied e he)).1
  simpa using (h.nodup.subperm bounded).length_le

/-- What a walk over the ring finds agrees with the count just if the ring returns to its head. -/
theorem entries_eq_ok_iff (hcount : r.count ≤ r.links.length) :
    (r.entries = .ok entries ∧ entries.length = r.count) ↔
      ∃ l, r.Returns l ∧ entries = l.map fun e => (e.1, e.2.fiber) := by
  simp only [returns_iff]
  cases head : r.head with
  | none =>
    rw [Ring.entries, head]
    constructor
    · rintro ⟨h, count⟩
      obtain rfl := Except.ok.inj h
      exact ⟨[], ⟨count.symm, .inl ⟨rfl, rfl⟩⟩, rfl⟩
    · rintro ⟨l, ⟨count, ⟨-, rfl⟩ | ⟨head, none, -⟩⟩, rfl⟩
      · exact ⟨rfl, count.symm⟩
      · simp at none
  | some head =>
    simp only [Ring.entries, head, reduceCtorEq, false_and, false_or, Option.some.injEq,
      exists_eq_left']
    constructor
    · rintro ⟨h, count⟩
      obtain ⟨l, closes, rfl⟩ := exists_closes_of_chain h (by omega)
      exact ⟨l, ⟨by simpa using count.symm, closes⟩, rfl⟩
    · rintro ⟨l, ⟨count, closes⟩, rfl⟩
      have le := closes.length_le
      exact ⟨closes.chain_eq (by omega), by simp [count]⟩

end Chain

end Ring

namespace Registry

variable {r : Registry}

/-- Every shard's ring returns to its head, and every fiber met on the way hashes to the shard and
records the index of the link it was met at. -/
def Intact (r : Registry) : Prop :=
  ∀ i shard, r.shards[i]? = some shard → ∃ l, shard.ring.Returns l ∧
    ∀ e ∈ l, r.shardIndex e.2.fiber = i ∧ r.slots.get? e.2.fiber = some e.1

theorem verifyLink_eq_ok_iff {i : Nat} {entry : Nat × FiberId} :
    r.verifyLink i entry = .ok () ↔
      r.shardIndex entry.2 = i ∧ r.slots.get? entry.2 = some entry.1 := by
  simp only [verifyLink]
  split_ifs <;> simp_all

theorem verifyShard_eq_ok_iff {i : Nat} {shard : Shard}
    (hcount : shard.ring.count ≤ shard.ring.links.length) :
    r.verifyShard i shard = .ok () ↔ ∃ l, shard.ring.Returns l ∧
      ∀ e ∈ l, r.shardIndex e.2.fiber = i ∧ r.slots.get? e.2.fiber = some e.1 := by
  have counted : r.verifyShard i shard = .ok () ↔
      ∃ entries, (shard.ring.entries = .ok entries ∧ entries.length = shard.ring.count) ∧
        ∀ entry ∈ entries, r.verifyLink i entry = .ok () := by
    simp only [verifyShard, bind_eq_ok_iff, check_eq_ok_iff, forM_eq_ok_iff, ne_eq, not_not,
      and_assoc]
  simp only [counted, Ring.entries_eq_ok_iff hcount, verifyLink_eq_ok_iff]
  constructor
  · rintro ⟨_, ⟨l, returns, rfl⟩, links⟩
    exact ⟨l, returns, List.forall_mem_map.1 links⟩
  · rintro ⟨l, returns, links⟩
    exact ⟨_, ⟨l, returns, rfl⟩, List.forall_mem_map.2 links⟩

/-- Whatever a registry contains, as long as no count exceeds the length of the array of links:
the walk along each ring ends, and the check answers if the registry is intact and is a fault
otherwise. -/
theorem verify_eq_ok_iff_intact
    (hcount : ∀ shard ∈ r.shards, shard.ring.count ≤ shard.ring.links.length) :
    (∀ shard ∈ r.shards, ∀ head, shard.ring.head = some head →
        shard.ring.Ends head [] head shard.ring.entries) ∧
      (r.verify = .ok () ↔ r.Intact) ∧ (¬r.Intact → ∃ fault, r.verify = .error fault) := by
  have accepts : r.verify = .ok () ↔ r.Intact := by
    rw [verify, forM_eq_ok_iff]
    constructor
    · intro h i shard hshard
      have counted := hcount shard (List.mem_of_getElem? hshard)
      exact (verifyShard_eq_ok_iff counted).1 (h (shard, i) (List.mem_zipIdx_iff_getElem?.2 hshard))
    · rintro h ⟨shard, i⟩ hmem
      have hshard := List.mem_zipIdx_iff_getElem?.1 hmem
      have counted := hcount shard (List.mem_of_getElem? hshard)
      exact (verifyShard_eq_ok_iff counted).2 (h i shard hshard)
  refine ⟨fun shard _ head => Ring.ends_entries, accepts, fun corrupted => ?_⟩
  cases outcome : r.verify with
  | ok _ => exact absurd (accepts.1 outcome) corrupted
  | error fault => exact ⟨fault, rfl⟩

/-- Three fibers in a ring, and the same with the last link pointing to the second one, so that the
walk goes round without the head until it has met four links. -/
theorem verify_of_stray_cycle : ∃ ring stray : Registry,
    ring = ⟨[{ ring := { links := [some ⟨⟨0⟩, 1, 2⟩, some ⟨⟨8⟩, 2, 0⟩, some ⟨⟨16⟩, 0, 1⟩],
                         head := some 0, count := 3 } }], ⟨[(⟨0⟩, 0), (⟨8⟩, 1), (⟨16⟩, 2)]⟩⟩
      ∧ stray = ⟨[{ ring := { links := [some ⟨⟨0⟩, 1, 2⟩, some ⟨⟨8⟩, 2, 0⟩, some ⟨⟨16⟩, 1, 1⟩],
                              head := some 0, count := 3 } }], ⟨[(⟨0⟩, 0), (⟨8⟩, 1), (⟨16⟩, 2)]⟩⟩
      ∧ ring.Intact ∧ stray.verify = .error (.shardMiscounted 0 3 4) ∧ ¬stray.Intact := by
  refine ⟨_, _, rfl, rfl, ?intact, ?fault, ?corrupted⟩
  case intact => exact (verify_eq_ok_iff_intact (by decide)).2.1.1 rfl
  case fault => rfl
  case corrupted => exact fun intact => nomatch (verify_eq_ok_iff_intact (by decide)).2.1.2 intact

end Registry

end PooledFibers
