import Mathlib.Data.List.Forall2
import Mathlib.Data.List.Nodup
import Mathlib.Data.Nat.Bitwise
import Mathlib.Tactic.Common
import PooledFibers.Proofs.Registry.Shards

/-!
# The registry as plain lists

A `Roster` has one plain list of fibers for each shard: a fiber that is inserted is consed onto the
list of its shard, and one that is removed is erased from it. Under any sequence of insertions and
removals a registry and the roster of as many shards meet the same fault or both go on, and
whatever the registry answers can be read off the lists (`exists_shows_after`).
-/

namespace PooledFibers

open Outcome

/-- A change of who is registered. -/
inductive RegistryChange
  | insert (id : FiberId)
  | remove (id : FiberId)

namespace Registry

def change (r : Registry) : RegistryChange → Except Fault Registry
  | .insert id => r.insert id
  | .remove id => r.remove id

def after (r : Registry) : List RegistryChange → Except Fault Registry
  | [] => .ok r
  | change :: rest => do (← r.change change).after rest

end Registry

/-- The fibers of each shard, the latest inserted first. -/
structure Roster where
  lists : List (List FiberId)

namespace Roster

def ofShards (n : Nat) : Roster := ⟨List.replicate n []⟩

/-- All fibers, shard by shard. -/
def toList (l : Roster) : List FiberId := l.lists.flatten

/-- Fibers lie at multiples of eight, and neighbours belong to different shards. -/
def home (l : Roster) (id : FiberId) : Nat := id.address / 8 % l.lists.length

def change (l : Roster) : RegistryChange → Except Fault Roster
  | .insert id =>
    if id ∈ l.toList then .error (.alreadyRegistered id)
    else .ok ⟨l.lists.modify (l.home id) (id :: ·)⟩
  | .remove id =>
    if id ∈ l.toList then .ok ⟨l.lists.modify (l.home id) (·.erase id)⟩
    else .error (.notRegistered id)

def after (l : Roster) : List RegistryChange → Except Fault Roster
  | [] => .ok l
  | change :: rest => do (← l.change change).after rest

theorem fault_of_change {l : Roster} {change : RegistryChange} {fault : Fault}
    (h : l.change change = .error fault) :
    ∃ id, fault = .alreadyRegistered id ∨ fault = .notRegistered id := by
  cases change with
  | insert id =>
    simp only [Roster.change] at h
    split_ifs at h
    exact ⟨id, .inl (Except.error.inj h).symm⟩
  | remove id =>
    simp only [Roster.change] at h
    split_ifs at h
    exact ⟨id, .inr (Except.error.inj h).symm⟩

end Roster

namespace Registry

/-- What the registry answers is what the lists say; no answer is a fault. -/
structure Shows (r : Registry) (l : Roster) : Prop where
  shards : r.shards.length = l.lists.length
  shardIndex : ∀ id, r.shardIndex id = l.home id ∧ ∃ shard, r.shard (l.home id) = .ok shard
  home : ∀ i list, l.lists[i]? = some list → ∀ id ∈ list, l.home id = i
  nodup : l.toList.Nodup
  toList : r.toList = .ok l.toList
  contains : ∀ id, r.contains id = .ok (decide (id ∈ l.toList))
  find? : ∀ id, r.find? id = .ok (if id ∈ l.toList then some id else none)
  /-- A lookup that does not wait answers the same unless the shard is busy. -/
  tryFind? : ∀ id busy, busy (l.home id) = false →
    r.tryFind? id busy = .ok (if id ∈ l.toList then some id else none)
  counts : r.counts = l.lists.map List.length
  size : r.size = l.toList.length
  isEmpty : r.isEmpty = l.toList.isEmpty
  verify : r.verify = .ok ()

/-- The shards hold the lists, and there is a power of two of them. -/
def Carries (r : Registry) (l : Roster) : Prop :=
  ∃ ls, r.Holds ls ∧ l.lists = ls.map (·.map (·.2)) ∧ ∃ k, l.lists.length = 2 ^ k

variable {r r' : Registry} {l : Roster} {ls : List (List (Nat × FiberId))} {id : FiberId}

section Answers

theorem Holds.verifyShard_eq (h : r.Holds ls) {i : Nat} {shard : Shard}
    (hshard : r.shards[i]? = some shard) : r.verifyShard i shard = .ok () := by
  obtain ⟨hi, hget⟩ := List.getElem?_eq_some_iff.1 hshard
  have hi' : i < ls.length := h.rings.length_eq ▸ hi
  have hring : shard.ring.Holds ls[i] := hget ▸ h.rings.get hi hi'
  have hlist : ls[i]? = some ls[i] := List.getElem?_eq_getElem hi'
  simp only [verifyShard, hring.entries_eq, ok_bind, hring.count, ne_eq, not_true_eq_false,
    if_false]
  refine forM_eq_ok_iff.2 fun ⟨slot, id⟩ he => ?_
  have hhome := h.home i _ hlist _ he
  have hslot := (h.slot_iff id slot).2 ⟨_, hhome ▸ hlist, he⟩
  simp [verifyLink, hhome, hslot]

theorem Holds.verify_eq (h : r.Holds ls) : r.verify = .ok () :=
  forM_eq_ok_iff.2 fun _ hmem => h.verifyShard_eq (List.mem_zipIdx_iff_getElem?.1 hmem)

theorem Holds.counts_eq (h : r.Holds ls) : r.counts = ls.map List.length := by
  have hrings := h.rings
  clear h
  simp only [counts]
  generalize r.shards = shards at hrings ⊢
  induction hrings with
  | nil => rfl
  | cons hring _ ih => rw [List.map_cons, List.map_cons, hring.count, ih]

end Answers

namespace Carries

theorem mem_iff (h : r.Carries l) (id : FiberId) : id ∈ l.toList ↔ r.isRegistered id = true := by
  obtain ⟨ls, hholds, hl, -⟩ := h
  rw [isRegistered_iff, Roster.toList, hl, ← List.map_flatten]
  simp only [← hholds.mem_flatten_iff, List.mem_map, Prod.exists, exists_eq_right]

theorem length_eq (h : r.Carries l) : r.shards.length = l.lists.length := by
  obtain ⟨ls, hholds, hl, -⟩ := h
  rw [hl, List.length_map, hholds.rings.length_eq]

/-- The bits kept of an address are its remainder. -/
theorem shardIndex_eq (h : r.Carries l) (id : FiberId) : r.shardIndex id = l.home id := by
  have hlength := h.length_eq
  obtain ⟨-, -, -, k, hk⟩ := h
  rw [shardIndex, hlength, Roster.home, hk, Nat.and_two_pow_sub_one_eq_mod,
    Nat.shiftRight_eq_div_pow]
  rfl

theorem shows (h : r.Carries l) : r.Shows l := by
  have hindex := h.shardIndex_eq
  have hmem := h.mem_iff
  have hlength := h.length_eq
  obtain ⟨ls, hholds, hl, -⟩ := h
  have hsound : r.Sound := ⟨ls, hholds⟩
  have hfind : ∀ id, r.find? id = .ok (if id ∈ l.toList then some id else none) := fun id => by
    simp only [hsound.find?_eq id, hmem]
  have htoList : l.toList = ls.flatten.map (·.2) := by rw [Roster.toList, hl, List.map_flatten]
  have hcounts : r.counts = l.lists.map List.length := by
    rw [hholds.counts_eq, hl, List.map_map]
    exact List.map_congr_left fun l _ => (List.length_map _).symm
  have hsize : r.size = l.toList.length := by
    rw [size, hcounts, ← List.sum_eq_foldl_nat, ← List.length_flatten, Roster.toList]
  constructor
  case shards => exact hlength
  case shardIndex =>
    intro id
    obtain ⟨shard, -, hshard, -⟩ := hholds.exists_shard id
    exact ⟨hindex id, shard, hindex id ▸ hshard⟩
  case home =>
    intro i list hlist id hid
    rw [hl, List.getElem?_map, Option.map_eq_some_iff] at hlist
    obtain ⟨entries, hentries, rfl⟩ := hlist
    obtain ⟨e, he, rfl⟩ := List.mem_map.1 hid
    rw [← hindex, hholds.home i entries hentries e he]
  case nodup => exact htoList ▸ hholds.nodup_flatten
  case toList => exact htoList ▸ hholds.toList_eq
  case contains =>
    intro id
    have hfound := hfind id
    simp only [Registry.find?] at hfound
    obtain ⟨b, hb, hfound⟩ := bind_eq_ok_iff.1 hfound
    rw [hb]
    cases b <;> simp_all
  case find? => exact hfind
  case tryFind? =>
    intro id busy hbusy
    rw [Registry.tryFind?, hindex, hbusy]
    exact hfind id
  case counts => exact hcounts
  case size => exact hsize
  case isEmpty =>
    rw [Registry.isEmpty, hsize, Bool.eq_iff_iff]
    simp
  case verify => exact hholds.verify_eq

/-- A shard's list is exchanged as the plain one is modified. -/
theorem of_set {entries entries' : List (Nat × FiberId)} {f : List FiberId → List FiberId}
    {i : Nat} (h : r'.Holds (ls.set i entries')) (hl : l.lists = ls.map (·.map (·.2)))
    (hk : ∃ k, l.lists.length = 2 ^ k) (hentries : ls[i]? = some entries)
    (hf : entries'.map (·.2) = f (entries.map (·.2))) :
    r'.Carries ⟨l.lists.modify i f⟩ := by
  refine ⟨_, h, ?_, by simpa using hk⟩
  rw [List.modify_eq_set_getElem?, hl, List.getElem?_map, hentries, List.map_set, hf]
  rfl

theorem exists_insert (h : r.Carries l) (hid : id ∉ l.toList) :
    ∃ r', r.insert id = .ok r' ∧ r'.Carries ⟨l.lists.modify (l.home id) (id :: ·)⟩ := by
  have hindex := h.shardIndex_eq id
  rw [h.mem_iff, Bool.not_eq_true] at hid
  obtain ⟨ls, hholds, hl, hk⟩ := h
  obtain ⟨slot, r', entries, hinsert, -, hentries, hholds'⟩ := hholds.exists_insert hid
  rw [hindex] at hentries hholds'
  exact ⟨r', hinsert, of_set hholds' hl hk hentries rfl⟩

theorem exists_remove (h : r.Carries l) (hid : id ∈ l.toList) :
    ∃ r', r.remove id = .ok r' ∧ r'.Carries ⟨l.lists.modify (l.home id) (·.erase id)⟩ := by
  have hindex := h.shardIndex_eq id
  rw [h.mem_iff] at hid
  obtain ⟨ls, hholds, hl, hk⟩ := h
  obtain ⟨slot, r', l₁, l₂, hremove, -, hentries, hholds'⟩ := hholds.exists_remove hid
  rw [hindex] at hentries hholds'
  have hnodup := hholds.nodup_flatten
  rw [List.map_flatten, List.nodup_flatten] at hnodup
  have hfibers := hnodup.1 _ (List.mem_map_of_mem (List.mem_of_getElem? hentries))
  rw [List.map_append, List.map_cons, List.nodup_middle, List.nodup_cons, List.mem_append,
    not_or] at hfibers
  refine ⟨r', hremove, of_set hholds' hl hk hentries ?_⟩
  rw [List.map_append, List.map_append, List.map_cons, List.erase_append_right _ hfibers.1.1,
    List.erase_cons_head]

/-- The registry and the lists take a change, or refuse it for the same reason. -/
theorem change_cases (h : r.Carries l) (change : RegistryChange) :
    (∃ r' l', r.change change = .ok r' ∧ l.change change = .ok l' ∧ r'.Carries l')
      ∨ ∃ fault, r.change change = .error fault ∧ l.change change = .error fault := by
  cases change with
  | insert id =>
    by_cases hid : id ∈ l.toList
    · have hreg := (h.mem_iff id).1 hid
      obtain ⟨ls, hholds, -⟩ := h
      exact .inr ⟨_, hholds.insert_eq_error hreg, if_pos hid⟩
    · obtain ⟨r', hinsert, hcarries⟩ := h.exists_insert hid
      exact .inl ⟨r', _, hinsert, if_neg hid, hcarries⟩
  | remove id =>
    by_cases hid : id ∈ l.toList
    · obtain ⟨r', hremove, hcarries⟩ := h.exists_remove hid
      exact .inl ⟨r', _, hremove, if_pos hid, hcarries⟩
    · have hnot : r.isRegistered id = false := by rwa [h.mem_iff, Bool.not_eq_true] at hid
      obtain ⟨ls, hholds, -⟩ := h
      exact .inr ⟨_, hholds.remove_eq_error hnot, if_neg hid⟩

theorem after_cases (h : r.Carries l) (changes : List RegistryChange) :
    (∃ r' l', r.after changes = .ok r' ∧ l.after changes = .ok l' ∧ r'.Carries l')
      ∨ ∃ fault, r.after changes = .error fault ∧ l.after changes = .error fault
        ∧ ∃ id, fault = .alreadyRegistered id ∨ fault = .notRegistered id := by
  induction changes generalizing r l with
  | nil => exact .inl ⟨r, l, rfl, rfl, h⟩
  | cons change rest ih =>
    obtain ⟨r', l', hr, hl, h'⟩ | ⟨fault, hr, hl⟩ := h.change_cases change
    · simp only [after, Roster.after, hr, hl, ok_bind]
      exact ih h'
    · simp only [after, Roster.after, hr, hl, error_bind]
      exact .inr ⟨fault, rfl, rfl, Roster.fault_of_change hl⟩

end Carries

/-- A power of two of empty shards can be made. -/
theorem exists_carries_ofShards (k : Nat) :
    ∃ r, ofShards (2 ^ k) = .ok r ∧ r.Carries (.ofShards (2 ^ k)) := by
  have hpower : Word.isPowerOfTwo (2 ^ k) = true := by
    simp [Word.isPowerOfTwo, Nat.and_two_pow_sub_one_eq_mod]
  have hr : ofShards (2 ^ k) = .ok { shards := List.replicate (2 ^ k) {} } := if_pos hpower
  refine ⟨_, hr, _, holds_ofShards hr, ?_, k, ?_⟩ <;> simp [Roster.ofShards]

/-- Whatever is inserted and removed, the registry shows what the plain lists hold, or it meets the
same fault: a fiber is inserted twice, or removed though it is not there. -/
theorem exists_shows_after (k : Nat) (changes : List RegistryChange) :
    ∃ r₀, ofShards (2 ^ k) = .ok r₀
      ∧ ((∃ r l, r₀.after changes = .ok r ∧ (Roster.ofShards (2 ^ k)).after changes = .ok l
          ∧ r.Shows l)
        ∨ ∃ fault, r₀.after changes = .error fault
          ∧ (Roster.ofShards (2 ^ k)).after changes = .error fault
          ∧ ∃ id, fault = .alreadyRegistered id ∨ fault = .notRegistered id) := by
  obtain ⟨r₀, hr₀, hcarries⟩ := exists_carries_ofShards k
  refine ⟨r₀, hr₀, ?_⟩
  obtain ⟨r, l, hr, hl, hcarries'⟩ | hfault := hcarries.after_cases changes
  · exact .inl ⟨r, l, hr, hl, hcarries'.shows⟩
  · exact .inr hfault

end Registry

end PooledFibers
