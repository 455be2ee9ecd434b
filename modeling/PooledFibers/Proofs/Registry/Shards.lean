import Mathlib.Data.List.Forall2
import Mathlib.Data.List.Nodup
import Mathlib.Data.List.Perm.Basic
import Mathlib.Tactic.Common
import PooledFibers.Proofs.Outcome
import PooledFibers.Proofs.Registry.Ring
import PooledFibers.Registry.Basic

/-!
# What the registry holds

`Registry.Holds r ls` says that the shards of `r` hold the lists `ls`, each fiber in the shard of
its address, and that the index table knows where. `insert` puts a fiber in front of its shard's
list (`Holds.exists_insert`) and `remove` takes it out (`Holds.exists_remove`); the only faults are
a second insertion and the removal of a stranger. Lookups, traversals and the links themselves all
agree on who is registered.
-/

namespace PooledFibers.Registry

open Outcome

/-- The entries of the shards, shard by shard. -/
structure Holds (r : Registry) (ls : List (List (Nat × FiberId))) : Prop where
  rings : List.Forall₂ (fun shard l => shard.ring.Holds l) r.shards ls
  shards_pos : 0 < r.shards.length
  home : ∀ i l, ls[i]? = some l → ∀ e ∈ l, r.shardIndex e.2 = i
  slot_iff : ∀ id slot, r.slots.get? id = some slot
    ↔ ∃ l, ls[r.shardIndex id]? = some l ∧ (slot, id) ∈ l

def Sound (r : Registry) : Prop := ∃ ls, r.Holds ls

theorem holds_ofShards {r : Registry} {n : Nat} (h : ofShards n = .ok r) :
    r.Holds (List.replicate n []) := by
  simp only [ofShards, Word.isPowerOfTwo, Bool.and_eq_true, bne_iff_ne] at h
  split_ifs at h with hn
  simp only [Except.ok.injEq] at h
  subst h
  refine ⟨?_, by simpa using Nat.pos_of_ne_zero hn.1, ?_, ?_⟩
  · rw [List.forall₂_iff_get]
    refine ⟨by simp, fun i h₁ h₂ => ?_⟩
    simpa using Ring.holds_empty
  · intro i l hl
    simp only [List.getElem?_replicate] at hl
    grind
  · intro id slot
    simp only [Table.get?_empty, List.getElem?_replicate]
    grind

variable {r r' : Registry} {ls : List (List (Nat × FiberId))} {id : FiberId} {slot : Nat}

theorem shardIndex_lt (h : 0 < r.shards.length) (id : FiberId) :
    r.shardIndex id < r.shards.length := by
  have : r.shardIndex id ≤ r.shards.length - 1 := Nat.and_le_right
  omega

theorem isRegistered_iff : r.isRegistered id = true ↔ ∃ slot, r.slots.get? id = some slot := by
  simp [isRegistered, Table.contains, Option.isSome_iff_exists]

theorem Holds.exists_shard (h : r.Holds ls) (id : FiberId) :
    ∃ shard l, r.shard (r.shardIndex id) = .ok shard ∧ r.shards[r.shardIndex id]? = some shard
      ∧ ls[r.shardIndex id]? = some l ∧ shard.ring.Holds l := by
  have hi := shardIndex_lt h.shards_pos id
  have hi' : r.shardIndex id < ls.length := h.rings.length_eq ▸ hi
  refine ⟨r.shards[r.shardIndex id], ls[r.shardIndex id], ?_, List.getElem?_eq_getElem hi,
    List.getElem?_eq_getElem hi', h.rings.get hi hi'⟩
  simp [shard, hi]

theorem forall₂_set {α β : Type} {R : α → β → Prop} {as : List α} {bs : List β} {a : α} {b : β}
    (h : List.Forall₂ R as bs) (hab : R a b) (i : Nat) :
    List.Forall₂ R (as.set i a) (bs.set i b) := by
  induction h generalizing i with
  | nil => exact .nil
  | cons h ht ih =>
    cases i with
    | zero => exact .cons hab ht
    | succ i => exact .cons h (ih i)

/-- The list of one fiber's shard is exchanged, and the index table follows. -/
theorem Holds.setShard (h : r.Holds ls) {shard : Shard} {l l' : List (Nat × FiberId)}
    (hl : ls[r.shardIndex id]? = some l) (hring : shard.ring.Holds l')
    (hhome : ∀ e ∈ l', e.2 = id ∨ e ∈ l) {slots : Table FiberId Nat}
    (hslots : ∀ j slot, slots.get? j = some slot
      ↔ if r.shardIndex j = r.shardIndex id then (slot, j) ∈ l' else r.slots.get? j = some slot) :
    { r.setShard (r.shardIndex id) shard with slots }.Holds (ls.set (r.shardIndex id) l') := by
  have hindex : ∀ j, { r.setShard (r.shardIndex id) shard with slots }.shardIndex j
      = r.shardIndex j := fun j => by simp [shardIndex, Registry.setShard]
  have hlt : r.shardIndex id < ls.length := (List.getElem?_eq_some_iff.1 hl).1
  refine ⟨forall₂_set h.rings hring _, by simpa [Registry.setShard] using h.shards_pos, ?_, ?_⟩
  · intro i l'' hi e he
    rw [List.getElem?_set] at hi
    split_ifs at hi with hij
    · obtain rfl : l' = l'' := by simpa using hi
      subst hij
      rcases hhome e he with hid | he
      · rw [hid, hindex]
      · rw [hindex, h.home _ l hl e he]
    · rw [hindex, h.home i l'' hi e he]
  · intro j slot
    rw [hindex, hslots, List.getElem?_set]
    by_cases hj : r.shardIndex j = r.shardIndex id
    · simp [hj, hlt]
    · rw [if_neg hj, if_neg (Ne.symm hj), h.slot_iff]

section Insert

theorem Holds.exists_insert (h : r.Holds ls) (hid : r.isRegistered id = false) :
    ∃ slot r' l, r.insert id = .ok r' ∧ r'.slots = r.slots.insert id slot
      ∧ ls[r.shardIndex id]? = some l
      ∧ r'.Holds (ls.set (r.shardIndex id) ((slot, id) :: l)) := by
  obtain ⟨shard, l, hshard, -, hl, hring⟩ := h.exists_shard id
  obtain ⟨slot, ring, hpush, hring⟩ := hring.exists_push id
  have hfresh : ∀ slot, (slot, id) ∉ l := fun slot he => by
    have := (h.slot_iff id slot).2 ⟨l, hl, he⟩
    rw [Bool.eq_false_iff, ne_eq, isRegistered_iff] at hid
    exact hid ⟨slot, this⟩
  refine ⟨slot, { r.setShard (r.shardIndex id) { shard with ring } with
    slots := r.slots.insert id slot }, l, by simp [insert, hshard, hid, hpush], rfl, hl, ?_⟩
  refine h.setShard hl hring (fun e he => ?_) fun j k => ?_
  · rcases List.mem_cons.1 he with rfl | he
    · exact .inl rfl
    · exact .inr he
  · rw [Table.get?_insert]
    by_cases hj : j = id
    · subst hj
      simp [hfresh, eq_comm]
    · rw [if_neg hj]
      split_ifs with hindex
      · rw [h.slot_iff, hindex, hl]
        simp [hj]
      · rfl

theorem Holds.insert_eq_error (h : r.Holds ls) (hid : r.isRegistered id = true) :
    r.insert id = .error (.alreadyRegistered id) := by
  obtain ⟨shard, -, hshard, -⟩ := h.exists_shard id
  simp [insert, hshard, hid]

theorem Sound.insert (h : r.Sound) (hr : r.insert id = .ok r') :
    r'.Sound ∧ r.isRegistered id = false
      ∧ ∀ j, r'.isRegistered j = (decide (j = id) || r.isRegistered j) := by
  obtain ⟨ls, h⟩ := h
  cases hid : r.isRegistered id with
  | true =>
    rw [h.insert_eq_error hid] at hr
    simp at hr
  | false =>
    obtain ⟨slot, r₁, l, hr', hslots, -, h'⟩ := h.exists_insert hid
    obtain rfl : r₁ = r' := Except.ok.inj (hr'.symm.trans hr)
    refine ⟨⟨_, h'⟩, rfl, fun j => ?_⟩
    by_cases hj : j = id <;> simp [isRegistered, Table.contains, hslots, hj]

end Insert

section Remove

theorem Holds.exists_remove (h : r.Holds ls) (hid : r.isRegistered id = true) :
    ∃ slot r' l₁ l₂, r.remove id = .ok r' ∧ r'.slots = r.slots.erase id
      ∧ ls[r.shardIndex id]? = some (l₁ ++ (slot, id) :: l₂)
      ∧ r'.Holds (ls.set (r.shardIndex id) (l₁ ++ l₂)) := by
  obtain ⟨slot, hslot⟩ := isRegistered_iff.1 hid
  obtain ⟨shard, l, hshard, -, hl, hring⟩ := h.exists_shard id
  obtain ⟨l', hl', he⟩ := (h.slot_iff id slot).1 hslot
  obtain rfl : l = l' := Option.some.inj (hl.symm.trans hl')
  obtain ⟨k, hlink, hfiber⟩ := hring.link_iff.2 he
  obtain ⟨l₁, l₂, rfl⟩ := List.append_of_mem he
  obtain ⟨ring, hunlink, hring'⟩ := hring.exists_unlink
  have hgone : slot ∉ (l₁ ++ l₂).map (·.1) := by
    have := ((List.perm_middle (a := (slot, id))).map (·.1)).nodup_iff.1 hring.nodup
    exact (List.nodup_cons.1 this).1
  refine ⟨slot, { r.setShard (r.shardIndex id) { shard with ring } with
    slots := r.slots.erase id }, l₁, l₂,
    by simp [remove, hshard, hslot, hlink, hfiber, hunlink], rfl, hl, ?_⟩
  have hsub : ∀ e, e ∈ l₁ ++ (slot, id) :: l₂ ↔ e = (slot, id) ∨ e ∈ l₁ ++ l₂ := fun e => by
    rw [List.perm_middle.mem_iff, List.mem_cons]
  refine h.setShard hl hring' (fun e he => .inr ((hsub e).2 (.inr he))) fun j k => ?_
  rw [Table.get?_erase]
  by_cases hj : j = id
  · subst hj
    refine iff_of_false (by simp) fun hk => ?_
    rw [if_pos rfl] at hk
    have := (h.slot_iff j k).2 ⟨_, hl, (hsub _).2 (.inr hk)⟩
    obtain rfl : slot = k := Option.some.inj (hslot.symm.trans this)
    exact hgone (List.mem_map_of_mem hk)
  · rw [if_neg hj]
    split_ifs with hindex
    · rw [h.slot_iff, hindex, hl]
      simp [hsub, hj]
    · rfl

theorem Holds.remove_eq_error (h : r.Holds ls) (hid : r.isRegistered id = false) :
    r.remove id = .error (.notRegistered id) := by
  obtain ⟨shard, -, hshard, -⟩ := h.exists_shard id
  have hslot : r.slots.get? id = none := by
    simpa [isRegistered, Table.contains] using hid
  simp [remove, hshard, hslot]

theorem Sound.remove (h : r.Sound) (hr : r.remove id = .ok r') :
    r'.Sound ∧ r.isRegistered id = true
      ∧ ∀ j, r'.isRegistered j = (!decide (j = id) && r.isRegistered j) := by
  obtain ⟨ls, h⟩ := h
  cases hid : r.isRegistered id with
  | false =>
    rw [h.remove_eq_error hid] at hr
    simp at hr
  | true =>
    obtain ⟨slot, r₁, l₁, l₂, hr', hslots, -, h'⟩ := h.exists_remove hid
    obtain rfl : r₁ = r' := Except.ok.inj (hr'.symm.trans hr)
    refine ⟨⟨_, h'⟩, rfl, fun j => ?_⟩
    by_cases hj : j = id <;> simp [isRegistered, Table.contains, hslots, hj]

end Remove

section Lookup

theorem Holds.toList_eq (h : r.Holds ls) :
    r.toList = .ok (ls.flatten.map (·.2)) := by
  have hmap : r.shards.mapM (fun shard => shard.ring.toList) = .ok (ls.map (·.map (·.2))) := by
    have hrings := h.rings
    clear h
    generalize r.shards = shards at hrings ⊢
    induction hrings with
    | nil => rfl
    | cons hring hrest ih => simp [hring.toList_eq, ih]
  simp [toList, hmap, List.map_flatten]

theorem Holds.mem_flatten_iff (h : r.Holds ls) :
    (slot, id) ∈ ls.flatten ↔ r.slots.get? id = some slot := by
  rw [h.slot_iff, List.mem_flatten]
  constructor
  · rintro ⟨l, hl, he⟩
    obtain ⟨i, hi⟩ := List.mem_iff_getElem?.1 hl
    obtain rfl : r.shardIndex id = i := h.home i l hi _ he
    exact ⟨l, hi, he⟩
  · rintro ⟨l, hl, he⟩
    exact ⟨l, List.mem_of_getElem? hl, he⟩

theorem Holds.nodup_flatten (h : r.Holds ls) : (ls.flatten.map (·.2)).Nodup := by
  have hentries : ls.flatten.Nodup := by
    rw [List.nodup_flatten, List.pairwise_iff_getElem]
    constructor
    · intro l hl
      obtain ⟨i, hi, rfl⟩ := List.getElem_of_mem hl
      have hring := h.rings.get (h.rings.length_eq ▸ hi) hi
      exact List.Nodup.of_map _ hring.nodup
    · intro i j hi hj hij e hei hej
      have := h.home i _ (List.getElem?_eq_getElem hi) e hei
      have := h.home j _ (List.getElem?_eq_getElem hj) e hej
      omega
  refine hentries.map_on ?_
  rintro ⟨i, id⟩ hi ⟨j, id'⟩ hj (rfl : id = id')
  rw [h.mem_flatten_iff] at hi hj
  obtain rfl : i = j := Option.some.inj (hi.symm.trans hj)
  rfl

/-- A traversal meets each registered fiber once. -/
theorem Sound.exists_toList (h : r.Sound) :
    ∃ fibers, r.toList = .ok fibers ∧ fibers.Nodup
      ∧ ∀ id, id ∈ fibers ↔ r.isRegistered id = true := by
  obtain ⟨ls, h⟩ := h
  refine ⟨_, h.toList_eq, h.nodup_flatten, fun id => ?_⟩
  simp only [isRegistered_iff, ← h.mem_flatten_iff, List.mem_map, Prod.exists, exists_eq_right]

theorem Sound.find?_eq (h : r.Sound) (id : FiberId) :
    r.find? id = .ok (if r.isRegistered id then some id else none) := by
  obtain ⟨ls, h⟩ := h
  obtain ⟨shard, l, hshard, -, hl, hring⟩ := h.exists_shard id
  have hmem : r.isRegistered id = (l.map (·.2)).contains id := by
    rw [Bool.eq_iff_iff, isRegistered_iff]
    simp only [h.slot_iff, hl, Option.some.injEq, exists_eq_left', List.contains_iff_mem,
      List.mem_map, Prod.exists, exists_eq_right]
  simp only [find?, contains, hshard, ok_bind, hring.toList_eq, pure_eq_ok, hmem]

/-- The link at an index of a shard is one of the fiber's. -/
def LinkedAt (r : Registry) (id : FiberId) (i slot : Nat) : Prop :=
  ∃ shard k, r.shards[i]? = some shard ∧ shard.ring.link slot = .ok k ∧ k.fiber = id

theorem Holds.linkedAt_iff (h : r.Holds ls) {i : Nat} :
    r.LinkedAt id i slot ↔ i = r.shardIndex id ∧ r.slots.get? id = some slot := by
  constructor
  · rintro ⟨shard, k, hshard, hlink, hfiber⟩
    obtain ⟨hi, rfl⟩ := List.getElem?_eq_some_iff.1 hshard
    have hi' : i < ls.length := h.rings.length_eq ▸ hi
    have he := (h.rings.get hi hi').link_iff.1 ⟨k, hlink, hfiber⟩
    refine ⟨(h.home i _ (List.getElem?_eq_getElem hi') _ he).symm, ?_⟩
    exact h.mem_flatten_iff.1 (List.mem_flatten.2 ⟨_, List.getElem_mem hi', he⟩)
  · rintro ⟨rfl, hslot⟩
    obtain ⟨shard, l, -, hshard, hl, hring⟩ := h.exists_shard id
    obtain ⟨l', hl', he⟩ := (h.slot_iff id slot).1 hslot
    obtain rfl : l = l' := Option.some.inj (hl.symm.trans hl')
    obtain ⟨k, hlink, hfiber⟩ := hring.link_iff.2 he
    exact ⟨shard, k, hshard, hlink, hfiber⟩

/-- A fiber's record and its links are what they were. -/
structure KeepsPlace (r : Registry) (id : FiberId) (r' : Registry) : Prop where
  slot : r'.slots.get? id = r.slots.get? id
  linkedAt : ∀ i slot, r'.LinkedAt id i slot ↔ r.LinkedAt id i slot

theorem KeepsPlace.refl (r : Registry) (id : FiberId) : r.KeepsPlace id r := ⟨rfl, fun _ _ => .rfl⟩

theorem KeepsPlace.trans {r'' : Registry} (h : r.KeepsPlace id r') (h' : r'.KeepsPlace id r'') :
    r.KeepsPlace id r'' :=
  ⟨h'.slot.trans h.slot, fun i slot => (h'.linkedAt i slot).trans (h.linkedAt i slot)⟩

theorem Holds.keepsPlace {ls' : List (List (Nat × FiberId))} (h : r.Holds ls) (h' : r'.Holds ls')
    (hlength : ls'.length = ls.length) (hslot : r'.slots.get? id = r.slots.get? id) :
    r.KeepsPlace id r' := by
  refine ⟨hslot, fun i slot => ?_⟩
  have hshards : r'.shards.length = r.shards.length := by
    rw [h'.rings.length_eq, h.rings.length_eq, hlength]
  rw [h'.linkedAt_iff, h.linkedAt_iff, hslot, shardIndex, shardIndex, hshards]

/-- Whoever is inserted, the others stay where they are. -/
theorem Sound.keepsPlace_of_insert (h : r.Sound) (hr : r.insert id = .ok r') {j : FiberId}
    (hj : j ≠ id) : r.KeepsPlace j r' := by
  have hid := (h.insert hr).2.1
  obtain ⟨ls, h⟩ := h
  obtain ⟨slot, r₁, l, hr', hslots, -, h'⟩ := h.exists_insert hid
  obtain rfl : r₁ = r' := Except.ok.inj (hr'.symm.trans hr)
  exact h.keepsPlace h' List.length_set (by rw [hslots, Table.get?_insert, if_neg hj])

theorem Sound.keepsPlace_of_remove (h : r.Sound) (hr : r.remove id = .ok r') {j : FiberId}
    (hj : j ≠ id) : r.KeepsPlace j r' := by
  have hid := (h.remove hr).2.1
  obtain ⟨ls, h⟩ := h
  obtain ⟨slot, r₁, l₁, l₂, hr', hslots, -, h'⟩ := h.exists_remove hid
  obtain rfl : r₁ = r' := Except.ok.inj (hr'.symm.trans hr)
  exact h.keepsPlace h' List.length_set (by rw [hslots, Table.get?_erase, if_neg hj])

/-- A registered fiber has one link in all shards, and any other none. -/
theorem Sound.existsUnique_linkedAt (h : r.Sound) (id : FiberId) :
    r.isRegistered id = true ↔ ∃! p : Nat × Nat, r.LinkedAt id p.1 p.2 := by
  obtain ⟨ls, h⟩ := h
  simp only [isRegistered_iff, h.linkedAt_iff]
  constructor
  · rintro ⟨slot, hslot⟩
    refine ⟨(r.shardIndex id, slot), ⟨rfl, hslot⟩, ?_⟩
    rintro ⟨i, j⟩ ⟨hi, hj⟩
    exact Prod.ext hi (Option.some.inj (hj.symm.trans hslot))
  · rintro ⟨p, ⟨-, hslot⟩, -⟩
    exact ⟨p.2, hslot⟩

end Lookup

end PooledFibers.Registry
