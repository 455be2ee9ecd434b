import Mathlib.Data.List.Dedup
import Mathlib.Data.List.Nodup
import Mathlib.Tactic.Common
import PooledFibers.Proofs.Registry.Roster

/-!
# Scan rounds

In a round any number of scanners share the shards out among themselves, in calls that follow each
other in any order, while fibers come and go between the calls. `Round.Fair` says that each shard
attempted is visited once and each fiber passed on at most once. A call wins the shards that it
tries for and that are not yet tagged (`Registry.Carries.exists_scanBy`).
-/

namespace PooledFibers

open Outcome

/-- What a scanner calls in a round: it tries for one shard, or for each of them in turn. -/
inductive ScanCall
  | shard (i : Nat)
  | all

/-- The shards tried for, of `n` in all. -/
def ScanCall.attempts (n : Nat) : ScanCall → List Nat
  | .shard i => [i]
  | .all => List.range n

theorem ScanCall.nodup_attempts (n : Nat) (call : ScanCall) : (call.attempts n).Nodup := by
  cases call with
  | shard i => exact List.nodup_singleton i
  | all => exact List.nodup_range

namespace Registry

def scanBy (r : Registry) (parity : Nat) : ScanCall → Except Fault (Scan × Registry)
  | .shard i => do
    let (visited?, r) ← r.scanShard i parity
    match visited? with
    | some fibers => pure (⟨1, fibers⟩, r)
    | none => pure (⟨0, []⟩, r)
  | .all => r.scan parity

/-- A shard and its fibers, if a scanner that tries for it would win it now. -/
def offer? (r : Registry) (parity i : Nat) : Option (Nat × List FiberId) :=
  match r.scanShard i parity with
  | .ok (some fibers, _) => some (i, fibers)
  | _ => none

def visits (r : Registry) (parity : Nat) (attempts : List Nat) : List (Nat × List FiberId) :=
  attempts.filterMap (r.offer? parity)

/-- The registries that there can be: fibers come and go, and shards are claimed and scanned in
rounds of any parity. -/
inductive Reachable : Registry → Prop
  | made {k r} (h : ofShards (2 ^ k) = .ok r) : Reachable r
  | change {r r' change} (h : Reachable r) (hr : r.change change = .ok r') : Reachable r'
  | claim {r i shard parity won shard'} (h : Reachable r) (hi : r.shard i = .ok shard)
    (hr : shard.claim parity = .ok (won, shard')) : Reachable (r.setShard i shard')
  | scan {r r' parity call scan} (h : Reachable r) (hr : r.scanBy parity call = .ok (scan, r')) :
    Reachable r'

end Registry

structure ScanRecord where
  call : ScanCall
  /-- What the shards had to give when the call was made. -/
  visits : List (Nat × List FiberId)
  answer : Scan

inductive RoundStep
  | change (change : RegistryChange)
  | scan (call : ScanCall)

/-- The changes among the steps of a round. -/
def RoundStep.change? : RoundStep → Option RegistryChange
  | .change c => some c
  | .scan _ => none

structure Round where
  registry : Registry
  /-- The calls made so far, the latest first. -/
  records : List ScanRecord := []

namespace Round

def perform (round : Round) (parity : Nat) : RoundStep → Except Fault Round
  | .change change => do pure { round with registry := ← round.registry.change change }
  | .scan call => do
    let (answer, registry) ← round.registry.scanBy parity call
    let visits := round.registry.visits parity (call.attempts round.registry.shards.length)
    pure ⟨registry, ⟨call, visits, answer⟩ :: round.records⟩

def after (round : Round) (parity : Nat) : List RoundStep → Except Fault Round
  | [] => .ok round
  | step :: rest => do (← round.perform parity step).after parity rest

def visits (round : Round) : List (Nat × List FiberId) := round.records.flatMap (·.visits)

def attempted (round : Round) : List Nat :=
  round.records.flatMap fun record => record.call.attempts round.registry.shards.length

/-- The fibers passed to the scanners' callbacks. -/
def passed (round : Round) : List FiberId := round.records.flatMap (·.answer.visited)

/-- `stays` are the fibers registered throughout the round. -/
structure Fair (round : Round) (stays : FiberId → Prop) : Prop where
  /-- A call answers how many shards it won and passes on the fibers of these, shard by shard. -/
  answers : ∀ record ∈ round.records,
    record.answer = ⟨record.visits.length, record.visits.flatMap (·.2)⟩
  visits_nodup : (round.visits.map (·.1)).Nodup
  visits_iff : ∀ i, i ∈ round.visits.map (·.1) ↔ i ∈ round.attempted
  claimed : (round.records.map (·.answer.claimed)).sum = round.attempted.dedup.length
  passed_nodup : round.passed.Nodup
  passed_once : ∀ id, stays id → round.registry.shardIndex id ∈ round.attempted →
    round.passed.count id = 1

end Round

/-- The shard after a call of the round has tried for it. -/
def Shard.tagged (parity : Nat) (s : Shard) : Shard := { s with parity }

theorem Shard.visit_eq {s : Shard} {parity : Nat} {fibers : List FiberId} (hp : parity ≠ 0)
    (hs : s.ring.toList = .ok fibers) :
    s.visit parity = .ok (if s.parity = parity then none else some fibers, s.tagged parity) := by
  simp only [visit, claim, if_neg hp]
  split_ifs with htag
  · subst htag
    rfl
  · simp only [ok_bind, hs, if_true]
    rfl

namespace Registry

variable {r r' : Registry} {l : Roster} {parity i : Nat} {shard : Shard} {fibers : List FiberId}

section Rings

theorem Carries.exists_list (h : r.Carries l) (hi : r.shards[i]? = some shard) :
    ∃ fibers, l.lists[i]? = some fibers ∧ shard.ring.toList = .ok fibers := by
  obtain ⟨ls, hholds, hl, -⟩ := h
  obtain ⟨hlt, rfl⟩ := List.getElem?_eq_some_iff.1 hi
  have hlt' : i < ls.length := hholds.rings.length_eq ▸ hlt
  refine ⟨ls[i].map (·.2), ?_, (hholds.rings.get hlt hlt').toList_eq⟩
  rw [hl, List.getElem?_map, List.getElem?_eq_getElem hlt', Option.map_some]

/-- The tags of the shards have no part in who is registered. -/
theorem Carries.of_rings (h : r.Carries l) (hslots : r'.slots = r.slots)
    (hrings : r'.shards.map (·.ring) = r.shards.map (·.ring)) : r'.Carries l := by
  obtain ⟨ls, hholds, hl, hk⟩ := h
  have hlength : r'.shards.length = r.shards.length := by
    simpa using congrArg List.length hrings
  have hindex : ∀ id, r'.shardIndex id = r.shardIndex id := fun id => by
    rw [shardIndex, shardIndex, hlength]
  refine ⟨ls, ⟨?_, hlength ▸ hholds.shards_pos, ?_, ?_⟩, hl, hk⟩
  · have hheld := hholds.rings
    rw [← List.forall₂_map_left_iff (R := fun ring l => Ring.Holds ring l)] at hheld ⊢
    rwa [hrings]
  · simpa only [hindex] using hholds.home
  · simpa only [hindex, hslots] using hholds.slot_iff

end Rings

section Scans

/-- The latest round in which a shard was claimed. -/
def tag? (r : Registry) (i : Nat) : Option Nat := (r.shards[i]?).map (·.parity)

/-- The registries differ in the tags of the shards tried for at most. -/
structure Tagged (r : Registry) (parity : Nat) (attempts : List Nat) (r' : Registry) : Prop where
  slots : r'.slots = r.slots
  get? : ∀ i, r'.shards[i]?
    = (r.shards[i]?).map fun s => if i ∈ attempts then s.tagged parity else s

variable {attempts : List Nat}

theorem Tagged.rings (h : r.Tagged parity attempts r') :
    r'.shards.map (·.ring) = r.shards.map (·.ring) := by
  refine List.ext_getElem? fun i => ?_
  rw [List.getElem?_map, List.getElem?_map, h.get?, Option.map_map]
  congr 1
  funext s
  simp only [Function.comp]
  split_ifs <;> rfl

theorem Tagged.carries (h : r.Tagged parity attempts r') (hr : r.Carries l) : r'.Carries l :=
  hr.of_rings h.slots h.rings

theorem Tagged.length (h : r.Tagged parity attempts r') :
    r'.shards.length = r.shards.length := by
  simpa using congrArg List.length h.rings

theorem Tagged.tag? (h : r.Tagged parity attempts r') (hi : i < r.shards.length) :
    r'.tag? i = if i ∈ attempts then some parity else r.tag? i := by
  simp only [Registry.tag?, h.get?, List.getElem?_eq_getElem hi, Option.map_some]
  split_ifs <;> rfl

theorem Carries.scanShard_eq (h : r.Carries l) (hp : parity ≠ 0) (hi : i < r.shards.length) :
    r.scanShard i parity = .ok
      (if r.tag? i = some parity then none else some (l.lists.getD i []),
        r.setShard i (r.shards[i].tagged parity)) := by
  obtain ⟨fibers, hfibers, htoList⟩ := h.exists_list (List.getElem?_eq_getElem hi)
  simp only [scanShard, shard, List.getElem?_eq_getElem hi, ok_bind, Shard.visit_eq hp htoList,
    Registry.tag?, List.getD_eq_getElem?_getD, hfibers, Option.map_some, Option.some.injEq,
    Option.getD_some, pure_eq_ok]

theorem Carries.offer?_eq (h : r.Carries l) (hp : parity ≠ 0) (hi : i < r.shards.length) :
    r.offer? parity i
      = if r.tag? i = some parity then none else some (i, l.lists.getD i []) := by
  rw [offer?, h.scanShard_eq hp hi]
  split_ifs <;> rfl

/-- The shards not yet tagged are those that there are to win. -/
theorem Carries.visits_eq (h : r.Carries l) (hp : parity ≠ 0)
    (hin : ∀ i ∈ attempts, i < r.shards.length) :
    r.visits parity attempts
      = (attempts.filter fun i => r.tag? i ≠ some parity).map fun i => (i, l.lists.getD i []) := by
  rw [visits]
  induction attempts with
  | nil => rfl
  | cons i attempts ih =>
    rw [List.forall_mem_cons] at hin
    rw [List.filterMap_cons, List.filter_cons, ih hin.2, h.offer?_eq hp hin.1]
    by_cases htag : r.tag? i = some parity <;> simp [htag]

theorem Carries.indices_visits (h : r.Carries l) (hp : parity ≠ 0)
    (hin : ∀ i ∈ attempts, i < r.shards.length) :
    (r.visits parity attempts).map (·.1) = attempts.filter fun i => r.tag? i ≠ some parity := by
  rw [h.visits_eq hp hin, List.map_map]
  exact List.map_id _

theorem Carries.list_of_mem_visits (h : r.Carries l) (hp : parity ≠ 0)
    (hin : ∀ i ∈ attempts, i < r.shards.length) {visit : Nat × List FiberId}
    (hvisit : visit ∈ r.visits parity attempts) : l.lists[visit.1]? = some visit.2 := by
  rw [h.visits_eq hp hin] at hvisit
  obtain ⟨i, hi, rfl⟩ := List.mem_map.1 hvisit
  have hlt : i < l.lists.length := h.length_eq ▸ hin i (List.mem_filter.1 hi).1
  simp [hlt]

theorem visitAll_eq {shards : List Shard} (offers : Nat → Option (Nat × List FiberId))
    (hp : parity ≠ 0) (k : Nat)
    (h : ∀ i s, shards[i]? = some s → ∃ fibers, s.ring.toList = .ok fibers
      ∧ offers (k + i) = if s.parity = parity then none else some (k + i, fibers)) :
    Shard.visitAll parity shards = .ok
      (⟨((List.range' k shards.length).filterMap offers).length,
        ((List.range' k shards.length).filterMap offers).flatMap (·.2)⟩,
        shards.map (·.tagged parity)) := by
  induction shards generalizing k with
  | nil => rfl
  | cons s shards ih =>
    obtain ⟨fibers, hfibers, hoffer⟩ := h 0 s rfl
    have hrest := ih (k + 1) fun i s hs => by
      simpa only [Nat.add_right_comm k 1 i, ← Nat.add_assoc] using h (i + 1) s hs
    rw [Nat.add_zero] at hoffer
    simp only [Shard.visitAll, Shard.visit_eq hp hfibers, ok_bind, hrest, List.length_cons,
      List.range'_succ, List.filterMap_cons, hoffer]
    split_ifs <;> rfl

/-- A call of the round wins the shards that it tries for and that are not yet tagged. -/
theorem Carries.exists_scanBy (h : r.Carries l) (hp : parity ≠ 0) {call : ScanCall}
    (hin : ∀ i ∈ call.attempts r.shards.length, i < r.shards.length) :
    ∃ r', r.scanBy parity call = .ok
        (⟨(r.visits parity (call.attempts r.shards.length)).length,
          (r.visits parity (call.attempts r.shards.length)).flatMap (·.2)⟩, r')
      ∧ r.Tagged parity (call.attempts r.shards.length) r' := by
  cases call with
  | shard i =>
    have hi : i < r.shards.length := hin i List.mem_cons_self
    refine ⟨r.setShard i (r.shards[i].tagged parity), ?_, rfl, fun j => ?_⟩
    · simp only [scanBy, h.scanShard_eq hp hi, ok_bind, ScanCall.attempts, visits,
        List.filterMap_cons, h.offer?_eq hp hi]
      split_ifs <;> simp
    · simp only [setShard, ScanCall.attempts, List.mem_singleton, List.getElem?_set]
      by_cases hj : j = i
      · subst hj
        simp [hi]
      · simp [hj, Ne.symm hj]
  | all =>
    have hall := visitAll_eq (r.offer? parity) hp 0 fun i s (hs : r.shards[i]? = some s) => by
      obtain ⟨hi, rfl⟩ := List.getElem?_eq_some_iff.1 hs
      obtain ⟨fibers, hfibers, htoList⟩ := h.exists_list hs
      refine ⟨fibers, htoList, ?_⟩
      simp [h.offer?_eq hp hi, tag?, hi, hfibers]
    refine ⟨{ r with shards := r.shards.map (·.tagged parity) }, ?_, rfl, fun j => ?_⟩
    · simp only [scanBy, scan, hall, ok_bind, pure_eq_ok, visits, ScanCall.attempts,
        List.range_eq_range']
    · rw [List.getElem?_map]
      by_cases hj : j < r.shards.length
      · simp [ScanCall.attempts, hj]
      · simp [List.getElem?_eq_none (Nat.le_of_not_lt hj)]

end Scans

section Changes

variable {c : RegistryChange}

/-- A change leaves the tags alone. -/
theorem tag?_of_change (hr : r.change c = .ok r') (i : Nat) : r'.tag? i = r.tag? i := by
  have hset : ∀ {j : Nat} {shard : Shard} {ring : Ring}, r.shard j = .ok shard →
      ((r.shards.set j { shard with ring })[i]?).map (·.parity) = r.tag? i := by
    intro j shard ring hj
    simp only [Registry.shard] at hj
    split at hj <;> rename_i hget
    · obtain rfl := Except.ok.inj hj
      obtain ⟨hlt, rfl⟩ := List.getElem?_eq_some_iff.1 hget
      rw [List.getElem?_set]
      split_ifs with hji
      · simp [tag?, ← hji, hlt]
      · rfl
    · simp at hj
  cases c with
  | insert id =>
    obtain ⟨shard, hshard, hr⟩ := bind_eq_ok_iff.1 hr
    obtain ⟨-, hr⟩ := check_eq_ok_iff.1 hr
    obtain ⟨⟨slot, ring⟩, -, hr⟩ := bind_eq_ok_iff.1 hr
    obtain rfl := Except.ok.inj hr
    exact hset hshard
  | remove id =>
    obtain ⟨shard, hshard, hr⟩ := bind_eq_ok_iff.1 hr
    split at hr
    · simp at hr
    · obtain ⟨link, -, hr⟩ := bind_eq_ok_iff.1 hr
      obtain ⟨-, hr⟩ := check_eq_ok_iff.1 hr
      obtain ⟨⟨fiber, ring⟩, -, hr⟩ := bind_eq_ok_iff.1 hr
      obtain rfl := Except.ok.inj hr
      exact hset hshard

theorem Carries.sound (h : r.Carries l) : r.Sound :=
  let ⟨ls, hholds, _⟩ := h
  ⟨ls, hholds⟩

/-- A registered fiber stays so until it is removed. -/
theorem isRegistered_of_change (h : r.Sound) (hr : r.change c = .ok r') {id : FiberId}
    (hid : r.isRegistered id = true) (hc : c ≠ .remove id) : r'.isRegistered id = true := by
  cases c with
  | insert j =>
    obtain ⟨-, -, hregistered⟩ := h.insert hr
    simp [hregistered, hid]
  | remove j =>
    obtain ⟨-, -, hregistered⟩ := h.remove hr
    have hne : id ≠ j := fun heq => hc (heq ▸ rfl)
    simp [hregistered, hid, hne]

end Changes

end Registry

end PooledFibers
