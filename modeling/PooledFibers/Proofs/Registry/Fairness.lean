import Mathlib.Data.List.Dedup
import Mathlib.Data.List.Flatten
import Mathlib.Tactic.Common
import PooledFibers.Proofs.Registry.Round

/-!
# Fairness of rounds

The invariant of a round is that the shards with the round's tag are those visited so far: such a
shard is not visited again. A fiber's shard never changes, so no fiber is passed on twice, and one
that stays has been passed on once its shard was visited. Every round of a new parity is fair
(`Registry.Reachable.exists_fair_after`).
-/

namespace PooledFibers

open Outcome

namespace Registry

variable {r r' : Registry} {parity : Nat}

section Reached

theorem ring_of_claim {s s' : Shard} {won : Bool} (h : s.claim parity = .ok (won, s')) :
    s'.ring = s.ring := by
  simp only [Shard.claim] at h
  split_ifs at h
  · obtain ⟨-, rfl⟩ := Prod.mk.inj (Except.ok.inj h)
    rfl
  · obtain ⟨-, rfl⟩ := Prod.mk.inj (Except.ok.inj h)
    rfl

theorem ring_of_visit {s s' : Shard} {visited? : Option (List FiberId)}
    (h : s.visit parity = .ok (visited?, s')) : s'.ring = s.ring := by
  obtain ⟨⟨won, s₁⟩, hclaim, h⟩ := bind_eq_ok_iff.1 h
  cases won with
  | false =>
    obtain ⟨-, rfl⟩ := Prod.mk.inj (Except.ok.inj h)
    exact ring_of_claim hclaim
  | true =>
    obtain ⟨fibers, -, h⟩ := bind_eq_ok_iff.1 h
    obtain ⟨-, rfl⟩ := Prod.mk.inj (Except.ok.inj h)
    exact ring_of_claim hclaim

theorem rings_of_visitAll {shards shards' : List Shard} {scan : Scan}
    (h : Shard.visitAll parity shards = .ok (scan, shards')) :
    shards'.map (·.ring) = shards.map (·.ring) := by
  induction shards generalizing scan shards' with
  | nil =>
    obtain ⟨-, rfl⟩ := Prod.mk.inj (Except.ok.inj h)
    rfl
  | cons s shards ih =>
    obtain ⟨⟨visited?, s'⟩, hvisit, h⟩ := bind_eq_ok_iff.1 h
    obtain ⟨⟨scan', rest⟩, hrest, h⟩ := bind_eq_ok_iff.1 h
    obtain rfl : s' :: rest = shards' := by
      cases visited? <;> exact (Prod.mk.inj (Except.ok.inj h)).2
    rw [List.map_cons, List.map_cons, ring_of_visit hvisit, ih hrest]

theorem rings_setShard {i : Nat} {shard shard' : Shard} (hi : r.shard i = .ok shard)
    (h : shard'.ring = shard.ring) :
    (r.setShard i shard').shards.map (·.ring) = r.shards.map (·.ring) := by
  simp only [Registry.shard] at hi
  split at hi
  case h_1 s hs =>
    obtain rfl := Except.ok.inj hi
    obtain ⟨hlt, rfl⟩ := List.getElem?_eq_some_iff.1 hs
    have hself := @List.set_getElem_self _ (r.shards.map (·.ring)) i (by simpa using hlt)
    rw [List.getElem_map] at hself
    rw [setShard, List.map_set, h, hself]
  case h_2 => simp at hi

/-- A scan of any parity changes tags only. -/
theorem rings_of_scanBy {call : ScanCall} {scan : Scan}
    (h : r.scanBy parity call = .ok (scan, r')) :
    r'.slots = r.slots ∧ r'.shards.map (·.ring) = r.shards.map (·.ring) := by
  cases call with
  | shard i =>
    obtain ⟨⟨visited?, r₁⟩, hscan, h⟩ := bind_eq_ok_iff.1 h
    obtain ⟨shard, hshard, hscan⟩ := bind_eq_ok_iff.1 hscan
    obtain ⟨⟨visited, shard'⟩, hvisit, hscan⟩ := bind_eq_ok_iff.1 hscan
    obtain ⟨-, rfl⟩ := Prod.mk.inj (Except.ok.inj hscan)
    obtain rfl : r.setShard i shard' = r' := by
      cases visited? <;> exact (Prod.mk.inj (Except.ok.inj h)).2
    exact ⟨rfl, rings_setShard hshard (ring_of_visit hvisit)⟩
  | all =>
    obtain ⟨⟨scan', shards⟩, hall, h⟩ := bind_eq_ok_iff.1 h
    obtain ⟨-, rfl⟩ := Prod.mk.inj (Except.ok.inj h)
    exact ⟨rfl, rings_of_visitAll hall⟩

theorem Reachable.exists_carries (h : r.Reachable) : ∃ l, r.Carries l := by
  induction h with
  | @made k r hr =>
    obtain ⟨r₁, hr₁, hcarries⟩ := exists_carries_ofShards k
    obtain rfl := Except.ok.inj (hr.symm.trans hr₁)
    exact ⟨_, hcarries⟩
  | @change r r' change _ hr ih =>
    obtain ⟨l, hcarries⟩ := ih
    obtain ⟨r₁, l', hr₁, -, hcarries'⟩ | ⟨fault, hfault, -⟩ := hcarries.change_cases change
    · obtain rfl := Except.ok.inj (hr.symm.trans hr₁)
      exact ⟨l', hcarries'⟩
    · simp [hfault] at hr
  | claim _ hi hr ih =>
    obtain ⟨l, hcarries⟩ := ih
    exact ⟨l, hcarries.of_rings rfl (rings_setShard hi (ring_of_claim hr))⟩
  | scan _ hr ih =>
    obtain ⟨l, hcarries⟩ := ih
    obtain ⟨hslots, hrings⟩ := rings_of_scanBy hr
    exact ⟨l, hcarries.of_rings hslots hrings⟩

end Reached

end Registry

namespace Roster

variable {l l' : Roster} {c : RegistryChange}

theorem length_of_change (h : l.change c = .ok l') : l'.lists.length = l.lists.length := by
  cases c with
  | insert id =>
    simp only [Roster.change] at h
    split_ifs at h
    obtain rfl := Except.ok.inj h
    exact List.length_modify _ _ _
  | remove id =>
    simp only [Roster.change] at h
    split_ifs at h
    obtain rfl := Except.ok.inj h
    exact List.length_modify _ _ _

end Roster

namespace Round

variable {round round' : Round} {parity : Nat} {l l' : Roster} {stays : FiberId → Prop}

/-- The round so far, over a registry that carries the lists. -/
structure Inv (round : Round) (parity : Nat) (l : Roster) (stays : FiberId → Prop) : Prop where
  carries : round.registry.Carries l
  tag_iff : ∀ i < l.lists.length,
    round.registry.tag? i = some parity ↔ i ∈ round.visits.map (·.1)
  attempted_lt : ∀ i ∈ round.attempted, i < l.lists.length
  answers : ∀ record ∈ round.records,
    record.answer = ⟨record.visits.length, record.visits.flatMap (·.2)⟩
  visits_nodup : (round.visits.map (·.1)).Nodup
  visits_iff : ∀ i, i ∈ round.visits.map (·.1) ↔ i ∈ round.attempted
  home : ∀ visit ∈ round.visits, visit.2.Nodup ∧ ∀ id ∈ visit.2, l.home id = visit.1
  registered : ∀ id, stays id → id ∈ l.toList
  stays : ∀ id, stays id → ∀ visit ∈ round.visits, visit.1 = l.home id → id ∈ visit.2

namespace Inv

section Fair

theorem passed_eq (h : round.Inv parity l stays) : round.passed = round.visits.flatMap (·.2) := by
  rw [passed, visits, List.flatMap_assoc]
  exact List.flatMap_congr fun record hrecord => by rw [h.answers record hrecord]

theorem passed_nodup (h : round.Inv parity l stays) : round.passed.Nodup := by
  rw [h.passed_eq, List.nodup_flatMap]
  refine ⟨fun visit hvisit => (h.home visit hvisit).1, ?_⟩
  refine (List.pairwise_map.1 h.visits_nodup).imp_of_mem fun {v w} hv hw hne id hidv hidw => hne ?_
  rw [← (h.home v hv).2 id hidv, (h.home w hw).2 id hidw]

theorem claimed_eq (h : round.Inv parity l stays) :
    (round.records.map (·.answer.claimed)).sum = round.attempted.dedup.length := by
  have hperm : (round.visits.map (·.1)).Perm round.attempted.dedup := by
    refine (List.perm_ext_iff_of_nodup h.visits_nodup (List.nodup_dedup _)).2 fun i => ?_
    rw [List.mem_dedup, h.visits_iff]
  rw [← hperm.length_eq, List.length_map, visits, List.length_flatMap]
  congr 1
  exact List.map_congr_left fun record hrecord => by rw [h.answers record hrecord]

theorem fair (h : round.Inv parity l stays) : round.Fair stays := by
  constructor
  case answers => exact h.answers
  case visits_nodup => exact h.visits_nodup
  case visits_iff => exact h.visits_iff
  case claimed => exact h.claimed_eq
  case passed_nodup => exact h.passed_nodup
  case passed_once =>
    intro id hid hattempted
    rw [← h.visits_iff, List.mem_map] at hattempted
    obtain ⟨visit, hvisit, hindex⟩ := hattempted
    rw [h.carries.shardIndex_eq] at hindex
    refine List.count_eq_one_of_mem h.passed_nodup ?_
    rw [h.passed_eq]
    exact List.mem_flatMap.2 ⟨visit, hvisit, h.stays id hid visit hvisit hindex⟩

end Fair

section Steps

theorem start {r : Registry} (hr : r.Carries l) (htag : ∀ shard ∈ r.shards, shard.parity ≠ parity)
    (hstays : ∀ id, stays id → id ∈ l.toList) : (Round.mk r []).Inv parity l stays := by
  constructor
  case carries => exact hr
  case tag_iff =>
    intro i hi
    refine iff_of_false (fun htagged => ?_) (by simp [visits])
    obtain ⟨shard, hshard, hparity⟩ := Option.map_eq_some_iff.1 htagged
    exact htag shard (List.mem_of_getElem? hshard) hparity
  case registered => exact hstays
  all_goals simp [visits, attempted]

/-- Fibers come and go without effect on the tags. -/
theorem change (h : round.Inv parity l stays) {c : RegistryChange} {r : Registry}
    (hr : round.registry.change c = .ok r) (hl : l.change c = .ok l') (hr' : r.Carries l')
    (hstays : ∀ id, stays id → c ≠ .remove id) :
    Round.Inv { round with registry := r } parity l' stays := by
  have hlength := Roster.length_of_change hl
  have hhome : ∀ id, l'.home id = l.home id := fun id => by
    rw [Roster.home, Roster.home, hlength]
  have hshards : r.shards.length = round.registry.shards.length := by
    rw [hr'.length_eq, h.carries.length_eq, hlength]
  have hattempted : Round.attempted { round with registry := r } = round.attempted := by
    simp only [attempted, hshards]
  constructor
  case carries => exact hr'
  case tag_iff =>
    intro i hi
    simp only [Registry.tag?_of_change hr]
    exact h.tag_iff i (hlength ▸ hi)
  case attempted_lt => simpa only [hattempted, hlength] using h.attempted_lt
  case answers => exact h.answers
  case visits_nodup => exact h.visits_nodup
  case visits_iff => exact hattempted ▸ h.visits_iff
  case home =>
    intro visit hmem
    simpa only [hhome] using h.home visit hmem
  case registered =>
    intro id hid
    rw [hr'.mem_iff]
    exact Registry.isRegistered_of_change h.carries.sound hr
      ((h.carries.mem_iff id).1 (h.registered id hid)) (hstays id hid)
  case stays =>
    intro id hid visit hmem
    simpa only [hhome] using h.stays id hid visit hmem

/-- A call visits the shards not visited before. -/
theorem scan (h : round.Inv parity l stays) (hp : parity ≠ 0) {call : ScanCall} {r : Registry}
    (hin : ∀ i ∈ call.attempts round.registry.shards.length, i < l.lists.length)
    (hr : round.registry.Tagged parity (call.attempts round.registry.shards.length) r) :
    let visits := round.registry.visits parity (call.attempts round.registry.shards.length)
    Round.Inv ⟨r, ⟨call, visits, ⟨visits.length, visits.flatMap (·.2)⟩⟩ :: round.records⟩
      parity l stays := by
  intro visits
  have hlength := h.carries.length_eq
  have hshows := h.carries.shows
  set attempts := call.attempts round.registry.shards.length with hattempts
  have hlt : ∀ i ∈ attempts, i < round.registry.shards.length := fun i hi => hlength ▸ hin i hi
  have hindices : visits.map (·.1)
      = attempts.filter fun i => round.registry.tag? i ≠ some parity :=
    h.carries.indices_visits hp hlt
  have hvisit : ∀ visit ∈ visits, l.lists[visit.1]? = some visit.2 := fun visit hmem =>
    h.carries.list_of_mem_visits hp hlt hmem
  have hnew : ∀ i, i ∈ visits.map (·.1) ↔ i ∈ attempts ∧ i ∉ round.visits.map (·.1) := fun i => by
    rw [hindices, List.mem_filter, decide_eq_true_iff]
    exact and_congr_right fun hi => not_congr (h.tag_iff i (hin i hi))
  constructor
  case carries => exact hr.carries h.carries
  case registered => exact h.registered
  all_goals simp only [Round.visits, Round.attempted, List.flatMap_cons, List.map_append,
    List.mem_append, hr.length, ← hattempts]
  case tag_iff =>
    intro i hi
    change _ ↔ i ∈ visits.map (·.1) ∨ i ∈ round.visits.map (·.1)
    rw [hr.tag? (hlength ▸ hi), hnew]
    split_ifs with hmem
    · simp only [hmem, true_and, true_iff]
      exact (em _).symm
    · simp only [hmem, false_and, false_or]
      exact h.tag_iff i hi
  case attempted_lt =>
    rintro i (hi | hi)
    · exact hin i hi
    · exact h.attempted_lt i hi
  case answers =>
    rintro record (- | ⟨-, hrecord⟩)
    · rfl
    · exact h.answers record hrecord
  case visits_nodup =>
    refine List.Nodup.append (hindices ▸ (call.nodup_attempts _).filter _) h.visits_nodup ?_
    exact fun i hi => ((hnew i).1 hi).2
  case visits_iff =>
    intro i
    change i ∈ visits.map (·.1) ∨ i ∈ round.visits.map (·.1) ↔ i ∈ attempts ∨ i ∈ round.attempted
    rw [hnew, ← h.visits_iff]
    tauto
  case home =>
    rintro visit (hmem | hmem)
    · have hlist := hvisit visit hmem
      refine ⟨?_, hshows.home visit.1 visit.2 hlist⟩
      exact (List.nodup_flatten.1 hshows.nodup).1 _ (List.mem_of_getElem? hlist)
    · exact h.home visit hmem
  case stays =>
    rintro id hid visit (hmem | hmem) hindex
    · obtain ⟨list, hlist, hid⟩ := List.mem_flatten.1 (h.registered id hid)
      obtain ⟨i, hi⟩ := List.mem_iff_getElem?.1 hlist
      obtain rfl := hshows.home i list hi id hid
      obtain rfl : list = visit.2 := by
        rw [← hindex, hvisit visit hmem] at hi
        exact (Option.some.inj hi).symm
      exact hid
    · exact h.stays id hid visit hmem hindex

/-- A round goes on, and stays in order, as long as the changes made in between do. -/
theorem after_cases (h : round.Inv parity l stays) (hp : parity ≠ 0) (steps : List RoundStep)
    (hin : ∀ i, .scan (.shard i) ∈ steps → i < l.lists.length)
    (hstays : ∀ id, stays id → .change (.remove id) ∉ steps) :
    (∃ round' l', round.after parity steps = .ok round'
        ∧ l.after (steps.filterMap RoundStep.change?) = .ok l' ∧ round'.Inv parity l' stays)
      ∨ ∃ fault, round.after parity steps = .error fault
        ∧ l.after (steps.filterMap RoundStep.change?) = .error fault := by
  induction steps generalizing round l with
  | nil => exact .inl ⟨round, l, rfl, rfl, h⟩
  | cons step rest ih =>
    have hrest : ∀ id, stays id → RoundStep.change (.remove id) ∉ rest := fun id hid hmem =>
      hstays id hid (List.mem_cons_of_mem _ hmem)
    cases step with
    | change c =>
      obtain ⟨r, l', hr, hl, hr'⟩ | ⟨fault, hr, hl⟩ := h.carries.change_cases c
      · have h' := h.change hr hl hr' fun id hid heq => hstays id hid (heq ▸ List.mem_cons_self)
        simp only [Round.after, perform, hr, ok_bind, pure_eq_ok, List.filterMap_cons,
          RoundStep.change?, Roster.after, hl]
        refine ih h' (fun i hi => ?_) hrest
        rw [Roster.length_of_change hl]
        exact hin i (List.mem_cons_of_mem _ hi)
      · refine .inr ⟨fault, ?_, ?_⟩
        · simp only [Round.after, perform, hr, error_bind]
        · simp only [List.filterMap_cons, RoundStep.change?, Roster.after, hl, error_bind]
    | scan call =>
      have hlength := h.carries.length_eq
      have hcall : ∀ i ∈ call.attempts round.registry.shards.length, i < l.lists.length := by
        cases call with
        | shard j =>
          intro i hi
          obtain rfl := List.mem_singleton.1 hi
          exact hin i List.mem_cons_self
        | all => exact fun i hi => hlength ▸ List.mem_range.1 hi
      obtain ⟨r, hr, htagged⟩ := h.carries.exists_scanBy hp fun i hi => hlength ▸ hcall i hi
      have h' := h.scan hp hcall htagged
      simp only [Round.after, perform, hr, ok_bind, pure_eq_ok, List.filterMap_cons,
        RoundStep.change?]
      exact ih h' (fun i hi => hin i (List.mem_cons_of_mem _ hi)) hrest

end Steps

end Inv

end Round

/-- The fiber is registered as the steps begin, and not removed in any of them. -/
def Registry.Keeps (r : Registry) (steps : List RoundStep) (id : FiberId) : Prop :=
  r.isRegistered id = true ∧ .change (.remove id) ∉ steps

/-- In a round of a new parity, each shard that is attempted is visited once, and a fiber that stays
is passed on once. The calls of the round meet no fault of their own. -/
theorem Registry.Reachable.exists_fair_after {r : Registry} {parity : Nat} (hr : r.Reachable)
    (hp : parity ≠ 0) (htag : ∀ shard ∈ r.shards, shard.parity ≠ parity) (steps : List RoundStep)
    (hin : ∀ i, .scan (.shard i) ∈ steps → i < r.shards.length) :
    (∃ r' round, r.after (steps.filterMap RoundStep.change?) = .ok r'
        ∧ Round.after ⟨r, []⟩ parity steps = .ok round
        ∧ round.Fair (r.Keeps steps))
      ∨ ∃ fault, r.after (steps.filterMap RoundStep.change?) = .error fault
        ∧ Round.after ⟨r, []⟩ parity steps = .error fault := by
  obtain ⟨l, hcarries⟩ := hr.exists_carries
  have hstart : (Round.mk r []).Inv parity l (r.Keeps steps) :=
    Round.Inv.start hcarries htag fun id hid => (hcarries.mem_iff id).2 hid.1
  have hround := hstart.after_cases hp steps (hcarries.length_eq ▸ hin) fun id hid => hid.2
  obtain ⟨r', l', hr', hl', -⟩ | ⟨fault, hr', hl', -⟩ :=
    hcarries.after_cases (steps.filterMap RoundStep.change?)
  · obtain ⟨round, l'', hafter, -, hinv⟩ | ⟨fault, -, hl''⟩ := hround
    · exact .inl ⟨r', round, hr', hafter, hinv.fair⟩
    · simp [hl'] at hl''
  · obtain ⟨round, l'', -, hl'', -⟩ | ⟨fault', hafter, hl''⟩ := hround
    · simp [hl'] at hl''
    · obtain rfl := Except.error.inj (hl'.symm.trans hl'')
      exact .inr ⟨fault, hr', hafter⟩

theorem Registry.Reachable.fair_of_fiber_inserted_again :
    ∃ r round, (do (← Registry.ofShards 2).after [.insert ⟨8⟩, .insert ⟨16⟩]) = .ok r
      ∧ Round.after ⟨r, []⟩ 7 [.scan (.shard 1), .change (.remove ⟨8⟩), .change (.insert ⟨8⟩),
          .scan .all] = .ok round
      ∧ round.passed = [⟨16⟩, ⟨8⟩]
      ∧ round.Fair (r.Keeps [.scan (.shard 1), .change (.remove ⟨8⟩), .change (.insert ⟨8⟩),
          .scan .all]) := by
  have hmade : Registry.ofShards (2 ^ 1) = .ok ⟨[{}, {}], .empty⟩ := rfl
  have hchanged : (Registry.mk [{}, {}] .empty).after [.insert ⟨8⟩, .insert ⟨16⟩]
      = .ok ⟨[⟨⟨[some ⟨⟨16⟩, 0, 0⟩], [], some 0, 1⟩, 0⟩, ⟨⟨[some ⟨⟨8⟩, 0, 0⟩], [], some 0, 1⟩, 0⟩],
        (Table.empty.insert ⟨8⟩ 0).insert ⟨16⟩ 0⟩ := rfl
  obtain ⟨r₁, h₁, hrest⟩ := bind_eq_ok_iff.1 hchanged
  obtain ⟨r₂, h₂, hrest⟩ := bind_eq_ok_iff.1 hrest
  obtain rfl := Except.ok.inj hrest
  obtain ⟨-, round, -, hround, hfair⟩ | ⟨fault, hfault, -⟩ :=
    (Reachable.change (.change (.made hmade) h₁) h₂).exists_fair_after (by decide : 7 ≠ 0)
      (by decide) [.scan (.shard 1), .change (.remove ⟨8⟩), .change (.insert ⟨8⟩), .scan .all]
      (by simp)
  · have hpassed : .ok [⟨16⟩, ⟨8⟩] = Except.ok round.passed :=
      congrArg (Except.map Round.passed) hround
    exact ⟨_, round, hchanged, hround, (Except.ok.inj hpassed).symm, hfair⟩
  · exact absurd (show true = false from congrArg Except.isOk hfault) (by decide)

end PooledFibers
