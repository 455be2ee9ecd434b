import Mathlib.Data.List.Basic
import Mathlib.Tactic.Common
import PooledFibers.Machine.Simulated
import PooledFibers.Proofs.FiberSystem.Tidiness
import PooledFibers.Proofs.FiberSystem.Waiting

/-!
# Ended fibers in custody

A heap fiber that has ended is kept by the carrier of its thread: in the idle cache, or in the
pending slot while its stack may still be in use. A fiber comes into the pending slot by a
terminating switch only, and the next operation that drains the slot parks it or lets go of it
(`Run.custody_of_after`).
-/

namespace PooledFibers

namespace FiberSystem

open Outcome

/-- The fiber is gone and its stack is free, unless something still refers to it. -/
def LetGo (s : FiberSystem) (id : FiberId) (s' : FiberSystem) : Prop :=
  s'.Refers id ∨ s'.fibers.get? id = none ∧ s.stackOf id ∈ s'.pool.free.toList

/-- A fiber that waited is parked while the idle cache has room, and otherwise let go of. -/
def Parted (s : FiberSystem) (t : ThreadToken) (id : FiberId) (s' : FiberSystem) : Prop :=
  ∃ c c', s.carrier? t = some c ∧ s'.carrier? t = some c'
    ∧ (c.idle.length < s.settings.idleCacheSize ∧ c'.idle = id :: c.idle
      ∨ s.settings.idleCacheSize ≤ c.idle.length ∧ c'.idle = c.idle ∧ s.LetGo id s')

/-- How a fiber leaves the pending slot of a thread. Unless the thread detaches or another fiber
comes in its place, the operation begins by reclaiming it. -/
def Departs (s : FiberSystem) (t : ThreadToken) (id : FiberId) :
    Operation → FiberSystem → Prop
  | .perform _ .detach, s' => s'.carrier? t = none ∧ s.LetGo id s'
  | .perform _ (.switch _ _), s' => s.Parted t id s'
  | operation, s' => ∃ s₁ e, s.reclaim t = .ok s₁ ∧ s₁.waiting t = none ∧ s.Parted t id s₁
    ∧ s₁.perform operation = .ok (s', e)

/-- The fiber has ended and its stack is still leased: only stacks of others have come free, and
none that is free is the fiber's, if what the provider reserves does not overlap. -/
structure Detained (s : FiberSystem) (id : FiberId) (s' : FiberSystem) : Prop where
  unregistered : s'.registry.isRegistered id = false
  alive : s'.HeapAlive id
  stays : s'.stackOf id = s.stackOf id
  free : ∃ freed : List FiberId, id ∉ freed
    ∧ s'.pool.free.toList = freed.map s.stackOf ++ s.pool.free.toList
  not_free : PageCall.Sound s'.machine.calls → s'.stackOf id ∉ s'.pool.free.toList

/-- What an operation does to the fibers that wait in pending slots. -/
structure Custody (s : FiberSystem) (operation : Operation) (s' : FiberSystem) : Prop where
  waiting : ∀ t, s'.waiting t = s.waitingAfter t operation
  detained : ∀ t c target, s.carrier? t = some c →
    operation = .perform t (.switch target .terminating) → s.Detained c.current s'
  departs : ∀ t id, s.waiting t = some id → s.drains t operation = true →
    s.Departs t id operation s'

variable {s s' : FiberSystem} {t u : ThreadToken} {c c' : Carrier} {id : FiberId}

section Departing

theorem calls_of_reclaim (hr : s.reclaim t = .ok s') : s'.calls = s.calls := by
  simp only [reclaim, parkOrRelease] at hr
  split at hr
  · exact Except.ok.inj hr ▸ rfl
  · split_ifs at hr
    · rw [← Except.ok.inj hr, recordIdle, calls_record]
      rfl
    · obtain rfl | ⟨-, _, _, -, -, -, rfl⟩ := reap_cases hr <;> rfl

theorem Flow.letGo (h : s.Kept []) (hflow : s.Flow s' [])
    (howns : s.Owns t false id) : s.LetGo id s' := by
  obtain ⟨f, hf, -, hheap⟩ := howns
  have hmem : (id, s.stackOf id) ∈ s.holdings :=
    (mem_holdings_iff h.keys).2 ⟨f, hf, hheap, by rw [stackOf, fiber_eq hf]⟩
  cases hf' : s'.fibers.get? id with
  | some f' =>
    exact .inl ((hflow.tended id (Table.mem_keys_iff.2 ⟨f', hf'⟩)).resolve_right
      List.not_mem_nil)
  | none =>
    obtain ⟨gone, hfreed⟩ := hflow.freed
    refine .inr ⟨hf', ?_⟩
    rw [hfreed.free, List.mem_append]
    rcases List.mem_append.1 (hfreed.holdings.subset hmem) with hgone | hstays
    · exact .inl (List.mem_map.2 ⟨_, hgone, rfl⟩)
    · obtain ⟨g, hg, -⟩ := (mem_holdings_iff hflow.keys).1 hstays
      exact absurd (hg.symm.trans hf') (Option.some_ne_none g)

theorem Sound.owns_of_waiting (hs : s.Sound) (hwait : s.waiting t = some id) :
    s.Owns t false id := by
  obtain ⟨c, hc, hpending⟩ := Option.bind_eq_some_iff.1 hwait
  exact ((hs.carries t c hc).ended id (by simp [Carrier.ended, hpending])).1

theorem parted_of_idleAfter (hc : s.carrier? t = some c) (hpending : c.pending = some id)
    (hc' : s'.carrier? t = some c') (hidle : c'.idle = c.idleAfter s.settings.idleCacheSize)
    (hgo : s.LetGo id s') : s.Parted t id s' := by
  refine ⟨c, c', hc, hc', ?_⟩
  rw [hidle, Carrier.idleAfter, hpending]
  by_cases hroom : c.idle.length < s.settings.idleCacheSize
  · exact .inl ⟨hroom, if_pos hroom⟩
  · exact .inr ⟨Nat.le_of_not_lt hroom, if_neg hroom, hgo⟩

theorem parted_of_reclaim (hs : s.Sound) (h : s.Kept []) (hwait : s.waiting t = some id)
    (hr : s.reclaim t = .ok s') : s.Parted t id s' := by
  obtain ⟨c, hc, hpending⟩ := Option.bind_eq_some_iff.1 hwait
  exact parted_of_idleAfter hc hpending (carrier?_of_reclaim hc hr) rfl
    ((h.flow.reclaim hr).letGo h (hs.owns_of_waiting hwait))

theorem departs_of_performOn {operation : ThreadOperation} {e : Option Event} (hs : s.Sound)
    (h : s.Kept []) (hc : s.carrier? t = some c) (hwait : s.waiting t = some id)
    (hdrains : s.drains t (.perform t operation) = true)
    (hr : s.performOn t c operation = .ok (s', e)) :
    s.Departs t id (.perform t operation) s' := by
  have howns := hs.owns_of_waiting hwait
  have hpending : c.pending = some id := by rw [← waiting_eq_of_carrier? hc, hwait]
  cases operation with
  | create request continuation =>
    cases request <;> simp only [drains, decide_true, Bool.false_eq_true] at hdrains
    obtain ⟨⟨outcome, s₁⟩, hcreate, heq⟩ := map_eq_ok_iff.1 hr
    obtain ⟨s₀, hreclaim, hnone, hagain⟩ := exists_reclaim_of_create hcreate
    refine ⟨s₀, e, hreclaim, hnone, parted_of_reclaim hs h hwait hreclaim, ?_⟩
    rw [FiberSystem.perform, carrier?_of_reclaim hc hreclaim]
    simp only [performOn]
    rw [hagain]
    exact congrArg Except.ok heq
  | switch target kind =>
    cases kind <;> simp only [drains, decide_true, Bool.false_eq_true] at hdrains
    have henter := eq_ok_of_map_mk hr
    exact parted_of_idleAfter hc hpending (carrier?_of_enter hc henter) rfl
      ((h.flow.enter hs hc henter).letGo h howns)
  | reclaim =>
    have hreclaim := eq_ok_of_map_mk hr
    have hnone := waiting_of_reclaim hreclaim
    refine ⟨s', none, hreclaim, hnone, parted_of_reclaim hs h hwait hreclaim, ?_⟩
    rw [FiberSystem.perform, carrier?_of_reclaim hc hreclaim]
    simp only [performOn, reclaim_of_waiting_eq_none hnone]
    rfl
  | detach =>
    have hdetach := eq_ok_of_map_mk hr
    exact ⟨carrier?_of_detach hs hc hdetach, (h.flow.detach hc hdetach).letGo h howns⟩
  | _ => simp [drains] at hdrains

theorem departs_of_returnFrom {call : SwitchCall} (hs : s.Sound) (h : s.Kept [])
    (hcall : call ∈ s.calls) (hwait : s.waiting call.thread = some id)
    (hr : s.returnFrom call = .ok s') : s.Departs call.thread id (.returnFrom call) s' := by
  obtain ⟨s₁, hreclaim, hreap⟩ := bind_eq_ok_iff.1 hr
  have hnone := waiting_of_reclaim hreclaim
  refine ⟨s₁, none, hreclaim, hnone, parted_of_reclaim hs h hwait hreclaim, ?_⟩
  have hagain : s₁.returnFrom call = .ok s' := by
    rw [FiberSystem.returnFrom, reclaim_of_waiting_eq_none hnone]
    exact hreap
  rw [FiberSystem.perform, calls_of_reclaim hreclaim, if_pos hcall, hagain]
  rfl

/-- A fiber that ends by a switch keeps its stack while it waits. -/
theorem detained_of_enter {target : FiberId} (hs : s.Sound) (h : s.Kept []) (hs' : s'.Sound)
    (hc : s.carrier? t = some c) (hr : s.enter t target .terminating = .ok s') :
    s.Detained c.current s' := by
  have hc' := carrier?_of_enter hc hr
  have hflow := h.flow.enter hs hc hr
  obtain ⟨gone, hfreed⟩ := hflow.freed
  obtain ⟨howns, hunregistered⟩ := (hs'.carries t _ hc').ended c.current (by simp [Carrier.ended])
  obtain ⟨f, hf, -, hheap⟩ := howns
  have halive : s'.HeapAlive c.current :=
    ⟨.inr (.inl ⟨_, mem_carriers hc', .inr (.inl rfl)⟩), f, hf, hheap⟩
  have hmem' : (c.current, s'.stackOf c.current) ∈ s'.holdings :=
    (mem_holdings_iff hflow.keys).2 ⟨f, hf, hheap, by rw [stackOf, fiber_eq hf]⟩
  have hgone : gone ⊆ s.holdings := fun entry hentry =>
    hfreed.holdings.symm.subset (List.mem_append_left _ hentry)
  have hnodup := (hfreed.holdings.map (·.1)).nodup_iff.1 (nodup_holdings h.keys)
  rw [List.map_append, List.nodup_append] at hnodup
  constructor
  case unregistered => exact hunregistered
  case alive => exact halive
  case stays =>
    have hmem := hfreed.holdings.symm.subset (List.mem_append_right _ hmem')
    exact (stackOf_of_mem h hmem).symm
  case free =>
    refine ⟨gone.map (·.1), fun hmem => ?_, ?_⟩
    · exact hnodup.2.2 c.current hmem c.current (List.mem_map_of_mem hmem') rfl
    · rw [map_stackOf h hgone, hfreed.free]
  case not_free =>
    intro hsound hfree
    have hdistinct := (hflow.toKept.balanced hs').distinct hsound
    rw [List.append_assoc, List.nodup_append] at hdistinct
    refine hdistinct.2.2 _ (List.mem_map_of_mem (List.mem_map_of_mem hmem')) _ ?_ rfl
    exact List.mem_append_right _ hfree

theorem custody_of_perform {operation : Operation} {e : Option Event} (hs : s.Sound)
    (h : s.Kept []) (hr : s.perform operation = .ok (s', e)) : s.Custody operation s' := by
  constructor
  case waiting => exact fun t => waiting_of_perform hs hr
  case detained =>
    rintro t c target hc rfl
    have hs' := (hs.perform hr).1
    simp only [FiberSystem.perform, hc] at hr
    exact detained_of_enter hs h hs' hc (eq_ok_of_map_mk hr)
  case departs =>
    intro t id hwait hdrains
    cases operation with
    | perform u operation =>
      obtain rfl : t = u := by
        by_contra hne
        exact Bool.false_ne_true ((drains_perform_ne hne).symm.trans hdrains)
      obtain ⟨c, hc, -⟩ := Option.bind_eq_some_iff.1 hwait
      simp only [FiberSystem.perform, hc] at hr
      exact departs_of_performOn hs h hc hwait hdrains hr
    | returnFrom call =>
      obtain ⟨hcall, rfl⟩ := of_decide_eq_true hdrains
      simp only [FiberSystem.perform, if_pos hcall] at hr
      exact departs_of_returnFrom hs h hcall hwait (eq_ok_of_map_mk hr)
    | _ => exact absurd hdrains Bool.false_ne_true

end Departing

end FiberSystem

namespace Run

open FiberSystem

variable {host : Host} {settings : Settings} {provider : PageProvider} {policy : Option Bool}
  {s : FiberSystem} {operation : Operation} {operations rest : List Operation} {r r' : Run}
  {t : ThreadToken} {id : FiberId}

/-- After a run without a fault each ended fiber is in one place at most, and whatever is done next,
a fiber comes into a pending slot by a terminating switch, stays there with its stack leased until
the slot is drained, and is parked then if there is room and let go of otherwise. -/
theorem custody_of_after (hs : ofSettings host settings provider policy = .ok (.ok s))
    (hp : 0 < provider.pageSize) (hg : 0 < provider.granularity)
    (hr : Run.after ⟨s, []⟩ operations = .ok r) :
    r.system.Kempt settings.idleCacheSize
      ∧ (∀ operation r', r.perform operation = .ok r' → r.system.Custody operation r'.system)
      ∧ ∀ t rest r', r.after rest = .ok r' →
        r.AtEach (fun s operation => s.drains t operation = false) rest →
        r'.system.waiting t = r.system.waiting t := by
  have h : r.Orderly := after_induction (P := Orderly)
    (fun _ _ _ h hperform => (h.perform hperform).1) hr (orderly_of_ofSettings hs hp hg)
  refine ⟨(kempt_of_after hs hr).2, fun operation r' hperform => ?_, fun t rest r' => ?_⟩
  · obtain ⟨event, hperformed, -⟩ := perform_eq_ok_iff.1 hperform
    exact custody_of_perform h.sound h.kept hperformed
  · exact waiting_of_after h

/-- Two fibers end one after the other without a reclaim in between. The first is parked when the
second ends; then the cache is full, and the second is freed when the switch into it returns. -/
theorem custody_of_overtaken_fiber : ∃ s r r',
    FiberSystem.ofSettings .simulated
        { registryShards := 2, idleCacheSize := 1, verifyOnYield := true }
        ({} : Simulation).provider none = .ok (.ok s)
      ∧ Run.after ⟨s, []⟩
          [.attach 1 "main" (.ok ⟨0x10000000, 0x100000⟩), .perform ⟨1⟩ (.create .pooled none),
           .perform ⟨1⟩ (.create .pooled none), .perform ⟨1⟩ (.scratch (.enter .nativeCalls)),
           .perform ⟨1⟩ (.switch (.ofNumber 1) .returning),
           .perform ⟨1⟩ (.switch (.ofNumber 0) .terminating),
           .perform ⟨1⟩ (.switch (.ofNumber 2) .returning),
           .perform ⟨1⟩ (.switch (.ofNumber 0) .terminating), .drop (.ofNumber 2)] = .ok r
      ∧ r.perform (.returnFrom ⟨⟨1⟩, .returning, .ofNumber 0, .ofNumber 2⟩) = .ok r'
      ∧ r.system.waiting ⟨1⟩ = some (.ofNumber 2)
      ∧ (r.system.carrier ⟨1⟩).idle = [.ofNumber 1]
      ∧ r'.system.fibers.get? (.ofNumber 2) = none
      ∧ r.system.Kempt 1
      ∧ r.system.Custody (.returnFrom ⟨⟨1⟩, .returning, .ofNumber 0, .ofNumber 2⟩) r'.system := by
  refine ⟨?s, ?r, ?r', ?hs, ?hr, ?hreturn, ?hwaiting, ?hidle, ?hgone,
    (custody_of_after ?hs (by decide) (by decide) ?hr).imp_right fun h => h.1 _ _ ?hreturn⟩
  case hs => rfl
  case hr => rfl
  case hreturn => rfl
  case hwaiting => rfl
  case hidle => rfl
  case hgone => rfl

end Run

end PooledFibers