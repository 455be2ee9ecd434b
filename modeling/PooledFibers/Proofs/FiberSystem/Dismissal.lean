import Mathlib.Data.List.Basic
import Mathlib.Tactic.Common
import PooledFibers.Machine.Simulated
import PooledFibers.Proofs.FiberSystem.Balance
import PooledFibers.Proofs.FiberSystem.Partition
import PooledFibers.Proofs.FiberSystem.Registration

/-!
# Where the stack of a terminated fiber goes

A suspended fiber that the host lets go of can always be terminated. While the idle cache has room it
is parked with its stack; after that its stack goes back to the pool at once, but for one case: a
fiber that was left by a returning switch is held by that switch until it returns, and so is its
stack (`Run.dismissed_of_after`).
-/

namespace PooledFibers

namespace FiberSystem

open Outcome

/-- The places left in the idle cache of a thread. -/
def room (s : FiberSystem) (t : ThreadToken) : Nat :=
  s.settings.idleCacheSize - (s.carrier t).idle.length

/-- A returning switch that left the fiber has not returned. -/
def LeftBySwitch (s : FiberSystem) (id : FiberId) : Prop :=
  ∃ call ∈ s.calls, call.kind = .returning ∧ call.source = id

instance (s : FiberSystem) (id : FiberId) : Decidable (s.LeftBySwitch id) :=
  inferInstanceAs (Decidable (∃ call ∈ s.calls, call.kind = .returning ∧ call.source = id))

/-- A suspended fiber of the thread of which the host keeps no handle once it gives one away. -/
structure Expendable (s : FiberSystem) (t : ThreadToken) (id : FiberId) : Prop where
  live : s.Live t id
  not_current : (s.carrier t).current ≠ id
  unheld : id ∉ s.held.erase id
  /-- The target of a switch that has not returned is a handle that the host has lent. -/
  unlent : ∀ call ∈ s.calls, call.target ≠ id

/-- The fiber has lost its continuation, but not its stack. -/
structure KeepsStack (s : FiberSystem) (id : FiberId) (s' : FiberSystem) : Prop where
  pool : s'.pool = s.pool
  get? : s'.fibers.get? id = (s.fibers.get? id).map fun f => { f with continuation := none }

/-- The fiber is gone and its stack is free. -/
structure Frees (s : FiberSystem) (id : FiberId) (s' : FiberSystem) : Prop where
  get? : s'.fibers.get? id = none
  free : s'.pool.free.toList = s.stackOf id :: s.pool.free.toList
  totalFree : s'.pool.totals.free = s.pool.totals.free + 1
  inUse : s'.pool.totals.inUse + 1 = s.pool.totals.inUse

/-- What becomes of a fiber that is terminated. -/
inductive Fate (s : FiberSystem) (t : ThreadToken) (id : FiberId) (s' : FiberSystem) : Prop
  /-- It waits in the idle cache with its stack. -/
  | parked (hroom : 0 < s.room t)
    (hcarrier : s'.carrier? t = (s.carrier? t).map fun c => { c with idle := id :: c.idle })
    (h : s.KeepsStack id s')
  /-- Its stack is free at once. -/
  | freed (hfull : s.room t = 0) (hleft : ¬s.LeftBySwitch id)
    (hcarrier : s'.carrier? t = s.carrier? t) (h : s.Frees id s')
  /-- The switch that left it keeps it, and its stack with it. -/
  | lingers (hfull : s.room t = 0) (hleft : s.LeftBySwitch id)
    (hcarrier : s'.carrier? t = s.carrier? t) (h : s.KeepsStack id s')

/-- What terminating a fiber comes to. -/
structure Dismissed (s : FiberSystem) (t : ThreadToken) (id : FiberId) (s' : FiberSystem) :
    Prop where
  settings : s'.settings = s.settings
  calls : s'.calls = s.calls
  held : s'.held = s.held.erase id
  isRegistered : ∀ j, s'.registry.isRegistered j = true
    ↔ j ≠ id ∧ s.registry.isRegistered j = true
  others : ∀ j, j ≠ id → s'.fibers.get? j = s.fibers.get? j
  fate : s.Fate t id s'

/-- Of fibers that are terminated one after the other, those whose stacks go back to the pool. -/
def released (s : FiberSystem) (t : ThreadToken) (ids : List FiberId) : List FiberId :=
  (ids.drop (s.room t)).filter fun id => ¬s.LeftBySwitch id

/-- What terminating fibers one after the other comes to. -/
structure DismissedAll (s : FiberSystem) (t : ThreadToken) (ids : List FiberId)
    (s' : FiberSystem) : Prop where
  settings : s'.settings = s.settings
  calls : s'.calls = s.calls
  isRegistered : ∀ j, s'.registry.isRegistered j = true
    ↔ j ∉ ids ∧ s.registry.isRegistered j = true
  /-- The first are parked, as many as there is room for. -/
  carrier? : s'.carrier? t = (s.carrier? t).map fun c =>
    { c with idle := (ids.take (s.room t)).reverse ++ c.idle }
  others : ∀ j, j ∉ ids → s'.fibers.get? j = s.fibers.get? j
  gone : ∀ j ∈ s.released t ids, s'.fibers.get? j = none
  stays : ∀ j ∈ ids, j ∉ s.released t ids →
    s'.fibers.get? j = (s.fibers.get? j).map fun f => { f with continuation := none }
  free : s'.pool.free.toList
    = (s.released t ids).reverse.map s.stackOf ++ s.pool.free.toList
  totalFree : s'.pool.totals.free = s.pool.totals.free + (s.released t ids).length
  inUse : s'.pool.totals.inUse + (s.released t ids).length = s.pool.totals.inUse

/-- A fiber is out of the registry and has lost its continuation. -/
structure Retired (s : FiberSystem) (id : FiberId) (s' : FiberSystem) : Prop where
  settings : s'.settings = s.settings
  calls : s'.calls = s.calls
  held : s'.held = s.held
  carriers : s'.carriers = s.carriers
  pool : s'.pool = s.pool
  isRegistered : ∀ j, s'.registry.isRegistered j = true
    ↔ j ≠ id ∧ s.registry.isRegistered j = true
  fibers : s'.fibers = s.fibers.modify id fun f => { f with continuation := none }

variable {s s' s₁ : FiberSystem} {t : ThreadToken} {c : Carrier} {id : FiberId}
  {ids : List FiberId}

section Retiring

/-- A live fiber that is not current passes all the checks. -/
theorem exists_retire (hs : s.Sound) (hid : s.Live t id) (hcurrent : (s.carrier t).current ≠ id) :
    ∃ s₁, s.retire t id = .ok s₁ ∧ s.Retired id s₁ := by
  obtain ⟨hregistered, f, hf, rfl, hheap⟩ := hid
  obtain ⟨s₀, hwithdraw⟩ := exists_withdraw hs.registry hregistered
  refine ⟨s₀.record f.owner Statistics.recordTerminated, ?_, ?_⟩
  · simp only [retire, fiber_eq hf, check_eq_ok_iff, not_not]
    exact ⟨trivial, by simp [hheap], hcurrent, bind_eq_ok_iff.2 ⟨s₀, hwithdraw, rfl⟩⟩
  · have hreg := (deregistered_of_withdraw hs.registry hwithdraw).isRegistered
    obtain ⟨registry, -, rfl⟩ := unregister_eq_ok_iff.1 hwithdraw
    obtain ⟨statistics, hrecord⟩ := exists_record
      { s.modifyFiber id fun f => { f with continuation := none } with registry } f.owner
      Statistics.recordTerminated
    rw [hrecord]
    exact ⟨rfl, rfl, rfl, rfl, rfl, fun j => by simpa using hreg j, rfl⟩

theorem Retired.get?_self (hr : s.Retired id s₁) :
    s₁.fibers.get? id = (s.fibers.get? id).map fun f => { f with continuation := none } := by
  rw [hr.fibers, Table.get?_modify, if_pos rfl]

theorem Retired.get? (hr : s.Retired id s₁) {j : FiberId} (hj : j ≠ id) :
    s₁.fibers.get? j = s.fibers.get? j := by
  rw [hr.fibers, Table.get?_modify, if_neg hj]

theorem Retired.carrier? (hr : s.Retired id s₁) (u : ThreadToken) :
    s₁.carrier? u = s.carrier? u := by
  rw [FiberSystem.carrier?, hr.carriers, FiberSystem.carrier?]

theorem Retired.room (hr : s.Retired id s₁) (t : ThreadToken) :
    (s₁.unhold id).room t = s.room t := by
  have hcarrier : (s₁.unhold id).carrier t = s.carrier t := congrArg (·.getD default) (hr.carrier? t)
  rw [FiberSystem.room, hcarrier, unhold, hr.settings, FiberSystem.room]

/-- A carrier keeps no fiber that is live and not current. -/
theorem Expendable.not_refersTo (h : s.Expendable t id) (hs : s.Sound) {u : ThreadToken}
    (hc : s.carrier? u = some c) : c.refersTo id = false := by
  obtain ⟨hregistered, howns⟩ := h.live
  have hended : id ∉ c.ended := fun hid =>
    Bool.noConfusion (hregistered.symm.trans ((hs.carries u c hc).ended id hid).2)
  have hcurrent : c.current ≠ id := by
    by_cases hu : u = t
    · subst hu
      exact carrier_eq hc ▸ h.not_current
    · exact hs.current_ne hc howns hu
  simp only [Carrier.ended, List.mem_append, Option.mem_toList, not_or] at hended
  rw [Bool.eq_false_iff, ne_eq, Carrier.refersTo_iff]
  rintro (hthread | hid | hid | hid)
  · exact hs.threadFiber_ne hc howns hthread
  · exact hcurrent hid
  · exact hended.2 hid
  · exact hended.1 hid

/-- Once the fiber is retired and the handle given away, only a switch can still refer to it. -/
theorem Expendable.isReferenced_iff (h : s.Expendable t id) (hs : s.Sound) (hk : s.Kept [])
    (hr : s.Retired id s₁) : (s₁.unhold id).isReferenced id = true ↔ s.LeftBySwitch id := by
  have hregistered : s₁.registry.isRegistered id = false := by
    rw [Bool.eq_false_iff, ne_eq, hr.isRegistered]
    exact fun hid => hid.1 rfl
  have hcarriers : s.carriers.any (fun c => c.refersTo id) = false := by
    simp only [List.any_eq_false, Bool.not_eq_true]
    exact fun c hc => h.not_refersTo hs (carrier?_of_mem hk.tokens hc)
  have hheld : (s.held.erase id).contains id = false := by simpa using h.unheld
  simp only [isReferenced, unhold, hr.held, hr.carriers, hr.calls, hregistered, hcarriers, hheld,
    Bool.false_or, List.any_eq_true, LeftBySwitch]
  refine exists_congr fun call => and_congr_right fun hcall => ?_
  rw [SwitchCall.refersTo_iff, or_iff_right (h.unlent call hcall)]

end Retiring

section Dismissing

/-- The stack of a heap fiber can be taken back. -/
theorem Kept.exists_release (hk : s.Kept []) (hid : s.Owns t false id) : ∃ f lease pool,
    s.fibers.get? id = some f ∧ f.stack = .leased lease ∧ lease.base = s.stackOf id
      ∧ s.pool.release (s.stackOf id) = .ok pool := by
  obtain ⟨f, hf, -, hheap⟩ := hid
  cases hstack : f.stack with
  | native region => simp [Fiber.isThreadFiber, Fiber.lease?, hstack] at hheap
  | leased lease =>
    have hholds := mem_holdings_of_leased hk.keys hf hstack
    have hbase := stackOf_of_mem hk hholds
    obtain ⟨pool, hrelease⟩ := hk.accounts.exists_release (mem_leased_of_holdings hholds)
    exact ⟨f, lease, pool, hf, hstack, hbase.symm, hbase ▸ hrelease⟩

theorem parkOrRelease_of_room (id : FiberId) (hroom : 0 < s.room t) :
    ∃ statistics, s.parkOrRelease t id
      = .ok { s.modifyCarrier t fun c => { c with idle := id :: c.idle } with statistics } := by
  obtain ⟨statistics, hrecord⟩ := exists_record
    (s.modifyCarrier t fun c => { c with idle := id :: c.idle }) t _
  refine ⟨statistics, ?_⟩
  rw [parkOrRelease, if_pos (Nat.lt_of_sub_pos hroom), recordIdle, hrecord]

theorem parkOrRelease_of_full (hfull : s.room t = 0) : s.parkOrRelease t id = s.reap id := by
  rw [parkOrRelease, if_neg (Nat.not_lt.2 (Nat.le_of_sub_eq_zero hfull))]

/-- Parking the fiber or freeing it changes nothing else. -/
theorem Retired.dismissed (hr : s.Retired id s₁) {carriers : List Carrier} {statistics : Statistics}
    {fibers : Table FiberId Fiber} {pool : Pool}
    (hothers : ∀ j, j ≠ id → fibers.get? j = s₁.fibers.get? j)
    (hfate : s.Fate t id { s₁.unhold id with carriers, statistics, fibers, pool }) :
    s.Dismissed t id { s₁.unhold id with carriers, statistics, fibers, pool } where
  settings := hr.settings
  calls := hr.calls
  held := congrArg (·.erase id) hr.held
  isRegistered := hr.isRegistered
  others j hj := (hothers j hj).trans (hr.get? hj)
  fate := hfate

theorem Retired.dismissed_of_room (hr : s.Retired id s₁) (hroom : 0 < s.room t) :
    ∃ s', (s₁.unhold id).parkOrRelease t id = .ok s' ∧ s.Dismissed t id s' := by
  obtain ⟨statistics, hpark⟩ := parkOrRelease_of_room id (hr.room t ▸ hroom)
  refine ⟨_, hpark, hr.dismissed (fun _ _ => rfl) (.parked hroom ?_ ⟨hr.pool, hr.get?_self⟩)⟩
  have hcarrier := carrier?_modifyCarrier (s := s₁.unhold id) (t := t) (u := t)
    (g := fun c => { c with idle := id :: c.idle }) fun _ => rfl
  rw [← hr.carrier?]
  exact hcarrier.trans (if_pos rfl)

theorem Retired.dismissed_of_leftBySwitch (hr : s.Retired id s₁) (hfull : s.room t = 0)
    (hleft : s.LeftBySwitch id) (hreferenced : (s₁.unhold id).isReferenced id = true) :
    ∃ s', (s₁.unhold id).parkOrRelease t id = .ok s' ∧ s.Dismissed t id s' := by
  refine ⟨s₁.unhold id, ?_, hr.dismissed (fun _ _ => rfl) ?_⟩
  · rw [parkOrRelease_of_full ((hr.room t).trans hfull), reap, if_pos hreferenced]
  · exact .lingers hfull hleft (hr.carrier? t) ⟨hr.pool, hr.get?_self⟩

theorem Retired.dismissed_of_not_leftBySwitch (hr : s.Retired id s₁) (hk : s.Kept [])
    (hid : s.Owns t false id) (hfull : s.room t = 0) (hleft : ¬s.LeftBySwitch id)
    (hreferenced : (s₁.unhold id).isReferenced id = false) :
    ∃ s', (s₁.unhold id).parkOrRelease t id = .ok s' ∧ s.Dismissed t id s' := by
  obtain ⟨f, lease, pool, hf, hstack, hbase, hrelease⟩ := hk.exists_release hid
  have hget : (s₁.unhold id).fibers.get? id = some { f with continuation := none } := by
    rw [unhold, hr.get?_self, hf, Option.map_some]
  have hfreed : (s₁.unhold id).reap id
      = .ok { s₁.unhold id with fibers := s₁.fibers.erase id, pool } := by
    have hpool : (s₁.unhold id).pool.release lease.base = .ok pool := by
      rw [unhold, hr.pool, hbase, hrelease]
    simp only [reap, hreferenced, Bool.false_eq_true, if_false, hget, hstack]
    exact bind_eq_ok_iff.2 ⟨pool, hpool, rfl⟩
  obtain ⟨htotalFree, hinUse⟩ := Pool.totals_of_release hrelease
  refine ⟨_, (parkOrRelease_of_full ((hr.room t).trans hfull)).trans hfreed,
    hr.dismissed (fun j hj => by simp [hj]) (.freed hfull hleft (hr.carrier? t) ?_)⟩
  exact ⟨by simp, Pool.free_of_release hrelease, htotalFree, hinUse⟩

/-- Terminating an expendable fiber never fails. -/
theorem Expendable.exists_dismissed (h : s.Expendable t id) (hs : s.Sound) (hk : s.Kept []) :
    ∃ s', s.terminate t id = .ok s' ∧ s.Dismissed t id s' := by
  obtain ⟨s₁, hretire, hr⟩ := exists_retire hs h.live h.not_current
  have hreferenced := h.isReferenced_iff hs hk hr
  have hdismissed : ∃ s', (s₁.unhold id).parkOrRelease t id = .ok s' ∧ s.Dismissed t id s' := by
    rcases Nat.eq_zero_or_pos (s.room t) with hfull | hroom
    · by_cases hleft : s.LeftBySwitch id
      · exact hr.dismissed_of_leftBySwitch hfull hleft (hreferenced.2 hleft)
      · refine hr.dismissed_of_not_leftBySwitch hk h.live.2 hfull hleft ?_
        exact Bool.eq_false_iff.2 fun href => hleft (hreferenced.1 href)
    · exact hr.dismissed_of_room hroom
  obtain ⟨s', hpark, hs'⟩ := hdismissed
  exact ⟨s', bind_eq_ok_iff.2 ⟨s₁, hretire, hpark⟩, hs'⟩

end Dismissing

section Lists

theorem Dismissed.exists_idle (hd : s.Dismissed t id s') (hc : s.carrier? t = some c) :
    ∃ idle, s'.carrier? t = some { c with idle } := by
  cases hd.fate with
  | parked _ hcarrier _ => exact ⟨_, by rw [hcarrier, hc, Option.map_some]⟩
  | freed _ _ hcarrier _ | lingers _ _ hcarrier _ => exact ⟨c.idle, hcarrier.trans hc⟩

theorem Expendable.exists_carrier (h : s.Expendable t id) (hs : s.Sound) :
    ∃ c, s.carrier? t = some c := by
  obtain ⟨u, b, c, howns, hc, -⟩ := hs.registered id h.live.1
  obtain ⟨rfl, -⟩ := h.live.2.unique howns
  exact ⟨c, hc⟩

/-- The other fibers can still be terminated. -/
theorem Expendable.dismissed {j : FiberId} (h : s.Expendable t j) (hs : s.Sound)
    (hd : s.Dismissed t id s') (hj : j ≠ id) : s'.Expendable t j := by
  obtain ⟨c, hc⟩ := h.exists_carrier hs
  obtain ⟨idle, hc'⟩ := hd.exists_idle hc
  refine ⟨⟨(hd.isRegistered j).2 ⟨hj, h.live.1⟩, ?_⟩, ?_, fun hmem => ?_, ?_⟩
  · obtain ⟨f, hf, howner⟩ := h.live.2
    exact ⟨f, (hd.others j hj).trans hf, howner⟩
  · have hcurrent := h.not_current
    rw [carrier_eq hc] at hcurrent
    rwa [carrier_eq hc']
  · rw [hd.held, List.erase_comm] at hmem
    exact h.unheld (List.mem_of_mem_erase hmem)
  · exact hd.calls ▸ h.unlent

theorem released_of_room (hroom : 0 < s.room t) : s.released t [id] = [] := by
  rw [released, List.drop_eq_nil_of_le hroom, List.filter_nil]

theorem released_of_full (hfull : s.room t = 0) :
    s.released t [id] = if s.LeftBySwitch id then [] else [id] := by
  rw [released, hfull, List.drop_zero, List.filter_singleton]
  split_ifs <;> simp_all

theorem Dismissed.all_of_keepsStack (hd : s.Dismissed t id s') (hnone : s.released t [id] = [])
    (hcarrier : s'.carrier? t = (s.carrier? t).map fun c =>
      { c with idle := ([id].take (s.room t)).reverse ++ c.idle })
    (h : s.KeepsStack id s') : s.DismissedAll t [id] s' := by
  constructor
  case settings => exact hd.settings
  case calls => exact hd.calls
  case isRegistered => simpa using hd.isRegistered
  case carrier? => exact hcarrier
  case others => simpa using hd.others
  case gone => simp [hnone]
  case stays => simpa [hnone] using h.get?
  case free => simp [hnone, h.pool]
  case totalFree => simp [hnone, h.pool]
  case inUse => simp [hnone, h.pool]

theorem Dismissed.all (hd : s.Dismissed t id s') : s.DismissedAll t [id] s' := by
  cases hd.fate with
  | parked hroom hcarrier h =>
    refine hd.all_of_keepsStack (released_of_room hroom) ?_ h
    rwa [List.take_of_length_le hroom]
  | lingers hfull hleft hcarrier h =>
    refine hd.all_of_keepsStack ((released_of_full hfull).trans (if_pos hleft)) ?_ h
    simpa [hfull] using hcarrier
  | freed hfull hleft hcarrier h =>
    have hreleased : s.released t [id] = [id] := (released_of_full hfull).trans (if_neg hleft)
    constructor
    case settings => exact hd.settings
    case calls => exact hd.calls
    case isRegistered => simpa using hd.isRegistered
    case carrier? => simpa [hfull] using hcarrier
    case others => simpa using hd.others
    case gone => simpa [hreleased] using h.get?
    case stays => simp [hreleased]
    case free => simpa [hreleased] using h.free
    case totalFree => simpa [hreleased] using h.totalFree
    case inUse => simpa [hreleased] using h.inUse

theorem mem_of_mem_released (hid : id ∈ s.released t ids) : id ∈ ids :=
  List.mem_of_mem_drop (List.mem_filter.1 hid).1

theorem DismissedAll.room (h : s.DismissedAll t ids s') (hc : s.carrier? t = some c) :
    s'.room t = s.room t - ids.length := by
  have hc' := h.carrier?
  rw [hc, Option.map_some] at hc'
  rw [FiberSystem.room, carrier_eq hc', h.settings]
  simp only [FiberSystem.room, carrier_eq hc, List.length_append, List.length_reverse,
    List.length_take]
  omega

theorem DismissedAll.released_append (h : s.DismissedAll t ids s₁) (hc : s.carrier? t = some c)
    (ids' : List FiberId) :
    s.released t (ids ++ ids') = s.released t ids ++ s₁.released t ids' := by
  have hleft : ∀ id, s₁.LeftBySwitch id ↔ s.LeftBySwitch id := fun id => by
    rw [LeftBySwitch, h.calls, LeftBySwitch]
  simp only [released, List.drop_append, List.filter_append, h.room hc, hleft]

theorem DismissedAll.nil (s : FiberSystem) (t : ThreadToken) : s.DismissedAll t [] s := by
  have hreleased : s.released t [] = [] := by simp [released]
  constructor <;> simp [hreleased]

theorem DismissedAll.append {ids' : List FiberId} (h : s.DismissedAll t ids s₁)
    (h' : s₁.DismissedAll t ids' s') (hc : s.carrier? t = some c) (hids : ids.Disjoint ids') :
    s.DismissedAll t (ids ++ ids') s' := by
  have hreleased := h.released_append hc ids'
  constructor
  case settings => exact h'.settings.trans h.settings
  case calls => exact h'.calls.trans h.calls
  case isRegistered =>
    intro j
    rw [h'.isRegistered, h.isRegistered, List.mem_append, not_or]
    tauto
  case carrier? =>
    rw [h'.carrier?, h.carrier?, Option.map_map, h.room hc]
    simp only [Function.comp_def, List.take_append, List.reverse_append, List.append_assoc]
  case others =>
    intro j hj
    rw [List.mem_append, not_or] at hj
    rw [h'.others j hj.2, h.others j hj.1]
  case gone =>
    intro j hj
    rcases List.mem_append.1 (hreleased ▸ hj) with hj | hj
    · rw [h'.others j (hids (mem_of_mem_released hj)), h.gone j hj]
    · exact h'.gone j hj
  case stays =>
    intro j hj hnot
    rw [hreleased, List.mem_append, not_or] at hnot
    rcases List.mem_append.1 hj with hj | hj
    · rw [h'.others j (hids hj), h.stays j hj hnot.1]
    · rw [h'.stays j hj hnot.2, h.others j fun hmem => hids hmem hj]
  case free =>
    have hstacks : (s₁.released t ids').map s₁.stackOf = (s₁.released t ids').map s.stackOf := by
      refine List.map_congr_left fun j hj => ?_
      rw [stackOf, fiber, h.others j fun hmem => hids hmem (mem_of_mem_released hj), stackOf, fiber]
    simp only [h'.free, h.free, hreleased, List.reverse_append, List.map_append, List.append_assoc,
      List.map_reverse, hstacks]
  case totalFree =>
    rw [hreleased, List.length_append, h'.totalFree, h.totalFree]
    omega
  case inUse =>
    have hfirst := h.inUse
    have hsecond := h'.inUse
    rw [hreleased, List.length_append]
    omega

end Lists

end FiberSystem

namespace Run

open FiberSystem Outcome

variable {host : Host} {settings : Settings} {provider : PageProvider} {policy : Option Bool}
  {s : FiberSystem} {t : ThreadToken} {operations : List Operation} {r : Run}

/-- The host lets go of one fiber after the other. -/
theorem Orderly.exists_dismissedAll {ids : List FiberId} (h : r.Orderly) (hids : ids.Nodup)
    (hexpendable : ∀ id ∈ ids, r.system.Expendable t id) :
    ∃ r', r.after (ids.map fun id => .perform t (.terminate id)) = .ok r'
      ∧ r.system.DismissedAll t ids r'.system := by
  induction ids generalizing r with
  | nil => exact ⟨r, rfl, .nil _ _⟩
  | cons id rest ih =>
    obtain ⟨hnot, hrest⟩ := List.nodup_cons.1 hids
    have hid := hexpendable id List.mem_cons_self
    obtain ⟨c, hc⟩ := hid.exists_carrier h.sound
    obtain ⟨s₁, hterminate, hd⟩ := hid.exists_dismissed h.sound h.kept
    have hperform : r.perform (.perform t (.terminate id))
        = .ok ⟨s₁, .terminated id :: r.history⟩ := by
      simp only [Run.perform, FiberSystem.perform, hc, performOn, hterminate]
      rfl
    obtain ⟨r', hafter, hall⟩ := ih (h.perform hperform).1 hrest fun j hj =>
      (hexpendable j (List.mem_cons_of_mem _ hj)).dismissed h.sound hd fun heq => hnot (heq ▸ hj)
    refine ⟨r', after_cons_eq_ok_iff.2 ⟨_, hperform, hafter⟩, hd.all.append hall hc ?_⟩
    exact List.singleton_disjoint.2 hnot

/-- In every state of a run a suspended fiber that the host lets go of can be terminated, and of any
number of them the first are parked while there is room and the others freed, but for those that a
switch has left. -/
theorem dismissed_of_after (hs : ofSettings host settings provider policy = .ok (.ok s))
    (hp : 0 < provider.pageSize) (hg : 0 < provider.granularity)
    (hr : Run.after ⟨s, []⟩ operations = .ok r) (t : ThreadToken) :
    (∀ id, r.system.Expendable t id →
        ∃ s', r.system.terminate t id = .ok s' ∧ r.system.Dismissed t id s')
      ∧ ∀ ids : List FiberId, ids.Nodup → (∀ id ∈ ids, r.system.Expendable t id) →
        ∃ r', r.after (ids.map fun id => .perform t (.terminate id)) = .ok r'
          ∧ r.system.DismissedAll t ids r'.system := by
  have h := orderly_of_after hs hp hg hr
  exact ⟨fun id hid => hid.exists_dismissed h.sound h.kept, fun ids hids hexpendable =>
    h.exists_dismissedAll hids hexpendable⟩

/-- There is room for one of three fibers. It is parked, the next one lingers, since a switch left
it, and the last one is freed. -/
theorem dismissed_of_left_fiber : ∃ s r,
    ofSettings .simulated { registryShards := 2, idleCacheSize := 1, verifyOnYield := true }
        ({} : Simulation).provider none = .ok (.ok s)
      ∧ Run.after ⟨s, []⟩
          [.attach 1 "main" (.ok ⟨0x10000000, 0x100000⟩), .perform ⟨1⟩ (.create .pooled none),
           .perform ⟨1⟩ (.create .pooled none), .perform ⟨1⟩ (.create .pooled none),
           .perform ⟨1⟩ (.switch (.ofNumber 1) .returning),
           .returnFrom ⟨⟨1⟩, .returning, .ofNumber 0, .ofNumber 1⟩,
           .perform ⟨1⟩ (.switch (.ofNumber 0) .returning)] = .ok r
      ∧ r.system.released ⟨1⟩ [.ofNumber 2, .ofNumber 1, .ofNumber 3] = [.ofNumber 3]
      ∧ ∃ r', r.after ([.ofNumber 2, .ofNumber 1, .ofNumber 3].map fun id =>
            .perform ⟨1⟩ (.terminate id)) = .ok r'
          ∧ r.system.DismissedAll ⟨1⟩ [.ofNumber 2, .ofNumber 1, .ofNumber 3] r'.system := by
  refine ⟨?s, ?r, ?hs, ?hr, ?hreleased, (dismissed_of_after ?hs (by decide) (by decide) ?hr ⟨1⟩).2
    [.ofNumber 2, .ofNumber 1, .ofNumber 3] (by decide) ?hexpendable⟩
  case hs => rfl
  case hr => rfl
  case hreleased => rfl
  case hexpendable =>
    intro id hid
    simp only [List.mem_cons, List.not_mem_nil, or_false] at hid
    obtain rfl | rfl | rfl := hid <;>
      exact ⟨⟨rfl, _, rfl, rfl, rfl⟩, by decide, by decide, by decide⟩

/-- A fiber has run and switched back, and the idle cache has no room. Terminated, it keeps its
stack, since the switch that it made has not returned. -/
theorem not_frees_of_left_fiber : ∃ s r s',
    ofSettings .simulated { registryShards := 2, idleCacheSize := 0, verifyOnYield := true }
        ({} : Simulation).provider none = .ok (.ok s)
      ∧ Run.after ⟨s, []⟩
          [.attach 1 "main" (.ok ⟨0x10000000, 0x100000⟩), .perform ⟨1⟩ (.create .pooled none),
           .perform ⟨1⟩ (.switch (.ofNumber 1) .returning),
           .returnFrom ⟨⟨1⟩, .returning, .ofNumber 0, .ofNumber 1⟩,
           .perform ⟨1⟩ (.switch (.ofNumber 0) .returning)] = .ok r
      ∧ r.system.Expendable ⟨1⟩ (.ofNumber 1) ∧ r.system.room ⟨1⟩ = 0
      ∧ r.system.terminate ⟨1⟩ (.ofNumber 1) = .ok s'
      ∧ s'.pool.totals.inUse = 1 ∧ s'.pool.totals.free = 0
      ∧ ¬r.system.Frees (.ofNumber 1) s' := by
  refine ⟨?s, ?r, ?s', ?hs, ?hr, ?hexpendable, ?hroom, ?hterminate, ?hinUse, ?hfree, ?hfrees⟩
  case hs => rfl
  case hr => rfl
  case hroom => rfl
  case hterminate => rfl
  case hinUse => rfl
  case hfree => rfl
  case hexpendable =>
    exact ⟨⟨rfl, _, rfl, rfl, rfl⟩, by decide, by decide, by decide⟩
  case hfrees =>
    intro h
    exact absurd h.totalFree (by decide)

end Run

end PooledFibers
