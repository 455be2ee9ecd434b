import Mathlib.Data.List.Basic
import Mathlib.Order.MinMax
import Mathlib.Tactic.Common
import PooledFibers.Proofs.FiberSystem.Detachment
import PooledFibers.Proofs.FiberSystem.Entry
import PooledFibers.Proofs.FiberSystem.Run

/-!
# What a thread may change

`Move` lists the small changes that the operations of a thread consist of. Each is about the thread's
own carrier, its own fibers, its own statistics, or the pool. The `move_of_` lemmas take the
operations apart; a property of all operations of a thread is then an induction over moves.
-/

namespace PooledFibers.FiberSystem

open Outcome

/-- The fiber, if it exists, is the thread's. -/
def OwnedBy (s : FiberSystem) (t : ThreadToken) (id : FiberId) : Prop :=
  ∀ f, s.fibers.get? id = some f → f.owner = t

/-- The fiber has been made, whether or not it still exists. -/
def Made (s : FiberSystem) (id : FiberId) : Prop := s.identities.Given id

/-- A switch between fibers of the thread. -/
structure CallOf (s : FiberSystem) (t : ThreadToken) (call : SwitchCall) : Prop where
  thread : call.thread = t
  source : s.Made call.source ∧ s.OwnedBy t call.source
  target : s.Made call.target ∧ s.OwnedBy t call.target

/-- Changes that a thread makes while it stays attached. -/
inductive Move (t : ThreadToken) : FiberSystem → FiberSystem → Prop
  | refl (s) : Move t s s
  | held (s : FiberSystem) (held : List FiberId) : Move t s { s with held }
  /-- A switch is entered, or some have returned. -/
  | calls {s : FiberSystem} {calls : List SwitchCall}
    (h : ∀ call ∈ calls, call ∈ s.calls ∨ s.CallOf t call) : Move t s { s with calls }
  | notice (s n) : Move t s (s.notice n)
  | tally (s) (h : Tally → Tally) :
    Move t s (s.record t fun statistics slot => statistics.record slot h)
  | carrier {s} {g : Carrier → Carrier} (hg : ∀ c, (g c).token = c.token ∧ (g c).slot = c.slot)
    (hroom : ∀ c, s.carrier? t = some c →
      (g c).idle.length ≤ max c.idle.length s.settings.idleCacheSize) :
    Move t s (s.modifyCarrier t g)
  | fiber {s id} {g : Fiber → Fiber} (howned : s.OwnedBy t id)
    (hg : ∀ f, (g f).owner = f.owner ∧ (g f).stack = f.stack
      ∧ (g f).continuation = f.continuation)
    (hrecord : ∀ f, s.fibers.get? id = some f →
      (g f).bookmark.isRecorded = f.bookmark.isRecorded) : Move t s (s.modifyFiber id g)
  | enroll {s s' id continuation} (howned : s.OwnedBy t id)
    (h : s.enroll id continuation = .ok s') : Move t s s'
  | withdraw {s s' id} (howned : s.OwnedBy t id) (h : s.withdraw id = .ok s') : Move t s s'
  /-- The thread's own fiber leaves the registry. -/
  | unregister {s s' id} (howns : s.Owns t true id) (h : s.unregister id = .ok s') : Move t s s'
  | reap {s s' id} (howned : s.OwnedBy t id) (h : s.reap id = .ok s') : Move t s s'
  | renew {s s' id} (howned : s.OwnedBy t id) (h : s.renew id = .ok s') : Move t s s'
  | make {s : FiberSystem} {name lease pool}
    (hnew : s.fibers.get? s.nextFiber = none) (h : s.pool.acquire = .ok (.ok lease, pool)) :
    Move t s (({ s with pool }.withMachine (Fiber.prime pool.machine lease.base)).addFiber
      (.ofLease s.nextFiber t name lease s.settings.verifyOnYield))
  | makeNone {s : FiberSystem} {failure pool} (h : s.pool.acquire = .ok (.error failure, pool)) :
    Move t s { s with pool }
  | trans {s s' s''} (h : Move t s s') (h' : Move t s' s'') : Move t s s''

variable {s s' s₁ : FiberSystem} {t u : ThreadToken} {c : Carrier} {id : FiberId}
  {ids : List FiberId}

section Owned

theorem Owns.ownedBy {b : Bool} (h : s.Owns t b id) : s.OwnedBy t id := by
  obtain ⟨f, hf, howner, -⟩ := h
  intro f' hf'
  obtain rfl := Option.some.inj (hf.symm.trans hf')
  exact howner

theorem ownedBy_of_fiber (h : (s.fiber id).owner = t) : s.OwnedBy t id := fun _ hf =>
  fiber_eq hf ▸ h

theorem OwnedBy.of_fibers_eq (h : s.OwnedBy t id) (hs : s'.fibers = s.fibers) :
    s'.OwnedBy t id := by
  rwa [OwnedBy, hs]

theorem OwnedBy.modify (h : s.OwnedBy t id) {j : FiberId} {g : Fiber → Fiber}
    (hs : s'.fibers = s.fibers.modify j g) (hg : ∀ f, (g f).owner = f.owner) :
    s'.OwnedBy t id := by
  intro f hf
  rw [hs, Table.get?_modify] at hf
  split_ifs at hf
  · obtain ⟨f₀, hf₀, rfl⟩ := Option.map_eq_some_iff.1 hf
    rw [hg, h f₀ hf₀]
  · exact h f hf

theorem OwnedBy.reap (h : s.OwnedBy t id) {j : FiberId} (hr : s.reap j = .ok s') :
    s'.OwnedBy t id := by
  obtain rfl | ⟨-, _, _, -, -, -, rfl⟩ := reap_cases hr
  · exact h
  · intro f hf
    simp only [Table.get?_erase] at hf
    split_ifs at hf
    exact h f hf

theorem register_eq_ok_iff : s.register id = .ok s' ↔
    ∃ registry, s.registry.insert id = .ok registry ∧ { s with registry } = s' := by
  simp [register, bind_eq_ok_iff]

theorem unregister_eq_ok_iff : s.unregister id = .ok s' ↔
    ∃ registry, s.registry.remove id = .ok registry ∧ { s with registry } = s' := by
  simp [unregister, bind_eq_ok_iff]

theorem fibers_of_unregister (hr : s.unregister id = .ok s') : s'.fibers = s.fibers := by
  obtain ⟨registry, -, rfl⟩ := unregister_eq_ok_iff.1 hr
  rfl

theorem fibers_of_enroll {continuation : Option ContinuationId}
    (hr : s.enroll id continuation = .ok s') :
    s'.fibers = s.fibers.modify id fun f => { f with continuation } := by
  obtain ⟨registry, -, rfl⟩ := register_eq_ok_iff.1 hr
  rfl

theorem fibers_of_withdraw (hr : s.withdraw id = .ok s') :
    s'.fibers = s.fibers.modify id fun f => { f with continuation := none } :=
  fibers_of_unregister hr

theorem renew_cases (hr : s.renew id = .ok s') : (s.fiber id).isThreadFiber = false
    ∧ s' = (s.withMachine (Fiber.prime s.machine (s.fiber id).region.base)).modifyFiber id
      Fiber.renewed := by
  simp only [renew] at hr
  split_ifs at hr with hthread
  exact ⟨by simpa using hthread, (Except.ok.inj hr).symm⟩

theorem exists_of_renew (hr : s.renew id = .ok s') : ∃ machine, s.machine.Keeps machine
    ∧ s' = (s.withMachine machine).modifyFiber id Fiber.renewed :=
  ⟨_, Machine.keeps_writeAll _ _, (renew_cases hr).2⟩

theorem fibers_of_renew (hr : s.renew id = .ok s') :
    s'.fibers = s.fibers.modify id Fiber.renewed :=
  congrArg fibers (renew_cases hr).2

theorem fibers_record (g : Statistics → Nat → Statistics) : (s.record t g).fibers = s.fibers :=
  (same_record s t g).fibers

theorem calls_record (g : Statistics → Nat → Statistics) : (s.record t g).calls = s.calls := by
  simp only [record]
  split <;> rfl

/-- A thread's moves take no fiber from it. -/
theorem Move.ownedBy (h : s.Move t s') (howned : s.OwnedBy t id) : s'.OwnedBy t id := by
  induction h with
  | tally s h => exact howned.of_fibers_eq (fibers_record _)
  | fiber _ hg => exact howned.modify rfl fun f => (hg f).1
  | enroll _ hr => exact howned.modify (fibers_of_enroll hr) fun _ => rfl
  | withdraw _ hr => exact howned.modify (fibers_of_withdraw hr) fun _ => rfl
  | unregister _ hr => exact howned.of_fibers_eq (fibers_of_unregister hr)
  | reap _ hr => exact howned.reap hr
  | renew _ hr => exact howned.modify (fibers_of_renew hr) fun _ => rfl
  | @make s name lease pool hnew hacquire =>
    intro f hf
    simp only [addFiber, Table.get?_insert] at hf
    split_ifs at hf
    · exact Option.some.inj hf ▸ rfl
    · exact howned f hf
  | trans _ _ ih ih' => exact ih' (ih howned)
  | _ => exact howned

/-- A thread's moves leave the carriers of the others alone. -/
theorem Move.carrier?_of_ne (h : s.Move t s') (hu : u ≠ t) : s'.carrier? u = s.carrier? u := by
  induction h with
  | tally s h => exact (same_record _ _ _).carrier? u
  | carrier hg _ => rw [carrier?_modifyCarrier fun c => (hg c).1, if_neg hu]
  | enroll _ hr =>
    obtain ⟨registry, -, rfl⟩ := register_eq_ok_iff.1 hr
    rfl
  | withdraw _ hr =>
    obtain ⟨registry, -, rfl⟩ := unregister_eq_ok_iff.1 hr
    rfl
  | unregister _ hr =>
    obtain ⟨registry, -, rfl⟩ := unregister_eq_ok_iff.1 hr
    rfl
  | reap _ hr => exact carrier?_of_reap hr u
  | renew _ hr =>
    obtain ⟨machine, -, rfl⟩ := exists_of_renew hr
    rfl
  | trans _ _ ih ih' => exact ih'.trans ih
  | _ => rfl

theorem Move.precedes (h : s.Move t s') : s.identities.Precedes s'.identities := by
  induction h with
  | tally s h => exact (same_record s t _).identities ▸ .refl _
  | enroll _ hr =>
    obtain ⟨registry, -, rfl⟩ := register_eq_ok_iff.1 hr
    exact .refl _
  | withdraw _ hr =>
    obtain ⟨registry, -, rfl⟩ := unregister_eq_ok_iff.1 hr
    exact .refl _
  | unregister _ hr =>
    obtain ⟨registry, -, rfl⟩ := unregister_eq_ok_iff.1 hr
    exact .refl _
  | reap _ hr =>
    obtain rfl | ⟨-, _, _, -, -, -, rfl⟩ := reap_cases hr <;> exact .refl _
  | renew _ hr =>
    obtain ⟨machine, -, rfl⟩ := exists_of_renew hr
    exact .refl _
  | make _ _ => exact Identities.precedes_advance _
  | trans _ _ ih ih' => exact ih.trans ih'
  | _ => exact .refl _

/-- A fiber that has been made stays so, and stays the thread's. -/
theorem Move.made (h : s.Move t s') (hid : s.Made id) (howned : s.OwnedBy t id) :
    s'.Made id ∧ s'.OwnedBy t id :=
  ⟨Identities.Given.mono hid h.precedes, h.ownedBy howned⟩

theorem Move.settings (h : s.Move t s') : s'.settings = s.settings := by
  induction h with
  | tally s h => exact (same_record _ _ _).settings
  | enroll _ hr =>
    obtain ⟨registry, -, rfl⟩ := register_eq_ok_iff.1 hr
    rfl
  | withdraw _ hr =>
    obtain ⟨registry, -, rfl⟩ := unregister_eq_ok_iff.1 hr
    rfl
  | unregister _ hr =>
    obtain ⟨registry, -, rfl⟩ := unregister_eq_ok_iff.1 hr
    rfl
  | reap _ hr => obtain rfl | ⟨-, _, _, -, -, -, rfl⟩ := reap_cases hr <;> rfl
  | renew _ hr =>
    obtain ⟨machine, -, rfl⟩ := exists_of_renew hr
    rfl
  | trans _ _ ih ih' => exact ih'.trans ih
  | _ => rfl

end Owned

section Ending

theorem Sound.ownedBy_of_mem_ended (h : s.Sound) (hc : s.carrier? t = some c)
    (hid : id ∈ c.ended) : s.OwnedBy t id :=
  ((h.carries t c hc).ended id hid).1.ownedBy

theorem Sound.ownedBy_of_pending (h : s.Sound) (hpending : (s.carrier t).pending = some id) :
    s.OwnedBy t id := by
  obtain ⟨c, hc, hpending⟩ := carrier?_of_pending hpending
  exact h.ownedBy_of_mem_ended hc (by simp [Carrier.ended, hpending])

theorem move_of_recordIdle (s : FiberSystem) (t : ThreadToken) : s.Move t (s.recordIdle t) :=
  .tally s fun tally => { tally with idle := .ofNat (s.carrier t).idle.length }

theorem move_of_parkOrRelease (howned : s.OwnedBy t id) (hr : s.parkOrRelease t id = .ok s') :
    s.Move t s' := by
  simp only [parkOrRelease] at hr
  split_ifs at hr with hroom
  · have hparked : s.Move t (s.modifyCarrier t fun c => { c with idle := id :: c.idle }) := by
      refine .carrier (fun _ => ⟨rfl, rfl⟩) fun c hc => ?_
      rw [carrier_eq hc] at hroom
      exact le_max_of_le_right hroom
    exact Except.ok.inj hr ▸ hparked.trans (move_of_recordIdle _ t)
  · exact .reap howned hr

/-- A change of what waits in the pending slot. -/
theorem move_of_pending (s : FiberSystem) (t : ThreadToken) (pending : Option FiberId) :
    s.Move t (s.modifyCarrier t fun c => { c with pending }) :=
  .carrier (fun _ => ⟨rfl, rfl⟩) fun _ _ => le_max_left _ _

theorem move_of_reclaim (h : s.Sound) (hr : s.reclaim t = .ok s') : s.Move t s' := by
  simp only [reclaim] at hr
  split at hr <;> rename_i hpending
  · exact Except.ok.inj hr ▸ .refl s
  · have howned := (h.ownedBy_of_pending hpending).of_fibers_eq rfl
    exact (move_of_pending s t none).trans (move_of_parkOrRelease howned hr)

theorem move_of_reapAll (howned : ∀ id ∈ ids, s.OwnedBy t id) (hr : s.reapAll ids = .ok s') :
    s.Move t s' := by
  induction ids generalizing s with
  | nil => exact Except.ok.inj hr ▸ .refl s
  | cons id rest ih =>
    obtain ⟨s₁, hreap, hr⟩ := bind_eq_ok_iff.1 hr
    refine (Move.reap (howned id List.mem_cons_self) hreap).trans (ih (fun j hj => ?_) hr)
    exact (howned j (List.mem_cons_of_mem _ hj)).reap hreap

end Ending

section Creating

theorem move_of_wakeIdle {rest : List FiberId} (h : s.Sound) (hc : s.carrier? t = some c)
    (hidle : c.idle = id :: rest) (hr : s.wakeIdle t id rest = .ok s') : s.Move t s' := by
  obtain ⟨s₁, hrenew, hr⟩ := bind_eq_ok_iff.1 hr
  have hended : id ∈ c.ended := by simp [Carrier.ended, hidle]
  have howned := h.ownedBy_of_mem_ended hc hended
  have hunparked : (s.hold id).Move t
      ((s.hold id).modifyCarrier t fun c => { c with idle := rest }) := by
    refine .carrier (fun _ => ⟨rfl, rfl⟩) fun c' hc' => ?_
    obtain rfl : c = c' := Option.some.inj (hc.symm.trans hc')
    exact le_max_of_le_left (by simp [hidle])
  have hrenewed := Move.renew (hunparked.ownedBy (howned.of_fibers_eq rfl)) hrenew
  have hreused : (s₁.recordIdle t).Move t ((s₁.recordIdle t).record t Statistics.recordReused) :=
    .tally _ fun tally => { tally with reused := tally.reused + 1 }
  exact Except.ok.inj hr ▸ (Move.held s (id :: s.held)).trans
    (hunparked.trans (hrenewed.trans ((move_of_recordIdle s₁ t).trans hreused)))

theorem move_of_makeFiber {made : Except Failure FiberId} (h : s.Sound)
    (hr : s.makeFiber t = .ok (made, s')) : s.Move t s' := by
  obtain ⟨⟨_ | lease, pool⟩, hacquire, hr⟩ := bind_eq_ok_iff.1 hr <;>
    simp only [pure_eq_ok, Except.ok.injEq, Prod.mk.injEq] at hr <;> obtain ⟨-, rfl⟩ := hr
  · exact .makeNone hacquire
  · have hmade : s.Move t
        (({ s with pool }.withMachine (Fiber.prime pool.machine lease.base)).addFiber
          (.ofLease s.nextFiber t (s.carrier t).name lease s.settings.verifyOnYield)) :=
      .make h.nextFiber_not_made hacquire
    refine hmade.trans ((Move.held _ (s.nextFiber :: s.held)).trans ?_)
    exact .tally _ fun tally => { tally with created := tally.created + 1 }

theorem move_of_supply {made : Except Failure FiberId} (h : s.Sound)
    (hc : s.carrier? t = some c) (hr : s.supply t = .ok (made, s')) : s.Move t s' := by
  simp only [supply, carrier_eq hc] at hr
  split at hr <;> rename_i hidle
  · obtain ⟨s₁, hwake, hr⟩ := bind_eq_ok_iff.1 hr
    simp only [pure_eq_ok, Except.ok.injEq, Prod.mk.injEq] at hr
    exact hr.2 ▸ move_of_wakeIdle h hc hidle hwake
  · exact move_of_makeFiber h hr

theorem move_of_create {request : StackRequest} {continuation : Option ContinuationId}
    {outcome : Except Failure FiberId} (h : s.Sound) (hc : s.carrier? t = some c)
    (hr : s.create t request continuation = .ok (outcome, s')) : s.Move t s' := by
  cases request with
  | kernel =>
    simp only [create] at hr
    split_ifs at hr
    simp only [pure_eq_ok, Except.ok.injEq, Prod.mk.injEq] at hr
    exact hr.2 ▸ .held s _
  | bytes size =>
    simp only [create, pure_eq_ok, Except.ok.injEq, Prod.mk.injEq] at hr
    exact hr.2 ▸ .refl s
  | pooled =>
    obtain ⟨s₁, hreclaim, hr⟩ := bind_eq_ok_iff.1 hr
    obtain ⟨⟨made, s₂⟩, hsupply, hr⟩ := bind_eq_ok_iff.1 hr
    have hreclaimed := upkeep_reclaim h hreclaim
    have hs₁ := hreclaimed.sound h
    obtain ⟨c₁, hc₁, -⟩ := hreclaimed.exists_carrier hc
    have hmoves := (move_of_reclaim h hreclaim).trans (move_of_supply hs₁ hc₁ hsupply)
    cases made with
    | error failure =>
      simp only [pure_eq_ok, Except.ok.injEq, Prod.mk.injEq] at hr
      exact hr.2 ▸ hmoves
    | ok id =>
      obtain ⟨s₃, henroll, hr⟩ := bind_eq_ok_iff.1 hr
      simp only [pure_eq_ok, Except.ok.injEq, Prod.mk.injEq] at hr
      have howned := ((upkeep_supply hs₁ hc₁ hsupply).2 id rfl).owns.ownedBy
      exact hr.2 ▸ hmoves.trans (.enroll howned henroll)

end Creating

section Withdrawing

theorem move_of_retire (hr : s.retire t id = .ok s') : s.Move t s' := by
  obtain ⟨howns, -, -⟩ := retire_cases hr
  simp only [retire, check_eq_ok_iff] at hr
  obtain ⟨-, -, -, hr⟩ := hr
  obtain ⟨s₁, hwithdraw, hr⟩ := bind_eq_ok_iff.1 hr
  exact Except.ok.inj hr ▸ (Move.withdraw howns.ownedBy hwithdraw).trans
    (.tally _ fun tally => { tally with terminated := tally.terminated + 1 })

theorem move_of_terminate (hr : s.terminate t id = .ok s') : s.Move t s' := by
  obtain ⟨s₁, hretire, hr⟩ := bind_eq_ok_iff.1 hr
  have hretired := move_of_retire hretire
  have howned := hretired.ownedBy (retire_cases hretire).1.ownedBy
  exact hretired.trans ((Move.held s₁ (s₁.held.erase id)).trans
    (move_of_parkOrRelease (howned.of_fibers_eq rfl) hr))

/-- After a fiber has been retired its carrier keeps the fibers that it kept. -/
theorem move_of_retireSource {source : FiberId} (h : s.Sound)
    (hr : s.retireSource t source = .ok s') : s.Move t s' := by
  obtain ⟨s₁, hretire, hr⟩ := bind_eq_ok_iff.1 hr
  obtain ⟨-, -, s₀, hwithdraw, hsame⟩ := retire_cases hretire
  have hs₁ := (h.withdraw hwithdraw).same hsame.toSamePlaces
  have hawaits := (move_of_retire hretire).trans (move_of_pending s₁ t (some source))
  dsimp only at hr
  split at hr <;> rename_i hpending
  · exact Except.ok.inj hr ▸ hawaits
  · have howned := (hs₁.ownedBy_of_pending hpending).of_fibers_eq rfl
    exact hawaits.trans (move_of_parkOrRelease howned hr)

end Withdrawing

section Switching

variable {source target : FiberId} {kind : SwitchKind} {f : Fiber}

theorem move_of_verifySwitch (howned : s.OwnedBy t target)
    (hf : s.fibers.get? target = some f) (hr : s.verifySwitch t source target kind = .ok s') :
    s.Move t s' := by
  have hrecord := isRecorded_entryBookmark hf hr
  obtain ⟨-, bookmark, hbookmark, ⟨rfl, -⟩ | rfl⟩ := verifySwitch_cases hf hr
  · exact .refl _
  · refine .fiber howned (fun _ => ⟨rfl, rfl, rfl⟩) fun f' hf' => ?_
    obtain rfl : f = f' := Option.some.inj (hf.symm.trans hf')
    exact hbookmark ▸ hrecord

theorem move_of_exchange (hsource : s.OwnedBy t source) (htarget : s.OwnedBy t target) :
    s.Move t (s.exchange t source target) := by
  set s₁ := s.modifyFiber source fun f => { f with state := .onStack }
  have hleft : s.Move t s₁ := .fiber hsource (fun _ => ⟨rfl, rfl, rfl⟩) fun _ _ => rfl
  set s₂ := s₁.modifyFiber target fun f => { f with state := .current, entered := true }
  have hentered : s₁.Move t s₂ :=
    .fiber (hleft.ownedBy htarget) (fun _ => ⟨rfl, rfl, rfl⟩) fun _ _ => rfl
  have hcurrent : s₂.Move t (s₂.modifyCarrier t fun c => { c with current := target }) :=
    .carrier (fun _ => ⟨rfl, rfl⟩) fun _ _ => le_max_left _ _
  exact hleft.trans (hentered.trans hcurrent)

/-- The moves of a switch up to the point where a terminating one ends the source. -/
theorem move_of_exchanged (h : s.Sound) (hc : s.carrier? t = some c)
    (hcheck : s.checkTarget t target = .ok ())
    (hverify : s.verifySwitch t c.current target kind = .ok s₁) :
    s.Move t { s₁.exchange t c.current target with
        calls := ⟨t, kind, c.current, target⟩ :: s₁.calls }
      ∧ { s₁.exchange t c.current target with
        calls := ⟨t, kind, c.current, target⟩ :: s₁.calls }.Sound := by
  obtain ⟨f, hf, howner⟩ := h.exists_fiber hc (checkTarget_cases hcheck).1
  have htarget : s.OwnedBy t target := ownedBy_of_fiber (checkTarget_cases hcheck).1
  obtain ⟨_, hcurrent⟩ := (h.carries t c hc).current
  have hsource := hcurrent.ownedBy
  have hverified := move_of_verifySwitch htarget hf hverify
  have hexchanged := move_of_exchange (hverified.ownedBy hsource) (hverified.ownedBy htarget)
  have hmoved := hverified.trans hexchanged
  refine ⟨hmoved.trans (.calls fun call hcall => ?_), (exchange_spec h hf howner hverify _).1⟩
  refine (List.mem_cons.1 hcall).symm.imp_right ?_
  rintro rfl
  obtain ⟨g, hg, -⟩ := hcurrent
  exact ⟨rfl, hmoved.made (h.made _ g hg) hsource, hmoved.made (h.made _ f hf) htarget⟩

theorem move_of_enter (h : s.Sound) (hc : s.carrier? t = some c)
    (hr : s.enter t target kind = .ok s') : s.Move t s' := by
  simp only [enter, carrier_eq hc] at hr
  obtain ⟨⟨⟩, hcheck, hr⟩ := bind_eq_ok_iff.1 hr
  obtain ⟨s₁, hverify, hr⟩ := bind_eq_ok_iff.1 hr
  obtain ⟨hmove, hsound⟩ := move_of_exchanged h hc hcheck hverify
  cases kind with
  | returning => exact Except.ok.inj hr ▸ hmove
  | terminating => exact hmove.trans (move_of_retireSource hsound hr)

theorem move_of_returnFrom {call : SwitchCall} (h : s.Sound) (hcall : s.CallOf t call)
    (hr : s.returnFrom call = .ok s') : s.Move t s' := by
  obtain rfl := hcall.thread
  obtain ⟨s₁, hreclaim, hr⟩ := bind_eq_ok_iff.1 hr
  have hreturned : s₁.Move call.thread { s₁ with calls := s₁.calls.erase call } :=
    .calls fun _ hmem => .inl (List.mem_of_mem_erase hmem)
  have hmove := (move_of_reclaim h hreclaim).trans hreturned
  refine hmove.trans (move_of_reapAll (fun id hid => ?_) hr)
  rcases List.mem_pair.1 hid with rfl | rfl
  · exact hmove.ownedBy hcall.source.2
  · exact hmove.ownedBy hcall.target.2

end Switching

section Detaching

theorem move_of_dropPending (h : s.Sound) (hr : s.dropPending t = .ok s') : s.Move t s' := by
  simp only [dropPending] at hr
  split at hr <;> rename_i hpending
  · exact Except.ok.inj hr ▸ .refl s
  · have howned := (h.ownedBy_of_pending hpending).of_fibers_eq rfl
    exact (move_of_pending s t none).trans (.reap howned hr)

theorem move_of_dropParked (howned : ∀ id ∈ ids, s.OwnedBy t id)
    (hidle : ∀ c, s.carrier? t = some c → c.idle = ids.reverse)
    (hr : s.dropParked t ids = .ok s') : s.Move t s' := by
  induction ids generalizing s with
  | nil => exact Except.ok.inj hr ▸ .refl s
  | cons id rest ih =>
    obtain ⟨s₁, hreap, hr⟩ := bind_eq_ok_iff.1 hr
    have hunparked : s.Move t (s.modifyCarrier t fun c => { c with idle := rest.reverse }) := by
      refine .carrier (fun _ => ⟨rfl, rfl⟩) fun c hc => le_max_of_le_left ?_
      simp [hidle c hc]
    have hreaped : s.Move t s₁ := hunparked.trans
      (.reap (hunparked.ownedBy (howned id List.mem_cons_self)) hreap)
    refine hreaped.trans (ih (fun j hj => ?_) (fun c hc => ?_) hr)
    · exact hreaped.ownedBy (howned j (List.mem_cons_of_mem _ hj))
    · rw [carrier?_of_reap hreap, carrier?_modifyCarrier (g := fun c =>
        { c with idle := rest.reverse }) fun _ => rfl, if_pos rfl] at hc
      obtain ⟨c₀, -, rfl⟩ := Option.map_eq_some_iff.1 hc
      rfl

theorem move_of_dropEnded (h : s.Sound) (hc : s.carrier? t = some c)
    (hr : s.dropEnded t = .ok s') : s.Move t s' := by
  obtain ⟨s₁, hpending, hr⟩ := bind_eq_ok_iff.1 hr
  have hdropped := upkeep_dropPending hpending
  obtain ⟨c₁, hc₁, -⟩ := hdropped.exists_carrier hc
  rw [carrier_eq hc₁] at hr
  refine (move_of_dropPending h hpending).trans (move_of_dropParked (fun id hid => ?_) ?_ hr)
  · refine (hdropped.sound h).ownedBy_of_mem_ended hc₁ ?_
    simpa [Carrier.ended] using .inr (List.mem_reverse.1 hid)
  · intro c' hc'
    rw [Option.some.inj (hc₁.symm.trans hc'), List.reverse_reverse]

theorem move_of_withdrawAll (howned : ∀ id ∈ ids, s.OwnedBy t id)
    (hr : s.withdrawAll ids = .ok s') : s.Move t s' := by
  induction ids generalizing s with
  | nil => exact Except.ok.inj hr ▸ .refl s
  | cons id rest ih =>
    obtain ⟨s₁, hwithdraw, hr⟩ := bind_eq_ok_iff.1 hr
    have hmove : s.Move t s₁ := .withdraw (howned id List.mem_cons_self) hwithdraw
    exact hmove.trans (ih (fun j hj => hmove.ownedBy (howned j (List.mem_cons_of_mem _ hj))) hr)

theorem move_of_disown (howned : ∀ id ∈ ids, s.OwnedBy t id) (hr : s.disown t ids = .ok s') :
    s.Move t s' := by
  cases ids with
  | nil => exact Except.ok.inj hr ▸ .refl s
  | cons id rest =>
    exact (Move.notice s _).trans
      (move_of_withdrawAll (fun j hj => (howned j hj).of_fibers_eq rfl) hr)

/-- A thread that detaches makes moves, gives its statistics up, makes moves again, and is gone
before the last ones. -/
theorem moves_of_detach (h : s.Sound) (hc : s.carrier? t = some c)
    (hr : s.detach t = .ok s') : ∃ s₁ s₂, s.Move t s₁
      ∧ (s₁.record t Statistics.unregister).Move t s₂
      ∧ { s₂ with carriers := s₂.carriers.filter fun c => c.token ≠ t }.Move t s' := by
  obtain ⟨s₁, hended, hr⟩ := bind_eq_ok_iff.1 hr
  obtain ⟨orphans, horphans, hr⟩ := bind_eq_ok_iff.1 hr
  obtain ⟨s₂, hdisown, hr⟩ := bind_eq_ok_iff.1 hr
  obtain ⟨s₃, hsignOff, hr⟩ := bind_eq_ok_iff.1 hr
  obtain ⟨s₄, hreap, hdrop⟩ := bind_eq_ok_iff.1 hr
  obtain ⟨s₅, hunregister, hrecord⟩ := bind_eq_ok_iff.1 hsignOff
  obtain ⟨c₁, hc₁, -⟩ := (upkeep_dropEnded hended).exists_carrier hc
  have hs₁ := (upkeep_dropEnded hended).sound h
  have horphaned : ∀ id ∈ orphans, s₁.OwnedBy t id := fun id hid =>
    ((hs₁.mem_orphans_iff horphans).1 hid).2.ownedBy
  have hdisowned := move_of_disown horphaned hdisown
  obtain ⟨hs₂, s₀, hsame, hderegistered⟩ := disown_cases hs₁ hdisown
  have hc₂ : s₂.carrier? t = some c₁ :=
    (hderegistered.carrier? t).trans ((hsame.carrier? t).trans hc₁)
  rw [carrier_eq hc₂] at hunregister
  have hcarries := hs₂.carries t c₁ hc₂
  have hunregistered := Move.unregister hcarries.threadFiber hunregister
  obtain rfl := Except.ok.inj hrecord
  have hsigned : ∀ j, s₂.OwnedBy t j → (s₅.record t Statistics.unregister).OwnedBy t j :=
    fun j hj => (hunregistered.ownedBy hj).of_fibers_eq (fibers_record _)
  have hreaped := move_of_reapAll
    (fun j hj => hsigned j (hdisowned.ownedBy (horphaned j hj))) hreap
  have hc₄ : s₄.carrier? t = some c₁ := by
    rw [carrier?_of_reapAll hreap, (same_record s₅ t _).carrier?,
      (deregistered_of_unregister hs₂.registry hunregister).carrier?, hc₂]
  refine ⟨s₅, s₄, (move_of_dropEnded h hc hended).trans (hdisowned.trans hunregistered), hreaped, ?_⟩
  simp only [dropCarrier, carrier_eq hc₄] at hdrop
  refine move_of_reapAll (fun j hj => ?_) hdrop
  obtain ⟨_, hcurrent⟩ := hcarries.current
  have hleft : ∀ j, s₂.OwnedBy t j → s₄.OwnedBy t j := fun j hj => hreaped.ownedBy (hsigned j hj)
  rcases List.mem_pair.1 hj with rfl | rfl
  · exact hleft _ hcarries.threadFiber.ownedBy
  · exact hleft _ hcurrent.ownedBy

end Detaching

/-- Every operation of a thread but the last consists of moves. -/
theorem move_of_performOn {operation : ThreadOperation} {e : Option Event} (h : s.Sound)
    (hc : s.carrier? t = some c) (hr : s.performOn t c operation = .ok (s', e))
    (hstays : operation ≠ .detach) : s.Move t s' := by
  cases operation with
  | create request continuation =>
    obtain ⟨⟨outcome, s₁⟩, hcreate, heq⟩ := map_eq_ok_iff.1 hr
    obtain ⟨rfl, -⟩ := Prod.mk.inj heq
    exact move_of_create h hc hcreate
  | terminate fiber => exact move_of_terminate (eq_ok_of_map_mk hr)
  | switch target kind => exact move_of_enter h hc (eq_ok_of_map_mk hr)
  | reclaim => exact move_of_reclaim h (eq_ok_of_map_mk hr)
  | detach => exact absurd rfl hstays
  | scratch operation =>
    obtain ⟨scratch, -, heq⟩ := map_eq_ok_iff.1 hr
    obtain ⟨rfl, -⟩ := Prod.mk.inj heq
    exact .carrier (fun _ => ⟨rfl, rfl⟩) fun _ _ => le_max_left _ _
  | setMode mode =>
    obtain ⟨rfl, -⟩ := Prod.mk.inj (Except.ok.inj hr)
    exact .carrier (fun _ => ⟨rfl, rfl⟩) fun _ _ => le_max_left _ _

section Actors

/-- Who does an operation: a thread that comes or that is attached, a switch that returns, or the
host, which touches neither carriers nor statistics. -/
inductive Act (s s' : FiberSystem) (e : Option Event) : Operation → Prop
  | comes {thread : Nat} {name : String} {bounds : Except IoError StackBounds}
    {outcome : Except Failure ThreadToken} (h : s.attach thread name bounds = .ok (outcome, s'))
    (he : e = none ∨ ∃ t id, e = some (.attached t id)) : s.Act s' e (.attach thread name bounds)
  | performs {t : ThreadToken} {c : Carrier} {operation : ThreadOperation}
    (hc : s.carrier? t = some c) (h : s.performOn t c operation = .ok (s', e)) :
    s.Act s' e (.perform t operation)
  | returns {call : SwitchCall} (hcall : call ∈ s.calls) (h : s.returnFrom call = .ok s')
    (he : e = none) : s.Act s' e (.returnFrom call)
  | host {operation : Operation} (hcarriers : s'.carriers = s.carriers)
    (hstatistics : s'.statistics = s.statistics) (he : e = none) : s.Act s' e operation

theorem act_of_perform {operation : Operation} {e : Option Event}
    (hr : s.perform operation = .ok (s', e)) : s.Act s' e operation := by
  cases performed_of_perform hr with
  | @attach _ _ _ outcome _ hattach =>
    refine .comes hattach ?_
    cases outcome with
    | ok t => exact .inr ⟨t, _, rfl⟩
    | error failure => exact .inl rfl
  | perform hc hperform => exact .performs hc hperform
  | returnFrom hcall hreturn => exact .returns hcall hreturn rfl
  | drop hdrop =>
    obtain rfl | ⟨-, _, _, -, -, -, rfl⟩ := reap_cases hdrop <;> exact .host rfl rfl rfl
  | lease hlease =>
    obtain ⟨⟨_ | lease, pool⟩, -, hlease⟩ := bind_eq_ok_iff.1 hlease <;>
      simp only [pure_eq_ok, Except.ok.injEq, Prod.mk.injEq] at hlease <;>
      obtain ⟨-, rfl⟩ := hlease <;> exact .host rfl rfl rfl
  | unlease _ hunlease =>
    obtain ⟨pool, -, hs'⟩ := bind_eq_ok_iff.1 hunlease
    obtain rfl := Except.ok.inj hs'
    exact .host rfl rfl rfl
  | _ => exact .host rfl rfl rfl

end Actors

section Lasting

/-- A property that lasts through whatever can be done to a system: the moves of its threads, what
concerns no place of a fiber, and the coming and going of threads. -/
structure Lasting (P : FiberSystem → Prop) : Prop where
  same : ∀ {s s'}, P s → s.SamePlaces s' → P s'
  move : ∀ {s s' t}, P s → s.Move t s' → P s'
  attach : ∀ {s s' thread name bounds outcome}, P s → s.Sound →
    s.attach thread name bounds = .ok (outcome, s') → P s'
  leave : ∀ {s} t, P s → P { s with carriers := s.carriers.filter fun c => c.token ≠ t }

variable {P : FiberSystem → Prop}

/-- A fiber is reaped as if its owner did it. -/
theorem Lasting.reap (hP : Lasting P) (h : P s) (hr : s.reap id = .ok s') : P s' :=
  hP.move h (.reap (ownedBy_of_fiber rfl) hr)

theorem Lasting.reapAll (hP : Lasting P) (h : P s) (hr : s.reapAll ids = .ok s') : P s' := by
  induction ids generalizing s with
  | nil => exact Except.ok.inj hr ▸ h
  | cons id rest ih =>
    obtain ⟨s₁, hreap, hr⟩ := bind_eq_ok_iff.1 hr
    exact ih (hP.reap h hreap) hr

theorem Lasting.performOn {operation : ThreadOperation} {e : Option Event} (hP : Lasting P)
    (h : P s) (hs : s.Sound) (hc : s.carrier? t = some c)
    (hr : s.performOn t c operation = .ok (s', e)) : P s' := by
  by_cases hdetach : operation = .detach
  · subst hdetach
    obtain ⟨s₁, s₂, hmove₁, hmove₂, hmove₃⟩ := moves_of_detach hs hc (eq_ok_of_map_mk hr)
    have h₁ := hP.same (hP.move h hmove₁) (same_record s₁ t Statistics.unregister).toSamePlaces
    exact hP.move (hP.leave t (hP.move h₁ hmove₂)) hmove₃
  · exact hP.move h (move_of_performOn hs hc hr hdetach)

/-- It lasts through every operation of a run. -/
theorem Lasting.perform {operation : Operation} {e : Option Event} (hP : Lasting P) (h : P s)
    (hs : s.Sound) (hr : s.perform operation = .ok (s', e)) : P s' := by
  cases performed_of_perform hr with
  | nothing => exact h
  | attach hattach => exact hP.attach h hs hattach
  | perform hc hperform => exact hP.performOn h hs hc hperform
  | returnFrom _ hreturn =>
    obtain ⟨s₁, hreclaim, hreap⟩ := bind_eq_ok_iff.1 hreturn
    have h₁ := hP.move h (move_of_reclaim hs hreclaim)
    exact hP.reapAll (hP.same h₁ (same_calls s₁ _).toSamePlaces) hreap
  | hold _ => exact hP.same h (same_held s _).toSamePlaces
  | drop hdrop => exact hP.reap (hP.same h (same_held s _).toSamePlaces) hdrop
  | lease hlease => exact hP.same h (samePlaces_of_lease hlease)
  | unlease _ hunlease => exact hP.same h (samePlaces_of_unlease hunlease)
  | saveResume =>
    exact hP.move h (.fiber (ownedBy_of_fiber rfl) (fun _ => ⟨rfl, rfl, rfl⟩) fun _ _ => rfl)
  | write | addContinuation | dropContinuation =>
    exact hP.same h ⟨rfl, rfl, rfl, rfl, rfl, rfl⟩

end Lasting

end PooledFibers.FiberSystem
