import Mathlib.Data.List.Basic
import Mathlib.Tactic.Common
import PooledFibers.Proofs.FiberSystem.Moves
import PooledFibers.Proofs.FiberSystem.Trade
import PooledFibers.Proofs.Stack.Contents

/-!
# The stacks on the books

A system is `Stocked` if its heap fibers hold stacks of one size that are on the books of the pool,
and its registry is sound. Moves keep this (`Move.stocked`). In a stocked system nothing meets a
fault that only makes and frees fibers: a pooled fiber can be asked for, a thread can be detached and
a switch can return (`Stocked.exists_create`, `Stocked.exists_detach`, `Stocked.exists_returnFrom`).
-/

namespace PooledFibers.FiberSystem

open Outcome

structure Stocked (s : FiberSystem) : Prop where
  registry : s.registry.Sound
  keys : s.fibers.keys.Nodup
  accounts : s.pool.Accounts (s.holdings.map (·.2) ++ s.leases.map (·.base))
  region : ∀ id f, s.fibers.get? id = some f → f.isThreadFiber = false →
    f.region.size = s.pool.stackSize

/-- A fiber was there before with the same owner and stack, or it is new, with a stack of full
size if it is a heap fiber. -/
structure Inherits (s s' : FiberSystem) : Prop where
  identities : s.identities.Precedes s'.identities
  geometry : s'.pool.geometry = s.pool.geometry
  fiber : ∀ id f', s'.fibers.get? id = some f' →
    (∃ f, s.fibers.get? id = some f ∧ f'.owner = f.owner ∧ f'.stack = f.stack)
      ∨ s.identities.Coming id ∧ (f'.isThreadFiber = false → f'.region.size = s.pool.stackSize)

variable {s s' s'' s₁ : FiberSystem} {t : ThreadToken} {c : Carrier} {id : FiberId}
  {ids : List FiberId} {call : SwitchCall}

section Inherits

theorem Inherits.trans (h : s.Inherits s') (h' : s'.Inherits s'') : s.Inherits s'' where
  identities := h.identities.trans h'.identities
  geometry := h'.geometry.trans h.geometry
  fiber id f'' hf'' := by
    have hsize : s'.pool.stackSize = s.pool.stackSize := congrArg Geometry.stackSize h.geometry
    obtain ⟨f', hf', howner', hstack'⟩ | ⟨hcoming, hregion⟩ := h'.fiber id f'' hf''
    · obtain ⟨f, hf, howner, hstack⟩ | ⟨hnew, hregion⟩ := h.fiber id f' hf'
      · exact .inl ⟨f, hf, howner'.trans howner, hstack'.trans hstack⟩
      · refine .inr ⟨hnew, ?_⟩
        rwa [Fiber.isThreadFiber, Fiber.lease?, Fiber.region, hstack']
    · exact .inr ⟨hcoming.mono h.identities, hsize ▸ hregion⟩

theorem inherits_of_fibers (hfibers : s'.fibers = s.fibers) (hmade : s'.identities = s.identities)
    (hgeometry : s'.pool.geometry = s.pool.geometry) : s.Inherits s' where
  identities := hmade ▸ .refl _
  geometry := hgeometry
  fiber _ f hf := .inl ⟨f, hfibers ▸ hf, rfl, rfl⟩

theorem Same.inherits (h : s.Same s') : s.Inherits s' := by
  refine inherits_of_fibers h.fibers h.identities ?_
  obtain ⟨machine, -, hpool⟩ := h.pool
  rw [hpool]

/-- A change of one fiber that keeps its owner and its stack. -/
theorem inherits_of_modify {g : Fiber → Fiber} (hfibers : s'.fibers = s.fibers.modify id g)
    (hg : ∀ f, (g f).owner = f.owner ∧ (g f).stack = f.stack)
    (hmade : s'.identities = s.identities) (hpool : s'.pool = s.pool) : s.Inherits s' where
  identities := hmade ▸ .refl _
  geometry := hpool ▸ rfl
  fiber j f' hf' := by
    rw [hfibers, Table.get?_modify] at hf'
    split_ifs at hf'
    · obtain ⟨f, hf, rfl⟩ := Option.map_eq_some_iff.1 hf'
      exact .inl ⟨f, hf, hg f⟩
    · exact .inl ⟨f', hf', rfl, rfl⟩

theorem inherits_of_reap (hr : s.reap id = .ok s') : s.Inherits s' := by
  obtain rfl | ⟨-, f, pool, -, hleased, hnative, rfl⟩ := reap_cases hr
  · exact (Same.refl s').inherits
  refine ⟨.refl _, ?_, fun j f' hf' => .inl ?_⟩
  · cases hstack : f.stack with
    | native region => rw [hnative region hstack]
    | leased lease => exact (Pool.alike_of_release (hleased lease hstack)).geometry
  · simp only [Table.get?_erase] at hf'
    split_ifs at hf'
    exact ⟨f', hf', rfl, rfl⟩

/-- A heap fiber is made on a leased stack. -/
theorem inherits_of_make {f : Fiber} {pool : Pool} (hf : f.id = s.nextFiber)
    (hsize : f.isThreadFiber = false → f.region.size = s.pool.stackSize)
    (hgeometry : pool.geometry = s.pool.geometry) : s.Inherits ({ s with pool }.addFiber f) where
  identities := s.identities.precedes_advance
  geometry := hgeometry
  fiber j f' hf' := by
    simp only [addFiber, Table.get?_insert] at hf'
    split_ifs at hf' with hj
    · obtain rfl := Option.some.inj hf'
      exact .inr ⟨hj.trans hf ▸ s.identities.coming_next, hsize⟩
    · exact .inl ⟨f', hf', rfl, rfl⟩

theorem inherits_of_renew (hr : s.renew id = .ok s') : s.Inherits s' := by
  obtain ⟨machine, hkeeps, rfl⟩ := exists_of_renew hr
  exact (same_withMachine hkeeps).inherits.trans
    (inherits_of_modify (g := Fiber.renewed) rfl (fun _ => ⟨rfl, rfl⟩) rfl rfl)

theorem inherits_of_acquire {name : String} {lease : Lease} {verified : Bool} {pool : Pool}
    (h : s.pool.acquire = .ok (.ok lease, pool)) :
    s.Inherits (({ s with pool }.withMachine (Fiber.prime pool.machine lease.base)).addFiber
      (.ofLease s.nextFiber t name lease verified)) := by
  have hsize : lease.region.size = s.pool.stackSize := congrArg Region.size (Pool.region_of_acquire h)
  exact inherits_of_make rfl (fun _ => hsize) (Pool.alike_of_acquire h).geometry

theorem Move.inherits (h : s.Move t s') : s.Inherits s' := by
  induction h with
  | refl s => exact (Same.refl s).inherits
  | held s held => exact (same_held s held).inherits
  | @calls s calls _ => exact (same_calls s calls).inherits
  | notice s n => exact (same_notice s n).inherits
  | tally s h => exact (same_record s t _).inherits
  | carrier _ _ => exact inherits_of_fibers rfl rfl rfl
  | fiber _ hg => exact inherits_of_modify rfl (fun f => ⟨(hg f).1, (hg f).2.1⟩) rfl rfl
  | enroll _ hr =>
    have hfibers := fibers_of_enroll hr
    obtain ⟨registry, -, rfl⟩ := register_eq_ok_iff.1 hr
    exact inherits_of_modify hfibers (fun _ => ⟨rfl, rfl⟩) rfl rfl
  | withdraw _ hr =>
    have hfibers := fibers_of_withdraw hr
    obtain ⟨registry, -, rfl⟩ := unregister_eq_ok_iff.1 hr
    exact inherits_of_modify hfibers (fun _ => ⟨rfl, rfl⟩) rfl rfl
  | unregister _ hr =>
    obtain ⟨registry, -, rfl⟩ := unregister_eq_ok_iff.1 hr
    exact inherits_of_fibers rfl rfl rfl
  | reap _ hr => exact inherits_of_reap hr
  | renew _ hr => exact inherits_of_renew hr
  | make _ hacquire => exact inherits_of_acquire hacquire
  | makeNone hacquire =>
    exact inherits_of_fibers rfl rfl (Pool.alike_of_acquire hacquire).geometry
  | trans _ _ ih ih' => exact ih.trans ih'

theorem Inherits.region (h : s.Inherits s') (hs : ∀ id f, s.fibers.get? id = some f →
      f.isThreadFiber = false → f.region.size = s.pool.stackSize) :
    ∀ id f, s'.fibers.get? id = some f → f.isThreadFiber = false →
      f.region.size = s'.pool.stackSize := by
  intro id f' hf' hheap
  have hsize : s'.pool.stackSize = s.pool.stackSize := congrArg Geometry.stackSize h.geometry
  rw [hsize]
  obtain ⟨f, hf, -, hstack⟩ | ⟨-, hregion⟩ := h.fiber id f' hf'
  · rw [Fiber.isThreadFiber, Fiber.lease?, hstack] at hheap
    rw [Fiber.region, hstack]
    exact hs id f hf hheap
  · exact hregion hheap

theorem Inherits.made (h : s.Inherits s') (hid : s.Made id) : s'.Made id :=
  Identities.Given.mono hid h.identities

/-- A fiber that had been made and exists was there before. -/
theorem Inherits.exists_fiber {f' : Fiber} (h : s.Inherits s') (hid : s.Made id)
    (hf' : s'.fibers.get? id = some f') :
    ∃ f, s.fibers.get? id = some f ∧ f'.owner = f.owner ∧ f'.stack = f.stack := by
  obtain hold | ⟨hcoming, -⟩ := h.fiber id f' hf'
  · exact hold
  · exact absurd hcoming hid.not_coming

/-- A switch stays one of the thread's. -/
theorem Inherits.callOf (h : s.Inherits s') (hcall : s.CallOf t call) : s'.CallOf t call := by
  have hfiber : ∀ id, s.Made id ∧ s.OwnedBy t id → s'.Made id ∧ s'.OwnedBy t id := by
    rintro id ⟨hmade, howned⟩
    refine ⟨h.made hmade, fun f' hf' => ?_⟩
    obtain ⟨f, hf, howner, -⟩ := h.exists_fiber hmade hf'
    exact howner.trans (howned f hf)
  exact ⟨hcall.thread, hfiber _ hcall.source, hfiber _ hcall.target⟩

end Inherits

section Stocked

theorem Stocked.same (h : s.Stocked) (hs : s.SameHoldings s') (hi : s.Inherits s')
    (hregistry : s'.registry.Sound) : s'.Stocked :=
  ⟨hregistry, hs.keys ▸ h.keys, hs.accounts h.accounts, hi.region h.region⟩

theorem Stocked.changeFiber {g : Fiber → Fiber} (h : s.Stocked)
    (hg : ∀ f, (g f).owner = f.owner ∧ (g f).stack = f.stack) (id : FiberId) :
    (s.modifyFiber id g).Stocked :=
  h.same (sameHoldings_modifyFiber (fun f => (hg f).2) id) (inherits_of_modify rfl hg rfl rfl)
    h.registry

theorem Stocked.register (h : s.Stocked) (hr : s.register id = .ok s') : s'.Stocked := by
  obtain ⟨-, registry, rfl, hregistry, -⟩ := register_cases h.registry hr
  exact ⟨hregistry, h.keys, h.accounts, h.region⟩

theorem Stocked.unregister (h : s.Stocked) (hr : s.unregister id = .ok s') : s'.Stocked := by
  obtain ⟨-, registry, rfl, hregistry, -⟩ := unregister_cases h.registry hr
  exact ⟨hregistry, h.keys, h.accounts, h.region⟩

theorem Stocked.renew (h : s.Stocked) (hr : s.renew id = .ok s') : s'.Stocked := by
  obtain ⟨machine, hkeeps, rfl⟩ := exists_of_renew hr
  have hprimed := same_withMachine hkeeps
  have h₁ := h.same hprimed.sameHoldings hprimed.inherits h.registry
  exact h₁.changeFiber (g := Fiber.renewed) (fun _ => ⟨rfl, rfl⟩) id

theorem Stocked.reap (h : s.Stocked) (hr : s.reap id = .ok s') : s'.Stocked := by
  refine ⟨?_, ?_, accounts_of_reap h.keys h.accounts hr, (inherits_of_reap hr).region h.region⟩
  · obtain rfl | ⟨-, _, _, -, -, -, rfl⟩ := reap_cases hr <;> exact h.registry
  · obtain rfl | ⟨-, _, _, -, -, -, rfl⟩ := reap_cases hr
    · exact h.keys
    · rw [Table.keys_erase]
      exact h.keys.filter _

theorem Stocked.reapAll (h : s.Stocked) (hr : s.reapAll ids = .ok s') : s'.Stocked := by
  induction ids generalizing s with
  | nil => exact Except.ok.inj hr ▸ h
  | cons id rest ih =>
    obtain ⟨s₁, hreap, hr⟩ := bind_eq_ok_iff.1 hr
    exact ih (h.reap hreap) hr

theorem Stocked.make {name : String} {lease : Lease} {pool : Pool}
    (h : s.Stocked) (hnew : s.fibers.get? s.nextFiber = none)
    (hacquire : s.pool.acquire = .ok (.ok lease, pool)) :
    (({ s with pool }.withMachine (Fiber.prime pool.machine lease.base)).addFiber
      (.ofLease s.nextFiber t name lease s.settings.verifyOnYield)).Stocked := by
  set fiber := Fiber.ofLease s.nextFiber t name lease s.settings.verifyOnYield
  have hholdings : (s.addFiber fiber).holdings = (s.nextFiber, lease.base) :: s.holdings :=
    holdings_addFiber (f := fiber) hnew
  have haccounts := (h.accounts.acquire hacquire).withMachine
    (Fiber.keeps_prime pool.machine lease.base)
  refine ⟨h.registry, ?_, ?_, (Move.make (t := t) hnew hacquire).inherits.region h.region⟩
  · have hkeys : (s.fibers.insert fiber.id fiber).keys
        = fiber.id :: s.fibers.keys.filter (· ≠ fiber.id) := Table.keys_insert
    refine hkeys ▸ List.nodup_cons.2 ⟨by simp, h.keys.filter _⟩
  · have hbases : ((s.addFiber fiber).holdings.map (·.2) ++ s.leases.map (·.base))
        = Pool.basesOf (.ok lease) ++ (s.holdings.map (·.2) ++ s.leases.map (·.base)) := by
      rw [hholdings]
      rfl
    exact hbases ▸ haccounts

theorem Move.stocked (hm : s.Move t s') (h : s.Stocked) : s'.Stocked := by
  induction hm with
  | refl s => exact h
  | held s held => exact h.same (same_held s held).sameHoldings (same_held s held).inherits h.registry
  | @calls s calls _ =>
    exact h.same (same_calls s calls).sameHoldings (same_calls s calls).inherits h.registry
  | notice s n => exact h.same (same_notice s n).sameHoldings (same_notice s n).inherits h.registry
  | tally s g =>
    have hsame := same_record s t fun statistics slot => statistics.record slot g
    exact h.same hsame.sameHoldings hsame.inherits (hsame.registry ▸ h.registry)
  | carrier hg hroom =>
    exact h.same (sameHoldings_of_eq rfl rfl rfl rfl) (Move.carrier hg hroom).inherits h.registry
  | fiber _ hg => exact h.changeFiber (fun f => ⟨(hg f).1, (hg f).2.1⟩) _
  | @enroll s s' id continuation _ hr =>
    have hchanged := h.changeFiber (g := fun f => { f with continuation }) (fun _ => ⟨rfl, rfl⟩) id
    exact hchanged.register hr
  | @withdraw s s' id _ hr =>
    have hchanged := h.changeFiber (g := fun f => { f with continuation := none })
      (fun _ => ⟨rfl, rfl⟩) id
    exact hchanged.unregister hr
  | unregister _ hr => exact h.unregister hr
  | reap _ hr => exact h.reap hr
  | renew _ hr => exact h.renew hr
  | make hnew hacquire => exact h.make hnew hacquire
  | makeNone hacquire =>
    exact h.same (sameHoldings_of_acquire_error hacquire) (Move.makeNone (t := t) hacquire).inherits
      h.registry
  | trans _ _ ih ih' => exact ih' (ih h)

theorem Stocked.of_carriers (h : s.Stocked) (carriers : List Carrier) :
    { s with carriers }.Stocked :=
  ⟨h.registry, h.keys, h.accounts, h.region⟩

theorem Stocked.record (h : s.Stocked) (g : Statistics → Nat → Statistics) :
    (s.record t g).Stocked :=
  h.same (same_record s t g).sameHoldings (same_record s t g).inherits
    ((same_record s t g).registry ▸ h.registry)

end Stocked

section Freeing

/-- The pool takes the stack of any fiber back. -/
theorem Stocked.exists_reap (h : s.Stocked) (id : FiberId) : ∃ s', s.reap id = .ok s' := by
  simp only [FiberSystem.reap]
  split_ifs
  · exact ⟨s, rfl⟩
  split <;> rename_i hf
  · exact ⟨s, rfl⟩
  split <;> rename_i hstack
  · exact ⟨_, rfl⟩
  · rename_i f lease
    have hmem := mem_leased_of_holdings (mem_holdings_of_leased h.keys hf hstack)
    obtain ⟨pool, hrelease⟩ := h.accounts.exists_release hmem
    exact ⟨_, bind_eq_ok_iff.2 ⟨pool, hrelease, rfl⟩⟩

theorem Stocked.exists_reapAll (h : s.Stocked) (ids : List FiberId) :
    ∃ s', s.reapAll ids = .ok s' := by
  induction ids generalizing s with
  | nil => exact ⟨s, rfl⟩
  | cons id rest ih =>
    obtain ⟨s₁, hreap⟩ := h.exists_reap id
    obtain ⟨s', hrest⟩ := ih (h.reap hreap)
    exact ⟨s', bind_eq_ok_iff.2 ⟨s₁, hreap, hrest⟩⟩

theorem Stocked.exists_parkOrRelease (h : s.Stocked) (t : ThreadToken) (id : FiberId) :
    ∃ s', s.parkOrRelease t id = .ok s' := by
  simp only [parkOrRelease]
  split_ifs
  · exact ⟨_, rfl⟩
  · exact h.exists_reap id

theorem Stocked.exists_reclaim (h : s.Stocked) (t : ThreadToken) : ∃ s', s.reclaim t = .ok s' := by
  simp only [reclaim]
  split
  · exact ⟨s, rfl⟩
  · exact (h.of_carriers _).exists_parkOrRelease t _

/-- A switch can always return. -/
theorem Stocked.exists_returnFrom (h : s.Stocked) (hs : s.Sound) (call : SwitchCall) :
    ∃ s', s.returnFrom call = .ok s' := by
  obtain ⟨s₁, hreclaim⟩ := h.exists_reclaim call.thread
  have h₁ := (move_of_reclaim hs hreclaim).stocked h
  have hreturned : { s₁ with calls := s₁.calls.erase call }.Stocked :=
    ⟨h₁.registry, h₁.keys, h₁.accounts, h₁.region⟩
  obtain ⟨s', hreap⟩ := hreturned.exists_reapAll [call.source, call.target]
  exact ⟨s', bind_eq_ok_iff.2 ⟨s₁, hreclaim, hreap⟩⟩

end Freeing

section Making

theorem exists_register (h : s.registry.Sound) (hid : s.registry.isRegistered id = false) :
    ∃ s', s.register id = .ok s' := by
  obtain ⟨ls, hholds⟩ := h
  obtain ⟨-, registry, -, hinsert, -⟩ := hholds.exists_insert hid
  exact ⟨_, register_eq_ok_iff.2 ⟨registry, hinsert, rfl⟩⟩

theorem exists_unregister (h : s.registry.Sound) (hid : s.registry.isRegistered id = true) :
    ∃ s', s.unregister id = .ok s' := by
  obtain ⟨ls, hholds⟩ := h
  obtain ⟨-, registry, -, -, hremove, -⟩ := hholds.exists_remove hid
  exact ⟨_, unregister_eq_ok_iff.2 ⟨registry, hremove, rfl⟩⟩

theorem exists_withdraw (h : s.registry.Sound) (hid : s.registry.isRegistered id = true) :
    ∃ s', s.withdraw id = .ok s' :=
  exists_unregister (s := s.modifyFiber id fun f => { f with continuation := none }) h hid

theorem exists_wakeIdle {rest : List FiberId} (h : s.Sound) (hc : s.carrier? t = some c)
    (hidle : c.idle = id :: rest) : ∃ s', s.wakeIdle t id rest = .ok s' := by
  obtain ⟨⟨f, hf, -, hheap⟩, -⟩ := (h.carries t c hc).ended id (by simp [Carrier.ended, hidle])
  set unparked := (s.hold id).modifyCarrier t fun c => { c with idle := rest }
  have hfiber : (unparked.fiber id).isThreadFiber = false := (fiber_eq (s := unparked) hf) ▸ hheap
  have hrenew : ∃ s₁, unparked.renew id = .ok s₁ := ⟨_, by simp only [renew, hfiber]; rfl⟩
  exact hrenew.elim fun s₁ hrenew => ⟨_, bind_eq_ok_iff.2 ⟨s₁, hrenew, rfl⟩⟩

theorem Stocked.exists_supply (h : s.Stocked) (hs : s.Sound) (hc : s.carrier? t = some c) :
    ∃ made s', s.supply t = .ok (made, s') := by
  simp only [supply, carrier_eq hc]
  split <;> rename_i hidle
  · obtain ⟨s₁, hwake⟩ := exists_wakeIdle hs hc hidle
    exact ⟨_, s₁, bind_eq_ok_iff.2 ⟨s₁, hwake, rfl⟩⟩
  · obtain ⟨leased, pool, hacquire⟩ := h.accounts.exists_acquire
    cases leased with
    | error failure => exact ⟨_, _, bind_eq_ok_iff.2 ⟨_, hacquire, rfl⟩⟩
    | ok lease => exact ⟨_, _, bind_eq_ok_iff.2 ⟨_, hacquire, rfl⟩⟩

/-- A request for a fiber is answered, unless it is for the thread's own stack. -/
theorem Stocked.exists_create {request : StackRequest} (h : s.Stocked) (hs : s.Sound)
    (hc : s.carrier? t = some c) (hrequest : request ≠ .kernel)
    (continuation : Option ContinuationId) :
    ∃ outcome s', s.create t request continuation = .ok (outcome, s') := by
  cases request with
  | kernel => exact absurd rfl hrequest
  | bytes size => exact ⟨_, s, rfl⟩
  | pooled =>
    obtain ⟨s₁, hreclaim⟩ := h.exists_reclaim t
    have hreclaimed := upkeep_reclaim hs hreclaim
    have hs₁ := hreclaimed.sound hs
    obtain ⟨c₁, hc₁, -⟩ := hreclaimed.exists_carrier hc
    have h₁ := (move_of_reclaim hs hreclaim).stocked h
    obtain ⟨made, s₂, hsupply⟩ := h₁.exists_supply hs₁ hc₁
    simp only [create, hreclaim, hsupply, ok_bind, pure_eq_ok]
    cases made with
    | error failure => exact ⟨_, s₂, rfl⟩
    | ok id =>
      have h₂ := (move_of_supply hs₁ hc₁ hsupply).stocked h₁
      have hloose := (upkeep_supply hs₁ hc₁ hsupply).2 id rfl
      obtain ⟨s₃, henroll⟩ := exists_register
        (s := s₂.modifyFiber id fun f => { f with continuation }) h₂.registry hloose.unregistered
      exact ⟨_, s₃, bind_eq_ok_iff.2 ⟨s₃, henroll, rfl⟩⟩

end Making

section Detaching

theorem Stocked.exists_dropParked (h : s.Stocked) (t : ThreadToken) (ids : List FiberId) :
    ∃ s', s.dropParked t ids = .ok s' := by
  induction ids generalizing s with
  | nil => exact ⟨s, rfl⟩
  | cons id rest ih =>
    have hunparked := h.of_carriers
      (s.modifyCarrier t fun c => { c with idle := rest.reverse }).carriers
    obtain ⟨s₁, hreap⟩ := hunparked.exists_reap id
    obtain ⟨s', hrest⟩ := ih (hunparked.reap hreap)
    exact ⟨s', bind_eq_ok_iff.2 ⟨s₁, hreap, hrest⟩⟩

theorem Stocked.exists_dropEnded (h : s.Stocked) (hs : s.Sound) (t : ThreadToken) :
    ∃ s', s.dropEnded t = .ok s' := by
  have hpending : ∃ s₁, s.dropPending t = .ok s₁ := by
    simp only [dropPending]
    split
    · exact ⟨s, rfl⟩
    · exact (h.of_carriers _).exists_reap _
  obtain ⟨s₁, hpending⟩ := hpending
  have h₁ := (move_of_dropPending hs hpending).stocked h
  obtain ⟨s', hparked⟩ := h₁.exists_dropParked t (s₁.carrier t).idle.reverse
  exact ⟨s', bind_eq_ok_iff.2 ⟨s₁, hpending, hparked⟩⟩

theorem exists_withdrawAll (h : s.registry.Sound) (hids : ids.Nodup)
    (hregistered : ∀ id ∈ ids, s.registry.isRegistered id = true) :
    ∃ s', s.withdrawAll ids = .ok s' := by
  induction ids generalizing s with
  | nil => exact ⟨s, rfl⟩
  | cons id rest ih =>
    obtain ⟨hnot, hrest⟩ := List.nodup_cons.1 hids
    obtain ⟨s₁, hwithdraw⟩ := exists_withdraw h (hregistered id List.mem_cons_self)
    have hderegistered := deregistered_of_withdraw h hwithdraw
    obtain ⟨-, registry, rfl, hsound, -⟩ := unregister_cases
      (s := s.modifyFiber id fun f => { f with continuation := none }) h hwithdraw
    obtain ⟨s', hall⟩ := ih hsound hrest fun j hj => by
      rw [hderegistered.isRegistered, List.mem_singleton]
      exact ⟨fun heq => hnot (heq ▸ hj), hregistered j (List.mem_cons_of_mem _ hj)⟩
    exact ⟨s', bind_eq_ok_iff.2 ⟨_, hwithdraw, hall⟩⟩

theorem exists_disown (h : s.registry.Sound) (hids : ids.Nodup)
    (hregistered : ∀ id ∈ ids, s.registry.isRegistered id = true) :
    ∃ s', s.disown t ids = .ok s' := by
  cases ids with
  | nil => exact ⟨s, rfl⟩
  | cons id rest => exact exists_withdrawAll (s := s.notice _) h hids hregistered

/-- A thread whose own fiber is registered can be detached. -/
theorem Stocked.exists_detach (h : s.Stocked) (hs : s.Sound) (hc : s.carrier? t = some c)
    (hregistered : s.registry.isRegistered c.threadFiber = true) :
    ∃ s', s.detach t = .ok s' := by
  obtain ⟨s₁, hended⟩ := h.exists_dropEnded hs t
  have hupkeep := upkeep_dropEnded hended
  have hs₁ := hupkeep.sound hs
  have h₁ := (move_of_dropEnded hs hc hended).stocked h
  obtain ⟨c₁, hc₁, hseat⟩ := hupkeep.exists_carrier hc
  obtain ⟨orphans, horphans, hnodup⟩ := hs₁.exists_orphans t
  have horphaned : ∀ id, id ∈ orphans ↔ s₁.registry.isRegistered id = true ∧ s₁.Owns t false id :=
    fun _ => hs₁.mem_orphans_iff horphans
  obtain ⟨s₂, hdisown⟩ := exists_disown (t := t) hs₁.registry hnodup fun id hid =>
    ((horphaned id).1 hid).1
  have h₂ := (move_of_disown (fun id hid => ((horphaned id).1 hid).2.ownedBy) hdisown).stocked h₁
  obtain ⟨hs₂, s₀, hsame, hdisowned⟩ := disown_cases hs₁ hdisown
  have hc₂ : s₂.carrier? t = some c₁ := (hdisowned.carrier? t).trans ((hsame.carrier? t).trans hc₁)
  -- the thread fiber is not among the orphans
  have hstill : s₂.registry.isRegistered c₁.threadFiber = true := by
    rw [hdisowned.isRegistered, hsame.registry, hupkeep.registry, (Carrier.of_seat_eq hseat).2.1]
    refine ⟨fun hid => ?_, hregistered⟩
    have howns := ((horphaned _).1 hid).2
    rw [← (Carrier.of_seat_eq hseat).2.1] at howns
    exact Bool.noConfusion ((hs₁.carries t c₁ hc₁).threadFiber.unique howns).2
  obtain ⟨s₃, hunregister⟩ := exists_unregister hs₂.registry hstill
  have h₃ := (h₂.unregister hunregister).record (t := t) Statistics.unregister
  obtain ⟨s₄, hreap⟩ := h₃.exists_reapAll orphans
  have h₄ := h₃.reapAll hreap
  obtain ⟨s', hdrop⟩ := (h₄.of_carriers _).exists_reapAll
    [(s₄.carrier t).threadFiber, (s₄.carrier t).current]
  refine ⟨s', ?_⟩
  simp only [detach, hended, horphans, hdisown, signOff, carrier_eq hc₂, hunregister, hreap, ok_bind,
    pure_eq_ok]
  exact hdrop

end Detaching

end PooledFibers.FiberSystem
