import Mathlib.Tactic.Common
import PooledFibers.Proofs.FiberSystem.Parking
import PooledFibers.Proofs.FiberSystem.Priming
import PooledFibers.Proofs.FiberSystem.Refusal

/-!
# Fibers that are handed out

A fiber that is woken from the idle cache cannot be told from one that is made on a leased stack
(`isNew_of_supply`): its record is made as new, and whether there is a bookmark on it depends on the
settings alone (`Verified`). Its stack is primed as well (`Run.pristine_of_after`).
-/

namespace PooledFibers

open Outcome

/-- A fiber of the thread as it is when it has just been made. -/
structure Fiber.IsNew (f : Fiber) (t : ThreadToken) (verified : Bool) : Prop where
  heap : f.isThreadFiber = false
  owner : f.owner = t
  state : f.state = .onStack
  entered : f.entered = false
  unmarked : f.bookmark.snapshot? = none
  verified : f.bookmark.isRecorded = verified
  resume : f.resume = some (f.region.base - 9 * Word.bytes)

namespace Fiber

variable {f : Fiber} {t : ThreadToken} {verified : Bool}

theorem isRecorded_renewed (f : Fiber) : f.renewed.bookmark.isRecorded = f.bookmark.isRecorded := by
  simp only [renewed]
  split_ifs with h
  · exact h.symm
  · exact (Bool.eq_false_iff.2 h).symm

theorem snapshot?_renewed (f : Fiber) : f.renewed.bookmark.snapshot? = none := by
  simp only [renewed]
  split_ifs <;> rfl

theorem isNew_ofLease (id : FiberId) (t : ThreadToken) (name : String) (lease : Lease)
    (verified : Bool) : (ofLease id t name lease verified).IsNew t verified := by
  constructor
  case unmarked => cases verified <;> rfl
  case verified => cases verified <;> rfl
  all_goals rfl

/-- Whatever has become of a fiber, it is as good as new. -/
theorem isNew_renewed (hheap : f.isThreadFiber = false) (howner : f.owner = t)
    (hverified : f.bookmark.isRecorded = verified) : f.renewed.IsNew t verified where
  heap := hheap
  owner := howner
  state := rfl
  entered := rfl
  unmarked := f.snapshot?_renewed
  verified := f.isRecorded_renewed.trans hverified
  resume := rfl

end Fiber

namespace FiberSystem

/-- A heap fiber has a bookmark on record just when switches are verified. -/
def Verified (s : FiberSystem) : Prop :=
  ∀ id f, s.fibers.get? id = some f → f.isThreadFiber = false →
    f.bookmark.isRecorded = s.settings.verifyOnYield

/-- The fiber `f` is new but for its continuation, registered, and its stack is primed. -/
structure Pristine (s : FiberSystem) (t : ThreadToken) (id : FiberId)
    (continuation : Option ContinuationId) (f : Fiber) : Prop
    extends f.IsNew t s.settings.verifyOnYield where
  made : s.fibers.get? id = some f
  registered : s.registry.isRegistered id = true
  continuation : f.continuation = continuation
  words : s.machine.readAll (f.region.base - 9 * Word.bytes) 9
    = .zero :: .fiberStart :: List.replicate 7 .zero
  /-- The words end at the base of the stack. -/
  room : 9 * Word.bytes ≤ s.pool.stackSize → 9 * Word.bytes ≤ f.region.base

/-- Where a thread gets a fiber from: the front of its idle cache, or else the pool, which leases a
stack that was released or one that it carves. -/
inductive Origin (s : FiberSystem) (t : ThreadToken) (id : FiberId) (f : Fiber) : Prop
  | parked {parked : Fiber} {rest : List FiberId} (idle : (s.carrier t).idle = id :: rest)
      (made : s.fibers.get? id = some parked) (stack : f.stack = parked.stack)
  | leased {lease : Lease} {pool : Pool} (idle : (s.carrier t).idle = [])
      (acquire : s.pool.acquire = .ok (.ok lease, pool)) (stack : f.stack = .leased lease)

variable {s s' s₁ : FiberSystem} {t : ThreadToken} {c : Carrier} {id : FiberId} {f : Fiber}

section Verified

theorem Verified.same (h : s.Verified) (hs : s.SamePlaces s') : s'.Verified := by
  rw [Verified, hs.fibers, hs.settings]
  exact h

theorem Verified.modify {g : Fiber → Fiber} (h : s.Verified) (hsettings : s'.settings = s.settings)
    (hfibers : s'.fibers = s.fibers.modify id g) (hstack : ∀ f, (g f).stack = f.stack)
    (hg : ∀ f, s.fibers.get? id = some f →
      (g f).bookmark.isRecorded = f.bookmark.isRecorded) : s'.Verified := by
  intro j f hf hheap
  rw [hfibers, Table.get?_modify] at hf
  rw [hsettings]
  split_ifs at hf with hj
  · obtain ⟨f₀, hf₀, rfl⟩ := Option.map_eq_some_iff.1 hf
    rw [Fiber.isThreadFiber, Fiber.lease?, hstack] at hheap
    rw [hg f₀ (hj ▸ hf₀), h j f₀ hf₀ hheap]
  · exact h j f hf hheap

theorem Verified.insert {f : Fiber} (h : s.Verified) (hsettings : s'.settings = s.settings)
    (hfibers : s'.fibers = s.fibers.insert id f)
    (hf : f.isThreadFiber = false → f.bookmark.isRecorded = s.settings.verifyOnYield) :
    s'.Verified := by
  intro j f' hf' hheap
  rw [hfibers, Table.get?_insert] at hf'
  rw [hsettings]
  split_ifs at hf'
  · obtain rfl := Option.some.inj hf'
    exact hf hheap
  · exact h j f' hf' hheap

theorem Verified.reap (h : s.Verified) (hr : s.reap id = .ok s') : s'.Verified := by
  obtain rfl | ⟨-, _, _, -, -, -, rfl⟩ := reap_cases hr
  · exact h
  · intro j f hf hheap
    simp only [Table.get?_erase] at hf
    split_ifs at hf
    exact h j f hf hheap

theorem Verified.move (h : s.Verified) (hm : s.Move t s') : s'.Verified := by
  induction hm with
  | tally s _ => exact h.same (same_record s t _).toSamePlaces
  | fiber _ hg hrecord => exact h.modify rfl rfl (fun f => (hg f).2.1) hrecord
  | enroll howned hr =>
    exact h.modify (Move.enroll howned hr).settings (fibers_of_enroll hr) (fun _ => rfl) fun _ _ => rfl
  | withdraw howned hr =>
    exact h.modify (Move.withdraw howned hr).settings (fibers_of_withdraw hr) (fun _ => rfl)
      fun _ _ => rfl
  | unregister _ hr =>
    obtain ⟨registry, -, rfl⟩ := unregister_eq_ok_iff.1 hr
    exact h
  | reap _ hr => exact h.reap hr
  | renew howned hr =>
    exact h.modify (Move.renew howned hr).settings (fibers_of_renew hr) (fun _ => rfl)
      fun f _ => f.isRecorded_renewed
  | make _ _ => exact h.insert rfl rfl fun _ => (Fiber.isNew_ofLease _ t _ _ _).verified
  | trans _ _ ih ih' => exact ih' (ih h)
  | _ => exact h

/-- A fiber keeps or lacks its bookmark for as long as it lives. -/
theorem lasting_verified : Lasting Verified where
  same := Verified.same
  move := Verified.move
  attach h _ hr := by
    obtain ⟨rfl, -⟩ | ⟨-, region, registry, statistics, slot, -, -, rfl⟩ := attach_cases hr
    · exact h
    · exact h.insert rfl rfl nofun
  leave _ h := h

end Verified

section Create

variable {continuation : Option ContinuationId}

theorem fibers_of_wakeIdle {rest : List FiberId} (hr : s.wakeIdle t id rest = .ok s') :
    s'.fibers = s.fibers.modify id Fiber.renewed := by
  obtain ⟨s₁, hrenew, hr⟩ := bind_eq_ok_iff.1 hr
  have hrenewed := fibers_of_renew hrenew
  rw [← Except.ok.inj hr, fibers_record, recordIdle, fibers_record]
  exact hrenewed

theorem fibers_of_makeFiber (hr : s.makeFiber t = .ok (.ok id, s')) : ∃ name lease pool,
    s.pool.acquire = .ok (.ok lease, pool)
      ∧ s'.fibers = s.fibers.insert id (.ofLease id t name lease s.settings.verifyOnYield) := by
  obtain ⟨⟨_ | lease, pool⟩, hacquire, hr⟩ := bind_eq_ok_iff.1 hr <;>
    simp only [pure_eq_ok, Except.ok.injEq, Prod.mk.injEq, reduceCtorEq, false_and] at hr
  obtain ⟨rfl, rfl⟩ := hr
  exact ⟨(s.carrier t).name, lease, pool, hacquire, fibers_record _⟩

/-- Woken or made, the fiber is new. -/
theorem isNew_of_supply (h : s.Verified) (hs : s.Sound) (hc : s.carrier? t = some c)
    (hr : s.supply t = .ok (.ok id, s')) :
    ∃ f, s'.fibers.get? id = some f ∧ f.IsNew t s.settings.verifyOnYield ∧ s.Origin t id f := by
  simp only [supply] at hr
  split at hr
  case h_1 woken rest hidle =>
    obtain ⟨s₁, hwake, hr⟩ := bind_eq_ok_iff.1 hr
    simp only [pure_eq_ok, Except.ok.injEq, Prod.mk.injEq] at hr
    obtain ⟨rfl, rfl⟩ := hr
    have hended : woken ∈ c.ended := by simp [Carrier.ended, carrier_eq hc ▸ hidle]
    obtain ⟨⟨f, hf, howner, hheap⟩, -⟩ := (hs.carries t c hc).ended woken hended
    refine ⟨f.renewed, ?_, Fiber.isNew_renewed hheap howner (h woken f hf hheap),
      .parked hidle hf rfl⟩
    rw [fibers_of_wakeIdle hwake, Table.get?_modify, if_pos rfl, hf, Option.map_some]
  case h_2 hidle =>
    obtain ⟨name, lease, pool, hacquire, hfibers⟩ := fibers_of_makeFiber hr
    refine ⟨_, ?_, Fiber.isNew_ofLease id t name lease _, .leased hidle hacquire rfl⟩
    rw [hfibers, Table.get?_insert, if_pos rfl]

theorem Stocked.stackSize_le (h : s.Stocked) (hf : s.fibers.get? id = some f)
    (hheap : f.isThreadFiber = false) : s.pool.stackSize ≤ f.region.base := by
  have hid : (id, f.region.base) ∈ s.holdings := (mem_holdings_iff h.keys).2 ⟨f, hf, hheap, rfl⟩
  exact h.accounts.stackSize_le (h.accounts.mem_carvedBases.2 (.inl (mem_leased_of_holdings hid)))

theorem pristine_of_create (h : s.Verified) (hs : s.Sound) (hstocked : s.Stocked)
    (hc : s.carrier? t = some c) (hreclaim : s.reclaim t = .ok s₁)
    (hr : s.create t .pooled continuation = .ok (.ok id, s')) :
    ∃ f, s'.Pristine t id continuation f ∧ s₁.Origin t id f := by
  have hmove := move_of_create hs hc hr
  obtain ⟨machine, -, hprimed⟩ := primes_create hr
  simp only [create, hreclaim, ok_bind] at hr
  obtain ⟨⟨_ | made, s₂⟩, hsupply, hr⟩ := bind_eq_ok_iff.1 hr
  · simp at hr
  obtain ⟨s₃, henroll, hr⟩ := bind_eq_ok_iff.1 hr
  simp only [pure_eq_ok, Except.ok.injEq, Prod.mk.injEq] at hr
  obtain ⟨rfl, rfl⟩ := hr
  have hreclaimed := upkeep_reclaim hs hreclaim
  have hs₁ := hreclaimed.sound hs
  obtain ⟨c₁, hc₁, -⟩ := hreclaimed.exists_carrier hc
  obtain ⟨f, hf, hnew, horigin⟩ :=
    isNew_of_supply (h.move (move_of_reclaim hs hreclaim)) hs₁ hc₁ hsupply
  have hs₂ := (upkeep_supply hs₁ hc₁ hsupply).1.sound hs₁
  obtain ⟨-, registry, heq, -, hregistered⟩ := register_cases
    (s := s₂.modifyFiber made fun f => { f with continuation }) hs₂.registry henroll
  have hmade : s₃.fibers.get? made = some { f with continuation } := by
    rw [fibers_of_enroll henroll, Table.get?_modify, if_pos rfl, hf, Option.map_some]
  have hsettings : s₃.settings = s₁.settings :=
    hmove.settings.trans (move_of_reclaim hs hreclaim).settings.symm
  refine ⟨{ f with continuation },
    ⟨?new, hmade, ?registered, rfl, ?words, fun hroom => ?room⟩, ?origin⟩
  case new =>
    rw [hsettings]
    exact ⟨hnew.heap, hnew.owner, hnew.state, hnew.entered, hnew.unmarked, hnew.verified, hnew.resume⟩
  case registered =>
    rw [heq]
    simp [hregistered]
  case words =>
    rw [hprimed, fiber_eq hmade]
    exact Machine.readAll_writeAll
  case room => exact hroom.trans ((hmove.stocked hstocked).stackSize_le hmade hnew.heap)
  case origin =>
    cases horigin with
    | parked hidle hparked hstack => exact .parked hidle hparked hstack
    | leased hidle hacquire hstack => exact .leased hidle hacquire hstack

end Create

end FiberSystem

namespace Run

open FiberSystem

variable {host : Host} {settings : Settings} {provider : PageProvider} {policy : Option Bool}
  {s : FiberSystem} {operations : List Operation} {r : Run} {t : ThreadToken} {c : Carrier}

theorem verified_of_after (hs : ofSettings host settings provider policy = .ok (.ok s))
    (hr : Run.after ⟨s, []⟩ operations = .ok r) : r.system.Verified := by
  have h : r.system.Sound ∧ r.system.Verified := by
    refine after_induction (P := fun r => r.system.Sound ∧ r.system.Verified) ?_ hr ?_
    · rintro r operation r' ⟨hsound, hverified⟩ hr
      obtain ⟨event, hperform, -⟩ := perform_eq_ok_iff.1 hr
      exact ⟨(hsound.perform hperform).1, lasting_verified.perform hverified hsound hperform⟩
    · obtain ⟨hsound, -, -, hfibers, -⟩ := sound_of_ofSettings hs
      exact ⟨hsound, fun id f hf => by simp [hfibers] at hf⟩
  exact h.2

/-- In every state of a run without a fault, a fiber on a stack from the pool is handed out as new,
wherever it comes from. Once the fiber that terminated itself has been reclaimed, the fiber in front
of the idle cache is taken if there is one, and as long as a fiber stays parked, only fibers that
are parked later come before it. -/
theorem pristine_of_after (hs : ofSettings host settings provider policy = .ok (.ok s))
    (hp : 0 < provider.pageSize) (hg : 0 < provider.granularity)
    (hr : Run.after ⟨s, []⟩ operations = .ok r) (hc : r.system.carrier? t = some c)
    (continuation : Option ContinuationId) :
    ∃ s₁, r.system.reclaim t = .ok s₁
      ∧ (∀ id s', r.system.create t .pooled continuation = .ok (.ok id, s') →
        ∃ f, s'.Pristine t id continuation f ∧ s₁.Origin t id f)
      ∧ (∀ id rest, (s₁.carrier t).idle = id :: rest →
        ∃ s', r.system.create t .pooled continuation = .ok (.ok id, s')
          ∧ (s'.carrier t).idle = rest)
      ∧ ∀ rest r' id newer older, r.after rest = .ok r' →
        r.Always (fun s => id ∈ (s.carrier t).idle) rest →
        (r.system.carrier t).idle = newer ++ id :: older →
        ∃ newer', (r'.system.carrier t).idle = newer' ++ id :: older := by
  obtain ⟨hsound, hstocked⟩ := stocked_of_after hs hp hg hr
  have hverified := verified_of_after hs hr
  obtain ⟨s₁, hreclaim⟩ := hstocked.exists_reclaim t
  have hpristine : ∀ id s', r.system.create t .pooled continuation = .ok (.ok id, s') →
      ∃ f, s'.Pristine t id continuation f ∧ s₁.Origin t id f := fun _ _ =>
    pristine_of_create hverified hsound hstocked hc hreclaim
  refine ⟨s₁, hreclaim, hpristine, fun id rest hidle => ?_, fun rest r' id newer older hrest =>
    exists_idle_eq_of_after hsound hrest⟩
  have hpooled : StackRequest.pooled ≠ .kernel := nofun
  obtain ⟨outcome, s', hcreate⟩ := hstocked.exists_create hsound hc hpooled continuation
  have hleft : (s'.carrier t).idle = rest := by
    rw [carrier_eq (carrier?_of_reclaim hc hreclaim)] at hidle
    rw [carrier_eq (carrier?_of_create hc hcreate)]
    exact congrArg List.tail hidle
  cases outcome with
  | error failure =>
    have hempty := ((create_pooled_eq_error_iff hreclaim continuation).1 hcreate).1
    exact absurd (hidle.symm.trans hempty) (List.cons_ne_nil _ _)
  | ok made =>
    obtain ⟨f, -, hidle' | hempty⟩ := hpristine made s' hcreate
    · obtain ⟨rfl, -⟩ := List.cons.inj (hidle.symm.trans hidle')
      exact ⟨s', hcreate, hleft⟩
    · exact absurd (hidle.symm.trans hempty) (List.cons_ne_nil _ _)

/-- A fiber has run with a continuation, has overwritten the topmost word of its stack and has ended
itself while another one was parked. It is handed out again with another continuation. -/
theorem pristine_of_woken_fiber : ∃ s r c s₁ s',
    ofSettings .simulated { registryShards := 2, idleCacheSize := 2, verifyOnYield := true }
        ({} : Simulation).provider none = .ok (.ok s)
      ∧ Run.after ⟨s, []⟩
          [.attach 1 "main" (.ok ⟨0x10000000, 0x100000⟩),
           .perform ⟨1⟩ (.create .pooled (some ⟨0⟩)), .perform ⟨1⟩ (.create .pooled none),
           .perform ⟨1⟩ (.terminate (.ofNumber 2)),
           .perform ⟨1⟩ (.switch (.ofNumber 1) .returning), .saveResume (.ofNumber 1) 0x1234,
           .write 0x2000015BFFF8 [.number 7], .perform ⟨1⟩ (.scratch (.enter .nativeCalls)),
           .perform ⟨1⟩ (.switch (.ofNumber 0) .terminating)] = .ok r
      ∧ r.system.carrier? ⟨1⟩ = some c ∧ c.pending = some (.ofNumber 1)
      ∧ (r.system.fiber (.ofNumber 1)).entered = true
      ∧ r.system.machine.read 0x2000015BFFF8 = .number 7
      ∧ r.system.reclaim ⟨1⟩ = .ok s₁ ∧ (s₁.carrier ⟨1⟩).idle = [.ofNumber 1, .ofNumber 2]
      ∧ r.system.create ⟨1⟩ .pooled (some ⟨5⟩) = .ok (.ok (.ofNumber 1), s')
      ∧ (s'.carrier ⟨1⟩).idle = [.ofNumber 2]
      ∧ ∃ f, s'.Pristine ⟨1⟩ (.ofNumber 1) (some ⟨5⟩) f ∧ s₁.Origin ⟨1⟩ (.ofNumber 1) f := by
  refine ⟨?s, ?r, ?c, ?s₁, ?s', ?hs, ?hr, ?hc, ?hpending, ?hentered, ?hread, ?hreclaim, ?hidle,
    ?hcreate, ?hleft, (pristine_of_after ?hs (by decide) (by decide) ?hr ?hc _).elim fun _ h =>
      Except.ok.inj (h.1.symm.trans ?hreclaim) ▸ h.2.1 _ _ ?hcreate⟩
  case hs => rfl
  case hr => rfl
  case hc => rfl
  case hpending => rfl
  case hentered => rfl
  case hread => rfl
  case hreclaim => rfl
  case hidle => rfl
  case hcreate => rfl
  case hleft => rfl

end Run

end PooledFibers
