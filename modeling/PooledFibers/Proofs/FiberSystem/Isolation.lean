import Mathlib.Data.List.Basic
import Mathlib.Tactic.Common
import PooledFibers.Machine.Simulated
import PooledFibers.Proofs.FiberSystem.Registration
import PooledFibers.Proofs.FiberSystem.Regular
import PooledFibers.Proofs.FiberSystem.Sparing

/-!
# Threads do not disturb each other

Whatever a thread does in a state of a run, either it is done and nothing is changed of what another
thread has, or it is refused by a check, and then the same is true of what has been done before the
check (`Run.isolated_of_after`). This needs stacks that have room for the words that priming writes:
with smaller ones, a thread that is given a fiber overwrites the stack of another one.
-/

namespace PooledFibers

namespace FiberSystem

open Outcome

/-- What is checked before a fiber is ended. -/
def checkRetire (s : FiberSystem) (t : ThreadToken) (id : FiberId) : Except Fault Unit := do
  let fiber := s.fiber id
  if fiber.owner ≠ t then throw (.foreignTermination id fiber.owner t)
  if fiber.isThreadFiber then throw (.threadFiberTerminated id)
  if (s.carrier t).current = id then throw (.currentTerminated id)

/-- The system in which a fault is met when a fiber is ended. -/
inductive RetireStops (s : FiberSystem) (t : ThreadToken) (id : FiberId) :
    Fault → FiberSystem → Prop
  | refused {fault} (h : s.checkRetire t id = .error fault) : RetireStops s t id fault s
  /-- The fiber has lost its continuation already. -/
  | unregistered (h : s.checkRetire t id = .ok ()) (hid : s.registry.isRegistered id = false) :
    RetireStops s t id (.notRegistered id) (s.modifyFiber id fun f => { f with continuation := none })

/-- The system in which an operation of the thread with carrier `c` meets a fault. -/
inductive Stops (s : FiberSystem) (t : ThreadToken) (c : Carrier) :
    ThreadOperation → Fault → FiberSystem → Prop
  | create {continuation} (h : (s.fiber c.current).isThreadFiber = false) :
    Stops s t c (.create .kernel continuation) (.kernelRequestFromHeapFiber c.current) s
  | terminate {id fault s₁} (h : s.RetireStops t id fault s₁) :
    Stops s t c (.terminate id) fault s₁
  | target {target kind fault} (h : s.checkTarget t target = .error fault) :
    Stops s t c (.switch target kind) fault s
  | verify {target kind fault} (hcheck : s.checkTarget t target = .ok ())
    (h : s.verifySwitch t c.current target kind = .error fault) :
    Stops s t c (.switch target kind) fault s
  /-- The target is current already when the source turns out not to be one that can end. -/
  | source {target fault s₁ s₂} (hcheck : s.checkTarget t target = .ok ())
    (hverify : s.verifySwitch t c.current target .terminating = .ok s₁)
    (h : { s₁.exchange t c.current target with
      calls := ⟨t, .terminating, c.current, target⟩ :: s₁.calls }.RetireStops t c.current fault s₂) :
    Stops s t c (.switch target .terminating) fault s₂
  | scratch {operation fault} (h : c.scratch.perform operation = .error fault) :
    Stops s t c (.scratch operation) fault s

/-- What the states of a run have in common if stacks have room for what priming writes. -/
structure Peaceful (s : FiberSystem) : Prop where
  sound : s.Sound
  kept : s.Kept []
  partitioned : s.Partitioned
  zone : s.pool.geometry.guardZone ≤ s.pool.stackSize
  primed : Fiber.primedSize ≤ s.pool.stackSize

/-- The operation is one of the thread's, or by itself spares the other thread. -/
def Harmless (t u : ThreadToken) (s : FiberSystem) (operation : Operation) : Prop :=
  (∃ performed, operation = .perform t performed)
    ∨ (∃ call, operation = .returnFrom call ∧ call.thread = t)
    ∨ ∀ s' e, s.perform operation = .ok (s', e) → s.Spares u s'

/-- What a thread does next leaves another thread alone. Where the page provider reserves memory
twice nothing is said. -/
structure Isolated (s : FiberSystem) (t u : ThreadToken) : Prop where
  /-- An operation is done, or is refused by a check before anything of the other thread changes. -/
  performs : ∀ c operation, s.carrier? t = some c →
    (∃ s' e, s.perform (.perform t operation) = .ok (s', e)
        ∧ (PageCall.Sound s'.machine.calls → s.Spares u s'))
      ∨ ∃ fault s₁, s.perform (.perform t operation) = .error fault
        ∧ s.Stops t c operation fault s₁ ∧ (PageCall.Sound s.machine.calls → s.Spares u s₁)
  /-- A switch always returns. -/
  returns : ∀ call ∈ s.calls, call.thread = t → ∃ s', s.perform (.returnFrom call) = .ok (s', none)
    ∧ (PageCall.Sound s'.machine.calls → s.Spares u s')

variable {s s' s₁ : FiberSystem} {t u : ThreadToken} {c : Carrier} {id target : FiberId}
  {fault : Fault} {kind : SwitchKind} {operation : ThreadOperation}

section Faults

theorem retire_eq (s : FiberSystem) (t : ThreadToken) (id : FiberId) :
    s.retire t id = (do
      s.checkRetire t id
      let s ← s.withdraw id
      pure (s.record t Statistics.recordTerminated)) := by
  simp only [retire, checkRetire]
  split_ifs <;> rfl

theorem retire_cases_of_registry (h : s.registry.Sound) (t : ThreadToken) (id : FiberId) :
    (∃ s', s.retire t id = .ok s')
      ∨ ∃ fault s₁, s.retire t id = .error fault ∧ s.RetireStops t id fault s₁ := by
  rw [retire_eq]
  cases hcheck : s.checkRetire t id with
  | error fault => exact .inr ⟨fault, s, rfl, .refused hcheck⟩
  | ok =>
    cases hid : s.registry.isRegistered id with
    | true =>
      obtain ⟨s₁, hwithdraw⟩ := exists_withdraw h hid
      exact .inl ⟨_, by rw [hwithdraw]; rfl⟩
    | false =>
      refine .inr ⟨_, _, ?_, .unregistered hcheck hid⟩
      obtain ⟨ls, hholds⟩ := h
      simp [withdraw, unregister, modifyFiber, hholds.remove_eq_error hid]

/-- Once a fiber is ended, there is no fault in parking it or letting go of it. -/
theorem terminate_cases_of_stocked (h : s.Stocked) (t : ThreadToken) (id : FiberId) :
    (∃ s', s.terminate t id = .ok s')
      ∨ ∃ fault s₁, s.terminate t id = .error fault ∧ s.RetireStops t id fault s₁ := by
  obtain ⟨s₁, hretire⟩ | ⟨fault, s₁, hretire, hstops⟩ := retire_cases_of_registry h.registry t id
  · have h₁ := (move_of_retire hretire).stocked h
    have hunheld : (s₁.unhold id).Stocked := (Move.held (t := t) s₁ _).stocked h₁
    obtain ⟨s', hpark⟩ := hunheld.exists_parkOrRelease t id
    exact .inl ⟨s', bind_eq_ok_iff.2 ⟨s₁, hretire, hpark⟩⟩
  · exact .inr ⟨fault, s₁, by rw [terminate, hretire]; rfl, hstops⟩

theorem retireSource_cases_of_stocked (h : s.Stocked) (t : ThreadToken) (id : FiberId) :
    (∃ s', s.retireSource t id = .ok s')
      ∨ ∃ fault s₁, s.retireSource t id = .error fault ∧ s.RetireStops t id fault s₁ := by
  obtain ⟨s₁, hretire⟩ | ⟨fault, s₁, hretire, hstops⟩ := retire_cases_of_registry h.registry t id
  · have h₁ := (move_of_retire hretire).stocked h
    refine .inl ?_
    simp only [retireSource, hretire, ok_bind]
    cases (s₁.carrier t).pending with
    | none => exact ⟨_, rfl⟩
    | some earlier => exact (h₁.of_carriers _).exists_parkOrRelease t earlier
  · exact .inr ⟨fault, s₁, by rw [retireSource, hretire]; rfl, hstops⟩

theorem enter_cases_of_stocked (h : s.Stocked) (hs : s.Sound) (hc : s.carrier? t = some c)
    (target : FiberId) (kind : SwitchKind) :
    (∃ s', s.enter t target kind = .ok s')
      ∨ ∃ fault s₁, s.enter t target kind = .error fault
        ∧ s.Stops t c (.switch target kind) fault s₁ := by
  simp only [enter, carrier_eq hc]
  cases hcheck : s.checkTarget t target with
  | error fault => exact .inr ⟨fault, s, rfl, .target hcheck⟩
  | ok =>
    cases hverify : s.verifySwitch t c.current target kind with
    | error fault => exact .inr ⟨fault, s, rfl, .verify hcheck hverify⟩
    | ok s₁ =>
      obtain ⟨hmove, -⟩ := move_of_exchanged hs hc hcheck hverify
      cases kind with
      | returning => exact .inl ⟨_, rfl⟩
      | terminating =>
        refine (retireSource_cases_of_stocked (hmove.stocked h) t c.current).imp_right ?_
        rintro ⟨fault, s₂, hretire, hstops⟩
        exact ⟨fault, s₂, hretire, .source hcheck hverify hstops⟩

/-- An operation of a thread is done, or stops where it is refused by a check. -/
theorem performOn_cases (h : s.Stocked) (hs : s.Sound) (hc : s.carrier? t = some c)
    (hregistered : s.registry.isRegistered c.threadFiber = true) (operation : ThreadOperation) :
    (∃ s' e, s.performOn t c operation = .ok (s', e))
      ∨ ∃ fault s₁, s.performOn t c operation = .error fault
        ∧ s.Stops t c operation fault s₁ := by
  cases operation with
  | create request continuation =>
    by_cases hrequest : request = .kernel
    · subst hrequest
      simp only [performOn, FiberSystem.create, carrier_eq hc]
      by_cases hthread : (s.fiber c.current).isThreadFiber = true
      · exact .inl ⟨_, _, by rw [if_pos hthread]; rfl⟩
      · exact .inr ⟨_, s, by rw [if_neg hthread]; rfl, .create (Bool.eq_false_iff.2 hthread)⟩
    · obtain ⟨outcome, s', hcreate⟩ := h.exists_create hs hc hrequest continuation
      exact .inl ⟨s', _, map_eq_ok_iff.2 ⟨_, hcreate, rfl⟩⟩
  | terminate id =>
    obtain ⟨s', hterminate⟩ | ⟨fault, s₁, hterminate, hstops⟩ := terminate_cases_of_stocked h t id
    · exact .inl ⟨s', _, map_eq_ok_iff.2 ⟨s', hterminate, rfl⟩⟩
    · exact .inr ⟨fault, s₁, by rw [performOn, hterminate]; rfl, .terminate hstops⟩
  | switch target kind =>
    obtain ⟨s', henter⟩ | ⟨fault, s₁, henter, hstops⟩ := enter_cases_of_stocked h hs hc target kind
    · exact .inl ⟨s', _, map_eq_ok_iff.2 ⟨s', henter, rfl⟩⟩
    · exact .inr ⟨fault, s₁, by rw [performOn, henter]; rfl, hstops⟩
  | reclaim =>
    obtain ⟨s', hreclaim⟩ := h.exists_reclaim t
    exact .inl ⟨s', none, map_eq_ok_iff.2 ⟨s', hreclaim, rfl⟩⟩
  | detach =>
    obtain ⟨s', hdetach⟩ := h.exists_detach hs hc hregistered
    exact .inl ⟨s', _, map_eq_ok_iff.2 ⟨s', hdetach, rfl⟩⟩
  | scratch operation =>
    cases hperform : c.scratch.perform operation with
    | error fault => exact .inr ⟨fault, s, by rw [performOn, hperform]; rfl, .scratch hperform⟩
    | ok scratch => exact .inl ⟨_, none, map_eq_ok_iff.2 ⟨scratch, hperform, rfl⟩⟩
  | setMode mode => exact .inl ⟨_, none, rfl⟩

theorem RetireStops.spares (h : s.RetireStops t id fault s₁) (hu : u ≠ t) : s.Spares u s₁ := by
  cases h with
  | refused _ => exact .refl s u
  | unregistered hcheck _ =>
    simp only [checkRetire, check_eq_ok_iff, not_not] at hcheck
    exact spares_modifyFiber (g := fun f => { f with continuation := none })
      (ownedBy_of_fiber hcheck.1) hu fun _ => rfl

/-- What is done before a fault spares the other threads. -/
theorem Stops.spares (hstops : s.Stops t c operation fault s₁) (hs : s.Sound)
    (h : s.Neighbours t u) (hc : s.carrier? t = some c)
    (hsound : PageCall.Sound s.machine.calls) : s.Spares u s₁ := by
  cases hstops with
  | terminate h' => exact h'.spares h.ne
  | @source target fault s₁ _ hcheck hverify h' =>
    obtain ⟨hmove, -⟩ := move_of_exchanged hs hc hcheck hverify
    refine (hmove.spares h ?_).trans (h'.spares h.ne)
    obtain ⟨f, hf, -⟩ := hs.exists_fiber hc (checkTarget_cases hcheck).1
    obtain ⟨-, bookmark, -, ⟨rfl, -⟩ | rfl⟩ := verifySwitch_cases hf hverify <;> exact hsound
  | _ => exact .refl _ u

end Faults

section States

theorem Peaceful.perform {operation : Operation} {e : Option Event} (h : s.Peaceful)
    (hr : s.perform operation = .ok (s', e)) : s'.Peaceful := by
  obtain ⟨hinherits, hpartitioned⟩ := h.partitioned.perform h.sound hr
  have hsize : s'.pool.stackSize = s.pool.stackSize := congrArg Geometry.stackSize hinherits.geometry
  constructor
  case sound => exact (h.sound.perform hr).1
  case kept => exact (h.kept.perform h.sound hr).1
  case partitioned => exact hpartitioned
  case zone =>
    rw [hsize, hinherits.geometry]
    exact h.zone
  case primed =>
    rw [hsize]
    exact h.primed

theorem Peaceful.neighbours (h : s.Peaceful) (hu : u ≠ t) : s.Neighbours t u where
  stocked := h.kept.stocked h.partitioned
  ne := hu
  slots k ht hk := hu (h.partitioned.apart u t k hk ht)
  zone := h.zone
  primed := h.primed

theorem Peaceful.spares_of_harmless {operation : Operation} {e : Option Event} (h : s.Peaceful)
    (hu : u ≠ t) (hharmless : Harmless t u s operation)
    (hr : s.perform operation = .ok (s', e)) (hsound : PageCall.Sound s'.machine.calls) :
    s.Spares u s' := by
  obtain ⟨performed, rfl⟩ | ⟨call, rfl, hthread⟩ | hspares := hharmless
  · cases performed_of_perform hr with
    | nothing => exact .refl s u
    | perform hc hperform => exact spares_of_performOn h.sound (h.neighbours hu) hc hperform hsound
  · cases performed_of_perform hr with
    | nothing => exact .refl s u
    | returnFrom hcall hreturn =>
      have hcallOf := hthread ▸ h.partitioned.calls call hcall
      exact (move_of_returnFrom h.sound hcallOf hreturn).spares (h.neighbours hu) hsound
  · exact hspares s' e hr

theorem Peaceful.isolated (h : s.Peaceful) (hu : u ≠ t)
    (hregistered : ∀ c, s.carrier? t = some c → s.registry.isRegistered c.threadFiber = true) :
    s.Isolated t u := by
  have hneighbours := h.neighbours hu
  constructor
  case performs =>
    intro c operation hc
    simp only [FiberSystem.perform, hc]
    obtain ⟨s', e, hr⟩ | ⟨fault, s₁, hr, hstops⟩ :=
      performOn_cases hneighbours.stocked h.sound hc (hregistered c hc) operation
    · exact .inl ⟨s', e, hr, spares_of_performOn h.sound hneighbours hc hr⟩
    · exact .inr ⟨fault, s₁, hr, hstops, hstops.spares h.sound hneighbours hc⟩
  case returns =>
    intro call hcall hthread
    obtain ⟨s', hreturn⟩ := hneighbours.stocked.exists_returnFrom h.sound call
    have hr : s.perform (.returnFrom call) = .ok (s', none) := by
      simp only [FiberSystem.perform, if_pos hcall, hreturn]
      rfl
    exact ⟨s', hr, h.spares_of_harmless hu (.inr (.inl ⟨call, rfl, hthread⟩)) hr⟩

end States

end FiberSystem

namespace Run

open FiberSystem

variable {host : Host} {settings : Settings} {provider : PageProvider} {policy : Option Bool}
  {s : FiberSystem} {operations rest : List Operation} {r r' : Run} {t u : ThreadToken}

theorem Regular.peaceful (h : r.Regular (.ofSettings settings provider.pageSize))
    (hp : 0 < provider.pageSize)
    (hroom : Fiber.primedSize ≤ (Geometry.ofSettings settings provider.pageSize).stackSize) :
    r.system.Peaceful := by
  refine ⟨h.orderly.sound, h.orderly.kept, h.partitioned, ?_, ?_⟩
  · rw [Pool.stackSize, h.geometry]
    exact Geometry.guardZone_le_stackSize settings hp
  · rw [Pool.stackSize, h.geometry]
    exact hroom

theorem peaceful_of_after (hs : ofSettings host settings provider policy = .ok (.ok s))
    (hp : 0 < provider.pageSize) (hg : 0 < provider.granularity)
    (hroom : Fiber.primedSize ≤ (Geometry.ofSettings settings provider.pageSize).stackSize)
    (hr : Run.after ⟨s, []⟩ operations = .ok r) : r.system.Peaceful :=
  (regular_of_after hs hp hg hr).peaceful hp hroom

theorem spares_of_harmless_run (h : r.system.Peaceful) (hu : u ≠ t)
    (hr : r.after rest = .ok r') (hharmless : r.AtEach (Harmless t u) rest)
    (hsound : r.Always (fun s => PageCall.Sound s.machine.calls) rest) :
    r.system.Spares u r'.system := by
  induction rest generalizing r with
  | nil => exact Except.ok.inj hr ▸ .refl _ u
  | cons operation rest ih =>
    obtain ⟨r₁, hperform, hr⟩ := after_cons_eq_ok_iff.1 hr
    obtain ⟨hfirst, hrest⟩ := (atEach_cons_iff hperform).1 hharmless
    obtain ⟨-, hsound₁⟩ := (always_cons_iff hperform).1 hsound
    obtain ⟨event, hperformed, -⟩ := perform_eq_ok_iff.1 hperform
    have hspares := h.spares_of_harmless hu hfirst hperformed hsound₁.head
    exact hspares.trans (ih (h.perform hperformed) hr hrest hsound₁)

/-- In every state of a run without a fault, a thread leaves another one alone whatever it does next,
and as long as what the others do spares that one it is left alone for good. -/
theorem isolated_of_after (hs : ofSettings host settings provider policy = .ok (.ok s))
    (hp : 0 < provider.pageSize) (hg : 0 < provider.granularity)
    (hroom : Fiber.primedSize ≤ (Geometry.ofSettings settings provider.pageSize).stackSize)
    (hr : Run.after ⟨s, []⟩ operations = .ok r) (hu : u ≠ t) :
    r.system.Isolated t u
      ∧ ∀ rest r', r.after rest = .ok r' → r.AtEach (Harmless t u) rest →
        r.Always (fun s => PageCall.Sound s.machine.calls) rest →
        r.system.Spares u r'.system := by
  have h := peaceful_of_after hs hp hg hroom hr
  refine ⟨h.isolated hu ((recorded_of_after hs hr).registered t), fun rest r' => ?_⟩
  exact spares_of_harmless_run h hu

/-- A thread is detached with a suspended fiber, whose stack is given back to the page provider,
while a fiber of another thread runs. -/
theorem isolated_of_orphan : ∃ s r r',
    ofSettings .simulated
        { registryShards := 2, stacksPerSlab := 2, physicalCacheMax := 0, verifyOnYield := true }
        ({} : Simulation).provider none = .ok (.ok s)
      ∧ Run.after ⟨s, []⟩
          [.attach 1 "main" (.ok ⟨0x10000000, 0x100000⟩),
           .attach 2 "worker" (.ok ⟨0x20000000, 0x100000⟩), .perform ⟨1⟩ (.create .pooled none),
           .perform ⟨2⟩ (.create .pooled none), .drop (.ofNumber 2),
           .perform ⟨2⟩ (.switch (.ofNumber 3) .returning)] = .ok r
      ∧ r.after [.perform ⟨1⟩ .detach] = .ok r'
      ∧ (r.system.carrier ⟨2⟩).current = .ofNumber 3
      ∧ r'.system.machine.calls.length = 4
      ∧ r.system.Isolated ⟨1⟩ ⟨2⟩ ∧ r.system.Spares ⟨2⟩ r'.system := by
  refine ⟨?s, ?r, ?r', ?hs, ?hr, ?hdetach, ?hcurrent, ?hcalls,
    (isolated_of_after ?hs (by decide) (by decide) (by decide) ?hr (by decide)).imp_right
      fun h => h [.perform ⟨1⟩ .detach] _ ?hdetach ?hharmless ?hsound⟩
  case hs => rfl
  case hr => rfl
  case hdetach => rfl
  case hcurrent => rfl
  case hcalls => rfl
  case hharmless => exact (atEach_cons_iff rfl).2 ⟨.inl ⟨_, rfl⟩, trivial⟩
  case hsound =>
    have hreserve : PageCall.Sound [.reserve 0xAE000 (.ok 0x200000000000)] := by
      refine ⟨⟨by decide, ?_⟩, trivial⟩
      rintro r ⟨⟩
    refine (always_cons_iff rfl).2 ⟨?_, ?_⟩
    · exact hreserve
    · exact hreserve

/-- Stacks of 64 bytes have no room for the nine words that priming writes. One thread has a fiber
woken, and the topmost word of the other thread's stack is overwritten. -/
theorem not_spares_of_small_stack : ∃ s r r',
    ofSettings .simulated
        { stackSize := 64, shadowPages := 0, yellowPages := 0, redPages := 0, guardPages := false
          stacksPerSlab := 4, physicalCacheMax := 2, registryShards := 16, verifyOnYield := true }
        ({ pageSize := 8 } : Simulation).provider none = .ok (.ok s)
      ∧ Run.after ⟨s, []⟩
          [.attach 1 "A" (.ok ⟨0x10000000, 0x100000⟩), .attach 2 "B" (.ok ⟨0x20000000, 0x100000⟩),
           .perform ⟨1⟩ (.create .pooled none), .perform ⟨2⟩ (.create .pooled none),
           .write 0x2000000000B8 [.number 1234], .perform ⟨1⟩ (.terminate (.ofNumber 2))] = .ok r
      ∧ r.perform (.perform ⟨1⟩ (.create .pooled none)) = .ok r'
      ∧ PageCall.Sound r'.system.machine.calls
      ∧ r.system.StackOf ⟨2⟩ 0x2000000000B8
      ∧ r.system.machine.read 0x2000000000B8 = .number 1234
      ∧ r'.system.machine.read 0x2000000000B8 = .zero
      ∧ ¬r.system.Spares ⟨2⟩ r'.system := by
  refine ⟨?s, ?r, ?r', ?hs, ?hr, ?hcreate, ?hsound, ?hstack, ?hbefore, ?hafter, ?hspares⟩
  case hs => rfl
  case hr => rfl
  case hcreate => rfl
  case hsound =>
    refine ⟨⟨by decide, ?_⟩, trivial⟩
    rintro r ⟨⟩
  case hstack => exact ⟨.ofNumber 3, _, rfl, rfl, rfl, nofun⟩
  case hbefore => rfl
  case hafter => rfl
  case hspares =>
    intro h
    have hread := h.contents 0x2000000000B8 ⟨.ofNumber 3, _, rfl, rfl, rfl, nofun⟩
    exact absurd hread (by decide)

end Run

end PooledFibers
