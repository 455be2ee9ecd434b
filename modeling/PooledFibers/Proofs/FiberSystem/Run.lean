import PooledFibers.FiberSystem.Switch
import PooledFibers.Proofs.Outcome

/-!
# Runs of a fiber system

What the threads of a process do to a fiber system, one operation after the other. A switch and the
return from it are two operations, so that whatever the host does in between is part of the run, in
any order. A run ends at the first fault. Its history notes who attached and detached, which fibers
were handed out and ended, and every switch.
-/

namespace PooledFibers

/-- What an attached thread does. -/
inductive ThreadOperation
  | create (request : StackRequest) (continuation : Option ContinuationId)
  | terminate (fiber : FiberId)
  | switch (target : FiberId) (kind : SwitchKind)
  | reclaim
  | detach
  | scratch (operation : ScratchOperation)
  | setMode (mode : ExecutionMode)

/-- What happens to a fiber system from outside. -/
inductive Operation
  | attach (thread : Nat) (name : String) (bounds : Except IoError StackBounds)
  | perform (t : ThreadToken) (operation : ThreadOperation)
  | returnFrom (call : SwitchCall)
  | hold (fiber : FiberId)
  | drop (fiber : FiberId)
  | lease
  | unlease (lease : Lease)
  | saveResume (fiber : FiberId) (address : Nat)
  | write (address : Nat) (words : List MemoryWord)
  | addContinuation (continuation : Continuation)
  | dropContinuation (continuation : ContinuationId)

inductive Event
  | attached (t : ThreadToken) (fiber : FiberId)
  | detached (t : ThreadToken)
  /-- A fiber on a stack from the pool was handed out. -/
  | created (t : ThreadToken) (fiber : FiberId)
  | terminated (fiber : FiberId)
  /-- `snapshot` is that of the scratch resources when the source was left. -/
  | switched (t : ThreadToken) (source target : FiberId) (kind : SwitchKind) (snapshot : Snapshot)

/-- What is noted of a request for a fiber: only a fiber on a stack from the pool is handed out. -/
def Event.ofRequest? (t : ThreadToken) : StackRequest → Except Failure FiberId → Option Event
  | .pooled, .ok id => some (.created t id)
  | _, _ => none

namespace FiberSystem

/-- What an operation comes to on the thread with carrier `c`. -/
def performOn (s : FiberSystem) (t : ThreadToken) (c : Carrier) :
    ThreadOperation → Except Fault (FiberSystem × Option Event)
  | .create request continuation => (s.create t request continuation).map fun (made, s) =>
    (s, Event.ofRequest? t request made)
  | .terminate fiber => (s.terminate t fiber).map fun s => (s, some (.terminated fiber))
  | .switch target kind => (s.enter t target kind).map fun s =>
    (s, some (.switched t c.current target kind c.scratch.snapshot))
  | .reclaim => (s.reclaim t).map fun s => (s, none)
  | .detach => (s.detach t).map fun s => (s, some (.detached t))
  | .scratch operation => (c.scratch.perform operation).map fun scratch =>
    (s.setScratch t scratch, none)
  | .setMode mode => .ok (s.setMode t mode, none)

/-- Operations of a thread that is not attached, and returns of what was never given, do nothing. -/
def perform (s : FiberSystem) : Operation → Except Fault (FiberSystem × Option Event)
  | .attach thread name bounds => (s.attach thread name bounds).map fun (outcome, s) =>
    (s, match outcome with
      | .ok t => some (.attached t (s.carrier t).threadFiber)
      | .error _ => none)
  | .perform t operation =>
    match s.carrier? t with
    | some c => s.performOn t c operation
    | none => .ok (s, none)
  | .returnFrom call =>
    if call ∈ s.calls then (s.returnFrom call).map fun s => (s, none) else .ok (s, none)
  | .hold fiber => .ok (if s.fibers.contains fiber then s.hold fiber else s, none)
  | .drop fiber =>
    if fiber ∈ s.held then (s.dropHandle fiber).map fun s => (s, none) else .ok (s, none)
  | .lease => s.lease.map fun (_, s) => (s, none)
  | .unlease lease =>
    if lease ∈ s.leases then (s.unlease lease).map fun s => (s, none) else .ok (s, none)
  | .saveResume fiber address => .ok (s.saveResume fiber address, none)
  | .write address words => .ok (s.writeWords address words, none)
  | .addContinuation continuation => .ok ((s.addContinuation continuation).2, none)
  | .dropContinuation continuation => .ok (s.dropContinuation continuation, none)

/-- How an operation is performed when it does not fault. -/
inductive Performed (s : FiberSystem) : Operation → FiberSystem → Option Event → Prop
  /-- By a thread that is not attached, or on what was never given. -/
  | nothing {operation} : s.Performed operation s none
  | attach {thread name bounds outcome s'}
    (h : s.attach thread name bounds = .ok (outcome, s')) :
    s.Performed (.attach thread name bounds) s'
      (outcome.toOption.map fun t => .attached t (s'.carrier t).threadFiber)
  | perform {t c operation s' e} (hc : s.carrier? t = some c)
    (h : s.performOn t c operation = .ok (s', e)) : s.Performed (.perform t operation) s' e
  | returnFrom {call s'} (hcall : call ∈ s.calls) (h : s.returnFrom call = .ok s') :
    s.Performed (.returnFrom call) s' none
  | hold {fiber} (hfiber : s.fibers.contains fiber = true) :
    s.Performed (.hold fiber) (s.hold fiber) none
  | drop {fiber s'} (h : s.dropHandle fiber = .ok s') : s.Performed (.drop fiber) s' none
  | lease {outcome s'} (h : s.lease = .ok (outcome, s')) : s.Performed .lease s' none
  | unlease {lease s'} (hlease : lease ∈ s.leases) (h : s.unlease lease = .ok s') :
    s.Performed (.unlease lease) s' none
  | saveResume {fiber address} :
    s.Performed (.saveResume fiber address) (s.saveResume fiber address) none
  | write {address words} : s.Performed (.write address words) (s.writeWords address words) none
  | addContinuation {continuation} :
    s.Performed (.addContinuation continuation) (s.addContinuation continuation).2 none
  | dropContinuation {continuation} :
    s.Performed (.dropContinuation continuation) (s.dropContinuation continuation) none

open Outcome

theorem performed_of_perform {s s' : FiberSystem} {operation : Operation} {e : Option Event}
    (hr : s.perform operation = .ok (s', e)) : s.Performed operation s' e := by
  cases operation with
  | attach thread name bounds =>
    obtain ⟨⟨outcome, s₁⟩, hattach, heq⟩ := map_eq_ok_iff.1 hr
    obtain ⟨rfl, rfl⟩ := Prod.mk.inj heq
    cases outcome <;> exact .attach hattach
  | perform t operation =>
    simp only [perform] at hr
    split at hr <;> rename_i hc
    · exact .perform hc hr
    · obtain ⟨rfl, rfl⟩ := Prod.mk.inj (Except.ok.inj hr)
      exact .nothing
  | returnFrom call =>
    simp only [perform] at hr
    split_ifs at hr with hcall
    · obtain ⟨s₁, hreturn, heq⟩ := map_eq_ok_iff.1 hr
      obtain ⟨rfl, rfl⟩ := Prod.mk.inj heq
      exact .returnFrom hcall hreturn
    · obtain ⟨rfl, rfl⟩ := Prod.mk.inj (Except.ok.inj hr)
      exact .nothing
  | hold fiber =>
    obtain ⟨rfl, rfl⟩ := Prod.mk.inj (Except.ok.inj hr)
    split_ifs with hfiber
    · exact .hold hfiber
    · exact .nothing
  | drop fiber =>
    simp only [perform] at hr
    split_ifs at hr
    · obtain ⟨s₁, hdrop, heq⟩ := map_eq_ok_iff.1 hr
      obtain ⟨rfl, rfl⟩ := Prod.mk.inj heq
      exact .drop hdrop
    · obtain ⟨rfl, rfl⟩ := Prod.mk.inj (Except.ok.inj hr)
      exact .nothing
  | lease =>
    obtain ⟨⟨outcome, s₁⟩, hlease, heq⟩ := map_eq_ok_iff.1 hr
    obtain ⟨rfl, rfl⟩ := Prod.mk.inj heq
    exact .lease hlease
  | unlease lease =>
    simp only [perform] at hr
    split_ifs at hr with hlease
    · obtain ⟨s₁, hunlease, heq⟩ := map_eq_ok_iff.1 hr
      obtain ⟨rfl, rfl⟩ := Prod.mk.inj heq
      exact .unlease hlease hunlease
    · obtain ⟨rfl, rfl⟩ := Prod.mk.inj (Except.ok.inj hr)
      exact .nothing
  | saveResume fiber address =>
    obtain ⟨rfl, rfl⟩ := Prod.mk.inj (Except.ok.inj hr)
    exact .saveResume
  | write address words =>
    obtain ⟨rfl, rfl⟩ := Prod.mk.inj (Except.ok.inj hr)
    exact .write
  | addContinuation continuation =>
    obtain ⟨rfl, rfl⟩ := Prod.mk.inj (Except.ok.inj hr)
    exact .addContinuation
  | dropContinuation continuation =>
    obtain ⟨rfl, rfl⟩ := Prod.mk.inj (Except.ok.inj hr)
    exact .dropContinuation

end FiberSystem

/-- A system and what has happened to it, the latest first. -/
structure Run where
  system : FiberSystem
  history : List Event := []

namespace Run

def perform (r : Run) (operation : Operation) : Except Fault Run :=
  (r.system.perform operation).map fun (system, event) => ⟨system, event.toList ++ r.history⟩

def after (r : Run) : List Operation → Except Fault Run
  | [] => .ok r
  | operation :: rest => do (← r.perform operation).after rest

/-- All states of a run have a property, its first and its last among them. -/
def Always (P : FiberSystem → Prop) (r : Run) : List Operation → Prop
  | [] => P r.system
  | operation :: rest =>
    P r.system ∧ ∀ r', r.perform operation = .ok r' → r'.Always P rest

/-- Each operation of a run has a property in the state that it finds. -/
def AtEach (Q : FiberSystem → Operation → Prop) (r : Run) : List Operation → Prop
  | [] => True
  | operation :: rest =>
    Q r.system operation ∧ ∀ r', r.perform operation = .ok r' → r'.AtEach Q rest

open Outcome

variable {r r' : Run} {operation : Operation} {operations rest : List Operation}

theorem Always.head {P : FiberSystem → Prop} (h : r.Always P operations) : P r.system := by
  cases operations with
  | nil => exact h
  | cons operation rest => exact h.1

theorem always_cons_iff {P : FiberSystem → Prop} (hr : r.perform operation = .ok r') :
    r.Always P (operation :: rest) ↔ P r.system ∧ r'.Always P rest := by
  simp [Always, hr]

theorem atEach_cons_iff {Q : FiberSystem → Operation → Prop}
    (hr : r.perform operation = .ok r') :
    r.AtEach Q (operation :: rest) ↔ Q r.system operation ∧ r'.AtEach Q rest := by
  simp [AtEach, hr]

theorem perform_eq_ok_iff : r.perform operation = .ok r' ↔
    ∃ event, r.system.perform operation = .ok (r'.system, event)
      ∧ r'.history = event.toList ++ r.history := by
  obtain ⟨system, history⟩ := r'
  simp only [perform, map_eq_ok_iff, Prod.exists, mk.injEq]
  constructor
  · rintro ⟨_, event, h, rfl, rfl⟩
    exact ⟨event, h, rfl⟩
  · rintro ⟨event, h, rfl⟩
    exact ⟨_, event, h, rfl, rfl⟩

theorem after_cons_eq_ok_iff : r.after (operation :: rest) = .ok r' ↔
    ∃ r₁, r.perform operation = .ok r₁ ∧ r₁.after rest = .ok r' := bind_eq_ok_iff

/-- What each operation keeps, a run keeps. -/
theorem after_induction {P : Run → Prop}
    (hstep : ∀ r operation r', P r → r.perform operation = .ok r' → P r')
    (hr : r.after operations = .ok r') (h : P r) : P r' := by
  induction operations generalizing r with
  | nil => exact Except.ok.inj hr ▸ h
  | cons operation rest ih =>
    obtain ⟨r₁, hperform, hr⟩ := after_cons_eq_ok_iff.1 hr
    exact ih hr (hstep r operation r₁ h hperform)

/-- What operations of some kind keep, a run of such operations keeps. -/
theorem after_induction_of_atEach {P : Run → Prop} {Q : FiberSystem → Operation → Prop}
    (hstep : ∀ r operation r', P r → Q r.system operation → r.perform operation = .ok r' → P r')
    (hr : r.after operations = .ok r') (hQ : r.AtEach Q operations) (h : P r) : P r' := by
  induction operations generalizing r with
  | nil => exact Except.ok.inj hr ▸ h
  | cons operation rest ih =>
    obtain ⟨r₁, hperform, hr⟩ := after_cons_eq_ok_iff.1 hr
    obtain ⟨hfirst, hrest⟩ := (atEach_cons_iff hperform).1 hQ
    exact ih hr hrest (hstep r operation r₁ h hfirst hperform)

end Run

section History

/-- The fiber that stands for a thread, while it is attached. -/
def threadFiberOf (t : ThreadToken) : List Event → Option FiberId
  | [] => none
  | .attached u fiber :: rest => if u = t then some fiber else threadFiberOf t rest
  | .detached u :: rest => if u = t then none else threadFiberOf t rest
  | _ :: rest => threadFiberOf t rest

/-- The thread to which a fiber was handed out, until the fiber ends. -/
def creatorOf (id : FiberId) : List Event → Option ThreadToken
  | [] => none
  | .created t fiber :: rest => if fiber = id then some t else creatorOf id rest
  | .terminated fiber :: rest => if fiber = id then none else creatorOf id rest
  | .switched _ source _ kind _ :: rest =>
    if kind = .terminating ∧ source = id then none else creatorOf id rest
  | _ :: rest => creatorOf id rest

@[simp] theorem creatorOf_attached {id fiber : FiberId} {t : ThreadToken} {rest : List Event} :
    creatorOf id (.attached t fiber :: rest) = creatorOf id rest := rfl

@[simp] theorem creatorOf_detached {id : FiberId} {t : ThreadToken} {rest : List Event} :
    creatorOf id (.detached t :: rest) = creatorOf id rest := rfl

/-- The fibers that, going by the history, have not ended and have a thread. -/
def LiveIn (history : List Event) (id : FiberId) : Prop :=
  (∃ t, threadFiberOf t history = some id)
    ∨ ∃ t, creatorOf id history = some t ∧ (threadFiberOf t history).isSome = true

/-- The scratch resources when a thread's own fiber was last left. -/
def departureOf (t : ThreadToken) : List Event → Option Snapshot
  | [] => none
  | .switched u source _ _ snapshot :: rest =>
    if u = t ∧ threadFiberOf t rest = some source then some snapshot else departureOf t rest
  | _ :: rest => departureOf t rest

end History

end PooledFibers
