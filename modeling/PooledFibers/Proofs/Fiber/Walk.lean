import Mathlib.Tactic.Common
import PooledFibers.Fiber.Walk
import PooledFibers.Machine.Simulated
import PooledFibers.Proofs.Outcome

/-!
# What walks pass on

A scan passes on every frame (`Walk.scan_eq`). A dump passes on the managed frames among so many
from the first managed one on (`managedWithin`, `Walk.dump_eq`), and never stops before it has
counted one frame, so it passes on a managed frame even if the limit is zero.

## Main statements

* `Fiber.walk_of_suspended`: what both walks over a suspended fiber pass on and answer, and that the
  dump keeps to its limit if and only if the limit is positive or no frame is managed; traces of
  one stack are prefixes of each other.
-/

namespace PooledFibers

variable {α : Type} (isManaged : α → Bool)

/-- The managed frames among the first `limit` frames counted from the first managed one. -/
def managedWithin (limit : Nat) (frames : List α) : List α :=
  ((frames.dropWhile fun frame => !isManaged frame).take limit).filter isManaged

theorem managedWithin_zero (frames : List α) : managedWithin isManaged 0 frames = [] := by
  simp [managedWithin]

theorem managedWithin_mono {limit limit' : Nat} (le : limit ≤ limit') (frames : List α) :
    managedWithin isManaged limit frames <+: managedWithin isManaged limit' frames :=
  (List.take_prefix_take_left le).filter isManaged

/-- With room for one frame, there is a managed frame within the limit if there is any. -/
theorem managedWithin_eq_nil_iff {limit : Nat} (pos : 0 < limit) {frames : List α} :
    managedWithin isManaged limit frames = [] ↔ ∀ frame ∈ frames, isManaged frame = false := by
  induction frames with
  | nil => simp [managedWithin]
  | cons frame rest ih =>
    cases managed : isManaged frame with
    | true =>
      obtain ⟨limit, rfl⟩ := Nat.exists_eq_add_one.2 pos
      simp [managedWithin, managed]
    | false =>
      have skips : managedWithin isManaged limit (frame :: rest) =
          managedWithin isManaged limit rest := by simp [managedWithin, managed]
      simp [skips, ih, managed]

/-- What a dump passes on is within its limit unless that is zero and a frame is managed. -/
theorem managedWithin_max_one_iff {limit : Nat} {frames : List α} :
    managedWithin isManaged (max limit 1) frames = managedWithin isManaged limit frames ↔
      limit ≠ 0 ∨ ∀ frame ∈ frames, isManaged frame = false := by
  cases limit with
  | zero => simp [managedWithin_zero, managedWithin_eq_nil_iff]
  | succ limit => simp

namespace Walk

variable (w : Walk α)

/-- The walk when so many more frames have been taken and these have been passed on. -/
def further (taken : Nat) (passed : List α) : Walk α :=
  { w with
    taken := w.taken + taken
    visited := w.visited + passed.length
    passed := w.passed ++ passed }

@[simp] theorem further_none : w.further 0 [] = w := by
  simp [further]

@[simp] theorem further_further (taken taken' : Nat) (passed passed' : List α) :
    (w.further taken passed).further taken' passed' =
      w.further (taken + taken') (passed ++ passed') := by
  simp [further, Nat.add_assoc]

theorem take_eq : w.take = w.further 1 [] := by
  simp [further, take]

theorem take_pass_eq (frame : α) : w.take.pass frame = w.further 1 [frame] := rfl

theorem scan_eq (frames : List α) : w.scan frames = w.further frames.length frames := by
  induction frames generalizing w with
  | nil => simp [scan]
  | cons frame rest ih =>
    rw [scan, ih, take_pass_eq, further_further, Nat.add_comm]
    rfl

/-- What becomes of a frame from the first managed one on. -/
theorem ite_take_pass_eq (frame : α) :
    (if isManaged frame then w.take.pass frame else w.take) =
      w.further 1 ([frame].filter isManaged) := by
  cases managed : isManaged frame
  · simp [managed, take_eq]
  · simp [managed, take_pass_eq]

/-- The frame at hand is counted even if the limit has been reached before. -/
theorem dumpFrom_eq (maxDepth depth : Nat) (frames : List α) :
    w.dumpFrom isManaged maxDepth depth frames =
      w.further (frames.take (max (maxDepth - depth) 1)).length
        ((frames.take (max (maxDepth - depth) 1)).filter isManaged) := by
  induction frames generalizing w depth with
  | nil => simp [dumpFrom]
  | cons frame rest ih =>
    rw [dumpFrom, ite_take_pass_eq]
    split
    case isTrue reached =>
      have one : max (maxDepth - depth) 1 = 1 := by omega
      simp [one]
    case isFalse below =>
      have more : max (maxDepth - depth) 1 = max (maxDepth - (depth + 1)) 1 + 1 := by omega
      rw [ih, further_further, more, List.take_succ_cons, List.length_cons, Nat.add_comm 1,
        ← List.filter_append, List.singleton_append]

/-- A dump takes the native frames that come first, and from there as many as it may. -/
theorem dump_eq (maxDepth : Nat) (frames : List α) :
    w.dump isManaged maxDepth frames =
      w.further ((frames.takeWhile fun frame => !isManaged frame).length +
          ((frames.dropWhile fun frame => !isManaged frame).take (max maxDepth 1)).length)
        (managedWithin isManaged (max maxDepth 1) frames) := by
  induction frames generalizing w with
  | nil => simp [dump, managedWithin]
  | cons frame rest ih =>
    rw [dump]
    cases managed : isManaged frame with
    | true => simp [dumpFrom_eq, managedWithin, managed]
    | false =>
      simp only [Bool.false_eq_true, if_false, ih, take_eq, further_further]
      simp [managedWithin, managed, Nat.add_assoc, Nat.add_comm 1]

end Walk

namespace Fiber

variable {f : Fiber} {m : Machine} {a : Nat}

theorem containsWord_iff {r : Region} :
    r.containsWord a ↔ r.low ≤ a ∧ a + Word.bytes ≤ r.base := by
  have bytes : Word.bytes = 8 := rfl
  simp only [Region.containsWord, Region.contains, Bool.and_eq_true, decide_eq_true_eq]
  omega

theorem readWord_of_inside (inside : f.region.low ≤ a ∧ a + Word.bytes ≤ f.region.base) :
    f.readWord m a = .ok (m.read a) :=
  if_pos (containsWord_iff.2 inside)

theorem readWord_of_outside (outside : ¬(f.region.low ≤ a ∧ a + Word.bytes ≤ f.region.base)) :
    f.readWord m a = .error (.readOutsideStack f.id a) :=
  if_neg (mt containsWord_iff.1 outside)

section Suspended

variable (onStack : f.state = .onStack) (resume : f.resume = some a)

include onStack resume

theorem cursor?_of_started (inside : f.region.low ≤ a ∧ a + 2 * Word.bytes ≤ f.region.base)
    (started : m.read (a + Word.bytes) ≠ .fiberStart) :
    f.cursor? m =
      .ok (some ⟨a + 2 * Word.bytes, m.read a, m.read (a + Word.bytes)⟩) := by
  rw [cursor?, onStack, resume]
  simp only []
  rw [readWord_of_inside (by omega), Outcome.ok_bind, readWord_of_inside (by omega),
    Outcome.ok_bind, if_neg started, Outcome.pure_eq_ok]

/-- The word that a walk fails to read is one of the two at the resume point. -/
theorem cursor?_of_outside (outside : ¬(f.region.low ≤ a ∧ a + 2 * Word.bytes ≤ f.region.base)) :
    ∃ address, (address = a ∨ address = a + Word.bytes) ∧
      ¬(f.region.low ≤ address ∧ address + Word.bytes ≤ f.region.base) ∧
      ∀ m, f.cursor? m = .error (.readOutsideStack f.id address) := by
  by_cases first : f.region.low ≤ a ∧ a + Word.bytes ≤ f.region.base
  · have second : ¬(f.region.low ≤ a + Word.bytes ∧ a + Word.bytes + Word.bytes ≤ f.region.base) := by
      omega
    refine ⟨a + Word.bytes, .inr rfl, second, fun m => ?_⟩
    rw [cursor?, onStack, resume]
    simp only []
    rw [readWord_of_inside first, Outcome.ok_bind, readWord_of_outside second, Outcome.error_bind]
  · refine ⟨a, .inl rfl, first, fun m => ?_⟩
    rw [cursor?, onStack, resume]
    simp only []
    rw [readWord_of_outside first, Outcome.error_bind]

end Suspended

variable (source : FrameSource α)

theorem walk_of_cursor {mode : WalkMode} {cursor : Cursor} (h : f.cursor? m = .ok (some cursor)) :
    f.walk m mode isManaged source =
      .ok (Walk.along isManaged mode { cursor := some cursor } (source.frames cursor f)) := by
  rw [walk, h]
  rfl

theorem walk_of_no_cursor {mode : WalkMode} (h : f.cursor? m = .ok none) :
    f.walk m mode isManaged source = .ok { cursor := none } := by
  rw [walk, h]
  rfl

theorem walk_of_fault {mode : WalkMode} {fault : Fault} (h : f.cursor? m = .error fault) :
    f.walk m mode isManaged source = .error fault := by
  rw [walk, h]
  rfl

/-- A fiber's traces at all depths, the smaller the earlier they stop, or the fault of its walks. -/
theorem trace_mono (f : Fiber) (m : Machine) (source : FrameSource Frame) :
    (∃ fault, ∀ depth, f.walk m (.dump depth) Frame.isManaged source = .error fault ∧
        f.trace m depth source = .error fault) ∨
      ∃ traces : Nat → List Method, (∀ depth, f.trace m depth source = .ok (traces depth)) ∧
        ∀ depth depth', depth ≤ depth' → traces depth <+: traces depth' := by
  cases entered : f.entered with
  | false => exact .inr ⟨fun _ => [], by simp [trace, entered], fun _ _ _ => List.prefix_rfl⟩
  | true =>
    cases start : f.cursor? m with
    | error fault =>
      exact .inl ⟨fault, fun depth => ⟨walk_of_fault _ _ start,
        by simp [trace, entered, walk_of_fault _ _ start]⟩⟩
    | ok cursor =>
      cases cursor with
      | none =>
        exact .inr ⟨fun _ => [], by simp [trace, entered, walk_of_no_cursor _ _ start],
          fun _ _ _ => List.prefix_rfl⟩
      | some cursor =>
        let managed (depth : Nat) :=
          managedWithin Frame.isManaged (max depth 1) (source.frames cursor f)
        have traced (depth : Nat) :
            f.trace m depth source = .ok ((managed depth).filterMap Frame.method?) := by
          simp [trace, entered, walk_of_cursor _ _ start, Walk.along, Walk.dump_eq, Walk.further,
            managed]
        refine .inr ⟨_, traced, fun depth depth' le => ?_⟩
        exact (managedWithin_mono _ (by omega) _).filterMap _

/-- What walks over a suspended fiber that has started pass on. The frames come from the cursor
that its resume point gives. A scan passes on all of them and a dump the managed ones within its
limit, but with a limit of zero it still passes on the first managed frame. A resume point off the
stack is a fault, and a trace with a smaller depth is the beginning of one with a larger depth. -/
theorem walk_of_suspended {f : Fiber} {m : Machine} {a : Nat} (onStack : f.state = .onStack)
    (resume : f.resume = some a) (started : m.read (a + Word.bytes) ≠ .fiberStart)
    (source : FrameSource α) :
    (f.region.low ≤ a ∧ a + 2 * Word.bytes ≤ f.region.base →
      ∃ frames, frames =
          source.frames ⟨a + 2 * Word.bytes, m.read a, m.read (a + Word.bytes)⟩ f ∧
        (∃ w, f.walk m .scan isManaged source = .ok w ∧ w.passed = frames ∧
          w.visited = frames.length) ∧
        ∀ maxDepth, ∃ w, f.walk m (.dump maxDepth) isManaged source = .ok w ∧
          w.passed = managedWithin isManaged (max maxDepth 1) frames ∧
          w.visited = w.passed.length ∧
          (w.passed = managedWithin isManaged maxDepth frames ↔
            maxDepth ≠ 0 ∨ ∀ frame ∈ frames, isManaged frame = false)) ∧
      (¬(f.region.low ≤ a ∧ a + 2 * Word.bytes ≤ f.region.base) →
        ∃ address, (address = a ∨ address = a + Word.bytes) ∧ ∀ mode,
          f.walk m mode isManaged source = .error (.readOutsideStack f.id address)) ∧
      ∀ (g : Fiber) (m' : Machine) (methods : FrameSource Frame),
        (∃ fault, ∀ depth, g.walk m' (.dump depth) Frame.isManaged methods = .error fault ∧
          g.trace m' depth methods = .error fault) ∨
        ∃ traces : Nat → List Method, (∀ depth, g.trace m' depth methods = .ok (traces depth)) ∧
          ∀ depth depth', depth ≤ depth' → traces depth <+: traces depth' := by
  refine ⟨fun inside => ⟨_, rfl, ?scan, fun maxDepth => ?dump⟩, fun outside => ?outside, trace_mono⟩
  case scan =>
    refine ⟨_, walk_of_cursor _ _ (cursor?_of_started onStack resume inside started), ?_⟩
    simp [Walk.along, Walk.scan_eq, Walk.further]
  case dump =>
    refine ⟨_, walk_of_cursor _ _ (cursor?_of_started onStack resume inside started), ?_⟩
    simp [Walk.along, Walk.dump_eq, Walk.further, managedWithin_max_one_iff]
  case outside =>
    obtain ⟨address, eq, -, fault⟩ := cursor?_of_outside onStack resume outside
    exact ⟨address, eq, fun mode => walk_of_fault _ _ (fault m)⟩

/-- A thread's fiber has been left with two native frames, a managed one, a native and a managed
one. Two frames from the first managed one on hold one method. -/
theorem walk_of_left_thread : ∃ (f : Fiber) (m : Machine) (w : Walk Frame),
    f = { ofThread ⟨0⟩ ⟨1⟩ "main" ⟨0x1000, 0x800, 0x800⟩ with
          state := .onStack, resume := some 0xE00 }
      ∧ m = ({ provider := ({} : Simulation).provider } : Machine).write 0xE08 (.number 0x4000)
      ∧ f.walk m (.dump 2) Frame.isManaged (.fixed [.native, .native, .managed { name := "run" },
          .native, .managed { name := "main" }]) = .ok w
      ∧ w.passed = [.managed { name := "run" }] ∧ w.visited = 1 := by
  obtain ⟨frames, rfl, -, dumps⟩ := (walk_of_suspended Frame.isManaged (a := 0xE00)
    (f := { ofThread ⟨0⟩ ⟨1⟩ "main" ⟨0x1000, 0x800, 0x800⟩ with
            state := .onStack, resume := some 0xE00 })
    (m := ({ provider := ({} : Simulation).provider } : Machine).write 0xE08 (.number 0x4000))
    rfl rfl (by decide) (.fixed [.native, .native, .managed { name := "run" }, .native,
      .managed { name := "main" }])).1 (by decide)
  obtain ⟨w, walk, passed, visited, -⟩ := dumps 2
  exact ⟨_, _, w, rfl, rfl, walk, passed, by rw [visited, passed]; rfl⟩

/-- With a limit of zero the same walk passes on the first managed frame. -/
theorem not_within_limit_zero : ∃ (f : Fiber) (m : Machine) (w : Walk Frame) (frames : List Frame),
    f = { ofThread ⟨0⟩ ⟨1⟩ "main" ⟨0x1000, 0x800, 0x800⟩ with
          state := .onStack, resume := some 0xE00 }
      ∧ m = ({ provider := ({} : Simulation).provider } : Machine).write 0xE08 (.number 0x4000)
      ∧ frames = [.native, .native, .managed { name := "run" }, .native, .managed { name := "main" }]
      ∧ f.walk m (.dump 0) Frame.isManaged (.fixed frames) = .ok w
      ∧ w.visited = 1 ∧ w.passed ≠ managedWithin Frame.isManaged 0 frames
      ∧ f.trace m 0 (.fixed frames) = .ok [{ name := "run" }] := by
  refine ⟨_, _, ?w, _, rfl, rfl, rfl, ?walk, ?visited, ?passed, ?trace⟩
  case walk => rfl
  case visited => rfl
  case passed => decide
  case trace => rfl

end Fiber

end PooledFibers
