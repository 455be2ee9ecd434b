import Mathlib.Data.List.TakeWhile
import Mathlib.Tactic.Common
import PooledFibers.Fiber.Print
import PooledFibers.Proofs.Fiber.Walk
import PooledFibers.Proofs.Stack.Contents

/-!
# What walks read

A walk reads the two words at the resume point, one after the other, for as long as they lie on the
fiber's stack (`Fiber.wordsRead`). It depends on no other memory (`Fiber.walk_congr`). On a primed
stack these words tell that the fiber has not run: there is nothing to walk over, and no frames are
asked for (`Fiber.Unstarted.bare`).
-/

namespace PooledFibers.Fiber

/-- A heap fiber that has not run, on a stack with this base. -/
structure Unstarted (f : Fiber) (base : Nat) : Prop where
  heap : f.isThreadFiber = false
  region : f.region.base = base
  state : f.state = .onStack
  entered : f.entered = false
  resume : f.resume = some (primedResume base)

/-- Walks over the fiber's stack find no frames and do not ask for any. -/
def Bare (f : Fiber) (m : Machine) : Prop :=
  ∀ (α : Type) (mode : WalkMode) (isManaged : α → Bool) (source : FrameSource α),
    f.walk m mode isManaged source = .ok { cursor := none, taken := 0, visited := 0, passed := [] }

/-- The fiber's trace has no methods and its dump is not written. -/
structure Silent (f : Fiber) (m : Machine) : Prop where
  trace : ∀ maxDepth source, f.trace m maxDepth source = .ok []
  dump : ∀ continuation maxDepth source sink, f.dump m continuation maxDepth source sink = .ok sink

/-- The words that a walk reads: the saved frame pointer, and the return address above it if the
frame pointer is on the stack. -/
def wordsRead (f : Fiber) : List Nat :=
  match f.state, f.resume with
  | .onStack, some a => [a, a + Word.bytes].takeWhile f.region.containsWord
  | _, _ => []

/-- Walks over the fiber read whole words on its own stack, and meet a fault if one of the two at
the resume point is not there. -/
structure ReadsOwnStack (f : Fiber) : Prop where
  inside : ∀ a ∈ f.wordsRead, f.region.low ≤ a ∧ a + Word.bytes ≤ f.region.base
  /-- A walk is the same on machines that differ in other words only. -/
  congr {α : Type} (m m' : Machine) (mode : WalkMode) (isManaged : α → Bool)
    (source : FrameSource α) (agree : ∀ a ∈ f.wordsRead, m'.read a = m.read a) :
    f.walk m' mode isManaged source = f.walk m mode isManaged source
  outside {α : Type} (a : Nat) (onStack : f.state = .onStack) (resume : f.resume = some a)
    (outside : ¬(f.region.low ≤ a ∧ a + 2 * Word.bytes ≤ f.region.base)) :
    ∃ address, (address = a ∨ address = a + Word.bytes)
      ∧ ¬(f.region.low ≤ address ∧ address + Word.bytes ≤ f.region.base)
      ∧ ∀ m mode (isManaged : α → Bool) source,
        f.walk m mode isManaged source = .error (.readOutsideStack f.id address)

variable {α : Type} {f : Fiber} {m m' : Machine} {a base : Nat} {mode : WalkMode}
  {isManaged : α → Bool} {source : FrameSource α}

section Reads

theorem inside_of_mem_wordsRead (mem : a ∈ f.wordsRead) :
    f.region.low ≤ a ∧ a + Word.bytes ≤ f.region.base := by
  simp only [wordsRead] at mem
  split at mem
  · exact containsWord_iff.1 (List.mem_takeWhile_imp mem)
  · exact absurd mem List.not_mem_nil

theorem readWord_congr (agree : f.region.containsWord a = true → m'.read a = m.read a) :
    f.readWord m' a = f.readWord m a := by
  simp only [readWord]
  split_ifs with inside
  · rw [agree inside]
  · rfl

theorem cursor?_congr (agree : ∀ a ∈ f.wordsRead, m'.read a = m.read a) :
    f.cursor? m' = f.cursor? m := by
  cases state : f.state with
  | current => simp only [cursor?, state]
  | onStack =>
    cases resume : f.resume with
    | none => simp only [cursor?, state, resume]
    | some a =>
      simp only [wordsRead, state, resume] at agree
      by_cases first : f.region.containsWord a = true
      · have second : f.readWord m' (a + Word.bytes) = f.readWord m (a + Word.bytes) :=
          readWord_congr fun inside => agree _ (by simp [first, inside])
        simp only [cursor?, state, resume, second,
          readWord_congr fun _ => agree a (by simp [first])]
      · simp [cursor?, state, resume, readWord, first]

/-- A walk reads nothing but these words. -/
theorem walk_congr (agree : ∀ a ∈ f.wordsRead, m'.read a = m.read a) :
    f.walk m' mode isManaged source = f.walk m mode isManaged source := by
  rw [walk, walk, cursor?_congr agree]

theorem readsOwnStack (f : Fiber) : f.ReadsOwnStack where
  inside _ := inside_of_mem_wordsRead
  congr _ _ _ _ _ := walk_congr
  outside a onStack resume outside := by
    obtain ⟨address, eq, missing, fault⟩ := cursor?_of_outside onStack resume outside
    exact ⟨address, eq, missing, fun m _ isManaged source => walk_of_fault isManaged source (fault m)⟩

end Reads

section Unstarted

theorem primedSize_eq : primedSize = 9 * Word.bytes := rfl

/-- The two words at the resume point of a primed stack. -/
theorem read_of_primed (words : m.readAll (primedResume base) primedWords.length = primedWords) :
    m.read (primedResume base) = .zero
      ∧ m.read (primedResume base + Word.bytes) = .fiberStart := by
  simp only [primedWords, List.length_cons, Machine.readAll, List.cons.injEq] at words
  exact ⟨words.1, words.2.1⟩

theorem Unstarted.cursor? (h : f.Unstarted base) (room : primedSize ≤ f.region.size)
    (fits : f.region.size ≤ base)
    (words : m.readAll (primedResume base) primedWords.length = primedWords) :
    f.cursor? m = .ok none := by
  obtain ⟨first, second⟩ := read_of_primed words
  have start : primedResume base = base - primedSize := rfl
  have low : f.region.low = base - f.region.size := by rw [Region.low, h.region]
  have size := primedSize_eq
  have above : f.region.low ≤ primedResume base := by omega
  have below : primedResume base + 2 * Word.bytes ≤ f.region.base := by rw [h.region]; omega
  rw [Fiber.cursor?, h.state, h.resume]
  simp only []
  rw [readWord_of_inside (by omega), Outcome.ok_bind, readWord_of_inside (by omega),
    Outcome.ok_bind, if_pos second, h.heap, first]
  rfl

/-- There is nothing to find on a primed stack that has room for the primed words. -/
theorem Unstarted.bare (h : f.Unstarted base) (room : primedSize ≤ f.region.size)
    (fits : f.region.size ≤ base)
    (words : m.readAll (primedResume base) primedWords.length = primedWords) : f.Bare m :=
  fun _ _ isManaged source => walk_of_no_cursor isManaged source (h.cursor? room fits words)

theorem Unstarted.silent (h : f.Unstarted base) (m : Machine) : f.Silent m where
  trace _ _ := by simp [trace, h.entered]
  dump _ _ _ _ := by simp [dump, h.entered]

/-- On a stack without room for them, the resume point is not on the stack. -/
theorem Unstarted.walk_of_small (h : f.Unstarted base) (small : f.region.size < primedSize)
    (fits : primedSize ≤ base) :
    f.walk m mode isManaged source = .error (.readOutsideStack f.id (primedResume base)) := by
  have start : primedResume base = base - primedSize := rfl
  have low : f.region.low = base - f.region.size := by rw [Region.low, h.region]
  refine walk_of_fault isManaged source ?_
  rw [Fiber.cursor?, h.state, h.resume]
  simp only []
  rw [readWord_of_outside (by omega), Outcome.error_bind]

end Unstarted

end PooledFibers.Fiber
