import PooledFibers.Script.Basic
import PooledFibers.Statistics

/-!
# Scripts on statistics

The calling thread has the number 1 and every other thread that registers gets the next one. After
each step the total is taken.
-/

namespace PooledFibers.Script

inductive StatisticsStep
  | register
  | registerOther
  | unregister (slot : Nat)
  | created (slot : Nat)
  | reused (slot : Nat)
  | terminated (slot : Nat)
  | idle (slot : Nat) (n : UInt64)
  | slot (slot : Nat)
  | unknown

inductive StatisticsAnswer
  | nothing
  | refused
  | claimed (slot : Option Nat)
  | slot (entry : Option (Nat × Tally))

/-- The statistics and the number of the latest thread. -/
structure StatisticsState where
  statistics : Statistics
  threads : Nat := 1

def StatisticsState.update (s : StatisticsState) (f : Statistics → Statistics) :
    Except Fault (StatisticsAnswer × StatisticsState) :=
  .ok (.nothing, { s with statistics := f s.statistics })

def StatisticsStep.answer (s : StatisticsState) :
    StatisticsStep → Except Fault (StatisticsAnswer × StatisticsState)
  | .register =>
    let (claimed, statistics) := s.statistics.register 1
    .ok (.claimed claimed, { s with statistics })
  | .registerOther =>
    let (claimed, statistics) := s.statistics.register (s.threads + 1)
    .ok (.claimed claimed, ⟨statistics, s.threads + 1⟩)
  | .unregister i => s.update (·.unregister i)
  | .created i => s.update (·.recordCreated i)
  | .reused i => s.update (·.recordReused i)
  | .terminated i => s.update (·.recordTerminated i)
  | .idle i n => s.update (·.setIdle i n)
  | .slot i => .ok (.slot (s.statistics.slot? i), s)
  | .unknown => .ok (.refused, s)

def StatisticsStep.perform (s : StatisticsState) (step : StatisticsStep) :
    Except Fault ((StatisticsAnswer × StatisticsTotal) × StatisticsState) := do
  let (answer, s) ← step.answer s
  pure ((answer, ← s.statistics.total), s)

end PooledFibers.Script
