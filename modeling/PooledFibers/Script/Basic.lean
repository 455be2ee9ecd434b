import PooledFibers.Fault

/-!
# Scripts

A script is a list of steps on some state. It runs until a step meets a fault.
-/

namespace PooledFibers.Script

/-- What a script came to: each step's answer with the state after it, and the fault that ended it,
if one did. -/
structure Outcome (σ α : Type) where
  answers : List (α × σ)
  fault : Option Fault

def run {σ step α : Type} (perform : σ → step → Except Fault (α × σ)) (state : σ) :
    List step → Outcome σ α
  | [] => ⟨[], none⟩
  | next :: rest =>
    match perform state next with
    | .error fault => ⟨[], some fault⟩
    | .ok (answer, state) =>
      let outcome := run perform state rest
      { outcome with answers := (answer, state) :: outcome.answers }

/-- The state that a script ends in. -/
def Outcome.last {σ α : Type} (o : Outcome σ α) (start : σ) : σ :=
  (o.answers.getLast?.map (·.2)).getD start

/-- Names in the order of their characters. -/
def sortedNames (names : List String) : List String :=
  names.mergeSort fun a b => !decide (b < a)

end PooledFibers.Script
