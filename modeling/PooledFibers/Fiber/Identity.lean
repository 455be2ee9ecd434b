import PooledFibers.Text.Hex

/-!
# Names of fibers and threads

A fiber is known by its address, which no other fiber ever has, and an attached thread by its
token. Where fibers come to lie is not for the library to say, so `Identities` takes their addresses
in the order in which they are made as given.
-/

namespace PooledFibers

structure FiberId where
  address : Nat
  deriving DecidableEq, Repr

namespace FiberId

def text (id : FiberId) : String := Text.hex id.address

def debugText (id : FiberId) : String := "FiberId(" ++ id.text ++ ")"

end FiberId

/-- The identities that fibers get, and how many of them have been given. -/
structure Identities where
  /-- The identity of the fiber made after `n` others. -/
  identity : Nat → FiberId
  distinct : ∀ m n, identity m = identity n → m = n
  given : Nat := 0

namespace Identities

def next (i : Identities) : FiberId := i.identity i.given

def advance (i : Identities) : Identities := { i with given := i.given + 1 }

end Identities

/-- Threads get the tokens 1, 2, 3, … as they attach. -/
structure ThreadToken where
  number : Nat
  deriving DecidableEq, Repr

namespace ThreadToken

def text (t : ThreadToken) : String := "#" ++ toString t.number

def debugText (t : ThreadToken) : String := "ThreadToken(" ++ toString t.number ++ ")"

end ThreadToken

inductive FiberState
  /-- Suspended, its frames on its stack. -/
  | onStack
  /-- Attached to its thread. -/
  | current
  deriving DecidableEq, Repr

def FiberState.text : FiberState → String
  | onStack => "OnStack"
  | current => "Current"

end PooledFibers
