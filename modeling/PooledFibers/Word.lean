/-!
# Arithmetic on 64-bit words

Addresses, sizes and counts are natural numbers below `Word.bound`. Each operation that may leave
that range says in its name what happens then: `add?` and `mul?` refuse, `addSat` and `mulSat`
stop at the largest word, `shift` wraps.
-/

namespace PooledFibers.Word

/-- The number of different words. -/
def bound : Nat := 1 <<< 64

def greatest : Nat := bound - 1

def bytes : Nat := 8

def checked (n : Nat) : Option Nat :=
  if n < bound then some n else none

def add? (a b : Nat) : Option Nat := checked (a + b)

def mul? (a b : Nat) : Option Nat := checked (a * b)

def addSat (a b : Nat) : Nat := min (a + b) greatest

def mulSat (a b : Nat) : Nat := min (a * b) greatest

/-- Rounds up to a multiple of `align`, a power of two, by clearing the low bits of
`value + (align - 1)`. -/
def alignUp? (value align : Nat) : Option Nat :=
  (add? value (align - 1)).map fun sum => sum &&& (bound - align)

/-- Moves an address by a signed distance, wrapping at both ends of the address space. -/
def shift (address : Nat) (distance : Int) : Nat :=
  (((address : Int) + distance).emod bound).toNat

/-- A power of two shares no bit with its predecessor. -/
def isPowerOfTwo (n : Nat) : Bool :=
  n != 0 && (n &&& (n - 1)) == 0

theorem checked_eq_some_iff {n r : Nat} : checked n = some r ↔ n < bound ∧ n = r := by
  simp [checked]

theorem checked_eq_none_iff {n : Nat} : checked n = none ↔ bound ≤ n := by
  simp [checked]

end PooledFibers.Word
