import PooledFibers.Word

/-!
# Decimal numerals

A numeral is an optional plus sign and one or more ASCII digits, with any number of leading zeros.
`wordOf?` reads one whose value is a 64-bit word.
-/

namespace PooledFibers.Text

def digitValue (c : Char) : Nat := c.toNat - '0'.toNat

/-- The value of a run of digits, most significant first. -/
def digitsValue (cs : List Char) : Nat :=
  cs.foldl (fun n c => 10 * n + digitValue c) 0

def withoutPlus : List Char → List Char
  | '+' :: cs => cs
  | cs => cs

def wordOf? (cs : List Char) : Option Nat :=
  let digits := withoutPlus cs
  if digits ≠ [] ∧ digits.all Char.isDigit then Word.checked (digitsValue digits) else none

end PooledFibers.Text
