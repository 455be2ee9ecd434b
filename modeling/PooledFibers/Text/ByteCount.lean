/-!
# Byte counts for people

A count of bytes is written in the largest of GB, MB and KB that it reaches, with two places, a
half going to the even neighbour. A count above 2^53 is first rounded to 53 significant bits.
-/

namespace PooledFibers.Text

/-- The quotient rounded to the nearest number, a half to the even one. -/
def divRoundEven (n d : Nat) : Nat :=
  let q := n / d
  let r := n % d
  if d < 2 * r ∨ (d = 2 * r ∧ q % 2 = 1) then q + 1 else q

/-- Keeps the 53 leading bits. -/
def leadingBits (n : Nat) : Nat :=
  let dropped := n.log2 - 52
  divRoundEven n (1 <<< dropped) <<< dropped

/-- The quotient with two places after the point. -/
def twoPlaces (n d : Nat) : String :=
  let hundredths := divRoundEven (100 * n) d
  let places := hundredths % 100
  toString (hundredths / 100) ++ "." ++ (if places < 10 then "0" else "") ++ toString places

def byteCount (n : Nat) : String :=
  if 1 <<< 30 ≤ n then twoPlaces (leadingBits n) (1 <<< 30) ++ " GB"
  else if 1 <<< 20 ≤ n then twoPlaces (leadingBits n) (1 <<< 20) ++ " MB"
  else if 1 <<< 10 ≤ n then twoPlaces (leadingBits n) (1 <<< 10) ++ " KB"
  else toString n ++ " B"

end PooledFibers.Text
