/-!
# Ranges of addresses

A range holds the addresses from `low` up to, but without, `high`. Lists of ranges that are cut by
another range keep their order.
-/

namespace PooledFibers

structure AddressRange where
  low : Nat
  high : Nat
  deriving DecidableEq, Repr

namespace AddressRange

def size (r : AddressRange) : Nat := r.high - r.low

def isEmpty (r : AddressRange) : Bool := r.high ≤ r.low

def contains (r : AddressRange) (address : Nat) : Bool := r.low ≤ address && address < r.high

/-- What lies below and what lies above another range. -/
def without (r other : AddressRange) : List AddressRange :=
  [⟨r.low, min r.high other.low⟩, ⟨max r.low other.high, r.high⟩].filter fun piece => !piece.isEmpty

/-- What all of `others` leave of some ranges. -/
def cut (ranges others : List AddressRange) : List AddressRange :=
  others.foldl (fun left other => left.flatMap (·.without other)) ranges

end AddressRange

end PooledFibers
