import PooledFibers.Settings.Basic

/-!
# Sizes and zones of a stack

A stack grows down from its base. From its low end up lie the red, yellow and shadow pages; the
first two kinds make the guard zone. `Geometry` holds the sizes common to all stacks of a pool and
`Region` the addresses of one stack.
-/

namespace PooledFibers

structure Geometry where
  pageSize : Nat
  /-- Bytes asked for in the settings. -/
  usableSize : Nat
  /-- Bytes of the whole stack, or the largest word if they do not fit in one. -/
  stackSize : Nat
  shadowPages : Nat
  yellowPages : Nat
  redPages : Nat
  deriving DecidableEq, Repr

namespace Geometry

def ofSettings (s : Settings) (page : Nat) : Geometry where
  pageSize := page
  usableSize := s.stackSize
  stackSize := (s.stackBytes? page).getD Word.greatest
  shadowPages := s.shadowPages
  yellowPages := s.yellowPages
  redPages := s.redPages

/-- Bytes protected at the low end of a new stack. -/
def guardZone (g : Geometry) : Nat :=
  Word.mulSat (Word.addSat g.yellowPages g.redPages) g.pageSize

/-- Bytes below the safe limit. -/
def reservedZone (g : Geometry) : Nat :=
  Word.mulSat (Word.addSat (Word.addSat g.shadowPages g.yellowPages) g.redPages) g.pageSize

end Geometry

/-- The addresses from `base - size` up to, not including, `base`. -/
structure Region where
  base : Nat
  size : Nat
  /-- The lowest address outside the zones. -/
  safeLimit : Nat
  deriving DecidableEq, Repr

namespace Region

def ofZone (base size zone : Nat) : Region := ⟨base, size, base - size + min zone size⟩

def low (r : Region) : Nat := r.base - r.size

def contains (r : Region) (address : Nat) : Bool := r.low ≤ address && address < r.base

def containsWord (r : Region) (address : Nat) : Bool :=
  r.contains address && r.contains (address + Word.bytes - 1)

end Region

end PooledFibers
