import PooledFibers.Stack.Geometry

/-!
# Slabs and the free list

A slab is one reservation, carved from its top into stacks of one size. Free stacks wait on a list
for reuse, the latest released first; the older ones among them may have lost their physical pages.
-/

namespace PooledFibers

/-- What came of protecting the guard zone of a new stack. -/
inductive GuardState
  | applied
  /-- The protection failed. -/
  | unprotected
  /-- There was nothing to protect. -/
  | disabled
  deriving DecidableEq, Repr

def GuardState.text : GuardState → String
  | applied => "Applied"
  | unprotected => "Unprotected"
  | disabled => "Disabled"

structure Slab where
  low : Nat
  /-- Bytes reserved. -/
  reserved : Nat
  /-- Where the stacks end; the first one has its base here. -/
  top : Nat
  capacity : Nat
  /-- Stacks carved so far. -/
  carved : Nat := 0
  /-- What came of protecting each of them, the first carved first. -/
  guards : List GuardState := []
  deriving DecidableEq, Repr

namespace Slab

def isFull (s : Slab) : Bool := s.carved == s.capacity

/-- The base of the stack in a slot. -/
def baseOf (s : Slab) (stackSize slot : Nat) : Nat := s.top - slot * stackSize

def nextBase (s : Slab) (stackSize : Nat) : Nat := s.baseOf stackSize s.carved

def carve (s : Slab) (guard : GuardState) : Slab :=
  { s with carved := s.carved + 1, guards := s.guards ++ [guard] }

/-- The slot of the carved stack with this base. -/
def slotOf? (s : Slab) (stackSize base : Nat) : Option Nat :=
  if s.top < base ∨ base ≤ s.low then none
  else if (s.top - base) % stackSize ≠ 0 then none
  else
    let slot := (s.top - base) / stackSize
    if slot < s.carved then some slot else none

/-- The guard state recorded when the stack with this base was carved. -/
def guardOf? (s : Slab) (stackSize base : Nat) : Option GuardState :=
  (s.slotOf? stackSize base).bind fun slot => s.guards[slot]?

end Slab

/-- Whether a free stack still has its physical pages. -/
inductive Residency
  | resident
  | uncommitted
  deriving DecidableEq, Repr

/-- Bases of free stacks. Those from the index on still have their pages. -/
structure FreeList where
  /-- The earliest released first. -/
  entries : List Nat := []
  uncommitIndex : Nat := 0
  bound : uncommitIndex ≤ entries.length := by simp
  deriving DecidableEq, Repr

namespace FreeList

def size (f : FreeList) : Nat := f.entries.length

/-- The latest released stack and the list without it. -/
def pop? (f : FreeList) : Option (Nat × FreeList) :=
  f.entries.getLast?.map fun base =>
    let rest := f.entries.dropLast
    (base, ⟨rest, min f.uncommitIndex rest.length, Nat.min_le_right _ _⟩)

theorem uncommitIndex_lt (f : FreeList) (base : Nat) :
    f.uncommitIndex < (f.entries ++ [base]).length := by
  rw [List.length_append]
  exact Nat.lt_succ_of_le f.bound

/-- Adds a released stack. If more than `cap` stacks then have their pages, the earliest released of
those counts as uncommitted and is answered. -/
def push (f : FreeList) (base cap : Nat) : Option Nat × FreeList :=
  let entries := f.entries ++ [base]
  have hindex : f.uncommitIndex < entries.length := f.uncommitIndex_lt base
  if cap < entries.length - f.uncommitIndex then
    (some entries[f.uncommitIndex], ⟨entries, f.uncommitIndex + 1, hindex⟩)
  else (none, ⟨entries, f.uncommitIndex, Nat.le_of_lt hindex⟩)

def residency? (f : FreeList) (base : Nat) : Option Residency :=
  (f.entries.findIdx? (· == base)).map fun position =>
    if position < f.uncommitIndex then .uncommitted else .resident

end FreeList

end PooledFibers
