import PooledFibers.Word.Sum

/-!
# Statistics of the fiber threads

Each attached thread claims a slot, the lowest one free, and counts there. A thread that finds no
slot is only counted as overflow. What is recorded on a slot while it is free is gone when the slot
is claimed. The counters are 64-bit words that start over when they run out; a total that is no word
is a fault.
-/

namespace PooledFibers

structure Tally where
  /-- Fibers made on a stack from the pool. -/
  created : UInt64 := 0
  /-- Fibers taken from the idle cache. -/
  reused : UInt64 := 0
  terminated : UInt64 := 0
  /-- Fibers in the idle cache now. -/
  idle : UInt64 := 0
  deriving DecidableEq, Repr

/-- A slot, claimed by a thread or free. -/
structure StatisticsSlot where
  claimant : Option Nat := none
  tally : Tally := {}
  deriving DecidableEq, Repr

structure StatisticsTotal where
  threads : Nat := 0
  tally : Tally := {}
  overflow : UInt64 := 0
  deriving DecidableEq, Repr

structure Statistics where
  slots : List StatisticsSlot
  /-- How many threads found no free slot. -/
  overflow : UInt64 := 0
  deriving DecidableEq, Repr

namespace Tally

def add (a b : Tally) : Except Fault Tally := do
  let created ← Word.sum a.created.toNat b.created.toNat
  let reused ← Word.sum a.reused.toNat b.reused.toNat
  let terminated ← Word.sum a.terminated.toNat b.terminated.toNat
  let idle ← Word.sum a.idle.toNat b.idle.toNat
  pure ⟨.ofNat created, .ofNat reused, .ofNat terminated, .ofNat idle⟩

end Tally

namespace Statistics

def ofCapacity (n : Nat) : Statistics := { slots := List.replicate n {} }

def capacity (s : Statistics) : Nat := s.slots.length

/-- Claims the lowest free slot. -/
def register (s : Statistics) (thread : Nat) : Option Nat × Statistics :=
  match s.slots.findIdx? fun slot => slot.claimant.isNone with
  | some i => (some i, { s with slots := s.slots.set i { claimant := some thread } })
  | none => (none, { s with overflow := s.overflow + 1 })

def unregister (s : Statistics) (slot : Nat) : Statistics :=
  { s with slots := s.slots.set slot {} }

/-- Changes the tally of a slot, claimed or not. -/
def record (s : Statistics) (slot : Nat) (f : Tally → Tally) : Statistics :=
  { s with slots := s.slots.modify slot fun entry => { entry with tally := f entry.tally } }

def recordCreated (s : Statistics) (slot : Nat) : Statistics :=
  s.record slot fun t => { t with created := t.created + 1 }

def recordReused (s : Statistics) (slot : Nat) : Statistics :=
  s.record slot fun t => { t with reused := t.reused + 1 }

def recordTerminated (s : Statistics) (slot : Nat) : Statistics :=
  s.record slot fun t => { t with terminated := t.terminated + 1 }

def setIdle (s : Statistics) (slot : Nat) (idle : UInt64) : Statistics :=
  s.record slot fun t => { t with idle := idle }

/-- The thread that holds a slot and its tally. -/
def claimed? (slot : StatisticsSlot) : Option (Nat × Tally) :=
  slot.claimant.map fun thread => (thread, slot.tally)

def slot? (s : Statistics) (slot : Nat) : Option (Nat × Tally) := s.slots[slot]?.bind claimed?

/-- The claimed slots in order. -/
def perThread (s : Statistics) : List (Nat × Tally) := s.slots.filterMap claimed?

/-- The claimed slots taken together. -/
def total (s : Statistics) : Except Fault StatisticsTotal := do
  let tally ← s.perThread.foldlM (fun sum entry => sum.add entry.2) {}
  pure { threads := s.perThread.length, tally, overflow := s.overflow }

end Statistics

end PooledFibers
