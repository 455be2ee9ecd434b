import PooledFibers.Word
import PooledFibers.Failure

/-!
# Settings

The knobs of the library with their defaults, the sizes that follow from them, and which settings
can be used at all. A size is `none` when it does not fit in 64 bits. Whether switches are checked
has no default of its own: it goes by whether the library was built with debug assertions.
-/

namespace PooledFibers

structure Settings where
  /-- Usable bytes of a stack, its zones not counted. -/
  stackSize : Nat := 262144
  shadowPages : Nat := 20
  yellowPages : Nat := 2
  redPages : Nat := 1
  /-- Whether the yellow and red pages of a new stack are protected. -/
  guardPages : Bool := true
  stacksPerSlab : Nat := 64
  /-- Free stacks that may keep their physical pages. -/
  physicalCacheMax : Nat := 32
  registryShards : Nat := 256
  /-- Terminated fibers that a thread keeps for reuse. -/
  idleCacheSize : Nat := 20
  /-- Whether each switch checks the thread's scratch resources. -/
  verifyOnYield : Bool
  /-- Whether blocking fibers ask for compensation. -/
  yieldWithMonitor : Bool := false
  /-- Whether lock records never lie on stacks. -/
  heavyMonitors : Bool := false
  maxStackTraceDepth : Nat := 1024
  deriving DecidableEq, Repr

namespace Settings

/-- The defaults. -/
def standard (debugAssertions : Bool) : Settings := { verifyOnYield := debugAssertions }

/-- Pages below the usable part of a stack. -/
def reservedPages? (s : Settings) : Option Nat := do
  Word.add? (← Word.add? s.shadowPages s.yellowPages) s.redPages

def guardZonePages (s : Settings) : Nat := s.yellowPages + s.redPages

/-- Bytes of one stack with its zones, in whole pages. -/
def stackBytes? (s : Settings) (page : Nat) : Option Nat := do
  let zones ← Word.mul? (← s.reservedPages?) page
  Word.alignUp? (← Word.add? s.stackSize zones) page

def slabBytes? (s : Settings) (page : Nat) : Option Nat := do
  Word.alignUp? (← Word.mul? (← s.stackBytes? page) s.stacksPerSlab) page

/-- The first reason, if any, why the settings cannot be used with pages of this size. -/
def defect? (s : Settings) (page : Nat) : Option SettingsError :=
  if s.stackSize = 0 then some .noStackBytes
  else if s.stacksPerSlab = 0 then some .noStacksPerSlab
  else if s.slabBytes? page = none then some (.slabOverflow s.stackSize s.stacksPerSlab)
  else if !Word.isPowerOfTwo s.registryShards then some (.shardsNotPowerOfTwo s.registryShards)
  else if s.maxStackTraceDepth = 0 then some .noTraceDepth
  else none

def validate (s : Settings) (page : Nat) : Except Failure Unit :=
  match s.defect? page with
  | none => .ok ()
  | some cause => .error (.invalidSettings cause)

end Settings

end PooledFibers
