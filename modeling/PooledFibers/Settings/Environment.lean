import PooledFibers.Notice
import PooledFibers.Settings.Basic
import PooledFibers.Text.Blank
import PooledFibers.Text.Numeral

/-!
# Settings from environment variables

Each setting has a variable. A variable that is absent, or whose value is refused, leaves the
default in place; a refused value is noticed. If the slab that the variables ask for has no 64-bit
size, the stack geometry as a whole goes back to its defaults, with one more notice.
-/

namespace PooledFibers.Settings

/-- What a variable says: its value or the fallback, and the notices on the way. -/
structure Reading (α : Type) where
  value : α
  notices : List Notice := []

def readNumber (name : String) (raw? : Option String) (fallback : Nat) : Reading Nat :=
  match raw? with
  | none => ⟨fallback, []⟩
  | some raw =>
    match Text.wordOf? (Text.trim raw.toList) with
    | some n => ⟨n, []⟩
    | none => ⟨fallback, [.unreadableValue name raw fallback]⟩

def readPositive (name : String) (raw? : Option String) (fallback : Nat) : Reading Nat :=
  let reading := readNumber name raw? fallback
  if reading.value = 0 then ⟨fallback, reading.notices ++ [.zeroValue name fallback]⟩
  else reading

def readShards (raw? : Option String) (fallback : Nat) : Reading Nat :=
  let reading := readPositive "FIBER_REGISTRY_SHARDS" raw? fallback
  if Word.isPowerOfTwo reading.value then reading
  else ⟨fallback, reading.notices ++ [.shardsNotPowerOfTwo reading.value fallback]⟩

def flagOf? (word : List Char) : Option Bool :=
  let word := String.ofList word
  if word ∈ ["1", "true", "yes", "on"] then some true
  else if word ∈ ["0", "false", "no", "off"] then some false
  else none

/-- Reads a flag in any ASCII case; a blank value counts as absent. -/
def readFlag (name : String) (raw? : Option String) (fallback : Bool) : Reading Bool :=
  match raw? with
  | none => ⟨fallback, []⟩
  | some raw =>
    match (Text.trim raw.toList).map Char.toLower with
    | [] => ⟨fallback, []⟩
    | word =>
      match flagOf? word with
      | some b => ⟨b, []⟩
      | none => ⟨fallback, [.unreadableFlag name raw fallback]⟩

/-- Puts the default geometry back if the slab has no 64-bit size. -/
def withUsableGeometry (s : Settings) (page : Nat) : Reading Settings :=
  if s.slabBytes? page = none then
    let fallback := standard s.verifyOnYield
    ⟨{ s with
        stackSize := fallback.stackSize
        shadowPages := fallback.shadowPages
        yellowPages := fallback.yellowPages
        redPages := fallback.redPages
        stacksPerSlab := fallback.stacksPerSlab },
      [.geometryOverflow s.stackSize s.stacksPerSlab]⟩
  else ⟨s, []⟩

/-- Settings from a lookup of variables by name, with the notices in the order of the fields. -/
def ofVariables (debugAssertions : Bool) (lookup : String → Option String) (page : Nat) :
    Reading Settings :=
  let fallback := standard debugAssertions
  let positive (name : String) := readPositive name (lookup name)
  let number (name : String) := readNumber name (lookup name)
  let flag (name : String) := readFlag name (lookup name)
  let stackSize := positive "FIBER_STACK_SIZE" fallback.stackSize
  let shadowPages := number "FIBER_STACK_SHADOW_PAGES" fallback.shadowPages
  let yellowPages := number "FIBER_STACK_YELLOW_PAGES" fallback.yellowPages
  let redPages := number "FIBER_STACK_RED_PAGES" fallback.redPages
  let guardPages := flag "FIBER_GUARD_PAGES" fallback.guardPages
  let stacksPerSlab := positive "FIBER_STACKS_PER_SLAB" fallback.stacksPerSlab
  let physicalCacheMax := number "FIBER_PHYSICAL_CACHE_MAX" fallback.physicalCacheMax
  let registryShards := readShards (lookup "FIBER_REGISTRY_SHARDS") fallback.registryShards
  let idleCacheSize := number "FIBER_IDLE_CACHE_SIZE" fallback.idleCacheSize
  let verifyOnYield := flag "FIBER_VERIFY_ON_YIELD" fallback.verifyOnYield
  let yieldWithMonitor := flag "FIBER_YIELD_WITH_MONITOR" fallback.yieldWithMonitor
  let heavyMonitors := flag "FIBER_HEAVY_MONITORS" fallback.heavyMonitors
  let maxStackTraceDepth :=
    positive "FIBER_MAX_STACK_TRACE_DEPTH" fallback.maxStackTraceDepth
  let asked : Settings :=
    { stackSize := stackSize.value
      shadowPages := shadowPages.value
      yellowPages := yellowPages.value
      redPages := redPages.value
      guardPages := guardPages.value
      stacksPerSlab := stacksPerSlab.value
      physicalCacheMax := physicalCacheMax.value
      registryShards := registryShards.value
      idleCacheSize := idleCacheSize.value
      verifyOnYield := verifyOnYield.value
      yieldWithMonitor := yieldWithMonitor.value
      heavyMonitors := heavyMonitors.value
      maxStackTraceDepth := maxStackTraceDepth.value }
  let usable := asked.withUsableGeometry page
  ⟨usable.value,
    stackSize.notices ++ shadowPages.notices ++ yellowPages.notices ++ redPages.notices
      ++ guardPages.notices ++ stacksPerSlab.notices ++ physicalCacheMax.notices
      ++ registryShards.notices ++ idleCacheSize.notices ++ verifyOnYield.notices
      ++ yieldWithMonitor.notices ++ heavyMonitors.notices ++ maxStackTraceDepth.notices
      ++ usable.notices⟩

end PooledFibers.Settings
