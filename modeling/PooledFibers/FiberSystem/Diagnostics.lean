import PooledFibers.FiberSystem.Basic
import PooledFibers.Text.ByteCount

/-!
# Diagnostics

A text on the state of the pool, the registry with its fibers, the threads and the settings. Of the
fibers, thread fibers come first and otherwise those of the earlier thread; the first twenty are
listed one by one. Two lines tell the time; `withoutTimes` drops them. The sections are written one
after the other, so a fault in one leaves those before it written.
-/

namespace PooledFibers

def Fiber.listedBefore (a b : Fiber) : Bool :=
  if a.isThreadFiber = b.isThreadFiber then a.owner.number ≤ b.owner.number
  else a.isThreadFiber

def Fiber.listLine (f : Fiber) (position : Nat) : String :=
  "    [" ++ Text.padLeft 2 (toString position) ++ "] " ++ f.id.text ++ " "
    ++ Text.padRight 6 (if f.isThreadFiber then "thread" else "heap") ++ " " ++ f.state.text
    ++ " owner " ++ f.owner.text ++ " (" ++ f.ownerName ++ ")\n"

/-- A text, and the fault that ended the writing of it, if one did. -/
structure Written where
  text : String := ""
  fault : Option Fault := none
  deriving DecidableEq

/-- Sections are written up to the first fault. -/
def Written.ofSections : List (Except Fault String) → Written
  | [] => {}
  | .ok text :: rest => { ofSections rest with text := text ++ (ofSections rest).text }
  | .error fault :: _ => { fault := some fault }

namespace FiberSystem

def listLimit : Nat := 20

def sortedFibers (s : FiberSystem) : Except Fault (List Fiber) := do
  let ids ← s.registry.toList
  pure ((ids.map s.fiber).mergeSort Fiber.listedBefore)

def fiberLines (fibers : List Fiber) : List String :=
  (fibers.take listLimit).zipIdx.map fun (fiber, i) => fiber.listLine (i + 1)

def fiberList (fibers : List Fiber) : String :=
  if fibers = [] then "  (no registered fibers)\n"
  else
    String.join (fiberLines fibers)
      ++ (if listLimit < fibers.length then
            "    ... and " ++ toString (fibers.length - listLimit) ++ " more fibers\n"
          else "")

def poolSection (s : FiberSystem) : String :=
  let pool := s.pool.totals
  "\n[Stack Pool]\n"
    ++ "  Stack size:  " ++ Text.byteCount pool.stackSize ++ "\n"
    ++ "  Slabs:       " ++ toString pool.slabs ++ " (" ++ Text.byteCount pool.reservedBytes
    ++ " reserved)\n"
    ++ "  Capacity:    " ++ toString pool.capacity ++ " stacks\n"
    ++ "  Carved:      " ++ toString pool.carved ++ "\n"
    ++ "  In use:      " ++ toString pool.inUse ++ "\n"
    ++ "  Free:        " ++ toString pool.free ++ " (" ++ toString pool.uncommitted
    ++ " uncommitted)\n"

def registrySection (s : FiberSystem) : Except Fault String := do
  let counts := s.registry.counts
  let fibers ← s.sortedFibers
  pure ("\n[Registry]\n"
    ++ "  Shards:        " ++ toString counts.length ++ "\n"
    ++ "  Fibers:        " ++ toString (counts.foldl (· + ·) 0) ++ "\n"
    ++ "  Busiest shard: " ++ toString (counts.foldl max 0) ++ " fibers\n"
    ++ fiberList fibers)

def threadSection (s : FiberSystem) : Except Fault String := do
  let total ← s.statistics.total
  pure ("\n[Fiber Threads]\n"
    ++ "  Tracked threads:   " ++ toString total.threads ++ "\n"
    ++ "  Fibers created:    " ++ toString total.tally.created ++ "\n"
    ++ "  Fibers reused:     " ++ toString total.tally.reused ++ "\n"
    ++ "  Fibers terminated: " ++ toString total.tally.terminated ++ "\n"
    ++ "  Idle cached:       " ++ toString total.tally.idle ++ "\n"
    ++ (if 0 < total.overflow then
          "  WARNING: " ++ toString total.overflow ++ " threads exceeded stats capacity of "
            ++ toString s.statistics.capacity ++ " (not tracked)\n"
        else ""))

def settingsSection (s : FiberSystem) : String :=
  "\n[Config]\n"
    ++ "  Verify on yield:    " ++ toString s.settings.verifyOnYield ++ "\n"
    ++ "  Guard pages:        " ++ toString s.settings.guardPages ++ "\n"
    ++ "  Idle cache size:    " ++ toString s.settings.idleCacheSize ++ "\n"
    ++ "  Physical cache max: " ++ toString s.settings.physicalCacheMax ++ "\n"

def timeSection (timestamp uptime : String) : String :=
  "Timestamp: " ++ timestamp ++ "\n" ++ "Uptime:    " ++ uptime ++ "s\n"

/-- The sections; the time of day and the seconds since the start are passed in. -/
def sections (s : FiberSystem) (timestamp uptime : String) : List (Except Fault String) :=
  [.ok ("\n=== Fiber Runtime Diagnostics ===\n" ++ timeSection timestamp uptime),
   .ok s.poolSection, s.registrySection, s.threadSection, .ok s.settingsSection,
   .ok "\n=== End Diagnostics ===\n\n"]

def diagnostics (s : FiberSystem) (timestamp uptime : String) : Written :=
  .ofSections (s.sections timestamp uptime)

def timeLabels : List String := ["Timestamp:", "Uptime:"]

def tellsTime (line : String) : Bool :=
  timeLabels.any fun label => label.toList.isPrefixOf line.toList

def withoutTimes (text : String) : String :=
  String.intercalate "\n" ((text.splitOn "\n").filter fun line => !tellsTime line)

end FiberSystem

end PooledFibers
