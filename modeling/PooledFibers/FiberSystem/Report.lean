import PooledFibers.FiberSystem.Basic
import PooledFibers.Text.Quoted

/-!
# The report at exit

What the report is to look like, read from the variable `FIBER_REPORT`, and its two texts. The time
that the process has run is passed in.
-/

namespace PooledFibers

inductive ReportFormat
  | human
  | json
  deriving DecidableEq, Repr

structure ReportRequest where
  format : ReportFormat
  /-- The file to write, `none` for the standard error stream. -/
  path : Option String
  deriving DecidableEq, Repr

namespace ReportRequest

/-- What stands before the name of a file. -/
def fileMarker : List Char := "json:".toList

/-- Reads the value of the variable. An unknown one is noticed and asks for no report. -/
def ofValue (value : String) : Option ReportRequest × List Notice :=
  if value = "" ∨ value = "0" then (none, [])
  else if value = "1" then (some ⟨.human, none⟩, [])
  else if value = "json" then (some ⟨.json, none⟩, [])
  else if fileMarker.isPrefixOf value.toList then
    (some ⟨.json, some (String.ofList (value.toList.drop fileMarker.length))⟩, [])
  else (none, [.unknownReport value])

end ReportRequest

namespace FiberSystem

def humanReport (s : FiberSystem) (threads : StatisticsTotal) (milliseconds : Nat) : String :=
  let pool := s.pool.totals
  "=== FIBER REPORT ===\n"
    ++ "Wall clock:        " ++ toString milliseconds ++ " ms\n"
    ++ "Fibers created:    " ++ toString threads.tally.created ++ "\n"
    ++ "Fibers reused:     " ++ toString threads.tally.reused ++ "\n"
    ++ "Fibers terminated: " ++ toString threads.tally.terminated ++ "\n"
    ++ "Fibers registered: " ++ toString s.registry.size ++ "\n"
    ++ "Idle cached:       " ++ toString threads.tally.idle ++ "\n"
    ++ "Fiber threads:     " ++ toString threads.threads ++ "\n"
    ++ "Stack slabs:       " ++ toString pool.slabs ++ "\n"
    ++ "Stacks carved:     " ++ toString pool.carved ++ "\n"
    ++ "Stacks in use:     " ++ toString pool.inUse ++ "\n"
    ++ "Stacks free:       " ++ toString pool.free ++ " (" ++ toString pool.uncommitted
    ++ " uncommitted)\n"
    ++ "Reserved:          " ++ toString pool.reservedBytes ++ " bytes\n"
    ++ "====================\n"

/-- The report as one JSON object, its keys sorted. -/
def jsonReport (s : FiberSystem) (threads : StatisticsTotal) (milliseconds : Nat) : String :=
  let pool := s.pool.totals
  let counts (fields : List (String × Nat)) : String :=
    Text.object (fields.map fun (name, n) => (name, toString n))
  Text.object
    [("registered_fibers", toString s.registry.size),
     ("stack_pool", counts
        [("capacity", pool.capacity), ("carved", pool.carved), ("free", pool.free),
         ("in_use", pool.inUse), ("reserved_bytes", pool.reservedBytes), ("slabs", pool.slabs),
         ("stack_size", pool.stackSize), ("uncommitted", pool.uncommitted)]),
     ("threads", counts
        [("active", threads.threads), ("fibers_created", threads.tally.created.toNat),
         ("fibers_reused", threads.tally.reused.toNat),
         ("fibers_terminated", threads.tally.terminated.toNat),
         ("idle_cached", threads.tally.idle.toNat)]),
     ("wall_clock_ms", toString milliseconds)]

def report (s : FiberSystem) (format : ReportFormat) (milliseconds : Nat) :
    Except Fault String := do
  let threads ← s.statistics.total
  match format with
  | .human => pure (s.humanReport threads milliseconds)
  | .json => pure (s.jsonReport threads milliseconds)

end FiberSystem

end PooledFibers
