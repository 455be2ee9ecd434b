import PooledFibers.Machine.Host
import PooledFibers.Machine.Pages

/-!
# A simulated host and page provider

Fibers lie one after the other from a first address. So do reservations of pages, upward or downward,
with a gap between neighbours; faults can be set on each of the four requests.
-/

namespace PooledFibers

namespace FiberId

def firstAddress : Nat := 0x100000000000

def spacing : Nat := 328

/-- The simulated identity of the fiber made after `n` others. -/
def ofNumber (n : Nat) : FiberId := ⟨firstAddress + spacing * n⟩

def number (id : FiberId) : Nat := (id.address - firstAddress) / spacing

theorem number_ofNumber (n : Nat) : (ofNumber n).number = n := by
  simp [ofNumber, number, spacing]

end FiberId

def Host.simulated : Host where
  pageSize := 4096
  debugAssertions := true
  identities :=
    { identity := .ofNumber
      distinct m n h := by rw [← FiberId.number_ofNumber m, h, FiberId.number_ofNumber] }

/-- The error numbers with which requests fail. -/
structure PageFaults where
  reserve : Option Int := none
  guard : Option Int := none
  uncommit : Option Int := none
  release : Option Int := none

/-- Faults to be set or cleared: for each request, nothing or its new fault. -/
structure PageFaultChange where
  reserve : Option (Option Int) := none
  guard : Option (Option Int) := none
  uncommit : Option (Option Int) := none
  release : Option (Option Int) := none

structure Simulation where
  pageSize : Nat := 4096
  granularity : Nat := 4096
  base : Nat := 0x200000000000
  /-- Bytes left free between two reservations. -/
  gap : Nat := 0
  /-- Whether each reservation lies below the one before. -/
  descending : Bool := false
  /-- The longest reservation. -/
  limit : Nat := 1 <<< 36
  faults : PageFaults := {}

namespace Simulation

/-- Where the next reservation starts going up, or ends going down. -/
def next (s : Simulation) : List PageCall → Nat
  | [] => s.base
  | .reserve bytes (.ok low) :: _ => if s.descending then low - s.gap else low + bytes + s.gap
  | _ :: earlier => s.next earlier

def outcome (fault : Option Int) : Except IoError Unit :=
  match fault with
  | some code => .error (.number code)
  | none => .ok ()

def reserve (s : Simulation) (calls : List PageCall) (bytes : Nat) : Except IoError Nat :=
  match s.faults.reserve with
  | some code => .error (.number code)
  | none =>
    if s.limit < bytes then .error (.number 12)
    else .ok (if s.descending then s.next calls - bytes else s.next calls)

def withFaults (s : Simulation) (change : PageFaultChange) : Simulation :=
  { s with faults :=
    { reserve := change.reserve.getD s.faults.reserve
      guard := change.guard.getD s.faults.guard
      uncommit := change.uncommit.getD s.faults.uncommit
      release := change.release.getD s.faults.release } }

def provider (s : Simulation) : PageProvider where
  pageSize := s.pageSize
  granularity := s.granularity
  reserve := s.reserve
  guard _ _ _ := outcome s.faults.guard
  uncommit _ _ _ := outcome s.faults.uncommit
  release _ _ _ := outcome s.faults.release

end Simulation

end PooledFibers
