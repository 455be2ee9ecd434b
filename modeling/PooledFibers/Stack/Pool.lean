import PooledFibers.Fault
import PooledFibers.Machine.Pages
import PooledFibers.Stack.Slab

/-!
# The stack pool

The pool leases stacks of one size. `acquire` hands out the latest released stack, or else carves
a new one, reserving another slab when the newest is full. `release` puts a stack on the free list
and, when too many free stacks keep their physical pages, gives back those of the oldest.
-/

namespace PooledFibers

/-- A stack checked out of the pool. -/
structure Lease where
  region : Region
  guard : GuardState
  /-- Whether the stack was carved for this lease. -/
  fresh : Bool
  deriving DecidableEq, Repr

namespace Lease

def base (l : Lease) : Nat := l.region.base

def debugText (l : Lease) : String :=
  "StackLease \x7b region: StackRegion \x7b base: " ++ toString l.region.base
    ++ ", size: " ++ toString l.region.size ++ ", safe_limit: " ++ toString l.region.safeLimit
    ++ " \x7d, guard: " ++ l.guard.text ++ ", fresh: " ++ toString l.fresh ++ " \x7d"

end Lease

structure PoolTotals where
  stackSize : Nat
  slabs : Nat
  capacity : Nat
  carved : Nat
  free : Nat
  uncommitted : Nat
  inUse : Nat
  reservedBytes : Nat
  deriving DecidableEq, Repr

/-- What a pool says of an address. -/
structure StackQuery where
  owns : Bool
  residency : Option Residency
  guard : Option GuardState
  deriving DecidableEq, Repr

structure Pool where
  geometry : Geometry
  stacksPerSlab : Nat
  /-- Free stacks that may keep their physical pages. -/
  residentCap : Nat
  /-- Whether guard zones are protected. -/
  guardPages : Bool
  machine : Machine
  /-- The newest first. -/
  slabs : List Slab := []
  free : FreeList := {}
  /-- Leases outstanding. -/
  inUse : Nat := 0

namespace Pool

def ofSettings (s : Settings) (provider : PageProvider) : Pool where
  geometry := .ofSettings s provider.pageSize
  stacksPerSlab := s.stacksPerSlab
  residentCap := s.physicalCacheMax
  guardPages := s.guardPages
  machine := { provider }

def stackSize (p : Pool) : Nat := p.geometry.stackSize

def leaseOf (p : Pool) (base : Nat) (guard : GuardState) (fresh : Bool) : Lease :=
  ⟨.ofZone base p.stackSize p.geometry.reservedZone, guard, fresh⟩

/-- The guard state recorded for a carved stack, `none` for any other address. -/
def guardOf? (p : Pool) (base : Nat) : Option GuardState :=
  p.slabs.reverse.findSome? fun slab => slab.guardOf? p.stackSize base

def owns (p : Pool) (base : Nat) : Bool :=
  p.slabs.any fun slab => (slab.slotOf? p.stackSize base).isSome

def residency? (p : Pool) (base : Nat) : Option Residency := p.free.residency? base

def query (p : Pool) (base : Nat) : StackQuery := ⟨p.owns base, p.residency? base, p.guardOf? base⟩

def totals (p : Pool) : PoolTotals where
  stackSize := p.stackSize
  slabs := p.slabs.length
  capacity := (p.slabs.map (·.capacity)).foldl (· + ·) 0
  carved := (p.slabs.map (·.carved)).foldl (· + ·) 0
  free := p.free.size
  uncommitted := p.free.uncommitIndex
  inUse := p.inUse
  reservedBytes := (p.slabs.map (·.reserved)).foldl (· + ·) 0

/-- Bytes used by the stacks of one slab, and bytes to reserve for them. -/
def slabSizes? (p : Pool) : Option (Nat × Nat) := do
  let used ← Word.mul? p.stacksPerSlab p.stackSize
  let reserved ← Word.alignUp? used p.machine.provider.granularity
  pure (used, reserved)

def reserveSlab (p : Pool) : Except Failure Slab × Machine :=
  match p.slabSizes? with
  | none =>
    (.error (.exhausted Word.greatest (.slabOverflow p.stacksPerSlab p.stackSize)), p.machine)
  | some (used, reserved) =>
    match p.machine.reserve reserved with
    | (.error source, machine) => (.error (.exhausted reserved source), machine)
    | (.ok low, machine) =>
      (.ok { low, reserved, top := low + used, capacity := p.stacksPerSlab }, machine)

/-- The slab to carve the next stack from, and the slabs older than it. -/
def slabWithRoom (p : Pool) : Except Failure (Slab × List Slab) × Machine :=
  match p.slabs with
  | newest :: older =>
    if newest.isFull then
      let (reserved, machine) := p.reserveSlab
      (reserved.map fun slab => (slab, newest :: older), machine)
    else (.ok (newest, older), p.machine)
  | [] =>
    let (reserved, machine) := p.reserveSlab
    (reserved.map fun slab => (slab, []), machine)

/-- Protects the guard zone of the stack at `base`; where that fails, gives its pages back. -/
def protectGuardZone (p : Pool) (base : Nat) : GuardState × Machine :=
  let bytes := p.geometry.guardZone
  if !p.guardPages || bytes == 0 then (.disabled, p.machine)
  else
    let low := base - p.stackSize
    match p.machine.guard low bytes with
    | (.ok (), machine) => (.applied, machine)
    | (.error refused, machine) =>
      match (machine.notice (.guardFailed low refused)).uncommit low bytes with
      | (.ok (), machine) => (.unprotected, machine)
      | (.error kept, machine) =>
        (.unprotected, machine.notice (.guardUncommitFailed low kept))

/-- Carves the next stack of `newest`, which becomes the newest slab above `older`. -/
def carve (p : Pool) (newest : Slab) (older : List Slab) : Lease × Pool :=
  let base := newest.nextBase p.stackSize
  let (guard, machine) := p.protectGuardZone base
  (p.leaseOf base guard true,
    { p with machine, slabs := newest.carve guard :: older, inUse := p.inUse + 1 })

/-- Leases a stack. Fails only when a new slab is needed and cannot be had. -/
def acquire (p : Pool) : Except Fault (Except Failure Lease × Pool) :=
  match p.free.pop? with
  | some (base, free) =>
    match p.guardOf? base with
    | none => .error (.freeStackUnknown base)
    | some guard => .ok (.ok (p.leaseOf base guard false), { p with free, inUse := p.inUse + 1 })
  | none =>
    match p.slabWithRoom with
    | (.error failure, machine) => .ok (.error failure, { p with machine })
    | (.ok (newest, older), machine) =>
      let (lease, p) := { p with machine }.carve newest older
      .ok (.ok lease, p)

def release (p : Pool) (base : Nat) : Except Fault Pool :=
  if !p.owns base then .error (.releasedStackForeign base)
  else if p.inUse = 0 then .error (.releasedStackUnused base)
  else
    let (victim?, free) := p.free.push base p.residentCap
    let p := { p with free, inUse := p.inUse - 1 }
    match victim? with
    | none => .ok p
    | some victim =>
      match p.machine.uncommit (victim - p.stackSize) p.stackSize with
      | (.ok (), machine) => .ok { p with machine }
      | (.error error, machine) =>
        .ok { p with machine := machine.notice (.uncommitFailed victim error) }

def unmap (machine : Machine) (slab : Slab) : Machine :=
  match machine.release slab.low slab.reserved with
  | (.ok (), machine) => machine
  | (.error error, machine) => machine.notice (.unmapFailed slab.low error)

/-- Gives up all slabs, the oldest first. -/
def close (p : Pool) : Pool :=
  { p with slabs := [], machine := p.slabs.reverse.foldl unmap p.machine }

end Pool

end PooledFibers
