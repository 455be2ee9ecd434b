import PooledFibers.Registry.Ring
import PooledFibers.Table
import PooledFibers.Word

/-!
# The registry of fibers

Every live fiber is registered, so that scans find all suspended stacks. The registry is divided
into shards, a power of two of them; a fiber's shard follows from its address. The scanners of one
round share the shards out among themselves by the round's number, the parity: whoever first tags a
shard with it visits the shard's fibers.
-/

namespace PooledFibers

structure Shard where
  ring : Ring := {}
  /-- The latest round in which the shard was claimed. -/
  parity : Nat := 0
  deriving DecidableEq, Repr

structure Registry where
  shards : List Shard
  /-- The index of each registered fiber's link. -/
  slots : Table FiberId Nat := .empty

/-- What one scanner found: how many shards it claimed, and the fibers in them. -/
structure Scan where
  claimed : Nat
  visited : List FiberId
  deriving DecidableEq, Repr

namespace Shard

/-- Claims a shard for a round; answers whether this call is the one that claimed it. -/
def claim (s : Shard) (parity : Nat) : Except Fault (Bool × Shard) :=
  if parity = 0 then .error .parityZero
  else if s.parity = parity then .ok (false, s)
  else .ok (true, { s with parity })

/-- Visits a shard, if this call claims it for the round; answers the fibers visited. -/
def visit (s : Shard) (parity : Nat) : Except Fault (Option (List FiberId) × Shard) := do
  let (claimed, s) ← s.claim parity
  if claimed then
    let fibers ← s.ring.toList
    pure (some fibers, s)
  else pure (none, s)

/-- Visits each shard that can be claimed, in order. -/
def visitAll (parity : Nat) : List Shard → Except Fault (Scan × List Shard)
  | [] => .ok (⟨0, []⟩, [])
  | shard :: rest => do
    let (visited?, shard) ← shard.visit parity
    let (scan, rest) ← visitAll parity rest
    match visited? with
    | some fibers => pure (⟨scan.claimed + 1, fibers ++ scan.visited⟩, shard :: rest)
    | none => pure (scan, shard :: rest)

end Shard

namespace Registry

def ofShards (n : Nat) : Except Fault Registry :=
  if Word.isPowerOfTwo n then .ok { shards := List.replicate n {} }
  else .error (.shardCountNotPowerOfTwo n)

/-- The low address bits, the same in all fibers, that do not count for the shard. -/
def alignmentBits : Nat := 3

def shardIndex (r : Registry) (id : FiberId) : Nat :=
  (id.address >>> alignmentBits) &&& (r.shards.length - 1)

def shard (r : Registry) (i : Nat) : Except Fault Shard :=
  match r.shards[i]? with
  | some shard => .ok shard
  | none => .error (.shardOutOfRange i r.shards.length)

def setShard (r : Registry) (i : Nat) (shard : Shard) : Registry :=
  { r with shards := r.shards.set i shard }

def isRegistered (r : Registry) (id : FiberId) : Bool := r.slots.contains id

def insert (r : Registry) (id : FiberId) : Except Fault Registry := do
  let i := r.shardIndex id
  let shard ← r.shard i
  if r.isRegistered id then throw (.alreadyRegistered id)
  let (slot, ring) ← shard.ring.push id
  pure { r.setShard i { shard with ring } with slots := r.slots.insert id slot }

def remove (r : Registry) (id : FiberId) : Except Fault Registry := do
  let i := r.shardIndex id
  let shard ← r.shard i
  match r.slots.get? id with
  | none => throw (.notRegistered id)
  | some slot =>
    let link ← shard.ring.link slot
    if link.fiber ≠ id then throw (.slotOfAnother slot id)
    let (_, ring) ← shard.ring.unlink slot
    pure { r.setShard i { shard with ring } with slots := r.slots.erase id }

def contains (r : Registry) (id : FiberId) : Except Fault Bool := do
  let shard ← r.shard (r.shardIndex id)
  let fibers ← shard.ring.toList
  pure (fibers.contains id)

def find? (r : Registry) (id : FiberId) : Except Fault (Option FiberId) := do
  pure (if ← r.contains id then some id else none)

/-- Looks a fiber up without waiting: a shard that is busy counts as empty. -/
def tryFind? (r : Registry) (id : FiberId) (busy : Nat → Bool) :
    Except Fault (Option FiberId) :=
  if busy (r.shardIndex id) then .ok none else r.find? id

/-- All fibers, shard by shard, each shard from its head. -/
def toList (r : Registry) : Except Fault (List FiberId) := do
  let fibers ← r.shards.mapM fun shard => shard.ring.toList
  pure fibers.flatten

def scanShard (r : Registry) (i parity : Nat) :
    Except Fault (Option (List FiberId) × Registry) := do
  let (visited?, shard) ← (← r.shard i).visit parity
  pure (visited?, r.setShard i shard)

/-- One scanner's share of a round over all shards. -/
def scan (r : Registry) (parity : Nat) : Except Fault (Scan × Registry) := do
  let (scan, shards) ← Shard.visitAll parity r.shards
  pure (scan, { r with shards })

def counts (r : Registry) : List Nat := r.shards.map (·.ring.count)

def size (r : Registry) : Nat := r.counts.foldl (· + ·) 0

def isEmpty (r : Registry) : Bool := r.size == 0

/-- Checks one link: the fiber belongs to the shard and records the link's index. A fiber without a
record counts as recording the largest word. -/
def verifyLink (r : Registry) (i : Nat) (entry : Nat × FiberId) : Except Fault Unit :=
  let (slot, id) := entry
  if r.shardIndex id ≠ i then .error (.shardMisplaced id (r.shardIndex id) i)
  else if r.slots.get? id = some slot then .ok ()
  else .error (.slotMisrecorded id ((r.slots.get? id).getD Word.greatest) slot)

/-- Checks one shard: its count, then each link. -/
def verifyShard (r : Registry) (i : Nat) (shard : Shard) : Except Fault Unit := do
  let entries ← shard.ring.entries
  if entries.length ≠ shard.ring.count then
    throw (.shardMiscounted i shard.ring.count entries.length)
  entries.forM (r.verifyLink i)

def verify (r : Registry) : Except Fault Unit :=
  r.shards.zipIdx.forM fun (shard, i) => r.verifyShard i shard

def linked (r : Registry) : List FiberId := r.shards.flatMap (·.ring.linked)

end Registry

end PooledFibers
