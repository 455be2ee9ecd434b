import PooledFibers.Registry.Basic
import PooledFibers.Script.Basic

/-!
# Scripts on a registry

Steps that look at the shards of a registry, claim them and scan them.
-/

namespace PooledFibers.Script

inductive RegistryStep
  | index (address : Nat)
  | claim (shard parity : Nat)
  | parity (shard : Nat)
  | count (shard : Nat)
  | scan (shard parity : Nat)
  | scanAll (parity : Nat)
  | find (address : Nat)
  | verify
  | unknown

inductive RegistryAnswer
  | refused
  | number (n : Nat)
  | flag (b : Bool)
  /-- Whether a lookup that waits, one that does not, and the membership test succeed. -/
  | lookups (waiting trying member : Bool)
  | totals (size : Nat) (isEmpty : Bool) (counts : List Nat)

def RegistryStep.perform (r : Registry) :
    RegistryStep → Except Fault (RegistryAnswer × Registry)
  | .index address => .ok (.number (r.shardIndex ⟨address⟩), r)
  | .claim i round => do
    let (claimed, shard) ← (← r.shard i).claim round
    pure (.flag claimed, r.setShard i shard)
  | .parity i => do pure (.number (← r.shard i).parity, r)
  | .count i => do pure (.number (← r.shard i).ring.count, r)
  | .scan i round => do
    let (visited?, r) ← r.scanShard i round
    pure (.flag visited?.isSome, r)
  | .scanAll round => do
    let (found, r) ← r.scan round
    pure (.number found.claimed, r)
  | .find address => do
    let waiting ← r.find? ⟨address⟩
    let trying ← r.tryFind? ⟨address⟩ fun _ => false
    pure (.lookups waiting.isSome trying.isSome (← r.contains ⟨address⟩), r)
  | .verify => do
    r.verify
    pure (.totals r.size r.isEmpty r.counts, r)
  | .unknown => .ok (.refused, r)

end PooledFibers.Script
