import PooledFibers.Failure
import PooledFibers.Fiber.Identity
import PooledFibers.Machine.MemoryWord
import PooledFibers.Scratch.Leak

/-!
# Broken invariants

A `Fault` ends the program: some rule that its callers or the library itself must keep was broken,
or the machine gave out (`isLimit`), by a sum that is no word or for want of memory. Its cause is a
constructor, and `message` words it.
-/

namespace PooledFibers

inductive Fault
  -- the machine
  | overflow
  | outOfMemory
  -- start
  | systemNotMade (failure : Failure)
  -- stacks
  | freeStackUnknown (base : Nat)
  | releasedStackForeign (base : Nat)
  | releasedStackUnused (base : Nat)
  /-- An earlier fault left the pool in doubt. -/
  | poolUnusable
  -- scratch resources
  | baseBlockPopped
  | releasedAboveMark (mark used : Nat)
  | counterUnderflow (counter : Counter)
  -- registry
  | shardCountNotPowerOfTwo (shards : Nat)
  | shardOutOfRange (index shards : Nat)
  | parityZero
  | linkVacant (index : Nat)
  | alreadyRegistered (fiber : FiberId)
  | notRegistered (fiber : FiberId)
  | slotOfAnother (slot : Nat) (fiber : FiberId)
  | shardMiscounted (shard count length : Nat)
  | shardMisplaced (fiber : FiberId) (home shard : Nat)
  | slotMisrecorded (fiber : FiberId) (recorded slot : Nat)
  -- walks over stacks
  | readOutsideStack (fiber : FiberId) (address : Nat)
  | threadFiberAtStart (fiber : FiberId)
  | framesBeforeStart (fiber : FiberId) (framePointer : MemoryWord)
  -- switches
  | foreignTarget (fiber : FiberId) (owner thread : ThreadToken)
  | targetNotSuspended (fiber : FiberId) (state : FiberState)
  | bookmarkMissing (fiber : FiberId)
  | bookmarkRecordMissing (fiber : FiberId)
  | leaked (fiber : FiberId) (leak : Leak)
  | terminatedIntoHeapFiber (source target : FiberId)
  -- creation and termination
  | kernelRequestFromHeapFiber (current : FiberId)
  | threadFiberRecycled (fiber : FiberId)
  | foreignTermination (fiber : FiberId) (owner thread : ThreadToken)
  | threadFiberTerminated (fiber : FiberId)
  | currentTerminated (fiber : FiberId)
  deriving DecidableEq, Repr

def Counter.underflowMessage : Counter → String
  | nativeCalls => "native call depth underflow"
  | locks => "lock count underflow"
  | foreignFrames => "foreign frame count underflow"
  | monitorChunks => "monitor chunk underflow"

namespace Fault

/-- Whether the machine gave out; all other faults are fatal errors. -/
def isLimit : Fault → Bool
  | overflow | outOfMemory => true
  | _ => false

def message : Fault → String
  | overflow => "attempt to add with overflow"
  | outOfMemory => "out of memory"
  | systemNotMade failure => "cannot create fiber runtime: " ++ failure.message
  | freeStackUnknown base => "free stack " ++ Text.hex base ++ " is not part of any slab"
  | releasedStackForeign base =>
    "released stack " ++ Text.hex base ++ " does not belong to this pool"
  | releasedStackUnused base =>
    "stack " ++ Text.hex base ++ " released with no stack in use"
  | poolUnusable => "stack pool lock poisoned"
  | baseBlockPopped => "attempt to pop the base handle block"
  | releasedAboveMark mark used =>
    "scratch arena released to mark " ++ toString mark ++ " above high-water mark "
      ++ toString used
  | counterUnderflow counter => counter.underflowMessage
  | shardCountNotPowerOfTwo shards =>
    "registry shard count " ++ toString shards ++ " is not a power of two"
  | shardOutOfRange index shards =>
    "registry shard index " ++ toString index ++ " out of range (" ++ toString shards
      ++ " shards)"
  | parityZero => "scan round parity must be nonzero"
  | linkVacant index => "registry link " ++ toString index ++ " is vacant"
  | alreadyRegistered fiber => "fiber " ++ fiber.text ++ " is already registered"
  | notRegistered fiber => "fiber " ++ fiber.text ++ " is not registered"
  | slotOfAnother slot fiber =>
    "registry slot " ++ toString slot ++ " of fiber " ++ fiber.text ++ " holds another fiber"
  | shardMiscounted shard count length =>
    "shard " ++ toString shard ++ " count " ++ toString count ++ " != list length "
      ++ toString length
  | shardMisplaced fiber home shard =>
    "fiber " ++ fiber.text ++ " hashes to shard " ++ toString home
      ++ " but is linked in shard " ++ toString shard
  | slotMisrecorded fiber recorded slot =>
    "fiber " ++ fiber.text ++ " records slot " ++ toString recorded ++ " but is linked at "
      ++ toString slot
  | readOutsideStack fiber address =>
    "fiber " ++ fiber.text ++ " reads " ++ Text.hex address ++ " outside its stack"
  | threadFiberAtStart fiber =>
    "thread fiber " ++ fiber.text ++ " returns into the fiber start trampoline"
  | framesBeforeStart fiber framePointer =>
    "unstarted fiber " ++ fiber.text ++ " has frame pointer " ++ framePointer.text
  | foreignTarget fiber owner thread =>
    "switch into fiber " ++ fiber.text ++ " owned by thread " ++ owner.text ++ " from thread "
      ++ thread.text
  | targetNotSuspended fiber state =>
    "switch into fiber " ++ fiber.text ++ " which is " ++ state.text
  | bookmarkMissing fiber =>
    "fiber " ++ fiber.text ++ " leaves without a verification bookmark"
  | bookmarkRecordMissing fiber =>
    "fiber " ++ fiber.text ++ " has no verification bookmark record"
  | leaked fiber leak => "fiber " ++ fiber.text ++ ": " ++ leak.message
  | terminatedIntoHeapFiber source target =>
    "terminating switch from fiber " ++ source.text ++ " into heap fiber " ++ target.text
  | kernelRequestFromHeapFiber current =>
    "kernel continuation requested while fiber " ++ current.text ++ " is current"
  | threadFiberRecycled fiber => "thread fiber " ++ fiber.text ++ " cannot be recycled"
  | foreignTermination fiber owner thread =>
    "fiber " ++ fiber.text ++ " owned by thread " ++ owner.text ++ " terminated by thread "
      ++ thread.text
  | threadFiberTerminated fiber =>
    "thread fiber " ++ fiber.text ++ " cannot be terminated"
  | currentTerminated fiber => "fiber " ++ fiber.text ++ " terminated while current"

end Fault

end PooledFibers
