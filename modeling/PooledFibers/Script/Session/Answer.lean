import PooledFibers.FiberSystem.Switch
import PooledFibers.Fiber.Walk
import PooledFibers.Script.Scratch
import PooledFibers.Text.Sink

/-!
# Answers in a session

What a step of a session answers, and the entry that it leaves: the answer with a summary of the
state, or the fault that the step met.
-/

namespace PooledFibers.Script

/-- All that can be seen of a fiber. -/
structure FiberInfo where
  fiber : Fiber
  continuation : Option Continuation
  registered : Bool

inductive Answer
  | nothing
  | refused
  | failure (failure : Failure)
  | attached (fiber : FiberId) (token : ThreadToken) (name : String)
  | fiber (fiber : FiberId)
  | created (fiber : FiberId)
  | switched (kind : SwitchKind) (source target : FiberId)
  | scratch (answer : ScratchAnswer) (after : Scratch)
  | snapshot (snapshot : Snapshot)
  | pinReason (reason : PinReason)
  | mode (mode : ExecutionMode)
  /-- What the policy answered, the modes it saw, and the mode afterwards. -/
  | compensated (answer : Option Bool) (seen : List ExecutionMode) (mode : ExecutionMode)
  | info (info : FiberInfo)
  | text (text : String)
  | words (words : List MemoryWord)
  | walked (walk : Walk Nat)
  | trace (methods : List Method)
  | written (sink : Text.Sink)
  | found (fiber : Option FiberId) (member : Bool) (shard : Nat)
  | foundWhileBusy (lookups : List (FiberId × Option FiberId))
  | fibers (fibers : List FiberId)
  | scannedShard (won : Bool) (fibers : List FiberId)
  | scanned (scan : Scan)
  | shards (counts parities : List Nat) (isEmpty : Bool)
  | owner (fiber : Option FiberId)
  /-- Whether each address lies on the fiber's stack; `none` for one that is not there. -/
  | owned (flags : List (Option Bool))
  | lease (lease : Lease)
  | stack (query : StackQuery)
  | statistics (statistics : Statistics) (total : StatisticsTotal)

/-- A thread as an entry shows it. -/
structure ThreadSummary where
  name : String
  current : FiberId
  idle : Nat
  pending : Bool

/-- The state after a step, with the page calls and notices since the entry before. -/
structure Summary where
  pool : PoolTotals
  registered : Nat
  threads : List ThreadSummary
  calls : List PageCall
  notices : List Notice

/-- What a step came to. The entries of the steps run during a switch stand inside. -/
inductive Entry
  | done (answer : Answer) (summary : Summary) (during : List Entry)
  | fault (fault : Fault) (during : List Entry)

end PooledFibers.Script
