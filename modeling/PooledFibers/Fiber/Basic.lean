import PooledFibers.Fiber.Continuation
import PooledFibers.Stack.Pool

/-!
# Fibers

A fiber is an execution context with a stack of its own: a leased one, or the stack of the thread
it stands for. While it is suspended its resume point says where to go on. A new stack is primed so
that the first switch into it starts the fiber: below seven zero words lies the address of the
fiber start, and below that a zero frame pointer, where the fiber resumes.
-/

namespace PooledFibers

inductive FiberStack
  /-- The stack of the operating system's thread. -/
  | native (region : Region)
  | leased (lease : Lease)
  deriving DecidableEq, Repr

/-- The scratch snapshot taken when a fiber was entered. -/
inductive Bookmark
  /-- Verification was off when the fiber was made. -/
  | unrecorded
  | blank
  | taken (snapshot : Snapshot)
  deriving DecidableEq, Repr

structure Fiber where
  id : FiberId
  owner : ThreadToken
  ownerName : String
  stack : FiberStack
  state : FiberState
  resume : Option Nat
  /-- Whether the fiber has run. -/
  entered : Bool
  bookmark : Bookmark
  /-- The continuation, which may have been dropped since. -/
  continuation : Option ContinuationId := none
  deriving DecidableEq, Repr

namespace Bookmark

def isRecorded : Bookmark → Bool
  | unrecorded => false
  | _ => true

def snapshot? : Bookmark → Option Snapshot
  | taken snapshot => some snapshot
  | _ => none

end Bookmark

namespace Fiber

def lease? (f : Fiber) : Option Lease :=
  match f.stack with
  | .native _ => none
  | .leased lease => some lease

def isThreadFiber (f : Fiber) : Bool := f.lease?.isNone

def kindText (f : Fiber) : String := if f.isThreadFiber then "Thread" else "Heap"

def region (f : Fiber) : Region :=
  match f.stack with
  | .native region => region
  | .leased lease => lease.region

def guard (f : Fiber) : GuardState :=
  match f.stack with
  | .native _ => .disabled
  | .leased lease => lease.guard

/-- The fiber that stands for a thread. -/
def ofThread (id : FiberId) (owner : ThreadToken) (ownerName : String) (region : Region) :
    Fiber where
  id := id
  owner := owner
  ownerName := ownerName
  stack := .native region
  state := .current
  resume := none
  entered := true
  bookmark := .unrecorded

/-- A resume point, which is never the null address. -/
def resumeAt? (address : Nat) : Option Nat := if address = 0 then none else some address

/-- The words at the top of a primed stack, from the resume point up. -/
def primedWords : List MemoryWord := .zero :: .fiberStart :: List.replicate 7 .zero

def primedResume (base : Nat) : Nat := base - Word.bytes * primedWords.length

def prime (m : Machine) (base : Nat) : Machine := m.writeAll (primedResume base) primedWords

/-- A fiber that has not run, on a primed stack. -/
def ofLease (id : FiberId) (owner : ThreadToken) (ownerName : String) (lease : Lease)
    (verified : Bool) : Fiber where
  id := id
  owner := owner
  ownerName := ownerName
  stack := .leased lease
  state := .onStack
  resume := some (primedResume lease.base)
  entered := false
  bookmark := if verified then .blank else .unrecorded

/-- The fiber as if newly made; its stack has to be primed too. -/
def renewed (f : Fiber) : Fiber :=
  { f with
    state := .onStack
    resume := some (primedResume f.region.base)
    entered := false
    bookmark := if f.bookmark.isRecorded then .blank else .unrecorded }

def debugText (f : Fiber) : String :=
  "Fiber \x7b id: " ++ f.id.debugText ++ ", kind: " ++ f.kindText ++ ", state: " ++ f.state.text
    ++ ", owner: " ++ f.owner.debugText ++ ", base: " ++ Text.hex f.region.base ++ " \x7d"

/-- The name in dumps: the thread's, or the virtual thread's. -/
def threadName (f : Fiber) (continuation : Option Continuation) : String :=
  if f.isThreadFiber then f.ownerName
  else ((continuation.bind (·.virtualThread?)).bind (·.name)).getD "unknown_vt"

def threadLine (f : Fiber) (continuation : Option Continuation) : String :=
  if f.isThreadFiber then "thread fiber: " ++ f.ownerName ++ "\n"
  else match continuation.bind (·.virtualThread?) with
    | some thread =>
      "\tVirtualThread => name: " ++ thread.name.getD "null" ++ ", state "
        ++ VirtualThread.stateName thread.state
    | none => ""

end Fiber

end PooledFibers
