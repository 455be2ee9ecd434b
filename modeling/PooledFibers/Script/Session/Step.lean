import PooledFibers.FiberSystem.Report
import PooledFibers.FiberSystem.Switch
import PooledFibers.Fiber.Walk
import PooledFibers.Machine.Simulated
import PooledFibers.Script.Scratch

/-!
# Steps of a session

What a host may do next on a fiber system, in terms of the names that it has given. A step that
switches may carry steps to run while control is on the target's side.
-/

namespace PooledFibers.Script

/-- How a step names a fiber. -/
inductive FiberName
  | handle (name : String)
  | threadFiber (thread : String)
  | current (thread : String)

/-- How a step names an address; `below` is the distance down from the thing named. -/
inductive Place
  | nowhere
  | address (n : Nat)
  | identity (fiber : FiberName) (below : Int)
  | numbered (n : Nat) (below : Int)
  | lease (name : String) (below : Int)
  | base (fiber : FiberName) (below : Int)

/-- What the host saves of the outgoing fiber when stacks are swapped. -/
inductive SavePlan
  | nothing
  | address (n : Nat)
  /-- A frame so many bytes below the stack's base. -/
  | frame (below : Int) (framePointer returnAddress : MemoryWord)

/-- Where a report goes. -/
inductive ReportDestination
  /-- To the caller. -/
  | caller
  /-- To a file that cannot be written. -/
  | lostFile (path : String)
  | errorStream

inductive Action
  | attach (name : String) (size : Nat) (refusal : Option Int)
  | detach (thread : String)
  | create (thread name : String) (request : StackRequest) (continuation : Option String)
  | drop (fiber : FiberName)
  | terminate (thread : String) (fiber : FiberName) (keep : Bool)
  | reclaim (thread : String)
  | scratch (thread : String) (steps : List ScratchStep)
  | pinReason (thread : String)
  | mode (thread : String)
  | setMode (thread : String) (mode : ExecutionMode)
  | tryCompensate (thread : String)
  | updateActive (thread : String)
  | addContinuation (name : String) (continuation : Continuation)
  | dropContinuation (name : String)
  | inspect (fiber : FiberName)
  | describe (fiber : FiberName)
  | start (fiber : FiberName)
  | saveResume (fiber : FiberName) (place : Place)
  | write (fiber : FiberName) (below : Int) (words : List MemoryWord)
  | read (fiber : FiberName) (below : Int) (count : Nat)
  | walk (fiber : FiberName) (mode : WalkMode) (frames : List Frame)
  | trace (fiber : Option FiberName) (maxDepth : Nat) (frames : List Frame)
  | dump (fiber : FiberName) (maxDepth : Nat) (frames : List Frame) (room : Option Nat)
  | threadLine (fiber : FiberName) (room : Option Nat)
  | dumpAll (maxDepth : Option Nat) (frames : List Frame) (room : Option Nat)
  | register (fiber : FiberName)
  | unregister (fiber : FiberName)
  | verifyRegistry
  | find (place : Place)
  /-- A lookup that does not wait, made while each fiber is visited in turn. -/
  | findWhileBusy (place : Place)
  | registered
  | scanShard (shard parity : Nat)
  | scan (parity : Nat)
  /-- A round shared by several scanners. -/
  | scanTogether (scanners parity : Nat)
  | shards
  | lockOwner (place : Place) (running : List FiberName)
  | owned (fiber : FiberName) (places : List Place)
  | lease (name : String)
  | unlease (name : String)
  | stack (place : Place)
  | setFaults (change : PageFaultChange)
  | statistics
  | report (format : ReportFormat) (destination : ReportDestination)
  | diagnostics
  | unknown

inductive Step
  | act (action : Action)
  | switch (thread : String) (target : FiberName) (kind : SwitchKind) (save : SavePlan)
      (during : List Step)

instance : Inhabited Step := ⟨.act .unknown⟩

end PooledFibers.Script
