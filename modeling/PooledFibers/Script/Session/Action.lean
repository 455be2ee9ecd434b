import PooledFibers.FiberSystem.Compensation
import PooledFibers.FiberSystem.Diagnostics
import PooledFibers.FiberSystem.Dump
import PooledFibers.FiberSystem.LockOwner
import PooledFibers.Script.Session.Basic

/-!
# Actions of a session

What each action does to the session and answers. An action that names what is not there, or gives
a name twice, is refused and does nothing.
-/

namespace PooledFibers.Script.Session

def attach (s : Session) (name : String) (size : Nat) (refusal : Option Int) : Result :=
  if (s.thread? name).isSome then s.refuse
  else do
    let bounds : Except IoError StackBounds :=
      match refusal with
      | some code => .error (.number code)
      | none => .ok ⟨stackBase s.system.nextToken, size⟩
    let (attached, system) ← s.system.attach systemThread s.threadName bounds
    match attached with
    | .error failure => pure (.failure failure, { s with system })
    | .ok token =>
      pure (.attached (system.carrier token).threadFiber token s.threadName,
        { s with system, threads := s.threads ++ [(name, token)] })

def detach (s : Session) (name : String) : Result :=
  s.withThread name fun t =>
    if s.system.isSwitching t then s.refuse
    else do
      let system ← s.system.detach t
      pure (.nothing, { s with system, threads := s.threads.filter fun entry => entry.1 != name })

def create (s : Session) (thread name : String) (request : StackRequest)
    (continuation : Option ContinuationId) : Result :=
  if s.handles.contains name then s.refuse
  else s.withThread thread fun t => do
    let (made, system) ← s.system.create t request continuation
    match made with
    | .error failure => pure (.failure failure, { s with system })
    | .ok id => pure (.created id, { s with system, handles := s.handles.insert name id })

def drop (s : Session) : FiberName → Result
  | .handle name =>
    match s.handles.get? name with
    | some id => { s with handles := s.handles.erase name }.update (s.system.dropHandle id)
    | none => s.refuse
  | _ => s.refuse

/-- Ends a fiber. A handle is given away with it, unless it is kept or there is none. -/
def terminate (s : Session) (thread : String) (fiber : FiberName) (keep : Bool) : Result :=
  s.withThread thread fun t => s.withFiber fiber fun id =>
    match fiber, keep with
    | .handle name, false =>
      { s with handles := s.handles.erase name }.update (s.system.terminate t id)
    | _, _ => s.update ((s.system.hold id).terminate t id)

def scratch (s : Session) (thread : String) (steps : List ScratchStep) : Result :=
  s.withThread thread fun t =>
    let before := (s.system.carrier t).scratch
    let outcome := run ScratchStep.perform (before, s.marks) steps
    match outcome.fault, outcome.answers.getLast? with
    | some fault, _ => .error fault
    | none, none => s.answer (.snapshot before.snapshot)
    | none, some (last, after, marks) =>
      .ok (.scratch last after, { s with system := s.system.setScratch t after, marks })

def inspect (s : Session) (id : FiberId) : Result := do
  let fiber := s.system.fiber id
  let registered ← s.system.registry.contains id
  s.answer (.info ⟨fiber, s.system.continuationOf fiber, registered⟩)

/-- A walk that passes on the positions of the frames. -/
def walk (s : Session) (id : FiberId) (mode : WalkMode) (frames : List Frame) : Result := do
  let isManaged (position : Nat) := frames[position]?.any Frame.isManaged
  let source := FrameSource.fixed (List.range frames.length)
  s.answer (.walked (← (s.system.fiber id).walk s.system.machine mode isManaged source))

def trace (s : Session) (fiber : Option FiberName) (maxDepth : Nat) (frames : List Frame) :
    Result :=
  match fiber with
  | none => s.answer (.trace [])
  | some fiber => s.withFiber fiber fun id => do
    s.answer (.trace (← (s.system.fiber id).trace s.system.machine maxDepth (.fixed frames)))

def findWhileBusy (s : Session) (address : Nat) : Result := do
  let registry := s.system.registry
  let visited ← registry.toList
  let lookups ← visited.mapM fun id => do
    let found ← registry.tryFind? ⟨address⟩ fun shard => shard == registry.shardIndex id
    pure (id, found)
  s.answer (.foundWhileBusy lookups)

def scan (s : Session) (parity : Nat) : Except Fault (Scan × Session) := do
  let (scan, registry) ← s.system.registry.scan parity
  pure (scan, { s with system := { s.system with registry } })

/-- Scanners that share a round visit together what one alone would. -/
def scanTogether (s : Session) (scanners parity : Nat) : Result :=
  if scanners = 0 then s.answer (.scanned ⟨0, []⟩)
  else do
    let (scan, s) ← s.scan parity
    let sorted := scan.visited.mergeSort fun a b => a.address ≤ b.address
    s.answer (.scanned { scan with visited := sorted })

def lease (s : Session) (name : String) : Result :=
  if s.leases.contains name then s.refuse
  else do
    let (leased, system) ← s.system.lease
    match leased with
    | .error failure => pure (.failure failure, { s with system })
    | .ok lease => pure (.lease lease, { s with system, leases := s.leases.insert name lease })

def report (s : Session) (format : ReportFormat) (destination : ReportDestination) : Result := do
  let text ← s.system.report format 0
  match destination with
  | .caller => s.answer (.text text)
  | .lostFile path => s.update (.ok (s.system.notice (.reportNotWritten path)))
  | .errorStream => s.answer .nothing

def diagnostics (s : Session) : Result :=
  let written := s.system.diagnostics "" ""
  match written.fault with
  | some fault => .error fault
  | none => s.answer (.text (FiberSystem.withoutTimes written.text))

/-- Does an action; one that names what is not there, or gives a name twice, is refused. -/
def perform (s : Session) : Action → Result
  | .attach name size refusal => s.attach name size refusal
  | .detach thread => s.detach thread
  | .create thread name request none => s.create thread name request none
  | .create thread name request (some continuation) =>
    match s.continuations.get? continuation with
    | some id => s.create thread name request (some id)
    | none => s.refuse
  | .drop fiber => s.drop fiber
  | .terminate thread fiber keep => s.terminate thread fiber keep
  | .reclaim thread => s.withThread thread fun t => s.update (s.system.reclaim t)
  | .scratch thread steps => s.scratch thread steps
  | .pinReason thread =>
    s.withThread thread fun t => s.answer (.pinReason (s.system.carrier t).pinReason)
  | .mode thread => s.withThread thread fun t => s.answer (.mode (s.system.carrier t).mode)
  | .setMode thread mode => s.withThread thread fun t => s.update (.ok (s.system.setMode t mode))
  | .tryCompensate thread => s.withThread thread fun t =>
    s.answer (.compensated (some (s.system.tryCompensate t)) (s.system.policyCalls t)
      (s.system.carrier t).mode)
  | .updateActive thread => s.withThread thread fun t =>
    s.answer (.compensated none (s.system.policyCalls t) (s.system.carrier t).mode)
  | .addContinuation name continuation =>
    if s.continuations.contains name then s.refuse
    else
      let (id, system) := s.system.addContinuation continuation
      .ok (.nothing, { s with system, continuations := s.continuations.insert name id })
  | .dropContinuation name =>
    match s.continuations.get? name with
    | some id =>
      { s with continuations := s.continuations.erase name }.update
        (.ok (s.system.dropContinuation id))
    | none => s.refuse
  | .inspect fiber => s.withFiber fiber s.inspect
  | .describe fiber =>
    s.withFiber fiber fun id => s.answer (.text (s.system.fiber id).debugText)
  | .start fiber => s.withFiber fiber fun id => s.answer (.fiber id)
  | .saveResume fiber place => s.withFiber fiber fun id => s.withPlace place fun address =>
    match Fiber.resumeAt? address with
    | none => s.refuse
    | some address => s.update (.ok (s.system.saveResume id address))
  | .write fiber below words => s.withPlace (.base fiber below) fun address =>
    s.update (.ok (s.system.writeWords address words))
  | .read fiber below count => s.withPlace (.base fiber below) fun address =>
    s.answer (.words (s.system.machine.readAll address count))
  | .walk fiber mode frames => s.withFiber fiber fun id => s.walk id mode frames
  | .trace fiber maxDepth frames => s.trace fiber maxDepth frames
  | .dump fiber maxDepth frames room => s.withFiber fiber fun id => do
    s.answer (.written (← s.system.dumpFiber id maxDepth (.fixed frames) { room }))
  | .threadLine fiber room => s.withFiber fiber fun id =>
    let fiber := s.system.fiber id
    let sink : Text.Sink := { room }
    s.answer (.written (sink.put (fiber.threadLine (s.system.continuationOf fiber))))
  | .dumpAll maxDepth frames room => do
    let depth := maxDepth.getD s.system.settings.maxStackTraceDepth
    s.answer (.written (← s.system.dumpAll depth (.fixed frames) { room }))
  | .register fiber => s.withFiber fiber fun id => s.update (s.system.register id)
  | .unregister fiber => s.withFiber fiber fun id =>
    s.update do (← s.system.unregister id).reap id
  | .verifyRegistry => do
    s.system.registry.verify
    s.answer .nothing
  | .find place => s.withPlace place fun address => do
    let registry := s.system.registry
    let found ← registry.find? ⟨address⟩
    s.answer (.found found (← registry.contains ⟨address⟩) (registry.shardIndex ⟨address⟩))
  | .findWhileBusy place => s.withPlace place s.findWhileBusy
  | .registered => do s.answer (.fibers (← s.system.registry.toList))
  | .scanShard shard parity => do
    let (visited?, registry) ← s.system.registry.scanShard shard parity
    { s with system := { s.system with registry } }.answer
      (.scannedShard visited?.isSome (visited?.getD []))
  | .scan parity => do
    let (scan, s) ← s.scan parity
    s.answer (.scanned scan)
  | .scanTogether scanners parity => s.scanTogether scanners parity
  | .shards =>
    let registry := s.system.registry
    s.answer (.shards registry.counts (registry.shards.map (·.parity)) registry.isEmpty)
  | .lockOwner place running => s.withPlace place fun address =>
    match running.mapM s.fiber? with
    | none => s.refuse
    | some running => do s.answer (.owner (← s.system.lockOwner? address running))
  | .owned fiber places => s.withFiber fiber fun id =>
    s.answer (.owned (places.map fun place =>
      (s.place? place).map (s.system.fiber id).region.contains))
  | .lease name => s.lease name
  | .unlease name =>
    match s.leases.get? name with
    | some lease =>
      { s with leases := s.leases.erase name }.update (s.system.unlease lease)
    | none => s.refuse
  | .stack place => s.withPlace place fun address => s.answer (.stack (s.system.pool.query address))
  | .setFaults change =>
    let simulation := s.simulation.withFaults change
    .ok (.nothing, { s with
      simulation, system := s.system.withProvider simulation.provider })
  | .statistics => do
    s.answer (.statistics s.system.statistics (← s.system.statistics.total))
  | .report format destination => s.report format destination
  | .diagnostics => s.diagnostics
  | .unknown => s.refuse

end PooledFibers.Script.Session
