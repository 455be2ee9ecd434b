import PooledFibers.FiberSystem.Global
import PooledFibers.Proofs.Fiber.Walk
import PooledFibers.Proofs.FiberSystem.Aggregate
import PooledFibers.Proofs.FiberSystem.Custody
import PooledFibers.Proofs.FiberSystem.Dismissal
import PooledFibers.Proofs.FiberSystem.Isolation
import PooledFibers.Proofs.FiberSystem.Listing
import PooledFibers.Proofs.FiberSystem.LockOwner
import PooledFibers.Proofs.FiberSystem.Seats
import PooledFibers.Proofs.FiberSystem.Stay
import PooledFibers.Proofs.FiberSystem.Undisturbed
import PooledFibers.Proofs.Registry.Fairness
import PooledFibers.Proofs.Registry.Verification
import PooledFibers.Proofs.Registry.Wiring
import PooledFibers.Proofs.Settings.Variables
import PooledFibers.Proofs.Stack.Demand
import PooledFibers.Proofs.Stack.Layout
import PooledFibers.Proofs.Stack.Peak
import PooledFibers.Proofs.Stack.Residency
import PooledFibers.Proofs.Statistics.History
import PooledFibers.Script.Mapping
import PooledFibers.Script.Pool
import PooledFibers.Script.Registry
import PooledFibers.Script.Session.Run
import PooledFibers.Script.Statistics
