import PooledFibers.IoError
import PooledFibers.Text.Hex

/-!
# Notices

A `Notice` is a warning that the library logs and then goes on. `text` is the logged line.
-/

namespace PooledFibers

inductive Notice
  | unreadableValue (name raw : String) (fallback : Nat)
  | zeroValue (name : String) (fallback : Nat)
  | unreadableFlag (name raw : String) (fallback : Bool)
  | shardsNotPowerOfTwo (shards fallback : Nat)
  | geometryOverflow (stackSize stacksPerSlab : Nat)
  | guardFailed (low : Nat) (error : IoError)
  | guardUncommitFailed (low : Nat) (error : IoError)
  | uncommitFailed (base : Nat) (error : IoError)
  | unmapFailed (low : Nat) (error : IoError)
  | detachedWithFibers (thread : String) (count : Nat)
  | unknownReport (value : String)
  | reportNotWritten (path : String)
  deriving DecidableEq, Repr

def Notice.text : Notice → String
  | unreadableValue name raw fallback =>
    name ++ "='" ++ raw ++ "' is not a valid value, using default " ++ toString fallback
  | zeroValue name fallback =>
    name ++ "=0 is invalid, using default " ++ toString fallback
  | unreadableFlag name raw fallback =>
    name ++ "='" ++ raw ++ "' is not a boolean, using default " ++ toString fallback
  | shardsNotPowerOfTwo shards fallback =>
    "FIBER_REGISTRY_SHARDS=" ++ toString shards ++ " is not a power of two, using default "
      ++ toString fallback
  | geometryOverflow stackSize stacksPerSlab =>
    "FIBER_STACK_SIZE=" ++ toString stackSize ++ " with FIBER_STACKS_PER_SLAB="
      ++ toString stacksPerSlab ++ " overflows the address space, using default stack geometry"
  | guardFailed low error =>
    "failed to protect guard pages at " ++ Text.hex low ++ ": " ++ error.text
  | guardUncommitFailed low error =>
    "failed to uncommit guard pages at " ++ Text.hex low ++ ": " ++ error.text
  | uncommitFailed base error =>
    "failed to uncommit free stack at " ++ Text.hex base ++ ": " ++ error.text
  | unmapFailed low error =>
    "failed to unmap stack slab at " ++ Text.hex low ++ ": " ++ error.text
  | detachedWithFibers thread count =>
    "fiber thread detached with live fibers, unregistering them thread=" ++ thread
      ++ " count=" ++ toString count
  | unknownReport value => "FIBER_REPORT not recognized, ignoring value=" ++ value
  | reportNotWritten path => "could not write fiber report, using stderr path=" ++ path

end PooledFibers
