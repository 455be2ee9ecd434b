import PooledFibers.IoError

/-!
# Recoverable failures

A `Failure` is an answer to the caller, which may go on. Its cause is a constructor, and `message`
words it.
-/

namespace PooledFibers

/-- Why settings cannot be used. -/
inductive SettingsError
  | noStackBytes
  | noStacksPerSlab
  | slabOverflow (stackSize stacksPerSlab : Nat)
  | shardsNotPowerOfTwo (shards : Nat)
  | noTraceDepth
  /-- Any other reason, in words. -/
  | reason (text : String)
  deriving DecidableEq, Repr

def SettingsError.message : SettingsError → String
  | noStackBytes => "stack_size must be positive"
  | noStacksPerSlab => "stacks_per_slab must be positive"
  | slabOverflow stackSize stacksPerSlab =>
    "stack_size " ++ toString stackSize ++ " with " ++ toString stacksPerSlab
      ++ " stacks per slab overflows the address space"
  | shardsNotPowerOfTwo shards =>
    "registry_shards must be a power of two, got " ++ toString shards
  | noTraceDepth => "max_stack_trace_depth must be positive"
  | reason text => text

inductive Failure
  /-- The pool could not reserve another slab. -/
  | exhausted (requested : Nat) (source : IoError)
  /-- Only stacks of the pool's own size can be had. -/
  | unsupportedSize (requested : Nat)
  | invalidSettings (cause : SettingsError)
  /-- The bounds of the thread's own stack are unknown. -/
  | threadStackUnknown (source : IoError)
  deriving DecidableEq, Repr

namespace Failure

def message : Failure → String
  | exhausted requested source =>
    "stack pool exhausted while reserving " ++ toString requested ++ " bytes: " ++ source.text
  | unsupportedSize requested =>
    "custom fiber stack size " ++ toString requested
      ++ " is not supported; request the default size"
  | invalidSettings cause => "invalid fiber runtime configuration: " ++ cause.message
  | threadStackUnknown source =>
    "could not query the current thread's stack: " ++ source.text

def isOutOfMemory : Failure → Bool
  | exhausted _ _ => true
  | _ => false

def source? : Failure → Option IoError
  | exhausted _ source => some source
  | threadStackUnknown source => some source
  | _ => none

end Failure

end PooledFibers
