import PooledFibers.SystemError

/-!
# Errors of the system below

An `IoError` is why the operating system, or the arithmetic in front of it, refused a request.
-/

namespace PooledFibers

inductive IoError
  /-- The system's own error number. -/
  | number (code : Int)
  /-- A slab of so many stacks of so many bytes has no 64-bit size. -/
  | slabOverflow (count bytes : Nat)
  /-- Any other reason, in words. -/
  | reason (text : String)
  deriving DecidableEq, Repr

namespace IoError

def text : IoError → String
  | number code => systemErrorText code ++ " (os error " ++ toString code ++ ")"
  | slabOverflow count bytes =>
    toString count ++ " stacks of " ++ toString bytes ++ " bytes overflow the address space"
  | reason text => text

end IoError

end PooledFibers
