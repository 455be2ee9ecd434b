import PooledFibers.Text.Hex

/-!
# Words in memory

A word is a number, or the address at which every fiber starts. That address differs from every
number a program writes, so it is kept apart from them.
-/

namespace PooledFibers

inductive MemoryWord
  | number (n : Nat)
  | fiberStart
  deriving DecidableEq, Repr

namespace MemoryWord

def zero : MemoryWord := number 0

def text : MemoryWord → String
  | number n => Text.hex n
  | fiberStart => "start"

end MemoryWord

end PooledFibers
