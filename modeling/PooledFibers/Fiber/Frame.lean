import PooledFibers.Text.Quoted

/-!
# Frames and trace elements

A frame belongs to native code or to a managed method. The methods of a suspended fiber's frames
make its stack trace.
-/

namespace PooledFibers

structure Method where
  name : String
  file : Option String := none
  line : Option Nat := none
  deriving DecidableEq, Repr

namespace Method

/-- A line of a stack trace. -/
def traceText (m : Method) : String :=
  "\tat " ++ m.name ++ "(" ++
    (match m.file, m.line with
      | some file, some line => file ++ ":" ++ toString line
      | some file, none => file
      | none, _ => "Unknown Source")
    ++ ")"

def json (m : Method) : String :=
  Text.object
    [("method", Text.quote m.name), ("file", Text.quoteOrNull m.file),
     ("line", (m.line.map toString).getD "null")]

end Method

inductive Frame
  | native
  | managed (method : Method)
  deriving DecidableEq, Repr

namespace Frame

def isManaged : Frame → Bool
  | native => false
  | managed _ => true

def method? : Frame → Option Method
  | native => none
  | managed method => some method

end Frame

end PooledFibers
