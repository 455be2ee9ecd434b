/-!
# Text with room for so many bytes

A `Sink` takes text until its room is used up. The text that does not fit is cut at a byte, and
from then on the sink is full. A character cut in half reads as U+FFFD.
-/

namespace PooledFibers.Text

structure Sink where
  /-- Bytes still taken, `none` for no limit. -/
  room : Option Nat
  written : String := ""
  /-- Whether some text did not fit. -/
  full : Bool := false
  deriving DecidableEq, Repr

namespace Sink

/-- The text that fits into so many bytes. -/
def fitting : Nat → List Char → List Char
  | _, [] => []
  | room, c :: rest =>
    if c.utf8Size ≤ room then c :: fitting (room - c.utf8Size) rest
    else if room = 0 then []
    else ['\uFFFD']

def put (s : Sink) (text : String) : Sink :=
  if s.full then s
  else match s.room with
    | none => { s with written := s.written ++ text }
    | some room =>
      if text.utf8ByteSize ≤ room then
        { s with room := some (room - text.utf8ByteSize), written := s.written ++ text }
      else
        { room := some 0
          written := s.written ++ String.ofList (fitting room text.toList)
          full := true }

end Sink

end PooledFibers.Text
