/-!
# Numbers and columns in text

Hexadecimal numbers in lower case after `0x`, and padding to a column width.
-/

namespace PooledFibers.Text

def hex (n : Nat) : String := "0x" ++ String.ofList (Nat.toDigits 16 n)

def padLeft (width : Nat) (s : String) : String :=
  String.ofList (List.replicate (width - s.length) ' ') ++ s

def padRight (width : Nat) (s : String) : String :=
  s ++ String.ofList (List.replicate (width - s.length) ' ')

end PooledFibers.Text
