/-!
# Quoted text in JSON

A quoted string escapes the quote, the backslash and the control characters below the space, the
usual five of them by a letter and the others by four hexadecimal digits. All else stands as it is.
-/

namespace PooledFibers.Text

def fourHexDigits (n : Nat) : List Char :=
  let digits := Nat.toDigits 16 n
  List.replicate (4 - digits.length) '0' ++ digits

def escape (c : Char) : List Char :=
  match c with
  | '"' => ['\\', '"']
  | '\\' => ['\\', '\\']
  | '\n' => ['\\', 'n']
  | '\r' => ['\\', 'r']
  | '\t' => ['\\', 't']
  | '\x08' => ['\\', 'b']
  | '\x0c' => ['\\', 'f']
  | c => if c.toNat < 0x20 then ['\\', 'u'] ++ fourHexDigits c.toNat else [c]

def quote (s : String) : String :=
  String.ofList ('"' :: s.toList.flatMap escape ++ ['"'])

def quoteOrNull : Option String → String
  | some s => quote s
  | none => "null"

/-- An object with its fields in the given order, written without spaces. -/
def object (fields : List (String × String)) : String :=
  "\x7b" ++ String.intercalate "," (fields.map fun (name, value) => quote name ++ ":" ++ value)
    ++ "\x7d"

end PooledFibers.Text
