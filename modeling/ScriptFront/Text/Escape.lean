import ScriptFront.Text.Utf8

/-!
# Characters in messages

- `Escape.ascii`: an ASCII character as messages write it, printable or escaped.
- `Escape.byte`: a byte that encodes nothing.
-/

namespace ScriptFront

namespace Escape

/-- A number in base sixteen, in lower case. -/
def hex (n : Nat) : String := String.ofList (Nat.toDigits 16 n)

/-- An ASCII character: the usual short forms, printable characters as they are, all others by
their number. -/
def ascii (c : Char) : String :=
  if c = '\t' then "\\t"
  else if c = '\r' then "\\r"
  else if c = '\n' then "\\n"
  else if c = '\'' || c = '"' || c = '\\' then "\\" ++ c.toString
  else if ' ' ≤ c && c ≤ '~' then c.toString
  else "\\u\x7b" ++ hex c.toNat ++ "\x7d"

/-- A byte by its two digits in base sixteen, in upper case. -/
def byte (b : UInt8) : String :=
  "\\x" ++ (hex (b.toNat / 16) ++ hex (b.toNat % 16)).toUpper

end Escape

end ScriptFront
