import ScriptFront.Lexer.Scan
import ScriptFront.Token.Kind

/-!
# Characters and strings

- A character stands between single quotes: one character other than a quote, a backslash or a
  newline, or a backslash and one byte.
- A string stands between double quotes, on one line; a backslash takes the next byte with it. Two
  quotes are the empty string.
- Three quotes open a raw string, which ends at the next three quotes and may hold lines.

The text of the token is what stands between the quotes, escapes as they are written, and has to
be well-formed UTF-8.
-/

namespace ScriptFront

namespace Lexer

variable {σ : Type} [ByteSource σ]

/-- The single quote. -/
def quote : UInt8 := byteOf '\''

/-- The double quote. -/
def doubleQuote : UInt8 := byteOf '"'

/-- The backslash, which escapes the next byte. -/
def backslash : UInt8 := byteOf '\\'

/-- Append the current byte to `taken`; at the end of the text there is a fault. -/
def takeByte (fault : LexFault) (taken : Bytes) : Scan σ Bytes := do
  if ← walk Walker.atEnd then throw fault
  return taken.push (← walk Walker.bump)

/-- Append `count` bytes to `taken`. -/
def takeBytes (fault : LexFault) : (count : Nat) → (taken : Bytes) → Scan σ Bytes
  | 0, taken => return taken
  | count + 1, taken => do takeBytes fault count (← takeByte fault taken)

/-- The text of what stood between quotes. -/
def quotedText (fault : LexFault) (body : Bytes) : Scan σ String :=
  match Utf8.decode? body with
  | some text => return text
  | none => throw fault

/-- The character literal at the current byte, which is a quote. -/
def characterLiteral : Scan σ (TokenKind × String) := do
  walk Walker.advance
  if ← walk Walker.atEnd then throw .malformedCharacter
  let lead ← walk Walker.current
  if lead = quote || lead = newline then throw .malformedCharacter
  let count := if lead = backslash then 2 else Utf8.width lead
  let body ← takeBytes .malformedCharacter count #[]
  if ← walk Walker.atEnd then throw .malformedCharacter
  if (← walk Walker.current) = quote then
    walk Walker.advance
    return (.character, ← quotedText .malformedCharacter body)
  else throw .malformedCharacter

/-- The rest of a string on one line, its closing quote included. -/
def lineString : (steps : Nat) → (taken : Bytes) → Scan σ Bytes
  | 0, _ => throw .malformedString
  | steps + 1, taken => do
    if ← walk Walker.atEnd then throw .malformedString
    let byte ← walk Walker.current
    if byte = newline then throw .malformedString
    else if byte = doubleQuote then
      walk Walker.advance
      return taken
    else if byte = backslash then
      lineString steps (← takeBytes .malformedString 2 taken)
    else lineString steps (taken.push (← walk Walker.bump))

/-- Whether three double quotes stand at the current byte. -/
def atTripleQuote : StateM (Walker σ) Bool := do
  if (← Walker.read 0) ≠ doubleQuote then return false
  if (← Walker.read 1) ≠ doubleQuote then return false
  return (← Walker.read 2) = doubleQuote

/-- The rest of a raw string, its three closing quotes included. -/
def rawString : (steps : Nat) → (taken : Bytes) → Scan σ Bytes
  | 0, _ => throw .malformedString
  | steps + 1, taken => do
    if ← walk Walker.atEnd then throw .malformedString
    if ← walk atTripleQuote then
      walk (Walker.advanceBy 3)
      return taken
    else rawString steps (taken.push (← walk Walker.bump))

/-- What stands between the quotes of the string literal at the current byte. -/
def stringBody : Scan σ Bytes := do
  let steps := (← get).extent + 1
  walk Walker.advance
  if (← walk Walker.current) = doubleQuote then
    walk Walker.advance
    if (← walk Walker.current) = doubleQuote then
      walk Walker.advance
      rawString steps #[]
    else return #[]
  else lineString steps #[]

/-- The string literal at the current byte, which is a double quote. -/
def stringLiteral : Scan σ (TokenKind × String) := do
  return (.string, ← quotedText .malformedString (← stringBody))

end Lexer

end ScriptFront
