import ScriptFront.Lexer.Scan
import ScriptFront.Token.Kind

/-!
# Numbers

- A radix mark (`0x`, `0b`, in either case) is followed by at least one digit of the radix.
- Any other number starts with decimal digits. A point makes it a real, with any digits behind
  the point and perhaps an `f`; `1.` is a real, and a second point is left for the next token.
- A number without a point is an integer, perhaps with a size behind it (`i` or `u` and 8, 16, 32
  or 64); without one it has 32 bits and a sign.

The text of the token is the number without its radix mark, its size and its `f`.
-/

namespace ScriptFront

namespace Lexer

variable {σ : Type} [ByteSource σ]

/-- The digits behind a radix mark, which is skipped. -/
def radixDigits (form : IntegerForm) (inClass : UInt8 → Bool) : Scan σ (TokenKind × String) := do
  walk (Walker.advanceBy 2)
  let digits ← walk (Walker.takeWhile inClass)
  if digits.isEmpty then throw .malformedNumber
  return (.integer form, asciiText digits)

/-- The bits that a size names and how many bytes it has, its letter included. -/
def sizeBits? (second third : UInt8) : Option (Nat × Nat) :=
  if second = byteOf '1' && third = byteOf '6' then some (16, 3)
  else if second = byteOf '3' && third = byteOf '2' then some (32, 3)
  else if second = byteOf '6' && third = byteOf '4' then some (64, 3)
  else if second = byteOf '8' then some (8, 2)
  else none

/-- The form of an integer of some bits, with or without a sign. -/
def sizedForm (signed : Bool) (bits : Nat) : IntegerForm :=
  match bits with
  | 8 => if signed then .i8 else .u8
  | 16 => if signed then .i16 else .u16
  | 32 => if signed then .i32 else .u32
  | _ => if signed then .i64 else .u64

/-- The size behind the digits of an integer. -/
def integerSize : Scan σ IntegerForm := do
  let letter ← walk Walker.current
  let signed := letter = byteOf 'i' || letter = byteOf 'I'
  if signed || letter = byteOf 'u' || letter = byteOf 'U' then
    match sizeBits? (← walk (Walker.read 1)) (← walk (Walker.read 2)) with
    | some (bits, width) =>
      walk (Walker.advanceBy width)
      return sizedForm signed bits
    | none => throw .malformedNumber
  else return .i32

/-- The size behind the digits of a real. An `f` right behind the point and its digits is one. -/
def realSize : Scan σ RealForm := do
  let letter ← walk Walker.current
  if letter = byteOf 'f' || letter = byteOf 'F' then
    walk Walker.advance
    return .fp32
  else return .fp64

/-- A number without a radix mark. -/
def decimal : Scan σ (TokenKind × String) := do
  let whole ← walk (Walker.takeWhile isDigit)
  if (← walk Walker.current) = byteOf '.' then
    walk Walker.advance
    let fraction ← walk (Walker.takeWhile isDigit)
    return (.real (← realSize), asciiText (whole ++ byteOf '.' :: fraction))
  else return (.integer (← integerSize), asciiText whole)

/-- The number at the current byte, which is a digit. -/
def number : Scan σ (TokenKind × String) := do
  let first ← walk Walker.current
  let second ← walk (Walker.read 1)
  if first = byteOf '0' && (second = byteOf 'x' || second = byteOf 'X') then
    radixDigits .hex isHexDigit
  else if first = byteOf '0' && (second = byteOf 'b' || second = byteOf 'B') then
    radixDigits .bin isBinaryDigit
  else decimal

end Lexer

end ScriptFront
