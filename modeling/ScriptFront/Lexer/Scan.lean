import ScriptFront.Lexer.Fault
import ScriptFront.Source.Walker
import ScriptFront.Text.Utf8

/-!
# Scanners

A scanner reads a lexeme from a `Walker`, or finds what is wrong with it. On a fault it stays
where it noticed; who called it goes back to the start of the lexeme.

- `isLetter`, `isDigit`, …: the classes of bytes that lexemes are made of.
- `Walker.takeWhile`: the longest run of bytes of one class.
-/

namespace ScriptFront

/-- Read a lexeme, or stop at a fault. -/
abbrev Scan (σ : Type) := ExceptT LexFault (StateM (Walker σ))

/-- Use the walker, which does not fail, where something may fail. -/
abbrev walk {σ ε α : Type} (act : StateM (Walker σ) α) : ExceptT ε (StateM (Walker σ)) α :=
  ExceptT.lift act

/-! ## Classes of bytes -/

/-- The code of an ASCII character. -/
abbrev byteOf (c : Char) : UInt8 := UInt8.ofNat c.toNat

/-- White space between tokens. -/
def isBlank (byte : UInt8) : Bool := byte = 32 || byte = 9 || byte = 10 || byte = 13

/-- A decimal digit. -/
def isDigit (byte : UInt8) : Bool := 48 ≤ byte && byte ≤ 57

/-- A digit in base two. -/
def isBinaryDigit (byte : UInt8) : Bool := byte = 48 || byte = 49

/-- A digit in base sixteen. -/
def isHexDigit (byte : UInt8) : Bool :=
  isDigit byte || (65 ≤ byte && byte ≤ 70) || (97 ≤ byte && byte ≤ 102)

/-- A byte that an identifier starts with. -/
def isLetter (byte : UInt8) : Bool :=
  (97 ≤ byte && byte ≤ 122) || (65 ≤ byte && byte ≤ 90) || byte = 95

/-- A byte inside an identifier. -/
def isWordByte (byte : UInt8) : Bool := isLetter byte || isDigit byte

/-! ## Runs of bytes -/

namespace Walker

variable {σ : Type} [ByteSource σ]

/-- Append the bytes of a class to `taken`, in at most `steps` steps. -/
def collect (inClass : UInt8 → Bool) : (steps : Nat) → (taken : Bytes) → StateM (Walker σ) Bytes
  | 0, taken => return taken
  | steps + 1, taken => do
    if inClass (← current) then
      let byte ← bump
      collect inClass steps (taken.push byte)
    else return taken

/-- The longest run of bytes of a class that does not hold `endByte`. -/
def takeWhile (inClass : UInt8 → Bool) : StateM (Walker σ) (List UInt8) := do
  return (← collect inClass ((← get).extent + 1) #[]).toList

end Walker

end ScriptFront
