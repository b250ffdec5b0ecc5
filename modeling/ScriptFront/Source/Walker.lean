import ScriptFront.Source.Access
import ScriptFront.Source.Place

/-!
# Walking over a text

A `Walker` reads a byte source and knows the place of the current byte.

- `Walker.advance` follows `Position.after` byte by byte.
- `Walker.skipLine` goes to the end of the line. If a newline follows, the run up to it is
  skipped at once and counted as one column a byte, tabs included: the newline starts the next
  line at column one anyway.
- `Walker.place`, `Walker.reset`: take down a place and go back to it.
-/

namespace ScriptFront

/-- A byte source with the line and column of its current byte. -/
structure Walker (σ : Type) where
  source : σ
  line : UInt32
  column : UInt32
  tabWidth : UInt32

namespace Walker

variable {σ : Type}

/-- Start at the first byte. -/
def ofSource (source : σ) (tabWidth : UInt32 := defaultTabWidth) : Walker σ where
  source
  line := 1
  column := 1
  tabWidth

/-- Ask the byte source. -/
def ask {α : Type} (act : StateM σ α) : StateM (Walker σ) α := fun w =>
  match act w.source with
  | (answer, source) => (answer, { w with source })

variable [ByteSource σ]

/-- The name of the text. -/
def name (w : Walker σ) : String := ByteAccess.name w.source

/-- Line and column of the current byte. -/
def linePosition (w : Walker σ) : Position := ⟨w.line, w.column⟩

/-- The place of the current byte. -/
def place (w : Walker σ) : Place := ⟨w.linePosition, ByteAccess.position w.source⟩

/-- No byte of the text lies at this offset or beyond it. -/
def extent (w : Walker σ) : Nat := ByteAccess.extent w.source

/-- The byte `ahead` of the current one. -/
def read (ahead : Nat) : StateM (Walker σ) UInt8 := ask (ByteAccess.read ahead)

/-- The current byte. -/
def current : StateM (Walker σ) UInt8 := read 0

/-- Whether no byte is left. -/
def atEnd : StateM (Walker σ) Bool := ask ByteAccess.atEnd

/-- Move behind the current byte. -/
def advance : StateM (Walker σ) Unit := do
  if ← atEnd then return ()
  let byte ← current
  ask ByteAccess.advance
  modify fun w =>
    let next := w.linePosition.after w.tabWidth byte
    { w with line := next.line, column := next.column }

/-- Move behind the current byte and hand it out. -/
def bump : StateM (Walker σ) UInt8 := do
  let byte ← current
  advance
  return byte

/-- Advance `count` times. -/
def advanceBy : (count : Nat) → StateM (Walker σ) Unit
  | 0 => return ()
  | count + 1 => do
    advance
    advanceBy count

/-- Advance to the end of the text, in at most `steps` steps. -/
def advanceToEnd : (steps : Nat) → StateM (Walker σ) Unit
  | 0 => return ()
  | steps + 1 => do
    if ← atEnd then return ()
    else
      advance
      advanceToEnd steps

/-- Go to the next newline, or to the end of the text. -/
def skipLine : StateM (Walker σ) Unit := do
  match ← ask (ByteSource.find newline) with
  | some run =>
    ask (ByteSource.skip run)
    modify fun w => { w with column := columnBehind w.column run }
  | none => advanceToEnd ((← get).extent + 1)

/-- Go to a place taken down before. -/
def reset (target : Place) : StateM (Walker σ) Unit := do
  ask (ByteAccess.reset target.offset)
  modify fun w => { w with line := target.line, column := target.column }

end Walker

end ScriptFront
