/-!
# Byte sources

A byte source hands out the bytes of a text around a current position. It may have to load
them, so every question to it may change it.

- `ByteAccess` is what every source answers: read, test, advance, move.
- `ByteSource` adds the two calls that a source may answer faster than byte by byte: search
  and skip.
- `Stepped σ` is the source `σ` with both done byte by byte.
-/

namespace ScriptFront

/-- The byte that stands for everything at and past the end of a text. -/
def endByte : UInt8 := 0

/-- Addresses of bytes are below this bound; a sum that reaches it is no address. -/
def addressLimit : Nat := UInt64.size

/-- What every source of bytes answers. `ahead` counts from the current position. -/
class ByteAccess (σ : Type) where
  /-- The name of the text. -/
  name : σ → String
  /-- The offset of the current byte. -/
  position : σ → Nat
  /-- No byte of the text lies at this offset or beyond it. -/
  extent : σ → Nat
  /-- The byte `ahead` of the current one, or `endByte`. -/
  read (ahead : Nat) : StateM σ UInt8
  /-- Whether there is a byte `ahead` of the current one. -/
  has (ahead : Nat) : StateM σ Bool
  /-- Move to the next byte, if there is a current one. -/
  advance : StateM σ Unit
  /-- Move to an offset. -/
  reset (target : Nat) : StateM σ Unit

namespace ByteAccess

variable {σ : Type} [ByteAccess σ]

/-- Whether no byte is left. -/
def atEnd : StateM σ Bool := do
  return !(← has 0)

/-- Search for a byte one step at a time, for at most `steps` steps from `ahead` on. -/
def findFrom (needle : UInt8) : (steps ahead : Nat) → StateM σ (Option Nat)
  | 0, _ => return none
  | steps + 1, ahead => do
    if ← has ahead then
      if (← read ahead) = needle then return some ahead
      else findFrom needle steps (ahead + 1)
    else return none

/-- Search for a byte one step at a time. -/
def findStepwise (needle : UInt8) : StateM σ (Option Nat) := do
  findFrom needle (extent (← get) + 1) 0

/-- Advance up to `count` times, until no byte is left. -/
def skipStepwise : (count : Nat) → StateM σ Unit
  | 0 => return ()
  | count + 1 => do
    if ← atEnd then return ()
    else
      advance
      skipStepwise count

end ByteAccess

/-- A byte source with its own ways to search and to skip. -/
class ByteSource (σ : Type) extends ByteAccess σ where
  /-- The distance from the current position to the next such byte. -/
  find (needle : UInt8) : StateM σ (Option Nat)
  /-- Advance `count` times, or to the end. -/
  skip (count : Nat) : StateM σ Unit

/-! ## The source that takes every step -/

/-- The source `σ`, searched and skipped byte by byte. -/
structure Stepped (σ : Type) where
  inner : σ

namespace Stepped

variable {σ : Type}

/-- Ask the source inside. -/
def ask {α : Type} (act : StateM σ α) : StateM (Stepped σ) α := fun s =>
  match act s.inner with
  | (answer, inner) => (answer, ⟨inner⟩)

instance [ByteAccess σ] : ByteAccess (Stepped σ) where
  name s := ByteAccess.name s.inner
  position s := ByteAccess.position s.inner
  extent s := ByteAccess.extent s.inner
  read ahead := ask (ByteAccess.read ahead)
  has ahead := ask (ByteAccess.has ahead)
  advance := ask ByteAccess.advance
  reset target := ask (ByteAccess.reset target)

instance [ByteAccess σ] : ByteSource (Stepped σ) where
  find := ByteAccess.findStepwise
  skip := ByteAccess.skipStepwise

end Stepped

end ScriptFront
