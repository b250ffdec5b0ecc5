import ScriptFront.Source.Access

/-!
# Texts in memory

A `Buffer` holds all bytes of a text. Its position never leaves the text, which its type says.

- `Buffer.ofBytes`, `Buffer.ofString`: a text, read from its first byte.
-/

namespace ScriptFront

/-- The bytes of a text or of a part of it. -/
abbrev Bytes := Array UInt8

/-- The bytes that encode a string. -/
def utf8Bytes (text : String) : Bytes := text.toUTF8.data

/-- The name of a text that has no name of its own. -/
def anonymousName : String := "anom_block"

/-- A whole text in memory and a position in it. -/
structure Buffer where
  name : String
  content : Bytes
  position : Nat
  position_le : position ≤ content.size

namespace Buffer

/-- Start to read `content`. -/
def ofBytes (content : Bytes) (name : String := anonymousName) : Buffer :=
  ⟨name, content, 0, Nat.zero_le _⟩

/-- Start to read a string. -/
def ofString (text : String) (name : String := anonymousName) : Buffer :=
  ofBytes (utf8Bytes text) name

/-- The buffer at `target`, or at its end. -/
def moveTo (target : Nat) (b : Buffer) : Buffer :=
  { b with position := min target b.content.size, position_le := Nat.min_le_right _ _ }

/-- The byte `ahead` of the current one. -/
def byteAhead? (b : Buffer) (ahead : Nat) : Option UInt8 := b.content[b.position + ahead]?

/-- The bytes from the current one on. -/
def rest (b : Buffer) : Bytes := b.content.extract b.position b.content.size

instance : ByteSource Buffer where
  name := name
  position := position
  extent b := b.content.size
  read ahead := return ((← get).byteAhead? ahead).getD endByte
  has ahead := return ((← get).byteAhead? ahead).isSome
  advance := modify fun b => b.moveTo (b.position + 1)
  reset target := modify (moveTo target)
  find needle := return (← get).rest.idxOf? needle
  skip count := modify fun b => b.moveTo (b.position + count)

end Buffer

end ScriptFront
