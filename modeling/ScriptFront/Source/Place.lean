/-!
# Places in a text

A `Position` is what a reader of the text sees (line and column), a `Place` adds the offset
of the byte. Both move over bytes by one rule (`Position.after`):

- a newline starts the next line at column one;
- a tab is as wide as the tab width says;
- every other byte, whatever character it belongs to, is one column.

Lines and columns are counted in 32 bits, so a count beyond them goes on from zero.
-/

namespace ScriptFront

/-- Line and column, both counted from one; columns count bytes. -/
structure Position where
  line : UInt32
  column : UInt32
deriving DecidableEq, Repr, Inhabited

/-- A position with the offset of its byte, counted from zero. -/
structure Place extends Position where
  offset : Nat
deriving DecidableEq, Repr, Inhabited

/-- The byte that ends a line. -/
def newline : UInt8 := 10

/-- The byte whose width is configurable. -/
def tabulator : UInt8 := 9

/-- The width of a tab where none is asked for. -/
def defaultTabWidth : UInt32 := 4

/-- The largest number that a stored offset, and the column after a skipped line, can hold. -/
def counterLimit : Nat := UInt32.size - 1

/-- A column moved by some bytes at once; it stops at the limit. -/
def columnBehind (column : UInt32) (run : Nat) : UInt32 :=
  UInt32.ofNat (min (column.toNat + run) counterLimit)

namespace Position

/-- The position of the first byte. -/
def start : Position := ⟨1, 1⟩

/-- The position behind a byte that stands at `p`. -/
def after (tabWidth : UInt32) (byte : UInt8) (p : Position) : Position :=
  if byte = newline then ⟨p.line + 1, 1⟩
  else if byte = tabulator then ⟨p.line, p.column + tabWidth⟩
  else ⟨p.line, p.column + 1⟩

/-- How messages name a position. -/
def describe (p : Position) : String :=
  "line " ++ toString p.line ++ ", column " ++ toString p.column

end Position

namespace Place

/-- The place of the first byte. -/
def start : Place := ⟨Position.start, 0⟩

/-- The place behind a byte that stands at `p`. -/
def after (tabWidth : UInt32) (byte : UInt8) (p : Place) : Place :=
  ⟨p.toPosition.after tabWidth byte, p.offset + 1⟩

/-- The place behind a run of bytes that starts at `p`. -/
def afterAll (tabWidth : UInt32) (bytes : List UInt8) (p : Place) : Place :=
  bytes.foldl (fun place byte => place.after tabWidth byte) p

/-- The place as tokens and errors store it: an offset beyond the limit is stored as the limit. -/
def stored (p : Place) : Place :=
  ⟨p.toPosition, min p.offset counterLimit⟩

end Place

/-! ## The rule over runs of bytes -/

namespace Place

@[simp] theorem afterAll_nil (tabWidth : UInt32) (p : Place) : afterAll tabWidth [] p = p := rfl

@[simp] theorem afterAll_cons (tabWidth : UInt32) (byte : UInt8) (bytes : List UInt8) (p : Place) :
    afterAll tabWidth (byte :: bytes) p = afterAll tabWidth bytes (p.after tabWidth byte) := rfl

theorem afterAll_append (tabWidth : UInt32) (xs ys : List UInt8) (p : Place) :
    afterAll tabWidth (xs ++ ys) p = afterAll tabWidth ys (afterAll tabWidth xs p) :=
  List.foldl_append

@[simp] theorem offset_after (tabWidth : UInt32) (byte : UInt8) (p : Place) :
    (p.after tabWidth byte).offset = p.offset + 1 := rfl

/-- Every byte moves the offset by one, whatever it does to line and column. -/
theorem offset_afterAll (tabWidth : UInt32) (bytes : List UInt8) (p : Place) :
    (afterAll tabWidth bytes p).offset = p.offset + bytes.length := by
  induction bytes generalizing p with
  | nil => rfl
  | cons byte bytes ih => simp [ih]; omega

end Place

end ScriptFront
