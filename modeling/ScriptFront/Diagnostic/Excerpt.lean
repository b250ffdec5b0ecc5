import ScriptFront.Diagnostic.Basic

/-!
# Finding the excerpt of a text

Labels count bytes, reports count characters. A label is shown in the line where it starts.

- `charIndex`: the number of the character at a byte.
- `splitLines`, `locate`: the lines of a text, and the line of a character.
- `Excerpt.ofLabel?`: the line that a label starts in, and the label's columns there.
-/

namespace ScriptFront

/-! ## Characters and bytes -/

/-- How many characters lie in the first `bytes` bytes of a text, if no character is cut in two
there. All of them do if the text is shorter. -/
def countChars : List Char → (bytes : Nat) → Option Nat
  | _, 0 => some 0
  | [], _ => some 0
  | c :: rest, bytes =>
    if c.utf8Size ≤ bytes then (countChars rest (bytes - c.utf8Size)).map (· + 1) else none

/-- The number of the character at a byte. A byte within a character keeps its own number. -/
def charIndex (text : List Char) (byte : Nat) : Nat := (countChars text byte).getD byte

/-- The characters that a label is about, from the first up to the second number. -/
def Label.charRange (text : List Char) (l : Label) : Nat × Nat :=
  let start := charIndex text l.start
  (start, max start (charIndex text l.stop))

/-! ## Lines -/

/-- The characters that end a line. A line feed behind a carriage return belongs to it. -/
def lineBreaks : List Char :=
  ['\n', '\r', '\x0B', '\x0C', '\u0085', '\u2028', '\u2029']

/-- The lines of a text, each with what ends it. -/
def splitLines : List Char → List (List Char)
  | [] => []
  | c :: rest =>
    if lineBreaks.contains c && !(c == '\r' && rest.head? == some '\n') then
      [c] :: splitLines rest
    else match splitLines rest with
      | [] => [[c]]
      | line :: lines => (c :: line) :: lines

theorem flatten_splitLines (text : List Char) : (splitLines text).flatten = text := by
  fun_induction splitLines text with
  | case1 => rfl
  | case2 c rest _ ih => simp [ih]
  | case3 c rest _ h ih => simp [h] at ih; simp [ih]
  | case4 c rest _ line lines h ih => simp [h] at ih; simp [ih]

/-- A line of a text and a column in it, both counted from zero. -/
structure Spot where
  line : Nat
  column : Nat
  content : List Char
deriving DecidableEq, Repr

/-- The line of a character, the lines in front being `number`. The end of the text belongs to the
last line. -/
def locateFrom (number : Nat) : (lines : List (List Char)) → (index : Nat) → Option Spot
  | [], _ => none
  | [line], index => if index ≤ line.length then some ⟨number, index, line⟩ else none
  | line :: lines, index =>
    if index < line.length then some ⟨number, index, line⟩
    else locateFrom (number + 1) lines (index - line.length)

/-- The line of a character. -/
def locate (text : List Char) (index : Nat) : Option Spot := locateFrom 0 (splitLines text) index

/-! ## Excerpts -/

/-- A line of a text, and the columns of it that a label is about. -/
structure Excerpt where
  spot : Spot
  /-- The column behind the label. -/
  stop : Nat
deriving DecidableEq, Repr

namespace Excerpt

/-- The line that a label starts in; none if the label is not in the text. -/
def ofLabel? (text : List Char) (l : Label) : Option Excerpt := do
  let (start, stop) := l.charRange text
  let spot ← locate text start
  let _ ← locate text (max start (stop - 1))
  return ⟨spot, spot.column + (stop - start)⟩

/-- The column where the label starts. -/
def start (e : Excerpt) : Nat := e.spot.column

/-- Whether the label ends in the line where it starts. -/
def fits (e : Excerpt) : Bool := e.stop ≤ e.spot.content.length

/-- Whether the label is about a column. -/
def covers (e : Excerpt) (column : Nat) : Bool := e.start ≤ column && column < e.stop

/-- The column in the middle of the label. -/
def middle (e : Excerpt) : Nat := e.start + (e.stop - e.start) / 2

end Excerpt

end ScriptFront
