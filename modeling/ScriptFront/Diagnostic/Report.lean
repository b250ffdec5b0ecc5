import ScriptFront.Diagnostic.Excerpt
import ScriptFront.Text.Cells

/-!
# Reports

A report shows a diagnostic under the line of the text that it is about:

- the code and the message;
- the name of the text and the place, in a frame that stays open below;
- the line; marks under the label, with a stem in the middle; an arrow from the stem to what the
  label says;
- the notes, and the end of the frame.

A diagnostic without a label in the text has only its first line. `Diagnostic.report` makes the
lines, `Report.render` writes them with or without colours.
-/

namespace ScriptFront

/-! ## Coloured text -/

/-- When colours are shown. -/
inductive ColorMode where
  /-- On a terminal only. -/
  | auto
  | always
  | never
deriving DecidableEq, Repr

/-- Whether colours are shown. -/
def ColorMode.shows (mode : ColorMode) (onTerminal : Bool) : Bool :=
  match mode with
  | .auto => onTerminal
  | .always => true
  | .never => false

/-- What a piece of a report is, which gives it its colour. -/
inductive Ink where
  | plain
  /-- The error itself. -/
  | alarm
  | frame
  /-- The frame beside lines that are not of the text. -/
  | gutter
  /-- Text that the error is not about. -/
  | quiet
  | note
deriving DecidableEq, Repr

/-- The parameters of the control sequence that turns the colour on. -/
def Ink.sequence? : Ink → Option String
  | .plain => none
  | .alarm => some "31"
  | .frame => some "38;5;246"
  | .gutter => some "38;5;240"
  | .quiet => some "38;5;249"
  | .note => some "38;5;115"

/-- Text of one colour. -/
structure Piece where
  ink : Ink
  text : String
deriving DecidableEq, Repr

/-- The piece as it is written. -/
def Piece.render (colored : Bool) (p : Piece) : String :=
  match colored, p.ink.sequence? with
  | true, some sequence => "\x1b[" ++ sequence ++ "m" ++ p.text ++ "\x1b[0m"
  | _, _ => p.text

/-- Lines of coloured text. -/
abbrev Report := List (List Piece)

/-- The report as it is written, every line ended. -/
def Report.render (colored : Bool) (r : Report) : String :=
  String.join (r.map fun line => String.join (line.map (Piece.render colored)) ++ "\n")

namespace Report

/-! ## The frame -/

/-- `count` times the same character. -/
def fill (count : Nat) (c : Char) : String := "".pushn c count

/-- The number of a line, as reports count. -/
def lineNumber (e : Excerpt) : String := toString (e.spot.line + 1)

/-- The width of the column of line numbers. -/
def numberWidth (e : Excerpt) : Nat := (lineNumber e).length

/-- Stands before the marks, the arrow and the notes. -/
def gutter (e : Excerpt) : List Piece :=
  [⟨.plain, " "⟩, ⟨.gutter, fill (numberWidth e + 1) ' ' ++ "│"⟩, ⟨.plain, " "⟩]

/-- The name of the text and the place of the error. -/
def placeLine (name : String) (e : Excerpt) : List Piece :=
  [⟨.plain, fill (numberWidth e + 2) ' '⟩, ⟨.frame, "╭"⟩, ⟨.frame, "─"⟩, ⟨.frame, "["⟩,
    ⟨.plain, name ++ ":" ++ lineNumber e ++ ":" ++ toString (e.start + 1)⟩, ⟨.frame, "]"⟩]

/-- The frame alone. -/
def barLine (e : Excerpt) : List Piece :=
  [⟨.plain, fill (numberWidth e + 2) ' '⟩, ⟨.frame, "│"⟩]

/-- The end of the frame. -/
def endLine (e : Excerpt) : List Piece := [⟨.frame, fill (numberWidth e + 2) '─' ++ "╯"⟩]

/-! ## The line of the text -/

/-- How far apart tabs stop. -/
def tabStop : Nat := 4

/-- The cells of a character that stands in a column. -/
def cellsAt (column : Nat) (c : Char) : Nat :=
  if c = '\t' then tabStop - column % tabStop
  else if isWhiteSpace c then 1
  else cells c

/-- The line without white space at its end. -/
def visible (content : List Char) : List Char :=
  (content.reverse.dropWhile isWhiteSpace).reverse

/-- A character as it is shown: white space as blanks. -/
def shown (column : Nat) (c : Char) : List String :=
  if isWhiteSpace c then List.replicate (cellsAt column c) " " else [String.singleton c]

/-- The line of the text. -/
def textLine (e : Excerpt) : List Piece :=
  [⟨.plain, " "⟩, ⟨.frame, lineNumber e ++ " │"⟩, ⟨.plain, " "⟩] ++
    (visible e.spot.content).zipIdx.flatMap fun (c, column) =>
      (shown column c).map fun text => ⟨if e.covers column then .alarm else .quiet, text⟩

/-! ## Marks and arrow -/

/-- What is drawn under a character: something in its first cell, something in all others. -/
structure Stroke where
  first : Piece
  others : Piece

/-- Nothing. -/
def Stroke.blank : Stroke := ⟨⟨.plain, " "⟩, ⟨.plain, " "⟩⟩

/-- The same in all cells. -/
def Stroke.even (c : Char) : Stroke := ⟨⟨.alarm, c.toString⟩, ⟨.alarm, c.toString⟩⟩

/-- The cells of a stroke. -/
def Stroke.draw (s : Stroke) : (count : Nat) → List Piece
  | 0 => []
  | count + 1 => s.first :: List.replicate count s.others

/-- Draw under every column up to two behind the label. Columns behind the visible text have one
cell. -/
def drawColumns (e : Excerpt) (stroke : Nat → Stroke) : List Piece :=
  let text := visible e.spot.content
  (List.range (e.stop + 2)).flatMap fun column =>
    (stroke column).draw ((text[column]?).elim 1 (cellsAt column))

/-- The mark in a column. -/
def markAt (e : Excerpt) (column : Nat) : Stroke :=
  if column = e.middle then
    if e.covers column then ⟨⟨.alarm, "┬"⟩, ⟨.alarm, "─"⟩⟩ else ⟨⟨.alarm, "│"⟩, ⟨.alarm, " "⟩⟩
  else if e.covers column then .even '─'
  else .blank

/-- The part of the arrow in a column. -/
def arrowAt (e : Excerpt) (column : Nat) : Stroke :=
  if column < e.middle then .blank
  else if column = e.middle then ⟨⟨.alarm, "╰"⟩, ⟨.alarm, "─"⟩⟩
  else .even '─'

/-- The line with its marks and its arrow. A label that leaves the line is not drawn. -/
def excerptLines (e : Excerpt) (message : String) : Report :=
  if e.fits then
    [textLine e, gutter e ++ drawColumns e (markAt e),
      gutter e ++ drawColumns e (arrowAt e) ++ [⟨.plain, " " ++ message⟩]]
  else [gutter e]

/-! ## Notes -/

/-- The notes, if there are any. -/
def noteLines (e : Excerpt) : List String → Report
  | [] => []
  | notes =>
    [gutter e, gutter e ++ [⟨.note, "Note"⟩, ⟨.plain, ": " ++ "\n".intercalate notes⟩]]

end Report

/-- The report of a diagnostic on a text. -/
def Diagnostic.report (name : String) (text : List Char) (d : Diagnostic) : Report :=
  let title : List Piece :=
    [⟨.alarm, "[" ++ d.code.label ++ "] Error:"⟩, ⟨.plain, " " ++ d.message⟩]
  match d.primary?.bind fun l => (Excerpt.ofLabel? text l).map fun e => (e, l.message) with
  | none => [title]
  | some (e, message) =>
    [title, Report.placeLine name e, Report.barLine e] ++ Report.excerptLines e message ++
      Report.noteLines e d.notes ++ [Report.endLine e]

end ScriptFront
