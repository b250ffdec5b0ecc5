import ScriptFront.Lexer.Scan

/-!
# What stands between tokens

White space, comments to the end of the line, and comments between `/*` and `*/`, which do not
nest. A comment that the text does not close is an error at its start, and the walker goes back
there.
-/

namespace ScriptFront

/-- Read tokens, or stop at an error with a place. -/
abbrev Lex (σ : Type) := ExceptT LexError (StateM (Walker σ))

namespace Lexer

variable {σ : Type} [ByteSource σ]

/-- Whether a comment is closed at the current byte. -/
def atCommentEnd : StateM (Walker σ) Bool := do
  if (← Walker.current) = byteOf '*' then return (← Walker.read 1) = byteOf '/'
  else return false

/-- Go back to a place and report a fault there. -/
def failAt {α : Type} (fault : LexFault) (start : Place) : Lex σ α := do
  walk (Walker.reset start)
  throw ⟨fault, start.stored⟩

/-- Go behind the end of a comment that starts at `start`. -/
def closeComment (start : Place) : (steps : Nat) → Lex σ Unit
  | 0 => failAt .unclosedComment start
  | steps + 1 => do
    if ← walk Walker.atEnd then failAt .unclosedComment start
    else if ← walk atCommentEnd then walk (Walker.advanceBy 2)
    else
      walk Walker.advance
      closeComment start steps

/-- Go behind the comment at the current byte. -/
def skipComment : Lex σ Unit := do
  let w ← get
  walk (Walker.advanceBy 2)
  closeComment w.place (w.extent + 1)

/-- Go behind white space and comments, at most `steps` of them. -/
def skipUpTo : (steps : Nat) → Lex σ Unit
  | 0 => return ()
  | steps + 1 => do
    if ← walk Walker.atEnd then return ()
    let first ← walk Walker.current
    let second ← walk (Walker.read 1)
    if isBlank first then
      walk Walker.advance
      skipUpTo steps
    else if first = byteOf '/' && second = byteOf '/' then
      walk Walker.skipLine
      skipUpTo steps
    else if first = byteOf '/' && second = byteOf '*' then
      skipComment
      skipUpTo steps
    else return ()

/-- Go to the next token. -/
def skip : Lex σ Unit := do
  skipUpTo ((← get).extent + 2)

end Lexer

end ScriptFront
