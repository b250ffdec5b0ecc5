import ScriptFront.Command.Load
import ScriptFront.Lexer.Next

/-!
# Listing tokens

One line for each token, then their number. At an error the listing stops and a report follows.
-/

namespace ScriptFront

/-- A text with blanks before it, up to a width. -/
def padLeft (width : Nat) (text : String) : String := "".pushn ' ' (width - text.length) ++ text

/-- A text with blanks behind it, up to a width. -/
def padRight (width : Nat) (text : String) : String := text.pushn ' ' (width - text.length)

/-- The line of a token. -/
def Token.listing (t : Token) : String :=
  padLeft 4 (toString t.place.line) ++ ":" ++ padRight 4 (toString t.place.column) ++ " " ++
    t.kind.name ++ " " ++ t.text ++ "\n"

/-- List the tokens of a text. -/
def listTokens (path : String) (content : Bytes) (tabWidth : UInt32) (colored : Bool) : Outcome :=
  let ((tokens, failed), _) := Lexer.run (Walker.ofSource (Buffer.ofBytes content path) tabWidth)
  let listing := Outcome.print (String.join (tokens.toList.map Token.listing))
  match failed with
  | none => listing.andThen (.print (toString tokens.size ++ " tokens\n"))
  | some e => listing.andThen (reportOutcome path content e.toDiagnostic colored)

/-- List the tokens of a file. -/
def lexFile {m : Type → Type} [Monad m] [FileAccess m] (path : String) (tabWidth : UInt32)
    (colored : Bool) : m Outcome := do
  match ← load path with
  | .ok content => return listTokens path content tabWidth colored
  | .error fault => return fault.outcome

end ScriptFront
