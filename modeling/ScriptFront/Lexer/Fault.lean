import ScriptFront.Diagnostic.Basic
import ScriptFront.Source.Place

/-!
# Lexical errors

A `LexFault` is what is wrong with a lexeme, a `LexError` is a fault with the place where the
lexeme, or the comment, starts.
-/

namespace ScriptFront

/-- Why a text has no next token. -/
inductive LexFault where
  /-- A character that no token starts with, as messages write it. -/
  | unexpectedCharacter (shown : String)
  | malformedNumber
  | malformedCharacter
  | malformedString
  /-- The text ends inside a comment. -/
  | unclosedComment
deriving DecidableEq, Repr

namespace LexFault

/-- The code of the fault. -/
def code : LexFault → ErrorCode
  | .unexpectedCharacter _ => .unexpectedCharacter
  | .malformedNumber => .malformedNumber
  | .malformedCharacter => .malformedCharacter
  | .malformedString => .malformedString
  | .unclosedComment => .unclosedComment

/-- The fault in words. -/
def message : LexFault → String
  | .unexpectedCharacter shown => "Unexpected token '" ++ shown ++ "'"
  | .malformedNumber => "Malformed number"
  | .malformedCharacter => "Malformed character constant"
  | .malformedString => "Malformed string constant"
  | .unclosedComment => "Unexpected end of file"

/-- What the report writes beside the start of the lexeme. -/
def remark : LexFault → String
  | .unexpectedCharacter _ => "not valid here"
  | .malformedNumber => "in this number"
  | .malformedCharacter => "in this character constant"
  | .malformedString => "in this string"
  | .unclosedComment => "comment starts here"

/-- The advice that goes with a fault. -/
def notes : LexFault → List String
  | .unclosedComment => ["block comments must be closed with `*/`"]
  | _ => []

end LexFault

/-- Where an error is, at the end of its message. The end of the text has no column worth
telling. -/
def locationSuffix (code : ErrorCode) (position : Position) : String :=
  match code with
  | .unclosedComment => ""
  | _ => " at: " ++ position.describe

/-- A fault and the place where the faulty lexeme or comment starts. -/
structure LexError where
  fault : LexFault
  place : Place
deriving DecidableEq, Repr

namespace LexError

/-- The code of the error. -/
def code (e : LexError) : ErrorCode := e.fault.code

/-- The error in words. -/
def message (e : LexError) : String :=
  e.fault.message ++ locationSuffix e.code e.place.toPosition

/-- The explanation of the error. -/
def toDiagnostic (e : LexError) : Diagnostic where
  code := e.code
  message := e.message
  labels := [⟨e.place.offset, e.place.offset + 1, e.fault.remark⟩]
  notes := e.fault.notes

end LexError

end ScriptFront
