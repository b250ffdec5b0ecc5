/-!
# Error codes

Every error of the front end has a code. The first digit tells the phase: zero for reading the
text and cutting it into tokens, one for the grammar.
-/

namespace ScriptFront

/-- The part of the front end that an error comes from. -/
inductive Phase where
  | lexical
  | syntactic
deriving DecidableEq, Repr

/-- How reports name a phase. -/
def Phase.describe : Phase → String
  | .lexical => "lexical error"
  | .syntactic => "syntax error"

/-- What kind of error it is. -/
inductive ErrorCode where
  | unexpectedCharacter
  | malformedNumber
  | malformedCharacter
  | malformedString
  /-- The text ends inside a comment. -/
  | unclosedComment
  | fileNotFound
  /-- Another token than the one that has to stand here. -/
  | wrongToken
  | missingIdentifier
  /-- None of the tokens that may stand here. -/
  | unexpectedToken
  | invalidModifier
  /-- `void` where a value needs a type. -/
  | misplacedVoid
  | invalidConstraint
  | invalidType
deriving DecidableEq, Repr

namespace ErrorCode

/-- The code itself. -/
def label : ErrorCode → String
  | .unexpectedCharacter => "E0001"
  | .malformedNumber => "E0002"
  | .malformedCharacter => "E0003"
  | .malformedString => "E0004"
  | .unclosedComment => "E0005"
  | .fileNotFound => "E0006"
  | .wrongToken => "E1001"
  | .missingIdentifier => "E1002"
  | .unexpectedToken => "E1003"
  | .invalidModifier => "E1004"
  | .misplacedVoid => "E1005"
  | .invalidConstraint => "E1006"
  | .invalidType => "E1007"

/-- All codes. -/
def all : List ErrorCode :=
  [.unexpectedCharacter, .malformedNumber, .malformedCharacter, .malformedString,
    .unclosedComment, .fileNotFound, .wrongToken, .missingIdentifier, .unexpectedToken,
    .invalidModifier, .misplacedVoid, .invalidConstraint, .invalidType]

/-- The error in a few words. -/
def description : ErrorCode → String
  | .unexpectedCharacter => "unexpected character"
  | .malformedNumber => "malformed number"
  | .malformedCharacter => "malformed character constant"
  | .malformedString => "malformed string constant"
  | .unclosedComment => "unexpected end of file"
  | .fileNotFound => "file not found"
  | .wrongToken => "unexpected token"
  | .missingIdentifier => "expected identifier"
  | .unexpectedToken => "unexpected token"
  | .invalidModifier => "invalid modifier"
  | .misplacedVoid => "invalid use of `void`"
  | .invalidConstraint => "invalid generic constraint"
  | .invalidType => "invalid type"

/-- The phase that raises the error. -/
def phase : ErrorCode → Phase
  | .unexpectedCharacter | .malformedNumber | .malformedCharacter | .malformedString
  | .unclosedComment | .fileNotFound => .lexical
  | .wrongToken | .missingIdentifier | .unexpectedToken | .invalidModifier | .misplacedVoid
  | .invalidConstraint | .invalidType => .syntactic

theorem mem_all (code : ErrorCode) : code ∈ all := by cases code <;> decide

/-- No two codes share a label. -/
theorem label_injective {a b : ErrorCode} (h : a.label = b.label) : a = b := by
  cases a <;> cases b <;> first | rfl | exact absurd h (by decide)

end ErrorCode

end ScriptFront
