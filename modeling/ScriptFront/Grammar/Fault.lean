import ScriptFront.Lexer.Fault
import ScriptFront.Token.Kind

/-!
# Syntax errors

A `SyntaxFault` is why a text does not fit the grammar; a `SyntaxError` adds the place and what
was being read. Lexical faults that a reading meets are syntax faults too.

- `SyntaxFault.message`, `SyntaxFault.code`: the fault in words and its code.
- `SyntaxFault.expected`: the tokens that would have fitted.
- `SyntaxError.within`: say what was being read, unless something more specific was said before.
-/

namespace ScriptFront

/-- What was being read. -/
inductive ErrorContext where
  | includes
  | namespaces
  | classes
  | interfaces
  | structs
  | enums
  | traits
  | functions
  | genericParams
  | parameters
  | lambda
  | select
  | new
deriving DecidableEq, Repr

/-- How reports name what was being read. -/
def ErrorContext.describe : ErrorContext → String
  | .includes => "an include declaration"
  | .namespaces => "a namespace"
  | .classes => "a class"
  | .interfaces => "an interface"
  | .structs => "a struct"
  | .enums => "an enum"
  | .traits => "a trait"
  | .functions => "a function"
  | .genericParams => "generic parameters"
  | .parameters => "function parameters"
  | .lambda => "a lambda"
  | .select => "a match"
  | .new => "a new expression"

/-- Where `void` may not stand. -/
inductive VoidUse where
  | nullable
  /-- A value of that type would be needed. -/
  | value
  | argument
  | variable
  | parameter (name : Option String)
deriving DecidableEq, Repr

/-- Modifiers that do not go together. -/
inductive ModifierClash where
  | staticAbstract
  | staticVirtual
  | staticConstructor
  | staticDestructor
  | destructorAccess
  /-- An abstract function that overrides or is final. -/
  | abstractFunction (name : String)
deriving DecidableEq, Repr

/-- Why a text does not fit the grammar. `found` is the text of the token at fault. -/
inductive SyntaxFault where
  | lexical (fault : LexFault)
  | wrongToken (expected : TokenKind) (found : String)
  | missingIdentifier (found : String)
  | noneOf (expected : List TokenKind) (found : String)
  | unexpected (found : String)
  | unclosedFunctionType
  | unclosedParameters
  | modifierClash (clash : ModifierClash)
  | misplacedVoid (use : VoidUse)
  /-- A constraint on another name than the parameter's. -/
  | foreignConstraint (name : String)
  | nullableConstraint
  | selfOutsideTrait
  | arraySize (text : String)
  | notABase (className : String)
  | notAnInterface (className : String)
  /-- Deeper nesting than a reading is prepared for, which no text has. -/
  | tooDeep
deriving DecidableEq, Repr

/-- Where `void` stands, in words. -/
def VoidUse.message : VoidUse → String
  | .nullable => "'void' type can't be nullable"
  | .value => "Unexpected type 'void'"
  | .argument => "Generic item can't be 'void'"
  | .variable => "Variables or constant can't have void type"
  | .parameter none => "Parameter can't have void type"
  | .parameter (some name) => "Parameter '" ++ name ++ "' can't have void type"

/-- The clash in words. -/
def ModifierClash.message : ModifierClash → String
  | .staticAbstract => "Static function can't be abstract"
  | .staticVirtual => "Static function can't be virtual"
  | .staticConstructor => "Constructors can't be static"
  | .staticDestructor => "Destructor can't be static"
  | .destructorAccess => "Destructors are public, can't have any access modifier"
  | .abstractFunction name =>
    "Abstract function '" ++ name ++ "' can't have override or final modifiers"

/-- Token kinds in quotes, with commas between them. -/
def listKinds (kinds : List TokenKind) : String :=
  ", ".intercalate (kinds.map fun kind => "'" ++ kind.describe ++ "'")

namespace SyntaxFault

/-- The code of the fault. -/
def code : SyntaxFault → ErrorCode
  | .lexical fault => fault.code
  | .wrongToken .. => .wrongToken
  | .missingIdentifier _ => .missingIdentifier
  | .noneOf .. | .unexpected _ | .unclosedFunctionType | .unclosedParameters | .tooDeep =>
    .unexpectedToken
  | .modifierClash _ => .invalidModifier
  | .misplacedVoid _ => .misplacedVoid
  | .foreignConstraint _ | .nullableConstraint => .invalidConstraint
  | .selfOutsideTrait | .arraySize _ | .notABase _ | .notAnInterface _ => .invalidType

/-- The fault in words. -/
def message : SyntaxFault → String
  | .lexical fault => fault.message
  | .wrongToken expected found =>
    "Expected token '" ++ expected.describe ++ "', received '" ++ found ++ "'"
  | .missingIdentifier found => "Expected an identifier, received '" ++ found ++ "'"
  | .noneOf expected found =>
    "Unexpected token '" ++ found ++ "', expected " ++ listKinds expected
  | .unexpected found => "Unexpected token '" ++ found ++ "'"
  | .unclosedFunctionType => "Expected ')', '->' or ',' declaration"
  | .unclosedParameters => "Expected ',' or ')' token"
  | .modifierClash clash => clash.message
  | .misplacedVoid use => use.message
  | .foreignConstraint name => "Where identifier must be like generic identifier: " ++ name
  | .nullableConstraint => "Where types can't be nullable"
  | .selfOutsideTrait => "Self type only can be declared in traits"
  | .arraySize text => "Array size '" ++ text ++ "' is out of range"
  | .notABase className => "class '" ++ className ++ "' extends must be a class element"
  | .notAnInterface className =>
    "class '" ++ className ++ "' implements must be a interface element"
  | .tooDeep => "Nesting is too deep"

/-- The tokens that would have fitted. -/
def expected : SyntaxFault → List TokenKind
  | .wrongToken kind _ => [kind]
  | .missingIdentifier _ => [.identifier]
  | .noneOf kinds _ => kinds
  | _ => []

/-- The text of the token or character at fault. -/
def found? : SyntaxFault → Option String
  | .lexical (.unexpectedCharacter shown) => some shown
  | .wrongToken _ found | .missingIdentifier found | .noneOf _ found | .unexpected found =>
    some found
  | _ => none

end SyntaxFault

/-- A fault, its place, and what was being read there. -/
structure SyntaxError where
  fault : SyntaxFault
  place : Place
  context : Option ErrorContext
deriving DecidableEq, Repr

/-- A lexical error that a reading meets. -/
def LexError.toSyntaxError (e : LexError) : SyntaxError := ⟨.lexical e.fault, e.place, none⟩

namespace SyntaxError

/-- The code of the error. -/
def code (e : SyntaxError) : ErrorCode := e.fault.code

/-- The error in words. -/
def message (e : SyntaxError) : String :=
  e.fault.message ++ locationSuffix e.code e.place.toPosition

/-- Say what was being read, unless something more specific was said before. -/
def within (context : ErrorContext) (e : SyntaxError) : SyntaxError :=
  { e with context := e.context.or (some context) }

/-- How many bytes of the text the error is about. -/
def width (e : SyntaxError) : Nat :=
  match e.fault.found? with
  | some text => max 1 text.utf8ByteSize
  | none => 1

/-- What the report writes beside the place. -/
def remark (e : SyntaxError) : String :=
  match e.context with
  | some context => "while parsing " ++ context.describe
  | none => "here"

/-- The advice that goes with the error. -/
def notes (e : SyntaxError) : List String :=
  match e.fault.expected with
  | [] => []
  | [kind] => ["expected '" ++ kind.describe ++ "'"]
  | kinds => ["expected one of " ++ listKinds kinds]

/-- The explanation of the error. -/
def toDiagnostic (e : SyntaxError) : Diagnostic where
  code := e.code
  message := e.message
  labels := [⟨e.place.offset, e.place.offset + e.width, e.remark⟩]
  notes := e.notes

end SyntaxError

end ScriptFront
