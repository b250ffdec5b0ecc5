import ScriptFront.Source.Place
import ScriptFront.Token.Keyword
import ScriptFront.Token.Symbol

/-!
# Tokens

A `Token` is a classified lexeme with its place. Its text is the lexeme as the grammar sees it:
without the quotes of literals, the radix marks of numbers and their size suffixes.

- `TokenKind`: the category; keywords, symbols and number literals carry which one they are.
- `TokenKind.describe`: how messages name a category.
- `TokenKind.name`: how listings name it.
-/

namespace ScriptFront

/-- How an integer literal is written: with a size, or in a radix other than ten. -/
inductive IntegerForm where
  | i8
  | u8
  | i16
  | u16
  | i32
  | u32
  | i64
  | u64
  | hex
  | bin
deriving DecidableEq, Repr

/-- The size of a real literal. -/
inductive RealForm where
  | fp32
  | fp64
deriving DecidableEq, Repr

namespace IntegerForm

/-- The short name of the form. -/
def tag : IntegerForm → String
  | .i8 => "i8"
  | .u8 => "u8"
  | .i16 => "i16"
  | .u16 => "u16"
  | .i32 => "i32"
  | .u32 => "u32"
  | .i64 => "i64"
  | .u64 => "u64"
  | .hex => "hex"
  | .bin => "bin"

/-- The name of the form in listings and trees. -/
def name (form : IntegerForm) : String := form.tag.capitalize

/-- How messages name a constant of the form. -/
def describe : IntegerForm → String
  | .hex => "hexadecimal constant"
  | .bin => "binary constant"
  | form => form.tag ++ " constant"

/-- The radix of the digits. -/
def radix : IntegerForm → Nat
  | .hex => 16
  | .bin => 2
  | _ => 10

/-- All forms. -/
def all : List IntegerForm := [.i8, .u8, .i16, .u16, .i32, .u32, .i64, .u64, .hex, .bin]

theorem mem_all (form : IntegerForm) : form ∈ all := by cases form <;> decide

end IntegerForm

namespace RealForm

/-- The short name of the form. -/
def tag : RealForm → String
  | .fp32 => "fp32"
  | .fp64 => "fp64"

/-- The name of the form in listings and trees. -/
def name (form : RealForm) : String := form.tag.capitalize

/-- All forms. -/
def all : List RealForm := [.fp32, .fp64]

theorem mem_all (form : RealForm) : form ∈ all := by cases form <;> decide

end RealForm

/-- The category of a token. -/
inductive TokenKind where
  | identifier
  /-- The end of the text. -/
  | eof
  | keyword (word : Keyword)
  | symbol (mark : Symbol)
  | integer (form : IntegerForm)
  | real (form : RealForm)
  | character
  | string
deriving DecidableEq, Repr

namespace TokenKind

/-- A keyword that names a primitive type. -/
abbrev primitive (type : PrimitiveType) : TokenKind := .keyword (.primitive type)

/-- How messages name the category: keywords and symbols by their spelling. -/
def describe : TokenKind → String
  | .identifier => "identifier"
  | .eof => "<eof>"
  | .keyword word => word.spelling
  | .symbol mark => mark.spelling
  | .integer form => form.describe
  | .real form => form.tag ++ " constant"
  | .character => "character constant"
  | .string => "string constant"

/-- How listings name the category. -/
def name : TokenKind → String
  | .identifier => "Identifier"
  | .eof => "Eof"
  | .keyword word => word.name
  | .symbol mark => mark.name
  | .integer form => "Constant" ++ form.name
  | .real form => "Constant" ++ form.name
  | .character => "ConstantChar"
  | .string => "ConstantString"

/-- All categories. -/
def all : List TokenKind :=
  [.identifier, .eof, .character, .string] ++ Keyword.all.map keyword ++ Symbol.all.map symbol ++
    IntegerForm.all.map integer ++ RealForm.all.map real

/-- The form of an integer literal. -/
def integerForm? : TokenKind → Option IntegerForm
  | .integer form => some form
  | _ => none

/-- The form of a real literal. -/
def realForm? : TokenKind → Option RealForm
  | .real form => some form
  | _ => none

/-- The primitive type that a keyword names. -/
def primitive? : TokenKind → Option PrimitiveType
  | .keyword (.primitive type) => some type
  | _ => none

theorem mem_all (kind : TokenKind) : kind ∈ all := by
  cases kind with
  | keyword word => simp [all, Keyword.mem_all]
  | symbol mark => simp [all, Symbol.mem_all]
  | integer form => simp [all, IntegerForm.mem_all]
  | real form => simp [all, RealForm.mem_all]
  | _ => simp [all]

end TokenKind

instance : Coe Keyword TokenKind := ⟨.keyword⟩
instance : Coe Symbol TokenKind := ⟨.symbol⟩

/-- A classified lexeme. -/
structure Token where
  kind : TokenKind
  text : String
  place : Place
deriving DecidableEq, Repr

namespace Token

/-- Line and column of the first byte of the lexeme. -/
abbrev position (t : Token) : Position := t.place.toPosition

/-- How listings show a token. -/
def display (t : Token) : String :=
  t.kind.name ++ " '" ++ t.text ++ "' @ " ++ toString t.place.line ++ ":" ++
    toString t.place.column

end Token

end ScriptFront
