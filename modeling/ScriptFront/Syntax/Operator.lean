import ScriptFront.Token.Kind

/-!
# Operators

The operators of expressions and the tokens that write them. Assignment, member access and scope
are binary operators too.

- `BinaryOp.symbol`: the symbol of a binary operator; `BinaryOp.ofKind?` is its inverse.
- `UnaryOp.ofKind?`: the prefix operator that a token writes.
-/

namespace ScriptFront

/-- An operator with two operands. -/
inductive BinaryOp where
  | comma
  | assign
  | addAssign
  | subAssign
  | mulAssign
  | divAssign
  | modAssign
  | bitOrAssign
  | bitXorAssign
  | bitAndAssign
  | shlAssign
  | shrAssign
  | or
  | and
  | bitOr
  | bitXor
  | bitAnd
  | shl
  | shr
  | eq
  | notEq
  | gt
  | lt
  | gtEq
  | ltEq
  | add
  | sub
  | mul
  | div
  | mod
  | member
  /-- Member access that passes an absent value on. -/
  | safeMember
  | scope
deriving DecidableEq, Repr

namespace BinaryOp

/-- All binary operators. -/
def all : List BinaryOp :=
  [.comma, .assign, .addAssign, .subAssign, .mulAssign, .divAssign, .modAssign, .bitOrAssign,
    .bitXorAssign, .bitAndAssign, .shlAssign, .shrAssign, .or, .and, .bitOr, .bitXor, .bitAnd,
    .shl, .shr, .eq, .notEq, .gt, .lt, .gtEq, .ltEq, .add, .sub, .mul, .div, .mod, .member,
    .safeMember, .scope]

/-- The symbol of the operator. -/
def symbol : BinaryOp → Symbol
  | .comma => .comma
  | .assign => .eq
  | .addAssign => .plusEq
  | .subAssign => .minusEq
  | .mulAssign => .starEq
  | .divAssign => .slashEq
  | .modAssign => .percentEq
  | .bitOrAssign => .pipeEq
  | .bitXorAssign => .caretEq
  | .bitAndAssign => .ampEq
  | .shlAssign => .shlEq
  | .shrAssign => .shrEq
  | .or => .pipePipe
  | .and => .ampAmp
  | .bitOr => .pipe
  | .bitXor => .caret
  | .bitAnd => .amp
  | .shl => .shl
  | .shr => .shr
  | .eq => .eqEq
  | .notEq => .notEq
  | .gt => .gt
  | .lt => .lt
  | .gtEq => .gtEq
  | .ltEq => .ltEq
  | .add => .plus
  | .sub => .minus
  | .mul => .star
  | .div => .slash
  | .mod => .percent
  | .member => .dot
  | .safeMember => .questionDot
  | .scope => .colonColon

/-- The name of the operator in listings and trees. -/
def name : BinaryOp → String
  | .comma => "Comma"
  | .assign => "Assign"
  | .addAssign => "AddAssign"
  | .subAssign => "SubAssign"
  | .mulAssign => "MulAssign"
  | .divAssign => "DivAssign"
  | .modAssign => "ModAssign"
  | .bitOrAssign => "BitOrAssign"
  | .bitXorAssign => "BitXorAssign"
  | .bitAndAssign => "BitAndAssign"
  | .shlAssign => "ShlAssign"
  | .shrAssign => "ShrAssign"
  | .or => "Or"
  | .and => "And"
  | .bitOr => "BitOr"
  | .bitXor => "BitXor"
  | .bitAnd => "BitAnd"
  | .shl => "Shl"
  | .shr => "Shr"
  | .eq => "Eq"
  | .notEq => "NotEq"
  | .gt => "Gt"
  | .lt => "Lt"
  | .gtEq => "GtEq"
  | .ltEq => "LtEq"
  | .add => "Add"
  | .sub => "Sub"
  | .mul => "Mul"
  | .div => "Div"
  | .mod => "Mod"
  | .member => "Member"
  | .safeMember => "SafeMember"
  | .scope => "Scope"

/-- The operator that a token writes between two operands. -/
def ofKind? : TokenKind → Option BinaryOp
  | .symbol mark => all.find? fun op => op.symbol = mark
  | _ => none

theorem mem_all (op : BinaryOp) : op ∈ all := by cases op <;> decide

end BinaryOp

/-- An operator with one operand. -/
inductive UnaryOp where
  | not
  | bitNot
  | neg
  | plus
  | increment
  | decrement
  | ref
  | shared
deriving DecidableEq, Repr

/-- On which side of its operand an operator stands. -/
inductive Fixity where
  | before
  | behind
deriving DecidableEq, Repr

namespace UnaryOp

/-- The token that writes the operator. -/
def token : UnaryOp → TokenKind
  | .not => Symbol.bang
  | .bitNot => Symbol.tilde
  | .neg => Symbol.minus
  | .plus => Symbol.plus
  | .increment => Symbol.plusPlus
  | .decrement => Symbol.minusMinus
  | .ref => Keyword.refKw
  | .shared => Keyword.sharedKw

/-- The name of the operator in listings and trees. -/
def name : UnaryOp → String
  | .not => "Not"
  | .bitNot => "BitNot"
  | .neg => "Neg"
  | .plus => "Plus"
  | .increment => "Increment"
  | .decrement => "Decrement"
  | .ref => "Ref"
  | .shared => "Shared"

/-- All unary operators. -/
def all : List UnaryOp :=
  [.not, .bitNot, .neg, .plus, .increment, .decrement, .ref, .shared]

/-- The operator that a token writes before its operand. -/
def ofKind? (kind : TokenKind) : Option UnaryOp := all.find? fun op => op.token = kind

theorem mem_all (op : UnaryOp) : op ∈ all := by cases op <;> decide

@[simp] theorem ofKind?_token (op : UnaryOp) : ofKind? op.token = some op := by
  cases op <;> decide

end UnaryOp

namespace Fixity

/-- The name of a side in listings and trees. -/
def name : Fixity → String
  | .before => "Prefix"
  | .behind => "Postfix"

/-- Both sides. -/
def all : List Fixity := [.before, .behind]

theorem mem_all (f : Fixity) : f ∈ all := by cases f <;> decide

end Fixity

end ScriptFront
