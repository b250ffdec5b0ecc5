import ScriptFront.Syntax.Operator

/-!
# Precedence

What may stand behind an operand, and how tightly it binds. A higher level binds tighter.

- `Continuation.ofKind?`: what a token behind an operand begins.
- `Continuation.level`: how tightly it binds.
- `BinaryOp.rightLevel`: the level at which the right operand is read. It is the next one, so that
  operators of one level group to the left; assignments group to the right.
-/

namespace ScriptFront

namespace Level

/-- Any expression, comma chains included. -/
def chain : Nat := 1

/-- One value: no comma outside parentheses. -/
def single : Nat := 2

/-- One value without assignment and `?:` outside parentheses. -/
def item : Nat := 3

/-- Casts and type tests, and the operand of an operator that stands before it. -/
def operand : Nat := 13

/-- Calls, indices, member access, `++` and `--`. -/
def access : Nat := 14

/-- Scope chains of atoms. -/
def path : Nat := 15

end Level

namespace BinaryOp

/-- How tightly the operator binds. -/
def level : BinaryOp → Nat
  | .comma => Level.chain
  | .assign | .addAssign | .subAssign | .mulAssign | .divAssign | .modAssign | .bitOrAssign
  | .bitXorAssign | .bitAndAssign | .shlAssign | .shrAssign => Level.single
  | .or => 3
  | .and => 4
  | .bitOr => 5
  | .bitXor => 6
  | .bitAnd => 7
  | .eq | .notEq => 8
  | .gt | .lt | .gtEq | .ltEq => 9
  | .shl | .shr => 10
  | .add | .sub => 11
  | .mul | .div | .mod => 12
  | .member | .safeMember => Level.access
  | .scope => Level.path

/-- Whether the operator is an assignment. -/
def isAssignment (op : BinaryOp) : Bool := op.level = Level.single

/-- The level at which the right operand is read. -/
def rightLevel (op : BinaryOp) : Nat := if op.isAssignment then op.level else op.level + 1

end BinaryOp

/-- What may stand behind an operand. -/
inductive Continuation where
  | binary (op : BinaryOp)
  /-- `? :` -/
  | ternary
  /-- `++` and `--` -/
  | count (op : UnaryOp)
  | call
  | index
  /-- `as T` -/
  | cast
  /-- `is T` -/
  | typeTest
deriving DecidableEq, Repr

namespace Continuation

/-- How tightly it binds. -/
def level : Continuation → Nat
  | .binary op => op.level
  | .ternary => Level.single
  | .count _ | .call | .index => Level.access
  | .cast | .typeTest => Level.operand

/-- What a token behind an operand begins. -/
def ofKind? (kind : TokenKind) : Option Continuation :=
  match kind with
  | .symbol .question => some .ternary
  | .symbol .plusPlus => some (.count .increment)
  | .symbol .minusMinus => some (.count .decrement)
  | .symbol .lParen => some .call
  | .symbol .lBracket => some .index
  | .keyword .asKw => some .cast
  | .keyword .isKw => some .typeTest
  | kind => (BinaryOp.ofKind? kind).map binary

theorem ofKind?_binary (op : BinaryOp) : ofKind? op.symbol = some (.binary op) := by
  cases op <;> decide

theorem level_le_path (c : Continuation) : c.level ≤ Level.path := by
  cases c with
  | binary op => cases op <;> decide
  | count _ => exact (by decide : Level.access ≤ Level.path)
  | _ => decide

end Continuation

end ScriptFront
