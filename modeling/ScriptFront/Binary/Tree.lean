import ScriptFront.Binary.Basic
import ScriptFront.Syntax.Tree

/-!
# Reading trees from bytes

Types, expressions, patterns and statements contain each other. Each is read by a step over a
`Decoder` that stands for all of them, and the step is iterated as often as trees can nest.

- `Decoder.step`: read a tree whose parts another decoder reads.
- `Decoder.upTo`: read trees of a given depth.
-/

namespace ScriptFront

/-- The families of trees that contain each other. -/
inductive Family where
  | type
  | expr
  | pattern
  | statement
deriving DecidableEq, Repr

/-- The trees of a family. -/
abbrev Family.Tree : Family → Type
  | .type => TypeExpr
  | .expr => Expr
  | .pattern => Pattern
  | .statement => Stmt

/-- A way to read the trees of every family. -/
abbrev Decoder := (family : Family) → Decode family.Tree

namespace Decoder

open Decode

/-- Read a position. -/
def position : Decode Position :=
  return ⟨.ofNat (← number shortWidth), .ofNat (← number shortWidth)⟩

variable (d : Decoder)

/-! ## Types -/

/-- Read a dimension. -/
def arrayDim : Decode ArrayDim := choice fun
  | 0 => return .unsized
  | 1 => return .sized (← number longWidth)
  | _ => failure

/-- Read one name of a path. -/
def pathSegment : Decode PathSegment :=
  return ⟨← position, ← text, ← flag, ← list (d .type)⟩

/-- Read the names behind the first one of a path, of which there are fewer than `bound` has
bytes. -/
def pathTail : (bound : List UInt8) → Decode (List PathSegment)
  | [] => failure
  | _ :: bound => do
    if ← flag then
      let segment ← pathSegment d
      return segment :: (← pathTail bound)
    else return []

/-- Read a path. -/
def typePath : Decode TypePath := do
  let bytes ← get
  let head ← pathSegment d
  return ⟨head, ← pathTail d bytes⟩

/-- Read the form of a type. -/
def typeForm : Decode TypeForm := choice fun
  | 0 => return .primitive (← oneOf PrimitiveType.all)
  | 1 => return .selfType
  | 2 => return .array (← d .type) (← list arrayDim)
  | 3 => return .function (← list (d .type)) (← d .type)
  | 4 => return .tuple (← list (d .type))
  | 5 => return .named (← typePath d)
  | _ => failure

/-- Read a type. -/
def typeExpr : Decode TypeExpr := return ⟨← position, ← flag, ← typeForm d⟩

/-! ## Blocks and variables -/

/-- Read a block. -/
def block : Decode Block := return ⟨← position, ← list (d .statement)⟩

/-- Read what a declaration names. -/
def binding : Decode Binding := choice fun
  | 0 => return .named (← text)
  | 1 => return .destructured (← d .pattern)
  | _ => failure

/-- Read how a value is held. -/
def ownership : Decode Ownership := oneOf Ownership.all

/-- Read a variable. -/
def variableDecl : Decode VariableDecl := return {
  pos := ← position
  exported := ← flag
  constant := ← flag
  ownership := ← ownership
  binding := ← binding d
  type := ← option (d .type)
  init := ← option (d .expr) }

/-! ## Expressions -/

/-- Read a constant. -/
def literal : Decode Literal := choice fun
  | 0 => return .bool (← flag)
  | 1 => return .integer (← oneOf IntegerForm.all) (← text)
  | 2 => return .real (← oneOf RealForm.all) (← text)
  | 3 => return .string (← text)
  | 4 => return .character (← text)
  | 5 => return .null
  | _ => failure

/-- Read a parameter of a lambda. -/
def lambdaParam : Decode LambdaParam := return {
  pos := ← position
  name := ← text
  type := ← option (d .type)
  variadic := ← flag }

/-- Read what an arm yields. -/
def armBody : Decode ArmBody := choice fun
  | 0 => return .block (← block d)
  | 1 => return .expr (← d .expr)
  | _ => failure

/-- Read an arm of an expression. -/
def exprArm : Decode ExprArm := return ⟨← position, ← d .pattern, ← armBody d⟩

/-- Read a field that a `new` expression sets. -/
def newItem : Decode NewItem := return ⟨← position, ← text, ← option (d .expr)⟩

/-- Read the form of an expression. -/
def exprForm : Decode ExprForm := choice fun
  | 0 => return .ternary (← d .expr) (← d .expr) (← d .expr)
  | 1 => return .binary (← oneOf BinaryOp.all) (← d .expr) (← d .expr)
  | 2 => return .unary (← oneOf UnaryOp.all) (← oneOf Fixity.all) (← d .expr)
  | 3 => return .cast (← d .expr) (← d .type)
  | 4 => return .typeTest (← d .expr) (← d .type)
  | 5 => return .select (← d .expr) (← list (exprArm d))
  | 6 =>
    return .lambda (← list (lambdaParam d)) (← d .type) (← oneOf Inference.all) (← block d)
  | 7 => return .call (← d .expr) (← list (d .expr))
  | 8 => return .genericCall (← d .expr) (← list (d .type)) (← list (d .expr))
  | 9 => return .index (← d .expr) (← d .expr)
  | 10 => return .new (← d .type) (← list (d .expr)) (← option (list (newItem d)))
  | 11 => return .literal (← literal)
  | 12 => return .this
  | 13 => return .super
  | 14 => return .primitive (← d .type)
  | 15 => return .identifier (← text) (← flag)
  | 16 => return .array (← list (d .expr))
  | _ => failure

/-- Read an expression. -/
def expr : Decode Expr := return ⟨← position, ← exprForm d⟩

/-! ## Patterns -/

/-- Read what a field is bound to. -/
def fieldBinding : Decode FieldBinding := choice fun
  | 0 => return .direct
  | 1 => return .indirect (← d .expr)
  | 2 => return .nested (← d .pattern)
  | _ => failure

/-- Read the pattern of a field. -/
def fieldPattern : Decode FieldPattern := return ⟨← position, ← text, ← fieldBinding d⟩

/-- Read the form of a pattern. -/
def patternForm : Decode PatternForm := choice fun
  | 0 => return .literal (← d .expr)
  | 1 => return .tuple (← list (d .expr))
  | 2 => return .variant (← d .expr) (← list (d .expr))
  | 3 => return .fields (← list (fieldPattern d))
  | _ => failure

/-- Read a pattern. -/
def pattern : Decode Pattern := return ⟨← position, ← patternForm d⟩

/-! ## Statements -/

/-- Read what a loop starts with. -/
def forInit : Decode ForInit := choice fun
  | 0 => return .bind (← position) (← text) (← d .expr)
  | 1 => return .expr (← d .expr)
  | _ => failure

/-- Read an arm of a statement. -/
def stmtArm : Decode StmtArm := return ⟨← position, ← d .pattern, ← block d⟩

/-- Read a handler. -/
def catchClause : Decode CatchClause := return ⟨← position, ← d .type, ← text, ← block d⟩

/-- Read the form of a statement. -/
def stmtForm : Decode StmtForm := choice fun
  | 0 => return .branch (← d .expr) (← block d) (← option (block d))
  | 1 => return .branchOn (← d .pattern) (← d .expr) (← block d) (← option (block d))
  | 2 =>
    return .forLoop (← option (forInit d)) (← option (d .expr)) (← option (d .expr)) (← block d)
  | 3 => return .whileLoop (← d .expr) (← block d)
  | 4 => return .doWhile (← block d) (← d .expr)
  | 5 => return .select (← d .expr) (← list (stmtArm d))
  | 6 => return .giveBack (← option (d .expr))
  | 7 => return .next
  | 8 => return .leave
  | 9 => return .goto (← text)
  | 10 => return .label (← text)
  | 11 => return .attempt (← block d) (← list (catchClause d))
  | 12 => return .panic (← d .expr)
  | 13 => return .variable (← variableDecl d)
  | 14 => return .expr (← d .expr)
  | _ => failure

/-- Read a statement. -/
def statement : Decode Stmt := return ⟨← position, ← stmtForm d⟩

/-! ## All families -/

/-- Read a tree whose parts `d` reads. -/
def step : Decoder
  | .type => typeExpr d
  | .expr => expr d
  | .pattern => pattern d
  | .statement => statement d

/-- Read trees that nest at most `depth` deep. -/
def upTo : (depth : Nat) → Decoder
  | 0 => fun _ => failure
  | depth + 1 => fun family => step (upTo depth) family

/-- Read with a decoder for any nesting that the bytes can hold: every level takes a byte. -/
def whole {α : Type} (read : Decoder → Decode α) : Decode α := do
  read (upTo ((← get).length + 1))

end Decoder

/-- Read a type from the front of some bytes. -/
def TypeExpr.decode : Decode TypeExpr := Decoder.whole (· .type)

/-- Read an expression from the front of some bytes. -/
def Expr.decode : Decode Expr := Decoder.whole (· .expr)

/-- Read a pattern from the front of some bytes. -/
def Pattern.decode : Decode Pattern := Decoder.whole (· .pattern)

/-- Read a statement from the front of some bytes. -/
def Stmt.decode : Decode Stmt := Decoder.whole (· .statement)

/-- Read a block from the front of some bytes. -/
def Block.decode : Decode Block := Decoder.whole Decoder.block

end ScriptFront
