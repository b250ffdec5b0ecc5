import ScriptFront.Syntax.Operator
import ScriptFront.Syntax.Types

/-!
# Expressions, patterns, statements

The trees below declarations. They contain each other: a lambda holds a block, a pattern holds
expressions, a statement may declare a variable with a pattern. Every tree has the position of
its first token; an expression that starts with an operand has the position of that operand.
-/

namespace ScriptFront

/-- A constant, as it is written between its marks. -/
inductive Literal where
  | bool (value : Bool)
  | integer (form : IntegerForm) (text : String)
  | real (form : RealForm) (text : String)
  | string (text : String)
  | character (text : String)
  | null
deriving DecidableEq, Repr

/-- What the types of a lambda leave open: those of its parameters, its result, or both. -/
inductive Inference where
  | none
  | onlyParams
  | onlyReturn
  | full
deriving DecidableEq, Repr

namespace Inference

/-- The name in listings and trees. -/
def name : Inference → String
  | .none => "None"
  | .onlyParams => "OnlyParams"
  | .onlyReturn => "OnlyReturn"
  | .full => "Full"

/-- All of them. -/
def all : List Inference := [.none, .onlyParams, .onlyReturn, .full]

theorem mem_all (i : Inference) : i ∈ all := by cases i <;> decide

end Inference

/-- How a variable or parameter holds its value. -/
inductive Ownership where
  | owned
  | ref
  | shared
deriving DecidableEq, Repr

namespace Ownership

/-- The name in listings and trees. -/
def name : Ownership → String
  | .owned => "Owned"
  | .ref => "Ref"
  | .shared => "Shared"

/-- All of them. -/
def all : List Ownership := [.owned, .ref, .shared]

theorem mem_all (o : Ownership) : o ∈ all := by cases o <;> decide

end Ownership

/-- A parameter of a lambda; `name...` takes all further arguments. -/
structure LambdaParam where
  pos : Position
  name : String
  type : Option TypeExpr
  variadic : Bool

mutual

/-- An expression. -/
structure Expr where
  pos : Position
  form : ExprForm

/-- The forms of expressions. -/
inductive ExprForm where
  /-- `condition ? consequence : alternative` -/
  | ternary (condition consequence alternative : Expr)
  | binary (op : BinaryOp) (left right : Expr)
  | unary (op : UnaryOp) (fixity : Fixity) (operand : Expr)
  /-- `operand as T` -/
  | cast (operand : Expr) (type : TypeExpr)
  /-- `operand is T` -/
  | typeTest (operand : Expr) (type : TypeExpr)
  /-- `match subject { when pattern -> body, … }` -/
  | select (subject : Expr) (arms : List ExprArm)
  /-- `|a, b: T| -> R { … }` -/
  | lambda (params : List LambdaParam) (result : TypeExpr) (inference : Inference) (body : Block)
  | call (callee : Expr) (args : List Expr)
  /-- `callee<T, U>(args)` -/
  | genericCall (callee : Expr) (generics : List TypeExpr) (args : List Expr)
  | index (target position : Expr)
  /-- `new T(args) { name: value, … }` -/
  | new (type : TypeExpr) (args : List Expr) (init : Option (List NewItem))
  | literal (value : Literal)
  | this
  | super
  /-- A primitive type in the place of a value. -/
  | primitive (type : TypeExpr)
  | identifier (name : String) (root : Bool)
  | array (items : List Expr)

/-- `when pattern -> body` in an expression. -/
structure ExprArm where
  pos : Position
  pattern : Pattern
  body : ArmBody

/-- What an arm of an expression yields. -/
inductive ArmBody where
  | block (body : Block)
  | expr (value : Expr)

/-- A field that a `new` expression sets; without a value, to the variable of its name. -/
structure NewItem where
  pos : Position
  name : String
  value : Option Expr

/-- A pattern. -/
structure Pattern where
  pos : Position
  form : PatternForm

/-- The forms of patterns. -/
inductive PatternForm where
  /-- A constant or a name. -/
  | literal (value : Expr)
  | tuple (items : List Expr)
  /-- `Color::Rgb(r, g, b)`, the path as an expression. -/
  | variant (path : Expr) (items : List Expr)
  | fields (items : List FieldPattern)

/-- The pattern of one field. -/
structure FieldPattern where
  pos : Position
  field : String
  binding : FieldBinding

/-- What the value of a field is bound to. -/
inductive FieldBinding where
  /-- A variable of the field's name. -/
  | direct
  | indirect (target : Expr)
  | nested (pattern : Pattern)

/-- `{ statements }` -/
structure Block where
  pos : Position
  statements : List Stmt

/-- A statement. -/
structure Stmt where
  pos : Position
  form : StmtForm

/-- The forms of statements. -/
inductive StmtForm where
  | branch (condition : Expr) (consequence : Block) (alternative : Option Block)
  /-- `if let pattern = value { } else { }` -/
  | branchOn (pattern : Pattern) (value : Expr) (consequence : Block) (alternative : Option Block)
  /-- `for init ; condition ; update { }` -/
  | forLoop (init : Option ForInit) (condition update : Option Expr) (body : Block)
  | whileLoop (condition : Expr) (body : Block)
  | doWhile (body : Block) (condition : Expr)
  | select (subject : Expr) (arms : List StmtArm)
  | giveBack (value : Option Expr)
  | next
  | leave
  | goto (label : String)
  | label (name : String)
  | attempt (body : Block) (handlers : List CatchClause)
  | panic (value : Expr)
  | variable (decl : VariableDecl)
  | expr (value : Expr)

/-- What a `for` loop starts with. -/
inductive ForInit where
  | bind (pos : Position) (name : String) (value : Expr)
  | expr (value : Expr)

/-- `when pattern -> { }` in a statement. -/
structure StmtArm where
  pos : Position
  pattern : Pattern
  body : Block

/-- `catch (T name) { }` -/
structure CatchClause where
  pos : Position
  type : TypeExpr
  name : String
  body : Block

/-- `let` or `const`, in a block, a type or a namespace. -/
structure VariableDecl where
  pos : Position
  exported : Bool
  constant : Bool
  ownership : Ownership
  binding : Binding
  type : Option TypeExpr
  init : Option Expr

/-- What a declaration names. -/
inductive Binding where
  | named (name : String)
  | destructured (pattern : Pattern)

end

/-- The name that a binding gives, if it is a single one. -/
def Binding.name? : Binding → Option String
  | .named name => some name
  | .destructured _ => none

/-! ## Comma chains -/

/-- The operands of a chain of commas, left to right, before `rest`. An expression that is no
comma is its own only operand. -/
def Expr.commaListOnto (e : Expr) (rest : List Expr) : List Expr :=
  match e with
  | ⟨_, .binary .comma left right⟩ => left.commaListOnto (right.commaListOnto rest)
  | e => e :: rest

/-- The operands of a chain of commas, left to right. -/
def Expr.commaList (e : Expr) : List Expr := e.commaListOnto []

end ScriptFront
