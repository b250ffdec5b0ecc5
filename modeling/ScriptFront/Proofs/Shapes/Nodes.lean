import ScriptFront.Syntax.Decl

/-!
# The nodes of a tree

A tree is made of trees of many sorts. A `Node` is any one of them, so that what is to hold
everywhere in a tree can be said once.

- `Node.parts`: the trees right below a node.
- `Node.Within`: a node is a tree or somewhere below it.
- `Node.Everywhere`: a property holds of a tree and of all that is below it. The property is told
  whether a node stands in the body of a trait, where `self` is a type.
-/

namespace ScriptFront

/-- A tree of any sort. -/
inductive Node where
  | type (type : TypeExpr)
  | expr (expr : Expr)
  | exprArm (arm : ExprArm)
  | newItem (item : NewItem)
  | pattern (pattern : Pattern)
  | fieldPattern (field : FieldPattern)
  | block (block : Block)
  | stmt (stmt : Stmt)
  | stmtArm (arm : StmtArm)
  | handler (clause : CatchClause)
  | variable (decl : VariableDecl)
  | lambdaParam (param : LambdaParam)
  | genericItem (item : GenericItem)
  | generics (decl : GenericDecl)
  | parameter (decl : ParameterDecl)
  | classFunction (decl : ClassFunctionDecl)
  | fieldInit (init : FieldInit)
  | constructor (decl : ConstructorDecl)
  | destructor (decl : DestructorDecl)
  | «class» (decl : ClassDecl)
  | signature (decl : SignatureDecl)
  | interface (decl : InterfaceDecl)
  | struct (decl : StructDecl)
  | traitFunction (decl : TraitFunctionDecl)
  /-- The type that a trait is for, and its functions. -/
  | traitBody (forType : Option TypeExpr) (functions : List TraitFunctionDecl)
  | trait (decl : TraitDecl)
  | enumItem (item : EnumItemDecl)
  | enum (decl : EnumDecl)
  | function (decl : FunctionDecl)
  | declaration (decl : GeneralDecl)
  | namespace (decl : NamespaceDecl)
  | include (decl : IncludeDecl)
  | unit (unit : CodeUnit)

/-! ## What is right below -/

/-- The types right below a type. -/
def TypeForm.types : TypeForm → List TypeExpr
  | .primitive _ | .selfType => []
  | .array element _ => [element]
  | .function params result => result :: params
  | .tuple members => members
  | .named path => path.segments.flatMap PathSegment.generics

/-- The trees right below an expression. -/
def ExprForm.nodes : ExprForm → List Node
  | .ternary condition consequence alternative =>
    [.expr condition, .expr consequence, .expr alternative]
  | .binary _ left right => [.expr left, .expr right]
  | .unary _ _ operand => [.expr operand]
  | .cast operand type | .typeTest operand type => [.expr operand, .type type]
  | .select subject arms => .expr subject :: arms.map .exprArm
  | .lambda params result _ body => .type result :: .block body :: params.map .lambdaParam
  | .call callee args => .expr callee :: args.map .expr
  | .genericCall callee generics args => .expr callee :: (generics.map .type ++ args.map .expr)
  | .index target position => [.expr target, .expr position]
  | .new type args init => .type type :: (args.map .expr ++ (init.getD []).map .newItem)
  | .primitive type => [.type type]
  | .array items => items.map .expr
  | .literal _ | .this | .super | .identifier .. => []

/-- What an arm of an expression yields. -/
def ArmBody.node : ArmBody → Node
  | .block body => .block body
  | .expr value => .expr value

/-- The trees right below a pattern. -/
def PatternForm.nodes : PatternForm → List Node
  | .literal value => [.expr value]
  | .tuple items => items.map .expr
  | .variant path items => .expr path :: items.map .expr
  | .fields items => items.map .fieldPattern

/-- The trees right below what a field is bound to. -/
def FieldBinding.nodes : FieldBinding → List Node
  | .direct => []
  | .indirect target => [.expr target]
  | .nested pattern => [.pattern pattern]

/-- The trees right below what is declared. -/
def Binding.nodes : Binding → List Node
  | .named _ => []
  | .destructured pattern => [.pattern pattern]

/-- The value that a `for` loop starts with. -/
def ForInit.value : ForInit → Expr
  | .bind _ _ e => e
  | .expr e => e

/-- The trees right below a statement. -/
def StmtForm.nodes : StmtForm → List Node
  | .branch condition consequence alternative =>
    .expr condition :: .block consequence :: alternative.toList.map .block
  | .branchOn pattern value consequence alternative =>
    .pattern pattern :: .expr value :: .block consequence :: alternative.toList.map .block
  | .forLoop init condition update body =>
    .block body :: (init.toList.map fun init => .expr init.value) ++ condition.toList.map .expr ++
      update.toList.map .expr
  | .whileLoop condition body => [.expr condition, .block body]
  | .doWhile body condition => [.block body, .expr condition]
  | .select subject arms => .expr subject :: arms.map .stmtArm
  | .giveBack value => value.toList.map .expr
  | .next | .leave | .goto _ | .label _ => []
  | .attempt body handlers => .block body :: handlers.map .handler
  | .panic value => [.expr value]
  | .variable decl => [.variable decl]
  | .expr value => [.expr value]

/-- The trees between the name of a function and its body. -/
def headNodes (generics : Option GenericDecl) (params : List ParameterDecl) (result : TypeExpr) :
    List Node :=
  .type result :: (generics.toList.map .generics ++ params.map .parameter)

/-- The trees right below what an item of an enum stands for. -/
def EnumItemValue.nodes : EnumItemValue → List Node
  | .none => []
  | .value e => [.expr e]
  | .data types => types.map .type

/-- The tree of a declaration. -/
def GeneralDecl.node : GeneralDecl → Node
  | .class decl => .class decl
  | .interface decl => .interface decl
  | .struct decl => .struct decl
  | .enum decl => .enum decl
  | .trait decl => .trait decl
  | .function decl => .function decl
  | .variable decl => .variable decl

namespace Node

/-- The trees right below a tree. -/
def parts : Node → List Node
  | .type t => t.form.types.map .type
  | .expr e => e.form.nodes
  | .exprArm a => [.pattern a.pattern, a.body.node]
  | .newItem i => i.value.toList.map .expr
  | .pattern p => p.form.nodes
  | .fieldPattern f => f.binding.nodes
  | .block b => b.statements.map .stmt
  | .stmt s => s.form.nodes
  | .stmtArm a => [.pattern a.pattern, .block a.body]
  | .handler c => [.type c.type, .block c.body]
  | .variable d => d.binding.nodes ++ d.type.toList.map .type ++ d.init.toList.map .expr
  | .lambdaParam p => p.type.toList.map .type
  | .genericItem i => i.constraints.map .type
  | .generics d => d.items.map .genericItem
  | .parameter d => d.binding.nodes ++ d.type.toList.map .type
  | .classFunction d =>
    d.sourceType.toList.map .type ++ headNodes d.generics d.params d.result ++
      d.body.toList.map .block
  | .fieldInit i => [.expr i.value]
  | .constructor d =>
    .block d.body :: (d.params.map .parameter ++ (d.superArgs.getD []).map .expr ++
      d.inits.map .fieldInit)
  | .destructor d => [.block d.body]
  | .class d =>
    d.generics.toList.map .generics ++ d.base.toList.map .type ++ d.interfaces.map .type ++
      d.functions.map .classFunction ++ (d.fields.map fun field => .variable field.decl) ++
      d.constructors.map .constructor ++ d.destructors.map .destructor
  | .signature d => headNodes d.generics d.params d.result
  | .interface d => d.generics.toList.map .generics ++ d.functions.map .signature
  | .struct d => d.generics.toList.map .generics ++ d.fields.map .variable
  | .traitFunction d => headNodes d.generics d.params d.result ++ d.body.toList.map .block
  | .traitBody forType functions => forType.toList.map .type ++ functions.map .traitFunction
  | .trait d => .traitBody d.forType d.functions :: d.generics.toList.map .generics
  | .enumItem i => i.value.nodes
  | .enum d => d.generics.toList.map .generics ++ d.items.map .enumItem
  | .function d => .block d.body :: headNodes d.generics d.params d.result
  | .declaration d => [d.node]
  | .namespace d => d.namespaces.map .namespace ++ d.declarations.map .declaration
  | .include _ => []
  | .unit u => u.includes.map .include ++ u.namespaces.map .namespace

/-- Whether `self` is a type right below. -/
def isTraitBody : Node → Bool
  | .traitBody .. => true
  | _ => false

/-! ## All that is below -/

/-- `m` is `n` or somewhere below it. -/
inductive Within (m : Node) : Node → Prop where
  | here : Within m m
  | part {k n : Node} (hk : k ∈ n.parts) (h : Within m k) : Within m n

/-- A property holds of a tree and of all that is below it. -/
inductive Everywhere (P : Bool → Node → Prop) : Bool → Node → Prop where
  | intro {inTrait : Bool} {n : Node} (here : P inTrait n)
    (parts : ∀ m ∈ n.parts, Everywhere P (inTrait || n.isTraitBody) m) : Everywhere P inTrait n

namespace Everywhere

variable {P Q : Bool → Node → Prop} {inTrait : Bool} {n m : Node}

theorem here (h : Everywhere P inTrait n) : P inTrait n := by
  cases h with
  | intro here parts => exact here

theorem parts (h : Everywhere P inTrait n) (hm : m ∈ n.parts) :
    Everywhere P (inTrait || n.isTraitBody) m := by
  cases h with
  | intro here parts => exact parts m hm

/-- Where no body of a trait is opened, the parts stand where the whole does. -/
theorem part (h : Everywhere P inTrait n) (hm : m ∈ n.parts) (hn : n.isTraitBody = false) :
    Everywhere P inTrait m := by
  have hpart := h.parts hm
  rw [hn, Bool.or_false] at hpart
  exact hpart

/-- A tree of parts that stand where it stands itself. -/
theorem of_parts (hn : n.isTraitBody = false) (here : P inTrait n)
    (parts : ∀ m ∈ n.parts, Everywhere P inTrait m) : Everywhere P inTrait n := by
  refine .intro here ?_
  rw [hn, Bool.or_false]
  exact parts

/-- What holds everywhere holds of each node. -/
theorem within (h : Everywhere P inTrait n) (hm : m.Within n) : ∃ inTrait, P inTrait m := by
  induction hm generalizing inTrait with
  | here => exact ⟨inTrait, h.here⟩
  | part hk _ ih => exact ih (h.parts hk)

theorem mono (h : Everywhere P inTrait n) (hPQ : ∀ b k, P b k → Q b k) :
    Everywhere Q inTrait n := by
  induction h with
  | intro here _ ih => exact .intro (hPQ _ _ here) ih

end Everywhere

end Node

end ScriptFront
