import ScriptFront.Grammar.Types
import ScriptFront.Proofs.Shapes.Nodes
import ScriptFront.Proofs.Writing.Operands

/-!
# What holds everywhere in a tree

Trees are looser than texts: their types allow much that no text can be read as. Three properties
of a node say what is left out. None of them looks further down than it has to.

- `Node.WellFormed`: what goes together in declarations, and which lists have an item at least.
- `Node.VoidsPlaced`: no `void` stands where a value is needed.
- `Node.Spelled`: what is written down is a word of a `Vocabulary`, and what the grammar tells by
  its first token is what such a token begins.
- `Node.Parsed`: all three.
-/

namespace ScriptFront

/-! ## Well-formed trees -/

/-- A declaration gives a single name. -/
def Binding.IsNamed (b : Binding) : Prop := b.name?.isSome

/-- A pattern of fields. -/
def Pattern.IsFields (p : Pattern) : Prop := ∃ items, p.form = .fields items

/-- An array of arrays is written with all dimensions in one place, so its elements are no
arrays. -/
def TypeExpr.IsArray (t : TypeExpr) : Prop := ∃ element dims, t.form = .array element dims

/-- A type is `void`, and no more than that. -/
def TypeExpr.IsPlainVoid (t : TypeExpr) : Prop := t.isVoid ∧ t.nullable = false

/-- Arrays have dimensions, tuples have members, and of a path only the first name is a root. -/
def TypeForm.WellFormed : TypeForm → Prop
  | .array element dims => ¬element.IsArray ∧ dims ≠ []
  | .tuple members => members ≠ []
  | .named path => ∀ s ∈ path.tail, s.root = false
  | _ => True

/-- Only the last parameter may be variadic, and what is variadic has no type. The parameters before
the last one have types, all or none of them; the last one has a type as they have, or is
variadic. -/
structure LambdaParam.AllWellFormed (params : List LambdaParam) : Prop where
  last : ∀ p ∈ params.dropLast, p.variadic = false
  untyped : ∀ p ∈ params, p.variadic → p.type = none
  uniform : (∀ p ∈ params, p.variadic = false → p.type.isSome) ∨
    ∀ p ∈ params, p.variadic = false → p.type = none

/-- How much a lambda leaves open is told by its first parameter and its arrow. -/
structure Inference.Fits (params : List LambdaParam) (result : TypeExpr)
    (i : Inference) : Prop where
  params : i = .full ∨ i = .onlyParams ↔ ∃ p rest, params = p :: rest ∧ p.type = Option.none
  result : i = .full ∨ i = .onlyReturn → result.IsPlainVoid

/-- What lambdas are, and which lists have items. -/
def ExprForm.WellFormed : ExprForm → Prop
  | .select _ arms => arms ≠ []
  | .lambda params result inference _ =>
    LambdaParam.AllWellFormed params ∧ inference.Fits params result
  | .genericCall _ generics _ => generics ≠ []
  | _ => True

/-- Tuples have items. -/
def PatternForm.WellFormed : PatternForm → Prop
  | .tuple items => items ≠ []
  | _ => True

/-- Which lists have items. -/
def StmtForm.WellFormed : StmtForm → Prop
  | .select _ arms => arms ≠ []
  | .attempt _ handlers => handlers ≠ []
  | _ => True

/-- Only what has a type and is no constant may go without a value. -/
def VariableDecl.WellFormed (d : VariableDecl) : Prop :=
  d.constant ∨ d.type = none → d.init.isSome

/-- A parameter has a type unless it is variadic; then it has a name. Only fields are taken
apart. -/
structure ParameterDecl.WellFormed (d : ParameterDecl) : Prop where
  type : d.type = none ↔ d.variadic
  named : d.variadic → d.binding.IsNamed
  fields : ∀ p, d.binding = .destructured p → p.IsFields

/-- Only the last parameter may be variadic. -/
def ParameterDecl.VariadicLast (params : List ParameterDecl) : Prop :=
  ∀ p ∈ params.dropLast, p.variadic = false

/-- Which modifiers go together, and which functions have a body. -/
structure ClassFunctionDecl.WellFormed (d : ClassFunctionDecl) : Prop where
  body : d.body = none ↔ d.isAbstract
  «abstract» : d.isAbstract →
    d.isStatic = false ∧ d.isVirtual = false ∧ d.isOverride = false ∧ d.isFinal = false
  virtual : d.isVirtual → d.isStatic = false
  closing : ¬(d.isOverride ∧ d.isFinal)
  params : ParameterDecl.VariadicLast d.params

/-- Base and interfaces are named types, and each field has a name. -/
structure ClassDecl.WellFormed (d : ClassDecl) : Prop where
  base : ∀ t ∈ d.base, t.isNamed
  interfaces : ∀ t ∈ d.interfaces, t.isNamed
  fields : ∀ f ∈ d.fields, f.decl.binding.IsNamed

/-- A variable outside of functions has a name. -/
def GeneralDecl.WellFormed : GeneralDecl → Prop
  | .variable d => d.binding.IsNamed
  | _ => True

/-- A list of data or of names is not empty. -/
def EnumItemValue.WellFormed : EnumItemValue → Prop
  | .data types => types ≠ []
  | _ => True

/-- Names are included, and they are looked for somewhere. -/
structure IncludeDecl.WellFormed (d : IncludeDecl) : Prop where
  items : ∀ items, d.items = .named items → items ≠ []
  segments : d.path.segments ≠ []

/-- What goes together in a node, and which of its lists have an item at least. -/
def Node.WellFormed : Node → Prop
  | .type t => t.form.WellFormed
  | .expr e => e.form.WellFormed
  | .pattern p => p.form.WellFormed
  | .stmt s => s.form.WellFormed
  | .variable d => d.WellFormed
  | .genericItem i => ∀ t ∈ i.constraints, t.nullable = false
  | .generics d => d.items ≠ []
  | .parameter d => d.WellFormed
  | .classFunction d => d.WellFormed
  | .constructor d => ParameterDecl.VariadicLast d.params
  | .class d => d.WellFormed
  | .signature d => ParameterDecl.VariadicLast d.params
  | .struct d => ∀ f ∈ d.fields, f.binding.IsNamed
  | .traitFunction d => ParameterDecl.VariadicLast d.params
  | .traitBody forType functions => ∀ f ∈ functions, f.body.isSome ↔ forType.isSome
  | .enumItem i => i.value.WellFormed
  | .function d => ParameterDecl.VariadicLast d.params
  | .declaration d => d.WellFormed
  | .include d => d.WellFormed
  | _ => True

/-! ## Where `void` may stand -/

/-- The parts of a type that are types of values are not `void`. -/
def TypeForm.VoidsPlaced : TypeForm → Prop
  | .array element _ => element.isVoid = false
  | .function params _ => ∀ t ∈ params, t.isVoid = false
  | .tuple members => ∀ t ∈ members, t.isVoid = false
  | .named path => ∀ s ∈ path.segments, ∀ t ∈ s.generics, t.isVoid = false
  | .primitive _ | .selfType => True

/-- Type arguments of a call are not `void`. -/
def ExprForm.VoidsPlaced : ExprForm → Prop
  | .genericCall _ generics _ => ∀ t ∈ generics, t.isVoid = false
  | _ => True

/-- No `void` can be absent, and none stands where the type of a value is needed. -/
def Node.VoidsPlaced : Node → Prop
  | .type t => (t.isVoid → t.nullable = false) ∧ t.form.VoidsPlaced
  | .expr e => e.form.VoidsPlaced
  | .handler c => c.type.isVoid = false
  | .variable d => ∀ t ∈ d.type, t.isVoid = false
  | .lambdaParam p => ∀ t ∈ p.type, t.isVoid = false
  | .parameter d => ∀ t ∈ d.type, t.isVoid = false
  | _ => True

/-! ## Words -/

/-- What the tokens of a text can say, and what can be relied on where a text is read twice. -/
structure Vocabulary where
  /-- The texts of the tokens of a kind. -/
  text : TokenKind → String → Prop
  /-- The types that can stand before the name of a function. -/
  source : TypeExpr → Prop
  /-- Going back leads to the token that was left. -/
  firm : Prop

/-- A type that begins with the name of a primitive one. -/
def TypeExpr.StartsPrimitive (t : TypeExpr) : Prop :=
  (∃ type, t.form = .primitive type) ∨
    ∃ element dims type, t.form = .array element dims ∧ element.form = .primitive type

/-- The leftmost operand of a `::` chain. -/
def Expr.head : Expr → ExprForm
  | ⟨_, .binary .scope left _⟩ => left.head
  | ⟨_, form⟩ => form

/-- Forms that are read as operands without parentheses and without an operator. -/
def ExprForm.isAtom : ExprForm → Bool
  | .literal _ | .this | .super | .identifier .. | .lambda .. | .new .. | .primitive _
  | .array _ => true
  | _ => false

/-- Whether an operator stands before an expression, or the expression is a `match`. -/
def ExprForm.isPrefixed : ExprForm → Bool
  | .unary _ .before _ | .select .. => true
  | _ => false

/-- An expression that can be read without parentheses at the level of paths. -/
def Expr.IsPath (e : Expr) : Prop := e.head.isAtom ∨ e.form.isPrefixed

/-- A path that begins with a name. -/
def Expr.IsNamePath (e : Expr) : Prop := ∃ name root, e.head = .identifier name root

/-- A constant, perhaps with a sign or with names behind it. -/
def Expr.IsConstant (e : Expr) : Prop :=
  (∃ value, e.head = .literal value) ∨ ∃ operand, e.form = .unary .neg .before operand

/-- A pattern between brackets. -/
def Pattern.IsBracketed (p : Pattern) : Prop := p.IsFields ∨ ∃ items, p.form = .tuple items

/-- What is bound to a field is told by its first token. -/
def FieldBinding.IsTold : FieldBinding → Prop
  | .direct => True
  | .indirect target => target.IsPath
  | .nested pattern => pattern.IsBracketed

namespace Vocabulary

variable (V : Vocabulary)

/-- A name. -/
def Name (text : String) : Prop := V.text .identifier text

/-- The text of a constant. -/
def Constant : Literal → Prop
  | .integer form text => V.text (.integer form) text
  | .real form text => V.text (.real form) text
  | .string text => V.text .string text
  | .character text => V.text .character text
  | .bool _ | .null => True

/-- `self` is a type of traits only, sizes can be written down, and where there are parentheses they
are words. -/
def OfType (inTrait : Bool) : TypeForm → Prop
  | .selfType => inTrait
  | .function .. | .tuple _ => ∃ text, V.text Symbol.lParen text
  | .array _ dims => ∀ size, .sized size ∈ dims → size < Grammar.arraySizeLimit
  | .named path => ∀ s ∈ path.segments, V.Name s.name
  | _ => True

/-- The words of an expression; arguments are no chains of commas. -/
def OfExpr : ExprForm → Prop
  | .unary op .behind _ => op = .increment ∨ op = .decrement
  | .call _ args | .genericCall _ _ args | .new _ args _ => ∀ a ∈ args, a.isComma = false
  | .literal value => V.Constant value
  | .identifier name _ => V.Name name
  | .primitive type => type.StartsPrimitive
  | _ => True

/-- What begins as a path begins with a name, unless it is a constant. -/
def OfPattern : PatternForm → Prop
  | .literal value => V.firm → value.IsNamePath ∨ value.IsConstant
  | .variant path _ => V.firm → path.IsNamePath
  | _ => True

/-- The name that a `for` loop gives. -/
def OfInit : ForInit → Prop
  | .bind _ name _ => V.Name name
  | .expr _ => True

/-- The words of a statement; its variables are not exported. -/
def OfStmt : StmtForm → Prop
  | .goto label => V.Name label
  | .label name => V.Name name
  | .forLoop init .. => ∀ i ∈ init, V.OfInit i
  | .variable d => d.exported = false
  | _ => True

/-- What is declared has a name or is taken apart between brackets. -/
def Declared : Binding → Prop
  | .named name => V.Name name
  | .destructured pattern => pattern.IsBracketed

/-- The words of what is included. -/
structure Include (d : IncludeDecl) : Prop where
  items : ∀ items, d.items = .named items → ∀ i ∈ items, V.Name i.name
  segments : ∀ name ∈ d.path.segments, V.Name name

end Vocabulary

/-- The words of a node are words of the text. -/
def Node.Spelled (V : Vocabulary) (inTrait : Bool) : Node → Prop
  | .type t => V.OfType inTrait t.form
  | .expr e => V.OfExpr e.form
  | .newItem i => V.Name i.name
  | .pattern p => V.OfPattern p.form
  | .fieldPattern f => V.Name f.field ∧ f.binding.IsTold
  | .stmt s => V.OfStmt s.form
  | .handler c => V.Name c.name
  | .variable d => V.Declared d.binding
  | .lambdaParam p => V.Name p.name
  | .genericItem i => V.Name i.name
  | .parameter d => V.Declared d.binding
  | .classFunction d => V.Name d.name ∧ ∀ t ∈ d.sourceType, V.source t
  | .fieldInit i => V.Name i.name
  | .constructor d => ∀ args ∈ d.superArgs, ∀ a ∈ args, a.isComma = false
  | .class d => V.Name d.name ∧ ∀ f ∈ d.fields, f.decl.exported = false
  | .signature d => V.Name d.name
  | .interface d => V.Name d.name
  | .struct d => V.Name d.name ∧ ∀ f ∈ d.fields, f.exported = false
  | .traitFunction d => V.Name d.name
  | .trait d => V.Name d.name
  | .enumItem i => V.Name i.name
  | .enum d => V.Name d.name
  | .function d => V.Name d.name
  | .namespace d => V.Name d.name
  | .include d => V.Include d
  | _ => True

/-- All that holds of the nodes that a reading yields. -/
structure Node.Parsed (V : Vocabulary) (inTrait : Bool) (n : Node) : Prop where
  /-- How much a lambda leaves open is looked at ahead. -/
  wellFormed : V.firm → n.WellFormed
  voidsPlaced : n.VoidsPlaced
  spelled : n.Spelled V inTrait

end ScriptFront
