import ScriptFront.Proofs.Lockstep.Units
import ScriptFront.Proofs.Rewriting.Operands
import ScriptFront.Proofs.Writing.Decls

/-!
# What it is for a tree to be read back

Each sort of tree is read by its own part of the grammar, and each may be followed by other tokens.

- `Throughout`: in all settings, and for all grammars that nest deep enough for a row.
- `Expr.Rewritten`: an expression is read back between parentheses and along its `::` chain.
- `Node.Rewritten`: a tree of any sort is read back.
-/

namespace ScriptFront

open ScriptFront.Parser

/-! ## Expressions -/

/-- In every setting, and for every grammar that nests deep enough for a row. -/
def Throughout (inTrait : Bool) (row : List Lexeme) (P : Setting → Nat → Prop) : Prop :=
  ∀ c : Setting, c.inTrait = inTrait → ∀ depth, 4 * row.length ≤ depth → P c depth

/-- What may follow a `::` chain: nothing that its first or last name could take in. -/
structure Detached (rest : List Lexeme) : Prop where
  bare : IsBare (headKind rest)
  brace : headKind rest ≠ Symbol.lBrace
  angle : headKind rest ≠ Symbol.lt

theorem Detached.stops {rest : List Lexeme} (h : Detached rest) : Stops (Level.path + 1) rest :=
  ⟨fun k _ => Nat.lt_succ_of_le k.level_le_path, fun hlt => absurd hlt h.angle⟩

/-- An expression is read back from its `::` chain. -/
structure Expr.ChainRewritten (inTrait : Bool) (e : Expr) : Prop where
  legible : Legible (e.chain parenthesized)
  /-- It is told apart from a pattern between brackets. -/
  begins : Begins (e.chain parenthesized) fun k => k ≠ Symbol.lParen ∧ k ≠ Symbol.lBrace
  spine : Throughout inTrait (e.chain parenthesized) fun c depth =>
    Spine c depth (e.chain parenthesized) e.Alike Level.path Detached

/-- An expression is read back. -/
structure Expr.Rewritten (inTrait : Bool) (e : Expr) : Prop where
  legible : Legible (e.lexemes parenthesized)
  /-- Type arguments do not end in it. -/
  calm (d : Nat) : Calm (d + 1) (e.lexemes parenthesized)
  whole : Throughout inTrait (e.lexemes parenthesized) fun c depth =>
    Whole c depth (e.lexemes parenthesized) e.Alike Level.chain fun rest =>
      headKind rest = Symbol.rParen
  chain : e.head.isAtom → e.ChainRewritten inTrait
  prefixed : e.form.isPrefixed → Throughout inTrait (e.lexemes parenthesized) fun c depth =>
    Whole c depth (e.lexemes parenthesized) e.Alike Level.path (Stops Level.operand)

/-! ## Other trees -/

/-- An item of a list ends at a comma or at the end of the list. -/
def EndsItem (close : Symbol) (rest : List Lexeme) : Prop :=
  headKind rest = Symbol.comma ∨ headKind rest = close

/-- An item between braces is read back, with the comma behind it if there is one. -/
structure RereadsItem {α : Type} (inTrait : Bool) (row : List Lexeme)
    (x : Grammar Buffer → Parse Buffer α) (V : α → Prop) : Prop where
  last : Rereads inTrait row x V fun rest => headKind rest = Symbol.rBrace
  comma : Rereads inTrait (row ++ [.mark .comma]) x V fun _ => True

/-- The parameter of a lambda can be written. -/
structure LambdaParam.Written (inTrait : Bool) (p : LambdaParam) : Prop where
  name : IsName p.name
  type : ∀ t ∈ p.type, t.Written inTrait ∧ t.isVoid = false

/-- A parameter is read back, and it does not end the list that it stands in. -/
structure ParameterDecl.Rewritten (inTrait : Bool) (p : ParameterDecl) : Prop
    extends Rereads inTrait (p.lexemes parenthesized) (·.parameter)
      (Copies ParameterDecl.unplaced p) (EndsItem .rParen) where
  begins : Begins (p.lexemes parenthesized) fun k => k ≠ Symbol.rParen

/-- What a pattern is read in front of. A pattern between brackets ends of itself. -/
def Pattern.Ends (p : Pattern) (rest : List Lexeme) : Prop :=
  p.IsBracketed ∨ headKind rest = Symbol.arrow ∨ headKind rest = Symbol.eq

/-- What a statement is read in front of: nothing that an earlier block would take in. -/
def EndsStmt (rest : List Lexeme) : Prop :=
  headKind rest ≠ Keyword.elseKw ∧ headKind rest ≠ Keyword.catchKw

section

variable (inTrait : Bool)

/-- A tree is read back from its row. -/
def Node.Rewritten : Node → Prop
  | .type t => t.Written inTrait
  | .expr e => e.Rewritten inTrait
  | .exprArm a => RereadsItem inTrait (a.lexemes parenthesized) (·.exprArm .build)
    (Copies ExprArm.unplaced a)
  | .newItem i => Rereads inTrait (i.lexemes parenthesized) (·.newItem .build)
    (Copies NewItem.unplaced i) (EndsItem .rBrace)
  | .pattern p => Rereads inTrait (p.lexemes parenthesized) (·.patternStep .build)
    (Copies Pattern.unplaced p) p.Ends
  | .fieldPattern f => Rereads inTrait (f.lexemes parenthesized) (·.fieldPattern .build)
    (Copies FieldPattern.unplaced f) (EndsItem .rBrace)
  | .block b => Rereads inTrait (b.lexemes parenthesized) (·.block .build)
    (Copies Block.unplaced b) fun _ => True
  | .stmt s => Rereads inTrait (s.lexemes parenthesized) (·.statementStep .build)
    (Copies Stmt.unplaced s) EndsStmt
  | .stmtArm a => Rereads inTrait (a.lexemes parenthesized) (·.stmtArm .build)
    (Copies StmtArm.unplaced a) fun _ => True
  | .handler h => Rereads inTrait (h.lexemes parenthesized) (·.catchClause .build)
    (Copies CatchClause.unplaced h) fun _ => True
  | .variable d => ∀ destructures, (destructures = false → d.binding.IsNamed) →
    Rereads inTrait (d.lexemes parenthesized) (·.variableDecl .build d.exported destructures)
      (Copies VariableDecl.unplaced d) fun _ => True
  | .lambdaParam p => p.Written inTrait
  | .genericItem i => Rereads inTrait i.lexemes (·.genericItem) (Copies GenericItem.unplaced i)
    (EndsItem .gt)
  | .generics d => Rereads inTrait (genericLexemes (some d)) (·.genericDecl)
    (Copies GenericDecl.unplaced d) fun _ => True
  | .parameter p => p.Rewritten inTrait
  | .classFunction f => Rereads inTrait (f.lexemes parenthesized) (·.classMember)
    (Copies Grammar.ClassMember.unplaced (.function f)) fun _ => True
  | .fieldInit i => Rereads inTrait (i.lexemes parenthesized) (·.fieldInit)
    (Copies FieldInit.unplaced i) fun _ => True
  | .constructor d => Rereads inTrait (d.lexemes parenthesized) (·.classMember)
    (Copies Grammar.ClassMember.unplaced (.constructor d)) fun _ => True
  | .destructor d => Rereads inTrait (d.lexemes parenthesized) (·.classMember)
    (Copies Grammar.ClassMember.unplaced (.destructor d)) fun _ => True
  | .class d => Rereads inTrait (d.lexemes parenthesized) (·.classDecl d.exported d.isAbstract)
    (Copies ClassDecl.unplaced d) fun _ => True
  | .signature s => Rereads inTrait (s.lexemes parenthesized) (·.signature)
    (Copies SignatureDecl.unplaced s) fun _ => True
  | .interface d => Rereads inTrait (d.lexemes parenthesized) (·.interfaceDecl d.exported)
    (Copies InterfaceDecl.unplaced d) fun _ => True
  | .struct d => Rereads inTrait (d.lexemes parenthesized) (·.structDecl d.exported)
    (Copies StructDecl.unplaced d) fun _ => True
  | .traitFunction f => Rereads inTrait (f.lexemes parenthesized) (·.traitFunction f.body.isSome)
    (Copies TraitFunctionDecl.unplaced f) fun _ => True
  | .traitBody forType functions => Rereads true
    (forLexemes forType ++ inBraces (functions.flatMap (TraitFunctionDecl.lexemes parenthesized)))
    (·.traitBody) (fun out => Copies (Option.map TypeExpr.unplaced) forType out.1 ∧
      Copies (List.map TraitFunctionDecl.unplaced) functions out.2) fun _ => True
  | .trait d => Rereads inTrait (d.lexemes parenthesized) (·.traitDecl d.exported)
    (Copies TraitDecl.unplaced d) fun _ => True
  | .enumItem i => RereadsItem inTrait (i.lexemes parenthesized) (·.enumItem)
    (Copies EnumItemDecl.unplaced i)
  | .enum d => Rereads inTrait (d.lexemes parenthesized) (·.enumDecl d.exported)
    (Copies EnumDecl.unplaced d) fun _ => True
  | .function d => Rereads inTrait (d.lexemes parenthesized) (·.functionDecl d.exported)
    (Copies FunctionDecl.unplaced d) fun _ => True
  | .declaration d => Rereads inTrait (d.lexemes parenthesized) (·.generalDecl)
    (Copies GeneralDecl.unplaced d) fun _ => True
  | .namespace d => ∀ n, (d.lexemes parenthesized).length ≤ n →
    Rereads inTrait (d.lexemes parenthesized) (·.namespaceDecl n)
      (Copies NamespaceDecl.unplaced d) fun _ => True
  | .include d => Rereads inTrait d.lexemes (fun _ => Grammar.includeDecl)
    (Copies IncludeDecl.unplaced d) fun _ => True
  | .unit u => Legible (u.lexemes parenthesized) ∧ ∀ c : Setting, c.inTrait = inTrait →
    c.name = u.sourceName → ∀ depth, 4 * (u.lexemes parenthesized).length < depth →
    Parses c (u.lexemes parenthesized) (Grammar.upTo depth).unit (Copies CodeUnit.unplaced u) []

end

end ScriptFront
