import ScriptFront.Proofs.Writing.Lexemes
import ScriptFront.Syntax.Precedence
import ScriptFront.Syntax.Tree

/-!
# Writing trees

`lexemes` is the row of lexemes that a tree is written with, `rows` those of each tree in a list.

Where an expression is part of another tree, a `Wrapping` decides whether it stands in parentheses
there: it is told the level at which the place is read, and the form of the expression.

- `Expr.lexemes`: an expression for itself.
- `Expr.part`: an expression at a place, in parentheses or not.
- `Expr.chain`: an expression without parentheses along its leftmost `::` chain.
-/

namespace ScriptFront

/-- Which forms stand in parentheses at a place that is read at some level. -/
abbrev Wrapping := (least : Nat) → (form : ExprForm) → Bool

/-! ## Rows -/

/-- Rows with a comma between two of them. -/
def commas : List (List Lexeme) → List Lexeme
  | [] => []
  | [row] => row
  | row :: rows => row ++ .mark .comma :: commas rows

/-- Lexemes between parentheses. -/
def inParens (row : List Lexeme) : List Lexeme := .mark .lParen :: row ++ [.mark .rParen]

/-- Lexemes between brackets. -/
def inBrackets (row : List Lexeme) : List Lexeme := .mark .lBracket :: row ++ [.mark .rBracket]

/-- Lexemes between braces. -/
def inBraces (row : List Lexeme) : List Lexeme := .mark .lBrace :: row ++ [.mark .rBrace]

/-- Lexemes between angles. -/
def inAngles (row : List Lexeme) : List Lexeme := .mark .lt :: row ++ [.mark .gt]

/-! ## Types -/

/-- A pair of brackets, perhaps with a size. -/
def ArrayDim.lexemes : ArrayDim → List Lexeme
  | .unsized => inBrackets []
  | .sized length => inBrackets [⟨.integer .i32, toString length⟩]

mutual

/-- A type. -/
def TypeExpr.lexemes : TypeExpr → List Lexeme
  | ⟨_, nullable, form⟩ => form.lexemes ++ if nullable then [.mark .question] else []

/-- A type without a question mark. A function type names its result unless that is `void`. -/
def TypeForm.lexemes : TypeForm → List Lexeme
  | .primitive type => [.word (.primitive type)]
  | .selfType => [.word .selfKw]
  | .array element dims => element.lexemes ++ dims.flatMap ArrayDim.lexemes
  | .function params result =>
    .word .fnKw :: inParens (commas (TypeExpr.rows params) ++
      if result.isVoid then [] else .mark .arrow :: result.lexemes)
  | .tuple members => inParens (commas (TypeExpr.rows members))
  | .named path => path.lexemes

/-- A path of names. -/
def TypePath.lexemes : TypePath → List Lexeme
  | ⟨head, tail⟩ =>
    (if head.root then [.mark .colonColon] else []) ++ head.lexemes ++
      PathSegment.furtherLexemes tail

/-- A name and its type arguments. -/
def PathSegment.lexemes : PathSegment → List Lexeme
  | ⟨_, name, _, generics⟩ =>
    .name name :: if generics.isEmpty then [] else inAngles (commas (TypeExpr.rows generics))

/-- The names behind the first one, each with the mark before it. -/
def PathSegment.furtherLexemes : List PathSegment → List Lexeme
  | [] => []
  | segment :: rest => .mark .colonColon :: segment.lexemes ++ PathSegment.furtherLexemes rest

/-- Each type for itself. -/
def TypeExpr.rows : List TypeExpr → List (List Lexeme)
  | [] => []
  | type :: rest => type.lexemes :: TypeExpr.rows rest

end

/-- An optional type behind a mark. -/
def markedType (mark : Symbol) : Option TypeExpr → List Lexeme
  | none => []
  | some type => .mark mark :: type.lexemes

/-- The result of a function behind an arrow, unless it is `void`. -/
def resultLexemes (result : TypeExpr) : List Lexeme :=
  if result.isVoid then [] else .mark .arrow :: result.lexemes

/-! ## Parts of expressions -/

/-- A constant. -/
def Literal.lexeme : Literal → Lexeme
  | .bool true => .word .trueKw
  | .bool false => .word .falseKw
  | .integer form text => ⟨.integer form, text⟩
  | .real form text => ⟨.real form, text⟩
  | .string text => ⟨.string, text⟩
  | .character text => ⟨.character, text⟩
  | .null => .word .nullKw

/-- The token of an operator with one operand. -/
def UnaryOp.lexeme (op : UnaryOp) : Lexeme := ⟨op.token, op.token.describe⟩

/-- The level at which the left operand stands. -/
def BinaryOp.leftLevel (op : BinaryOp) : Nat := if op.isAssignment then op.level + 1 else op.level

/-- Whether a lambda writes its result down. -/
def Inference.hasResult : Inference → Bool
  | .none | .onlyParams => true
  | .onlyReturn | .full => false

/-- A parameter of a lambda. -/
def LambdaParam.lexemes (p : LambdaParam) : List Lexeme :=
  .name p.name :: if p.variadic then [.mark .ellipsis] else markedType .colon p.type

/-- `ref`, `shared`, or neither. -/
def Ownership.lexemes : Ownership → List Lexeme
  | .owned => []
  | .ref => [.word .refKw]
  | .shared => [.word .sharedKw]

/-! ## Trees -/

variable (wraps : Wrapping)

mutual

/-- An expression for itself. -/
def Expr.lexemes : Expr → List Lexeme
  | ⟨_, form⟩ => form.lexemes

/-- An expression at a place that is read at a level. -/
def Expr.part (least : Nat) : Expr → List Lexeme
  | ⟨_, form⟩ => if wraps least form then inParens form.lexemes else form.lexemes

/-- An expression without parentheses along its leftmost `::` chain. -/
def Expr.chain : Expr → List Lexeme
  | ⟨_, .binary .scope left right⟩ =>
    left.chain ++ .mark .colonColon :: right.part (Level.path + 1)
  | ⟨_, form⟩ => form.lexemes

/-- A form of expression for itself. -/
def ExprForm.lexemes : ExprForm → List Lexeme
  | .ternary condition consequence alternative =>
    condition.part Level.item ++ .mark .question :: consequence.part Level.single ++
      .mark .colon :: alternative.part Level.chain
  | .binary op left right => left.part op.leftLevel ++ .mark op.symbol :: right.part op.rightLevel
  | .unary op .before operand => op.lexeme :: operand.part Level.access
  | .unary op .behind operand => operand.part Level.access ++ [op.lexeme]
  | .cast operand type => operand.part Level.operand ++ .word .asKw :: type.lexemes
  | .typeTest operand type => operand.part Level.operand ++ .word .isKw :: type.lexemes
  | .select subject arms =>
    .word .matchKw :: subject.part Level.operand ++ inBraces (commas (ExprArm.rows arms))
  | .lambda params result inference body =>
    .mark .pipe :: commas (params.map LambdaParam.lexemes) ++ .mark .pipe ::
      (if inference.hasResult then .mark .arrow :: result.lexemes else []) ++ body.lexemes
  | .call callee args => callee.part Level.access ++ inParens (commas (Expr.rows Level.single args))
  | .genericCall callee generics args =>
    callee.part Level.access ++ inAngles (commas (TypeExpr.rows generics)) ++
      inParens (commas (Expr.rows Level.single args))
  | .index target position => target.part Level.access ++ inBrackets (position.part Level.chain)
  | .new type args init =>
    .word .newKw :: type.lexemes ++ inParens (commas (Expr.rows Level.single args)) ++
      NewItem.lexemes? init
  | .literal value => [value.lexeme]
  | .this => [.word .thisKw]
  | .super => [.word .superKw]
  | .primitive type => type.lexemes
  | .identifier name root => (if root then [.mark .colonColon] else []) ++ [.name name]
  | .array items => inBrackets (commas (Expr.rows Level.single items))

/-- `when pattern -> body` -/
def ExprArm.lexemes : ExprArm → List Lexeme
  | ⟨_, pattern, body⟩ => .word .whenKw :: pattern.lexemes ++ .mark .arrow :: body.lexemes

/-- What an arm yields. -/
def ArmBody.lexemes : ArmBody → List Lexeme
  | .block body => body.lexemes
  | .expr value => value.part Level.single

/-- A field that a `new` expression sets. -/
def NewItem.lexemes : NewItem → List Lexeme
  | ⟨_, name, none⟩ => [.name name]
  | ⟨_, name, some value⟩ => .name name :: .mark .colon :: value.part Level.item

/-- The fields that a `new` expression sets, if it has braces at all. -/
def NewItem.lexemes? : Option (List NewItem) → List Lexeme
  | none => []
  | some items => inBraces (commas (NewItem.rows items))

/-- A pattern. -/
def Pattern.lexemes : Pattern → List Lexeme
  | ⟨_, form⟩ => form.lexemes

/-- A form of pattern. -/
def PatternForm.lexemes : PatternForm → List Lexeme
  | .literal value => value.chain
  | .tuple items => inParens (commas (Expr.rows Level.path items))
  | .variant path items => path.chain ++ inParens (commas (Expr.rows Level.path items))
  | .fields items => inBraces (commas (FieldPattern.rows items))

/-- The pattern of a field. -/
def FieldPattern.lexemes : FieldPattern → List Lexeme
  | ⟨_, field, binding⟩ => .name field :: binding.lexemes

/-- What a field is bound to. -/
def FieldBinding.lexemes : FieldBinding → List Lexeme
  | .direct => []
  | .indirect target => .mark .colon :: target.chain
  | .nested pattern => .mark .colon :: pattern.lexemes

/-- `{ statements }` -/
def Block.lexemes : Block → List Lexeme
  | ⟨_, statements⟩ => inBraces (Stmt.row statements)

/-- A statement. -/
def Stmt.lexemes : Stmt → List Lexeme
  | ⟨_, form⟩ => form.lexemes

/-- A form of statement. -/
def StmtForm.lexemes : StmtForm → List Lexeme
  | .branch condition consequence alternative =>
    .word .ifKw :: condition.part Level.chain ++ consequence.lexemes ++
      Block.elseLexemes alternative
  | .branchOn pattern value consequence alternative =>
    .word .ifKw :: .word .letKw :: pattern.lexemes ++ .mark .eq :: value.part Level.chain ++
      consequence.lexemes ++ Block.elseLexemes alternative
  | .forLoop init condition update body =>
    .word .forKw :: ForInit.lexemes? init ++ .mark .semicolon :: Expr.lexemes? condition ++
      .mark .semicolon :: Expr.lexemes? update ++ body.lexemes
  | .whileLoop condition body => .word .whileKw :: condition.part Level.chain ++ body.lexemes
  | .doWhile body condition =>
    .word .doKw :: body.lexemes ++ .word .whileKw :: condition.part Level.chain ++
      [.mark .semicolon]
  | .select subject arms =>
    .word .matchKw :: subject.part Level.chain ++ inBraces (commas (StmtArm.rows arms))
  | .giveBack value => .word .returnKw :: Expr.lexemes? value ++ [.mark .semicolon]
  | .next => [.word .continueKw, .mark .semicolon]
  | .leave => [.word .breakKw, .mark .semicolon]
  | .goto label => [.word .gotoKw, .name label, .mark .semicolon]
  | .label name => [.name name, .mark .colon]
  | .attempt body handlers => .word .tryKw :: body.lexemes ++ CatchClause.row handlers
  | .panic value => .word .panicKw :: inParens (value.part Level.chain) ++ [.mark .semicolon]
  | .variable decl => decl.lexemes
  | .expr value => value.part Level.chain ++ [.mark .semicolon]

/-- What a `for` loop starts with. -/
def ForInit.lexemes : ForInit → List Lexeme
  | .bind _ name value => .word .letKw :: .name name :: .mark .eq :: value.part Level.chain
  | .expr value => value.part Level.chain

/-- What a `for` loop starts with, if it starts with anything. -/
def ForInit.lexemes? : Option ForInit → List Lexeme
  | none => []
  | some init => init.lexemes

/-- `when pattern -> { }` -/
def StmtArm.lexemes : StmtArm → List Lexeme
  | ⟨_, pattern, body⟩ => .word .whenKw :: pattern.lexemes ++ .mark .arrow :: body.lexemes

/-- `catch (T name) { }` -/
def CatchClause.lexemes : CatchClause → List Lexeme
  | ⟨_, type, name, body⟩ =>
    .word .catchKw :: inParens (type.lexemes ++ [.name name]) ++ body.lexemes

/-- A variable without `export`, which belongs to the place that declares it. -/
def VariableDecl.lexemes : VariableDecl → List Lexeme
  | ⟨_, _, constant, ownership, binding, type, init⟩ =>
    .word (if constant then .constKw else .letKw) :: ownership.lexemes ++ binding.lexemes ++
      markedType .colon type ++ Expr.initLexemes init ++ [.mark .semicolon]

/-- What a declaration names. -/
def Binding.lexemes : Binding → List Lexeme
  | .named name => [.name name]
  | .destructured pattern => pattern.lexemes

/-- The value of a variable, if it has one. -/
def Expr.initLexemes : Option Expr → List Lexeme
  | none => []
  | some value => .mark .eq :: value.part Level.single

/-- An optional expression. -/
def Expr.lexemes? : Option Expr → List Lexeme
  | none => []
  | some value => value.part Level.chain

/-- The block behind `else`, if there is one. -/
def Block.elseLexemes : Option Block → List Lexeme
  | none => []
  | some body => .word .elseKw :: body.lexemes

/-- Each expression at a place of its own. -/
def Expr.rows (least : Nat) : List Expr → List (List Lexeme)
  | [] => []
  | e :: rest => e.part least :: Expr.rows least rest

/-- Each arm for itself. -/
def ExprArm.rows : List ExprArm → List (List Lexeme)
  | [] => []
  | arm :: rest => arm.lexemes :: ExprArm.rows rest

/-- Each field for itself. -/
def NewItem.rows : List NewItem → List (List Lexeme)
  | [] => []
  | item :: rest => item.lexemes :: NewItem.rows rest

/-- Each field for itself. -/
def FieldPattern.rows : List FieldPattern → List (List Lexeme)
  | [] => []
  | item :: rest => item.lexemes :: FieldPattern.rows rest

/-- Each arm for itself. -/
def StmtArm.rows : List StmtArm → List (List Lexeme)
  | [] => []
  | arm :: rest => arm.lexemes :: StmtArm.rows rest

/-- Statements one behind the other. -/
def Stmt.row : List Stmt → List Lexeme
  | [] => []
  | s :: rest => s.lexemes ++ Stmt.row rest

/-- Handlers one behind the other. -/
def CatchClause.row : List CatchClause → List Lexeme
  | [] => []
  | c :: rest => c.lexemes ++ CatchClause.row rest

end

end ScriptFront
