import ScriptFront.Outline.Types

/-!
# Outlines of expressions, patterns and statements

`outline` is the outline of a tree, `parts` those of its parts, `outlines` those of a list of
trees, and `outlines?` that of a tree that may be missing.
-/

namespace ScriptFront

/-! ## Kinds and notes -/

/-- The kind of a constant. -/
def Literal.kind : Literal → NodeKind
  | .bool _ => .constantBoolExpr
  | .integer .. => .constantIntegerExpr
  | .real .. => .constantRealExpr
  | .string _ => .constantStringExpr
  | .character _ => .constantCharExpr
  | .null => .constantNullExpr

/-- The kind of an expression. -/
def ExprForm.kind : ExprForm → NodeKind
  | .ternary .. => .ternaryExpr
  | .binary .. => .binaryExpr
  | .unary .. => .unaryExpr
  | .cast .. => .asExpr
  | .typeTest .. => .isExpr
  | .select .. => .matchExpr
  | .lambda .. => .functionDeclExpr
  | .call .. => .functionCallExpr
  | .genericCall .. => .genericCallExpr
  | .index .. => .indexExpr
  | .new .. => .newExpr
  | .literal value => value.kind
  | .this => .thisExpr
  | .super => .superExpr
  | .primitive _ => .primitiveTypeExpr
  | .identifier .. => .identifierExpr
  | .array _ => .arrayInitExpr

/-- What the outline says of an expression. -/
def ExprForm.note : ExprForm → String
  | .binary op _ _ => op.symbol.spelling
  | .unary op fixity _ => fixity.name ++ " " ++ op.name
  | .lambda _ _ inference _ => inference.name
  | .identifier name root => (if root then "::" else "") ++ name
  | _ => ""

/-- The kind of a pattern. -/
def PatternForm.kind : PatternForm → NodeKind
  | .literal _ => .literalPattern
  | .tuple _ => .tuplePattern
  | .variant .. => .enumerablePattern
  | .fields _ => .structurePattern

/-- The kind of a statement. -/
def StmtForm.kind : StmtForm → NodeKind
  | .branch .. => .stmtIf
  | .branchOn .. => .stmtIfLet
  | .forLoop .. => .stmtFor
  | .whileLoop .. => .stmtWhile
  | .doWhile .. => .stmtDoWhile
  | .select .. => .stmtMatch
  | .giveBack _ => .stmtReturn
  | .next => .stmtContinue
  | .leave => .stmtBreak
  | .goto _ => .stmtGoto
  | .label _ => .stmtLabel
  | .attempt .. => .stmtTry
  | .panic _ => .stmtPanic
  | .variable _ => .stmtVariable
  | .expr _ => .stmtExpr

/-- What the outline says of a statement. -/
def StmtForm.note : StmtForm → String
  | .goto name => name
  | .label name => name
  | _ => ""

/-- How the outline shows what a declaration names. -/
def Binding.note (b : Binding) : String := b.name?.getD "-"

/-- The outline of a parameter of a lambda. -/
def LambdaParam.outline (p : LambdaParam) : Outline :=
  .placed .functionParameterDeclExpr p.pos p.name (TypeExpr.outlines? p.type)

/-! ## Outlines -/

mutual

/-- The outline of an expression. -/
def Expr.outline : Expr → Outline
  | ⟨pos, form⟩ => .placed form.kind pos form.note form.parts

/-- The outlines of the parts of an expression. -/
def ExprForm.parts : ExprForm → List Outline
  | .ternary condition consequence alternative =>
    [condition.outline, consequence.outline, alternative.outline]
  | .binary _ left right => [left.outline, right.outline]
  | .unary _ _ operand => [operand.outline]
  | .cast operand type => [operand.outline, type.outline]
  | .typeTest operand type => [operand.outline, type.outline]
  | .select subject arms => subject.outline :: ExprArm.outlines arms
  | .lambda params result _ body =>
    params.map LambdaParam.outline ++ [result.outline, body.outline]
  | .call callee args => callee.outline :: Expr.outlines args
  | .genericCall callee generics args =>
    callee.outline :: (TypeExpr.outlines generics ++ Expr.outlines args)
  | .index target position => [target.outline, position.outline]
  | .new type args init => type.outline :: (Expr.outlines args ++ NewItem.outlines? init)
  | .literal _ => []
  | .this => []
  | .super => []
  | .primitive type => [type.outline]
  | .identifier _ _ => []
  | .array items => Expr.outlines items

/-- The outlines of a list of expressions. -/
def Expr.outlines : List Expr → List Outline
  | [] => []
  | e :: rest => e.outline :: Expr.outlines rest

/-- The outline of an expression that may be missing. -/
def Expr.outlines? : Option Expr → List Outline
  | none => []
  | some e => [e.outline]

/-- The outline of an arm of an expression. -/
def ExprArm.outline : ExprArm → Outline
  | ⟨pos, pattern, body⟩ => .placed .matchWhenExpr pos "" [pattern.outline, body.outline]

/-- The outlines of a list of arms. -/
def ExprArm.outlines : List ExprArm → List Outline
  | [] => []
  | arm :: rest => arm.outline :: ExprArm.outlines rest

/-- The outline of what an arm yields. -/
def ArmBody.outline : ArmBody → Outline
  | .block body => body.outline
  | .expr value => value.outline

/-- The outline of a field that a `new` expression sets. -/
def NewItem.outline : NewItem → Outline
  | ⟨pos, name, value⟩ => .placed .newItemExpr pos name (Expr.outlines? value)

/-- The outlines of a list of fields. -/
def NewItem.outlines : List NewItem → List Outline
  | [] => []
  | item :: rest => item.outline :: NewItem.outlines rest

/-- The outlines of a list of fields that may be missing. -/
def NewItem.outlines? : Option (List NewItem) → List Outline
  | none => []
  | some items => NewItem.outlines items

/-- The outline of a pattern. -/
def Pattern.outline : Pattern → Outline
  | ⟨pos, form⟩ => .placed form.kind pos "" form.parts

/-- The outlines of the parts of a pattern. -/
def PatternForm.parts : PatternForm → List Outline
  | .literal value => [value.outline]
  | .tuple items => Expr.outlines items
  | .variant path items => path.outline :: Expr.outlines items
  | .fields items => FieldPattern.outlines items

/-- The outline of the pattern of a field. -/
def FieldPattern.outline : FieldPattern → Outline
  | ⟨pos, field, binding⟩ => .placed .structureItemPatternDecl pos field binding.parts

/-- The outlines of a list of patterns of fields. -/
def FieldPattern.outlines : List FieldPattern → List Outline
  | [] => []
  | item :: rest => item.outline :: FieldPattern.outlines rest

/-- The outline of what a field is bound to, unless it is a variable of its name. -/
def FieldBinding.parts : FieldBinding → List Outline
  | .direct => []
  | .indirect target => [target.outline]
  | .nested pattern => [pattern.outline]

/-- The outline of a block. -/
def Block.outline : Block → Outline
  | ⟨pos, statements⟩ => .placed .block pos "" (Stmt.outlines statements)

/-- The outline of a block that may be missing. -/
def Block.outlines? : Option Block → List Outline
  | none => []
  | some block => [block.outline]

/-- The outline of a statement. -/
def Stmt.outline : Stmt → Outline
  | ⟨pos, form⟩ => .placed form.kind pos form.note form.parts

/-- The outlines of a list of statements. -/
def Stmt.outlines : List Stmt → List Outline
  | [] => []
  | statement :: rest => statement.outline :: Stmt.outlines rest

/-- The outlines of the parts of a statement. -/
def StmtForm.parts : StmtForm → List Outline
  | .branch condition consequence alternative =>
    condition.outline :: consequence.outline :: Block.outlines? alternative
  | .branchOn pattern value consequence alternative =>
    pattern.outline :: value.outline :: consequence.outline :: Block.outlines? alternative
  | .forLoop init condition update body =>
    ForInit.outlines? init ++ Expr.outlines? condition ++ Expr.outlines? update ++ [body.outline]
  | .whileLoop condition body => [condition.outline, body.outline]
  | .doWhile body condition => [body.outline, condition.outline]
  | .select subject arms => subject.outline :: StmtArm.outlines arms
  | .giveBack value => Expr.outlines? value
  | .next => []
  | .leave => []
  | .goto _ => []
  | .label _ => []
  | .attempt body handlers => body.outline :: CatchClause.outlines handlers
  | .panic value => [value.outline]
  | .variable decl => [decl.outline]
  | .expr value => [value.outline]

/-- The outline of what a loop starts with. An expression is shown twice: as the part of the loop
and as the expression that it is. -/
def ForInit.outline : ForInit → Outline
  | .bind pos name value => .placed .stmtForInitDecl pos name [value.outline]
  | .expr ⟨pos, form⟩ =>
    .placed form.kind pos "init" [.placed form.kind pos form.note form.parts]

/-- The outline of what a loop starts with, if anything. -/
def ForInit.outlines? : Option ForInit → List Outline
  | none => []
  | some init => [init.outline]

/-- The outline of an arm of a statement. -/
def StmtArm.outline : StmtArm → Outline
  | ⟨pos, pattern, body⟩ => .placed .stmtMatchWhenDecl pos "" [pattern.outline, body.outline]

/-- The outlines of a list of arms. -/
def StmtArm.outlines : List StmtArm → List Outline
  | [] => []
  | arm :: rest => arm.outline :: StmtArm.outlines rest

/-- The outline of a handler. -/
def CatchClause.outline : CatchClause → Outline
  | ⟨pos, type, name, body⟩ => .placed .stmtCatchBlockDecl pos name [type.outline, body.outline]

/-- The outlines of a list of handlers. -/
def CatchClause.outlines : List CatchClause → List Outline
  | [] => []
  | handler :: rest => handler.outline :: CatchClause.outlines rest

/-- The outline of a variable. -/
def VariableDecl.outline : VariableDecl → Outline
  | ⟨pos, _, _, _, binding, type, init⟩ =>
    .placed .variableDecl pos binding.note
      (binding.parts ++ TypeExpr.outlines? type ++ Expr.outlines? init)

/-- The outline of the pattern that a declaration takes a value apart with. -/
def Binding.parts : Binding → List Outline
  | .named _ => []
  | .destructured pattern => [pattern.outline]

end

end ScriptFront
