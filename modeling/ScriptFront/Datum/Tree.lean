import ScriptFront.Datum.Types
import ScriptFront.Syntax.Tree

/-!
# Expressions, patterns and statements as data

Every tree becomes the record of its parts. `datum` is the tree, `data` a list of trees, and
`datum?` an optional tree.
-/

namespace ScriptFront

/-- A constant as data. -/
def Literal.datum : Literal → Datum
  | .bool value => .choiceOf 0 "Bool" (.flag value)
  | .integer form text =>
    .choiceOf 1 "Integer"
      (.record [⟨"ty", .ofAll IntegerForm.all IntegerForm.name form⟩, ⟨"text", .text text⟩])
  | .real form text =>
    .choiceOf 2 "Real"
      (.record [⟨"ty", .ofAll RealForm.all RealForm.name form⟩, ⟨"text", .text text⟩])
  | .string text => .choiceOf 3 "String" (.text text)
  | .character text => .choiceOf 4 "Char" (.text text)
  | .null => .choice 5 "Null"

/-- A parameter of a lambda as data. -/
def LambdaParam.datum (p : LambdaParam) : Datum :=
  .record [⟨"pos", .position p.pos⟩, ⟨"name", .text p.name⟩,
    ⟨"ty", .ofOption TypeExpr.datum p.type⟩, ⟨"is_variadic", .flag p.variadic⟩]

/-- How a value is held, as data. -/
def Ownership.datum : Ownership → Datum := .ofAll Ownership.all Ownership.name

mutual

/-- An expression as data. -/
def Expr.datum : Expr → Datum
  | ⟨pos, form⟩ => .record [⟨"pos", .position pos⟩, ⟨"kind", form.datum⟩]

/-- The form of an expression as data. -/
def ExprForm.datum : ExprForm → Datum
  | .ternary condition consequence alternative =>
    .choiceOf 0 "Ternary" (.record [⟨"cond", condition.datum⟩, ⟨"then", consequence.datum⟩,
      ⟨"otherwise", alternative.datum⟩])
  | .binary op left right =>
    .choiceOf 1 "Binary" (.record [⟨"op", .ofAll BinaryOp.all BinaryOp.name op⟩,
      ⟨"lhs", left.datum⟩, ⟨"rhs", right.datum⟩])
  | .unary op fixity operand =>
    .choiceOf 2 "Unary" (.record [⟨"op", .ofAll UnaryOp.all UnaryOp.name op⟩,
      ⟨"fixity", .ofAll Fixity.all Fixity.name fixity⟩, ⟨"operand", operand.datum⟩])
  | .cast operand type =>
    .choiceOf 3 "As" (.record [⟨"expr", operand.datum⟩, ⟨"ty", type.datum⟩])
  | .typeTest operand type =>
    .choiceOf 4 "Is" (.record [⟨"expr", operand.datum⟩, ⟨"ty", type.datum⟩])
  | .select subject arms =>
    .choiceOf 5 "Match" (.record [⟨"scrutinee", subject.datum⟩,
      ⟨"arms", .list (ExprArm.data arms)⟩])
  | .lambda params result inference body =>
    .choiceOf 6 "Lambda" (.record [⟨"params", .ofList LambdaParam.datum params⟩,
      ⟨"return_type", result.datum⟩,
      ⟨"inference", .ofAll Inference.all Inference.name inference⟩, ⟨"body", body.datum⟩])
  | .call callee args =>
    .choiceOf 7 "Call" (.record [⟨"callee", callee.datum⟩, ⟨"args", .list (Expr.data args)⟩])
  | .genericCall callee generics args =>
    .choiceOf 8 "GenericCall" (.record [⟨"callee", callee.datum⟩,
      ⟨"generics", .list (TypeExpr.data generics)⟩, ⟨"args", .list (Expr.data args)⟩])
  | .index target position =>
    .choiceOf 9 "Index" (.record [⟨"target", target.datum⟩, ⟨"index", position.datum⟩])
  | .new type args init =>
    .choiceOf 10 "New" (.record [⟨"ty", type.datum⟩, ⟨"args", .list (Expr.data args)⟩,
      ⟨"init", NewItem.data? init⟩])
  | .literal value => .choiceOf 11 "Literal" value.datum
  | .this => .choice 12 "This"
  | .super => .choice 13 "Super"
  | .primitive type => .choiceOf 14 "PrimitiveType" type.datum
  | .identifier name root =>
    .choiceOf 15 "Identifier" (.record [⟨"name", .text name⟩, ⟨"root", .flag root⟩])
  | .array items => .choiceOf 16 "ArrayInit" (.list (Expr.data items))

/-- Each expression of a list as data. -/
def Expr.data : List Expr → List Datum
  | [] => []
  | e :: rest => e.datum :: Expr.data rest

/-- An optional expression as data. -/
def Expr.datum? : Option Expr → Datum
  | none => .absent
  | some e => .present e.datum

/-- An arm of an expression as data. -/
def ExprArm.datum : ExprArm → Datum
  | ⟨pos, pattern, body⟩ =>
    .record [⟨"pos", .position pos⟩, ⟨"pattern", pattern.datum⟩, ⟨"body", body.datum⟩]

/-- Each arm of a list as data. -/
def ExprArm.data : List ExprArm → List Datum
  | [] => []
  | arm :: rest => arm.datum :: ExprArm.data rest

/-- What an arm yields, as data. -/
def ArmBody.datum : ArmBody → Datum
  | .block body => .choiceOf 0 "Block" body.datum
  | .expr value => .choiceOf 1 "Expr" value.datum

/-- A field that a `new` expression sets, as data. -/
def NewItem.datum : NewItem → Datum
  | ⟨pos, name, value⟩ =>
    .record [⟨"pos", .position pos⟩, ⟨"name", .text name⟩, ⟨"value", Expr.datum? value⟩]

/-- Each field of a list as data. -/
def NewItem.data : List NewItem → List Datum
  | [] => []
  | item :: rest => item.datum :: NewItem.data rest

/-- An optional list of fields as data. -/
def NewItem.data? : Option (List NewItem) → Datum
  | none => .absent
  | some items => .present (.list (NewItem.data items))

/-- A pattern as data. -/
def Pattern.datum : Pattern → Datum
  | ⟨pos, form⟩ => .record [⟨"pos", .position pos⟩, ⟨"kind", form.datum⟩]

/-- The form of a pattern as data. -/
def PatternForm.datum : PatternForm → Datum
  | .literal value => .choiceOf 0 "Literal" value.datum
  | .tuple items => .choiceOf 1 "Tuple" (.list (Expr.data items))
  | .variant path items =>
    .choiceOf 2 "Enum" (.record [⟨"path", path.datum⟩, ⟨"items", .list (Expr.data items)⟩])
  | .fields items => .choiceOf 3 "Struct" (.list (FieldPattern.data items))

/-- The pattern of a field as data. -/
def FieldPattern.datum : FieldPattern → Datum
  | ⟨pos, field, binding⟩ =>
    .record [⟨"pos", .position pos⟩, ⟨"field", .text field⟩, ⟨"binding", binding.datum⟩]

/-- Each pattern of a list of fields as data. -/
def FieldPattern.data : List FieldPattern → List Datum
  | [] => []
  | item :: rest => item.datum :: FieldPattern.data rest

/-- What a field is bound to, as data. -/
def FieldBinding.datum : FieldBinding → Datum
  | .direct => .choice 0 "Direct"
  | .indirect target => .choiceOf 1 "Indirect" target.datum
  | .nested pattern => .choiceOf 2 "SubPattern" pattern.datum

/-- A block as data. -/
def Block.datum : Block → Datum
  | ⟨pos, statements⟩ =>
    .record [⟨"pos", .position pos⟩, ⟨"stmts", .list (Stmt.data statements)⟩]

/-- An optional block as data. -/
def Block.datum? : Option Block → Datum
  | none => .absent
  | some block => .present block.datum

/-- A statement as data. -/
def Stmt.datum : Stmt → Datum
  | ⟨pos, form⟩ => .record [⟨"pos", .position pos⟩, ⟨"kind", form.datum⟩]

/-- Each statement of a list as data. -/
def Stmt.data : List Stmt → List Datum
  | [] => []
  | statement :: rest => statement.datum :: Stmt.data rest

/-- The form of a statement as data. -/
def StmtForm.datum : StmtForm → Datum
  | .branch condition consequence alternative =>
    .choiceOf 0 "If" (.record [⟨"cond", condition.datum⟩, ⟨"then", consequence.datum⟩,
      ⟨"otherwise", Block.datum? alternative⟩])
  | .branchOn pattern value consequence alternative =>
    .choiceOf 1 "IfLet" (.record [⟨"pattern", pattern.datum⟩, ⟨"value", value.datum⟩,
      ⟨"then", consequence.datum⟩, ⟨"otherwise", Block.datum? alternative⟩])
  | .forLoop init condition update body =>
    .choiceOf 2 "For" (.record [⟨"init", ForInit.datum? init⟩, ⟨"cond", Expr.datum? condition⟩,
      ⟨"update", Expr.datum? update⟩, ⟨"body", body.datum⟩])
  | .whileLoop condition body =>
    .choiceOf 3 "While" (.record [⟨"cond", condition.datum⟩, ⟨"body", body.datum⟩])
  | .doWhile body condition =>
    .choiceOf 4 "DoWhile" (.record [⟨"body", body.datum⟩, ⟨"cond", condition.datum⟩])
  | .select subject arms =>
    .choiceOf 5 "Match" (.record [⟨"scrutinee", subject.datum⟩,
      ⟨"arms", .list (StmtArm.data arms)⟩])
  | .giveBack value => .choiceOf 6 "Return" (Expr.datum? value)
  | .next => .choice 7 "Continue"
  | .leave => .choice 8 "Break"
  | .goto label => .choiceOf 9 "Goto" (.text label)
  | .label name => .choiceOf 10 "Label" (.text name)
  | .attempt body handlers =>
    .choiceOf 11 "Try" (.record [⟨"body", body.datum⟩,
      ⟨"catches", .list (CatchClause.data handlers)⟩])
  | .panic value => .choiceOf 12 "Panic" value.datum
  | .variable decl => .choiceOf 13 "Variable" decl.datum
  | .expr value => .choiceOf 14 "Expr" value.datum

/-- What a loop starts with, as data. -/
def ForInit.datum : ForInit → Datum
  | .bind pos name value =>
    .choiceOf 0 "Let" (.record [⟨"pos", .position pos⟩, ⟨"name", .text name⟩,
      ⟨"value", value.datum⟩])
  | .expr value => .choiceOf 1 "Expr" value.datum

/-- What a loop starts with, if anything, as data. -/
def ForInit.datum? : Option ForInit → Datum
  | none => .absent
  | some init => .present init.datum

/-- An arm of a statement as data. -/
def StmtArm.datum : StmtArm → Datum
  | ⟨pos, pattern, body⟩ =>
    .record [⟨"pos", .position pos⟩, ⟨"pattern", pattern.datum⟩, ⟨"body", body.datum⟩]

/-- Each arm of a list as data. -/
def StmtArm.data : List StmtArm → List Datum
  | [] => []
  | arm :: rest => arm.datum :: StmtArm.data rest

/-- A handler as data. -/
def CatchClause.datum : CatchClause → Datum
  | ⟨pos, type, name, body⟩ =>
    .record [⟨"pos", .position pos⟩, ⟨"ty", type.datum⟩, ⟨"name", .text name⟩,
      ⟨"body", body.datum⟩]

/-- Each handler of a list as data. -/
def CatchClause.data : List CatchClause → List Datum
  | [] => []
  | handler :: rest => handler.datum :: CatchClause.data rest

/-- A variable as data. -/
def VariableDecl.datum : VariableDecl → Datum
  | ⟨pos, exported, constant, ownership, binding, type, init⟩ =>
    .record [⟨"pos", .position pos⟩, ⟨"exported", .flag exported⟩, ⟨"is_const", .flag constant⟩,
      ⟨"ownership", ownership.datum⟩, ⟨"binding", binding.datum⟩,
      ⟨"ty", .ofOption TypeExpr.datum type⟩, ⟨"init", Expr.datum? init⟩]

/-- What a declaration names, as data. -/
def Binding.datum : Binding → Datum
  | .named name => .choiceOf 0 "Named" (.text name)
  | .destructured pattern => .choiceOf 1 "Destructured" pattern.datum

end

end ScriptFront
