import ScriptFront.Syntax.Decl

/-!
# Trees without places

`unplaced` puts every node of a tree at the start of a text, so that two trees become equal if they
differ in positions only. On lists and optional trees it works one by one.
-/

namespace ScriptFront

/-! ## Types -/

mutual

/-- A type without places. -/
@[simp] def TypeExpr.unplaced : TypeExpr → TypeExpr
  | ⟨_, nullable, form⟩ => ⟨.start, nullable, form.unplaced⟩

/-- A form of type without places. -/
@[simp] def TypeForm.unplaced : TypeForm → TypeForm
  | .primitive type => .primitive type
  | .selfType => .selfType
  | .array element dims => .array element.unplaced dims
  | .function params result => .function (TypeExpr.unplacedAll params) result.unplaced
  | .tuple members => .tuple (TypeExpr.unplacedAll members)
  | .named path => .named path.unplaced

/-- A path without places. -/
@[simp] def TypePath.unplaced : TypePath → TypePath
  | ⟨head, tail⟩ => ⟨head.unplaced, PathSegment.unplacedAll tail⟩

/-- A name of a path without places. -/
@[simp] def PathSegment.unplaced : PathSegment → PathSegment
  | ⟨_, name, root, generics⟩ => ⟨.start, name, root, TypeExpr.unplacedAll generics⟩

/-- Types without places. -/
@[simp] def TypeExpr.unplacedAll : List TypeExpr → List TypeExpr
  | [] => []
  | type :: rest => type.unplaced :: TypeExpr.unplacedAll rest

/-- Names of a path without places. -/
@[simp] def PathSegment.unplacedAll : List PathSegment → List PathSegment
  | [] => []
  | segment :: rest => segment.unplaced :: PathSegment.unplacedAll rest

end

/-- A parameter of a lambda without places. -/
def LambdaParam.unplaced (p : LambdaParam) : LambdaParam :=
  { p with pos := .start, type := p.type.map TypeExpr.unplaced }

/-! ## Expressions, patterns, statements -/

mutual

/-- An expression without places. -/
@[simp] def Expr.unplaced : Expr → Expr
  | ⟨_, form⟩ => ⟨.start, form.unplaced⟩

/-- A form of expression without places. -/
@[simp] def ExprForm.unplaced : ExprForm → ExprForm
  | .ternary condition consequence alternative =>
    .ternary condition.unplaced consequence.unplaced alternative.unplaced
  | .binary op left right => .binary op left.unplaced right.unplaced
  | .unary op fixity operand => .unary op fixity operand.unplaced
  | .cast operand type => .cast operand.unplaced type.unplaced
  | .typeTest operand type => .typeTest operand.unplaced type.unplaced
  | .select subject arms => .select subject.unplaced (ExprArm.unplacedAll arms)
  | .lambda params result inference body =>
    .lambda (params.map LambdaParam.unplaced) result.unplaced inference body.unplaced
  | .call callee args => .call callee.unplaced (Expr.unplacedAll args)
  | .genericCall callee generics args =>
    .genericCall callee.unplaced (TypeExpr.unplacedAll generics) (Expr.unplacedAll args)
  | .index target position => .index target.unplaced position.unplaced
  | .new type args init =>
    .new type.unplaced (Expr.unplacedAll args) (NewItem.unplaced? init)
  | .literal value => .literal value
  | .this => .this
  | .super => .super
  | .primitive type => .primitive type.unplaced
  | .identifier name root => .identifier name root
  | .array items => .array (Expr.unplacedAll items)

/-- An arm without places. -/
@[simp] def ExprArm.unplaced : ExprArm → ExprArm
  | ⟨_, pattern, body⟩ => ⟨.start, pattern.unplaced, body.unplaced⟩

/-- What an arm yields, without places. -/
@[simp] def ArmBody.unplaced : ArmBody → ArmBody
  | .block body => .block body.unplaced
  | .expr value => .expr value.unplaced

/-- A field without places. -/
@[simp] def NewItem.unplaced : NewItem → NewItem
  | ⟨_, name, none⟩ => ⟨.start, name, none⟩
  | ⟨_, name, some value⟩ => ⟨.start, name, some value.unplaced⟩

/-- The fields of a `new` expression without places. -/
@[simp] def NewItem.unplaced? : Option (List NewItem) → Option (List NewItem)
  | none => none
  | some items => some (NewItem.unplacedAll items)

/-- A pattern without places. -/
@[simp] def Pattern.unplaced : Pattern → Pattern
  | ⟨_, form⟩ => ⟨.start, form.unplaced⟩

/-- A form of pattern without places. -/
@[simp] def PatternForm.unplaced : PatternForm → PatternForm
  | .literal value => .literal value.unplaced
  | .tuple items => .tuple (Expr.unplacedAll items)
  | .variant path items => .variant path.unplaced (Expr.unplacedAll items)
  | .fields items => .fields (FieldPattern.unplacedAll items)

/-- The pattern of a field without places. -/
@[simp] def FieldPattern.unplaced : FieldPattern → FieldPattern
  | ⟨_, field, binding⟩ => ⟨.start, field, binding.unplaced⟩

/-- What a field is bound to, without places. -/
@[simp] def FieldBinding.unplaced : FieldBinding → FieldBinding
  | .direct => .direct
  | .indirect target => .indirect target.unplaced
  | .nested pattern => .nested pattern.unplaced

/-- A block without places. -/
@[simp] def Block.unplaced : Block → Block
  | ⟨_, statements⟩ => ⟨.start, Stmt.unplacedAll statements⟩

/-- A statement without places. -/
@[simp] def Stmt.unplaced : Stmt → Stmt
  | ⟨_, form⟩ => ⟨.start, form.unplaced⟩

/-- A form of statement without places. -/
@[simp] def StmtForm.unplaced : StmtForm → StmtForm
  | .branch condition consequence alternative =>
    .branch condition.unplaced consequence.unplaced (Block.unplaced? alternative)
  | .branchOn pattern value consequence alternative =>
    .branchOn pattern.unplaced value.unplaced consequence.unplaced (Block.unplaced? alternative)
  | .forLoop init condition update body =>
    .forLoop (ForInit.unplaced? init) (Expr.unplaced? condition) (Expr.unplaced? update)
      body.unplaced
  | .whileLoop condition body => .whileLoop condition.unplaced body.unplaced
  | .doWhile body condition => .doWhile body.unplaced condition.unplaced
  | .select subject arms => .select subject.unplaced (StmtArm.unplacedAll arms)
  | .giveBack value => .giveBack (Expr.unplaced? value)
  | .next => .next
  | .leave => .leave
  | .goto label => .goto label
  | .label name => .label name
  | .attempt body handlers => .attempt body.unplaced (CatchClause.unplacedAll handlers)
  | .panic value => .panic value.unplaced
  | .variable decl => .variable decl.unplaced
  | .expr value => .expr value.unplaced

/-- What a `for` loop starts with, without places. -/
@[simp] def ForInit.unplaced : ForInit → ForInit
  | .bind _ name value => .bind .start name value.unplaced
  | .expr value => .expr value.unplaced

/-- What a `for` loop starts with, if with anything, without places. -/
@[simp] def ForInit.unplaced? : Option ForInit → Option ForInit
  | none => none
  | some init => some init.unplaced

/-- An arm without places. -/
@[simp] def StmtArm.unplaced : StmtArm → StmtArm
  | ⟨_, pattern, body⟩ => ⟨.start, pattern.unplaced, body.unplaced⟩

/-- A handler without places. -/
@[simp] def CatchClause.unplaced : CatchClause → CatchClause
  | ⟨_, type, name, body⟩ => ⟨.start, type.unplaced, name, body.unplaced⟩

/-- A variable without places. -/
@[simp] def VariableDecl.unplaced : VariableDecl → VariableDecl
  | ⟨_, exported, constant, ownership, binding, type, init⟩ =>
    ⟨.start, exported, constant, ownership, binding.unplaced, type.map TypeExpr.unplaced,
      Expr.unplaced? init⟩

/-- What a declaration names, without places. -/
@[simp] def Binding.unplaced : Binding → Binding
  | .named name => .named name
  | .destructured pattern => .destructured pattern.unplaced

/-- An optional expression without places. -/
@[simp] def Expr.unplaced? : Option Expr → Option Expr
  | none => none
  | some e => some e.unplaced

/-- An optional block without places. -/
@[simp] def Block.unplaced? : Option Block → Option Block
  | none => none
  | some body => some body.unplaced

/-- Expressions without places. -/
@[simp] def Expr.unplacedAll : List Expr → List Expr
  | [] => []
  | e :: rest => e.unplaced :: Expr.unplacedAll rest

/-- Arms without places. -/
@[simp] def ExprArm.unplacedAll : List ExprArm → List ExprArm
  | [] => []
  | arm :: rest => arm.unplaced :: ExprArm.unplacedAll rest

/-- Fields without places. -/
@[simp] def NewItem.unplacedAll : List NewItem → List NewItem
  | [] => []
  | item :: rest => item.unplaced :: NewItem.unplacedAll rest

/-- Patterns of fields without places. -/
@[simp] def FieldPattern.unplacedAll : List FieldPattern → List FieldPattern
  | [] => []
  | item :: rest => item.unplaced :: FieldPattern.unplacedAll rest

/-- Statements without places. -/
@[simp] def Stmt.unplacedAll : List Stmt → List Stmt
  | [] => []
  | s :: rest => s.unplaced :: Stmt.unplacedAll rest

/-- Arms without places. -/
@[simp] def StmtArm.unplacedAll : List StmtArm → List StmtArm
  | [] => []
  | arm :: rest => arm.unplaced :: StmtArm.unplacedAll rest

/-- Handlers without places. -/
@[simp] def CatchClause.unplacedAll : List CatchClause → List CatchClause
  | [] => []
  | c :: rest => c.unplaced :: CatchClause.unplacedAll rest

end

/-! ## Declarations -/

/-- A parameter without places. -/
def ParameterDecl.unplaced (p : ParameterDecl) : ParameterDecl :=
  { p with pos := .start, binding := p.binding.unplaced, type := p.type.map TypeExpr.unplaced }

/-- A type parameter without places. -/
def GenericItem.unplaced (item : GenericItem) : GenericItem :=
  { item with pos := .start, constraints := TypeExpr.unplacedAll item.constraints }

/-- Type parameters without places. -/
def GenericDecl.unplaced (d : GenericDecl) : GenericDecl :=
  ⟨.start, d.items.map GenericItem.unplaced⟩

/-- A function of a class without places. -/
def ClassFunctionDecl.unplaced (f : ClassFunctionDecl) : ClassFunctionDecl :=
  { f with
    pos := .start
    sourceType := f.sourceType.map TypeExpr.unplaced
    generics := f.generics.map GenericDecl.unplaced
    params := f.params.map ParameterDecl.unplaced
    result := f.result.unplaced
    body := f.body.map Block.unplaced }

/-- A variable of a class without places. -/
def ClassVariableDecl.unplaced (v : ClassVariableDecl) : ClassVariableDecl :=
  { v with decl := v.decl.unplaced }

/-- The value of a field without places. -/
def FieldInit.unplaced (init : FieldInit) : FieldInit :=
  { init with pos := .start, value := init.value.unplaced }

/-- A constructor without places. -/
def ConstructorDecl.unplaced (c : ConstructorDecl) : ConstructorDecl :=
  { c with
    pos := .start
    params := c.params.map ParameterDecl.unplaced
    superArgs := c.superArgs.map Expr.unplacedAll
    inits := c.inits.map FieldInit.unplaced
    body := c.body.unplaced }

/-- A destructor without places. -/
def DestructorDecl.unplaced (d : DestructorDecl) : DestructorDecl := ⟨.start, d.body.unplaced⟩

/-- A class without places. -/
def ClassDecl.unplaced (c : ClassDecl) : ClassDecl :=
  { c with
    pos := .start
    generics := c.generics.map GenericDecl.unplaced
    base := c.base.map TypeExpr.unplaced
    interfaces := TypeExpr.unplacedAll c.interfaces
    functions := c.functions.map ClassFunctionDecl.unplaced
    fields := c.fields.map ClassVariableDecl.unplaced
    constructors := c.constructors.map ConstructorDecl.unplaced
    destructors := c.destructors.map DestructorDecl.unplaced }

/-- A function of an interface without places. -/
def SignatureDecl.unplaced (s : SignatureDecl) : SignatureDecl :=
  { s with
    pos := .start
    generics := s.generics.map GenericDecl.unplaced
    params := s.params.map ParameterDecl.unplaced
    result := s.result.unplaced }

/-- An interface without places. -/
def InterfaceDecl.unplaced (i : InterfaceDecl) : InterfaceDecl :=
  { i with
    pos := .start
    generics := i.generics.map GenericDecl.unplaced
    functions := i.functions.map SignatureDecl.unplaced }

/-- A struct without places. -/
def StructDecl.unplaced (s : StructDecl) : StructDecl :=
  { s with
    pos := .start
    generics := s.generics.map GenericDecl.unplaced
    fields := s.fields.map VariableDecl.unplaced }

/-- A function of a trait without places. -/
def TraitFunctionDecl.unplaced (f : TraitFunctionDecl) : TraitFunctionDecl :=
  { f with
    pos := .start
    generics := f.generics.map GenericDecl.unplaced
    params := f.params.map ParameterDecl.unplaced
    result := f.result.unplaced
    body := f.body.map Block.unplaced }

/-- A trait without places. -/
def TraitDecl.unplaced (t : TraitDecl) : TraitDecl :=
  { t with
    pos := .start
    generics := t.generics.map GenericDecl.unplaced
    forType := t.forType.map TypeExpr.unplaced
    functions := t.functions.map TraitFunctionDecl.unplaced }

/-- What an item of an enum stands for, without places. -/
def EnumItemValue.unplaced : EnumItemValue → EnumItemValue
  | .none => .none
  | .value e => .value e.unplaced
  | .data types => .data (TypeExpr.unplacedAll types)

/-- An item of an enum without places. -/
def EnumItemDecl.unplaced (item : EnumItemDecl) : EnumItemDecl :=
  { item with pos := .start, value := item.value.unplaced }

/-- An enum without places. -/
def EnumDecl.unplaced (e : EnumDecl) : EnumDecl :=
  { e with
    pos := .start
    generics := e.generics.map GenericDecl.unplaced
    items := e.items.map EnumItemDecl.unplaced }

/-- A function of a namespace without places. -/
def FunctionDecl.unplaced (f : FunctionDecl) : FunctionDecl :=
  { f with
    pos := .start
    generics := f.generics.map GenericDecl.unplaced
    params := f.params.map ParameterDecl.unplaced
    result := f.result.unplaced
    body := f.body.unplaced }

/-- A declaration of a namespace without places. -/
def GeneralDecl.unplaced : GeneralDecl → GeneralDecl
  | .class decl => .class decl.unplaced
  | .interface decl => .interface decl.unplaced
  | .struct decl => .struct decl.unplaced
  | .enum decl => .enum decl.unplaced
  | .trait decl => .trait decl.unplaced
  | .function decl => .function decl.unplaced
  | .variable decl => .variable decl.unplaced

/-! ## Units -/

/-- A name that is included, without places. -/
def IncludeItem.unplaced (item : IncludeItem) : IncludeItem := { item with pos := .start }

/-- What is included, without places. -/
def IncludeItems.unplaced : IncludeItems → IncludeItems
  | .all => .all
  | .named items => .named (items.map IncludeItem.unplaced)

/-- An `include` without places. -/
def IncludeDecl.unplaced (i : IncludeDecl) : IncludeDecl :=
  ⟨.start, i.items.unplaced, { i.path with pos := .start }⟩

mutual

/-- A namespace without places. -/
@[simp] def NamespaceDecl.unplaced : NamespaceDecl → NamespaceDecl
  | ⟨_, name, namespaces, declarations⟩ =>
    ⟨.start, name, NamespaceDecl.unplacedAll namespaces, declarations.map GeneralDecl.unplaced⟩

/-- Namespaces without places. -/
@[simp] def NamespaceDecl.unplacedAll : List NamespaceDecl → List NamespaceDecl
  | [] => []
  | decl :: rest => decl.unplaced :: NamespaceDecl.unplacedAll rest

end

/-- A unit without places. -/
def CodeUnit.unplaced (u : CodeUnit) : CodeUnit :=
  { u with
    includes := u.includes.map IncludeDecl.unplaced
    namespaces := NamespaceDecl.unplacedAll u.namespaces }

theorem TypeExpr.unplaced_nullable (t : TypeExpr) : t.unplaced.nullable = t.nullable := by
  cases t
  rfl

theorem TypeExpr.unplaced_isNamed (t : TypeExpr) : t.unplaced.isNamed = t.isNamed := by
  obtain ⟨pos, nullable, form⟩ := t
  cases form <;> rfl

/-! ## One by one -/

theorem TypeExpr.unplacedAll_eq_map (types : List TypeExpr) :
    TypeExpr.unplacedAll types = types.map TypeExpr.unplaced := by
  induction types with
  | nil => rfl
  | cons t types ih => rw [TypeExpr.unplacedAll, ih, List.map_cons]

theorem PathSegment.unplacedAll_eq_map (segments : List PathSegment) :
    PathSegment.unplacedAll segments = segments.map PathSegment.unplaced := by
  induction segments with
  | nil => rfl
  | cons s segments ih => rw [PathSegment.unplacedAll, ih, List.map_cons]

theorem Expr.unplacedAll_eq_map (es : List Expr) : Expr.unplacedAll es = es.map Expr.unplaced := by
  induction es with
  | nil => rfl
  | cons e es ih => rw [Expr.unplacedAll, ih, List.map_cons]

theorem ExprArm.unplacedAll_eq_map (arms : List ExprArm) :
    ExprArm.unplacedAll arms = arms.map ExprArm.unplaced := by
  induction arms with
  | nil => rfl
  | cons arm arms ih => rw [ExprArm.unplacedAll, ih, List.map_cons]

theorem NewItem.unplacedAll_eq_map (items : List NewItem) :
    NewItem.unplacedAll items = items.map NewItem.unplaced := by
  induction items with
  | nil => rfl
  | cons item items ih => rw [NewItem.unplacedAll, ih, List.map_cons]

theorem FieldPattern.unplacedAll_eq_map (items : List FieldPattern) :
    FieldPattern.unplacedAll items = items.map FieldPattern.unplaced := by
  induction items with
  | nil => rfl
  | cons item items ih => rw [FieldPattern.unplacedAll, ih, List.map_cons]

theorem Stmt.unplacedAll_eq_map (ss : List Stmt) : Stmt.unplacedAll ss = ss.map Stmt.unplaced := by
  induction ss with
  | nil => rfl
  | cons s ss ih => rw [Stmt.unplacedAll, ih, List.map_cons]

theorem StmtArm.unplacedAll_eq_map (arms : List StmtArm) :
    StmtArm.unplacedAll arms = arms.map StmtArm.unplaced := by
  induction arms with
  | nil => rfl
  | cons arm arms ih => rw [StmtArm.unplacedAll, ih, List.map_cons]

theorem CatchClause.unplacedAll_eq_map (handlers : List CatchClause) :
    CatchClause.unplacedAll handlers = handlers.map CatchClause.unplaced := by
  induction handlers with
  | nil => rfl
  | cons c handlers ih => rw [CatchClause.unplacedAll, ih, List.map_cons]

theorem NamespaceDecl.unplacedAll_eq_map (decls : List NamespaceDecl) :
    NamespaceDecl.unplacedAll decls = decls.map NamespaceDecl.unplaced := by
  induction decls with
  | nil => rfl
  | cons decl decls ih => rw [NamespaceDecl.unplacedAll, ih, List.map_cons]

theorem Expr.unplaced?_eq_map (e : Option Expr) : Expr.unplaced? e = e.map Expr.unplaced := by
  cases e <;> rfl

theorem Block.unplaced?_eq_map (body : Option Block) :
    Block.unplaced? body = body.map Block.unplaced := by
  cases body <;> rfl

theorem ForInit.unplaced?_eq_map (init : Option ForInit) :
    ForInit.unplaced? init = init.map ForInit.unplaced := by
  cases init <;> rfl

theorem NewItem.unplaced?_eq_map (items : Option (List NewItem)) :
    NewItem.unplaced? items = items.map (List.map NewItem.unplaced) := by
  cases items with
  | none => rfl
  | some items => rw [NewItem.unplaced?, NewItem.unplacedAll_eq_map, Option.map_some]

end ScriptFront
