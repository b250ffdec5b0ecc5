import ScriptFront.Proofs.Writing.Trees
import ScriptFront.Syntax.Decl

/-!
# Writing units

The members of a class or namespace stand grouped by kind, each kind in the order of its list, and
members of classes tell their access.
-/

namespace ScriptFront

variable (wraps : Wrapping)

/-! ## Type parameters and parameters -/

/-- Types with a bar between two of them. -/
def barred : List TypeExpr → List Lexeme
  | [] => []
  | [type] => type.lexemes
  | type :: rest => type.lexemes ++ .mark .pipe :: barred rest

/-- A type parameter. -/
def GenericItem.lexemes (item : GenericItem) : List Lexeme :=
  .name item.name :: if item.constraints.isEmpty then []
    else .mark .colon :: .word .whereKw :: .name item.name :: .word .isKw :: barred item.constraints

/-- Type parameters, if there are some. -/
def genericLexemes : Option GenericDecl → List Lexeme
  | none => []
  | some generics => inAngles (commas (generics.items.map GenericItem.lexemes))

/-- A parameter. -/
def ParameterDecl.lexemes (p : ParameterDecl) : List Lexeme :=
  p.ownership.lexemes ++ p.binding.lexemes wraps ++
    if p.variadic then [.mark .ellipsis] else markedType .colon p.type

/-- Parameters. -/
def parameterLexemes (params : List ParameterDecl) : List Lexeme :=
  inParens (commas (params.map (ParameterDecl.lexemes wraps)))

/-- What stands between the name of a function and its body. -/
def headLexemes (name : String) (generics : Option GenericDecl) (params : List ParameterDecl)
    (result : TypeExpr) : List Lexeme :=
  .name name :: genericLexemes generics ++ parameterLexemes wraps params ++ resultLexemes result

/-- A keyword, if it applies. -/
def flag (k : Keyword) (applies : Bool) : List Lexeme := if applies then [.word k] else []

/-- The body of a function, or the semicolon in its place. -/
def bodyLexemes : Option Block → List Lexeme
  | none => [.mark .semicolon]
  | some body => body.lexemes wraps

/-! ## Members of classes -/

/-- An access modifier. -/
def Access.lexeme : Access → Lexeme
  | .publicMember => .word .publicKw
  | .protectedMember => .word .protectedKw
  | .privateMember => .word .privateKw

/-- The interface before the name of a function. -/
def sourceLexemes : Option TypeExpr → List Lexeme
  | none => []
  | some type => type.lexemes ++ [.mark .dot]

/-- A function of a class. -/
def ClassFunctionDecl.lexemes (f : ClassFunctionDecl) : List Lexeme :=
  f.access.lexeme :: flag .staticKw f.isStatic ++ flag .abstractKw f.isAbstract ++
    flag .virtualKw f.isVirtual ++ .word .fnKw :: sourceLexemes f.sourceType ++
    headLexemes wraps f.name f.generics f.params f.result ++ flag .overrideKw f.isOverride ++
    flag .finalKw f.isFinal ++ bodyLexemes wraps f.body

/-- A variable of a class. -/
def ClassVariableDecl.lexemes (v : ClassVariableDecl) : List Lexeme :=
  v.access.lexeme :: flag .staticKw v.isStatic ++ v.decl.lexemes wraps

/-- `field(value)` -/
def FieldInit.lexemes (init : FieldInit) : List Lexeme :=
  .name init.name :: inParens (init.value.part wraps Level.chain)

/-- The arguments for the base class. -/
def superLexemes (args : List Expr) : List Lexeme :=
  .word .superKw :: inParens (commas (Expr.rows wraps Level.single args))

/-- What stands between the parameters and the body of a constructor. -/
def initLexemes (superArgs : Option (List Expr)) (inits : List FieldInit) : List Lexeme :=
  let rows := superArgs.toList.map (superLexemes wraps) ++ inits.map (FieldInit.lexemes wraps)
  if rows.isEmpty then [] else .mark .colon :: commas rows

/-- A constructor. -/
def ConstructorDecl.lexemes (c : ConstructorDecl) : List Lexeme :=
  c.access.lexeme :: .word .constructorKw :: parameterLexemes wraps c.params ++
    initLexemes wraps c.superArgs c.inits ++ c.body.lexemes wraps

/-- A destructor. -/
def DestructorDecl.lexemes (d : DestructorDecl) : List Lexeme :=
  .word .destructorKw :: inParens [] ++ d.body.lexemes wraps

/-- Named types behind a keyword, if there are some. -/
def namedLexemes (k : Keyword) (types : List TypeExpr) : List Lexeme :=
  if types.isEmpty then [] else .word k :: commas (TypeExpr.rows types)

/-- A class behind `export` and `abstract`. -/
def ClassDecl.lexemes (c : ClassDecl) : List Lexeme :=
  .word .classKw :: .name c.name :: genericLexemes c.generics ++
    namedLexemes .extendsKw c.base.toList ++ namedLexemes .implementsKw c.interfaces ++
    inBraces (c.functions.flatMap (ClassFunctionDecl.lexemes wraps) ++
      c.fields.flatMap (ClassVariableDecl.lexemes wraps) ++
      c.constructors.flatMap (ConstructorDecl.lexemes wraps) ++
      c.destructors.flatMap (DestructorDecl.lexemes wraps))

/-! ## Other declarations -/

/-- A function of an interface. -/
def SignatureDecl.lexemes (s : SignatureDecl) : List Lexeme :=
  .word .fnKw :: headLexemes wraps s.name s.generics s.params s.result ++ [.mark .semicolon]

/-- An interface behind `export`. -/
def InterfaceDecl.lexemes (i : InterfaceDecl) : List Lexeme :=
  .word .interfaceKw :: .name i.name :: genericLexemes i.generics ++
    inBraces (i.functions.flatMap (SignatureDecl.lexemes wraps))

/-- A struct behind `export`. -/
def StructDecl.lexemes (s : StructDecl) : List Lexeme :=
  .word .structKw :: .name s.name :: genericLexemes s.generics ++
    inBraces (s.fields.flatMap (VariableDecl.lexemes wraps))

/-- A function of a trait. -/
def TraitFunctionDecl.lexemes (f : TraitFunctionDecl) : List Lexeme :=
  flag .staticKw f.isStatic ++ .word .fnKw ::
    headLexemes wraps f.name f.generics f.params f.result ++ bodyLexemes wraps f.body

/-- The type that a trait is for. -/
def forLexemes : Option TypeExpr → List Lexeme
  | none => []
  | some type => .word .forKw :: type.lexemes

/-- A trait behind `export`. -/
def TraitDecl.lexemes (t : TraitDecl) : List Lexeme :=
  .word .traitKw :: .name t.name :: genericLexemes t.generics ++ forLexemes t.forType ++
    inBraces (t.functions.flatMap (TraitFunctionDecl.lexemes wraps))

/-- What an item of an enum stands for. -/
def EnumItemValue.lexemes : EnumItemValue → List Lexeme
  | .none => []
  | .value e => .mark .eq :: e.part wraps Level.item
  | .data types => inParens (commas (TypeExpr.rows types))

/-- An item of an enum. -/
def EnumItemDecl.lexemes (item : EnumItemDecl) : List Lexeme :=
  .name item.name :: item.value.lexemes wraps

/-- An enum behind `export`. -/
def EnumDecl.lexemes (e : EnumDecl) : List Lexeme :=
  .word .enumKw :: .name e.name :: genericLexemes e.generics ++
    inBraces (commas (e.items.map (EnumItemDecl.lexemes wraps)))

/-- A function of a namespace behind `export`. -/
def FunctionDecl.lexemes (f : FunctionDecl) : List Lexeme :=
  .word .fnKw :: headLexemes wraps f.name f.generics f.params f.result ++ f.body.lexemes wraps

/-- A declaration of a namespace. -/
def GeneralDecl.lexemes : GeneralDecl → List Lexeme
  | .class c => flag .exportKw c.exported ++ flag .abstractKw c.isAbstract ++ c.lexemes wraps
  | .interface i => flag .exportKw i.exported ++ i.lexemes wraps
  | .struct s => flag .exportKw s.exported ++ s.lexemes wraps
  | .enum e => flag .exportKw e.exported ++ e.lexemes wraps
  | .trait t => flag .exportKw t.exported ++ t.lexemes wraps
  | .function f => flag .exportKw f.exported ++ f.lexemes wraps
  | .variable v => flag .exportKw v.exported ++ v.lexemes wraps

/-! ## Units -/

/-- What is included. -/
def IncludeItems.lexemes : IncludeItems → List Lexeme
  | .all => [.mark .star]
  | .named items => commas (items.map fun item => [.name item.name])

/-- The names of a path behind the first one, each with the mark before it. -/
def scopeLexemes (names : List String) : List Lexeme :=
  names.flatMap fun name => [.mark .colonColon, .name name]

/-- `::a::b::c` -/
def ScopedName.lexemes (path : ScopedName) : List Lexeme :=
  let row := scopeLexemes path.segments
  if path.root then row else row.drop 1

/-- `include { a, b } from path;` -/
def IncludeDecl.lexemes (i : IncludeDecl) : List Lexeme :=
  .word .includeKw :: inBraces i.items.lexemes ++ .word .fromKw :: i.path.lexemes ++
    [.mark .semicolon]

mutual

/-- A namespace: those inside it, then its declarations. -/
def NamespaceDecl.lexemes : NamespaceDecl → List Lexeme
  | ⟨_, name, namespaces, declarations⟩ =>
    .word .namespaceKw :: .name name ::
      inBraces (NamespaceDecl.row namespaces ++ declarations.flatMap (GeneralDecl.lexemes wraps))

/-- Namespaces one behind the other. -/
def NamespaceDecl.row : List NamespaceDecl → List Lexeme
  | [] => []
  | decl :: rest => decl.lexemes ++ NamespaceDecl.row rest

end

/-- A whole text. -/
def CodeUnit.lexemes (u : CodeUnit) : List Lexeme :=
  u.includes.flatMap IncludeDecl.lexemes ++ NamespaceDecl.row wraps u.namespaces

end ScriptFront
