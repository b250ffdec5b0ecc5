import ScriptFront.Outline.Tree

/-!
# Outlines of declarations and units
-/

namespace ScriptFront

/-- The outline of a parameter. -/
def ParameterDecl.outline (d : ParameterDecl) : Outline :=
  .placed .functionParameterDecl d.pos d.binding.note (d.binding.parts ++ TypeExpr.outlines? d.type)

/-- The outline of a type parameter. -/
def GenericItem.outline (d : GenericItem) : Outline :=
  .placed .genericItemDecl d.pos d.name (TypeExpr.outlines d.constraints)

/-- The outline of type parameters. -/
def GenericDecl.outline (d : GenericDecl) : Outline :=
  .placed .genericDecl d.pos "" (d.items.map GenericItem.outline)

/-- The outline of type parameters that may be missing. -/
def GenericDecl.outlines? (d : Option GenericDecl) : List Outline :=
  d.toList.map GenericDecl.outline

/-- The outlines of what every function has: type parameters, parameters and result. -/
def signatureParts (generics : Option GenericDecl) (params : List ParameterDecl)
    (result : TypeExpr) : List Outline :=
  GenericDecl.outlines? generics ++ params.map ParameterDecl.outline ++ [result.outline]

/-! ## Members -/

/-- The outline of a function of a class. -/
def ClassFunctionDecl.outline (d : ClassFunctionDecl) : Outline :=
  .placed .classFunctionDecl d.pos d.name (TypeExpr.outlines? d.sourceType ++
    signatureParts d.generics d.params d.result ++ Block.outlines? d.body)

/-- The outline of a variable of a class. -/
def ClassVariableDecl.outline (d : ClassVariableDecl) : Outline :=
  .node .classVariableDecl none "" [d.decl.outline]

/-- The outline of the first value of a field. -/
def FieldInit.outline (d : FieldInit) : Outline :=
  .placed .classVariableInitDecl d.pos d.name [d.value.outline]

/-- The outline of a constructor. -/
def ConstructorDecl.outline (d : ConstructorDecl) : Outline :=
  .placed .classConstructorDecl d.pos "" (d.params.map ParameterDecl.outline ++
    Expr.outlines (d.superArgs.getD []) ++ d.inits.map FieldInit.outline ++ [d.body.outline])

/-- The outline of a destructor. -/
def DestructorDecl.outline (d : DestructorDecl) : Outline :=
  .placed .classDestructorDecl d.pos "" [d.body.outline]

/-- The outline of a function of an interface. -/
def SignatureDecl.outline (d : SignatureDecl) : Outline :=
  .placed .interfaceFunctionDecl d.pos d.name (signatureParts d.generics d.params d.result)

/-- The outline of a function of a trait. -/
def TraitFunctionDecl.outline (d : TraitFunctionDecl) : Outline :=
  .placed .traitFunctionDecl d.pos d.name
    (signatureParts d.generics d.params d.result ++ Block.outlines? d.body)

/-- The outlines of what an item of an enum stands for. -/
def EnumItemValue.parts : EnumItemValue → List Outline
  | .none => []
  | .value e => [e.outline]
  | .data types => TypeExpr.outlines types

/-- The outline of an item of an enum. -/
def EnumItemDecl.outline (d : EnumItemDecl) : Outline :=
  .placed .enumItemDecl d.pos d.name d.value.parts

/-! ## Declarations of a namespace -/

/-- The kind of a declaration. -/
def GeneralDecl.kind : GeneralDecl → NodeKind
  | .class _ => .classDecl
  | .interface _ => .interfaceDecl
  | .struct _ => .structDecl
  | .enum _ => .enumDecl
  | .trait _ => .traitDecl
  | .function _ => .functionDecl
  | .variable _ => .variableDecl

/-- The outlines of the parts of a declaration. -/
def GeneralDecl.parts : GeneralDecl → List Outline
  | .class d => GenericDecl.outlines? d.generics ++ TypeExpr.outlines? d.base ++
      TypeExpr.outlines d.interfaces ++ d.functions.map ClassFunctionDecl.outline ++
      d.fields.map ClassVariableDecl.outline ++ d.constructors.map ConstructorDecl.outline ++
      d.destructors.map DestructorDecl.outline
  | .interface d => GenericDecl.outlines? d.generics ++ d.functions.map SignatureDecl.outline
  | .struct d => GenericDecl.outlines? d.generics ++ d.fields.map VariableDecl.outline
  | .enum d => GenericDecl.outlines? d.generics ++ d.items.map EnumItemDecl.outline
  | .trait d => .definition d.isDefinition :: (GenericDecl.outlines? d.generics ++
      TypeExpr.outlines? d.forType ++ d.functions.map TraitFunctionDecl.outline)
  | .function d => signatureParts d.generics d.params d.result ++ [d.body.outline]
  | .variable d => [d.outline]

/-- The outline of a declaration. A variable is shown twice: as a declaration and as the variable
that it is. -/
def GeneralDecl.outline (d : GeneralDecl) : Outline :=
  .placed d.kind d.pos (d.name?.getD "") d.parts

mutual

/-- The outline of a namespace; the namespaces within it come first. -/
def NamespaceDecl.outline : NamespaceDecl → Outline
  | ⟨pos, name, namespaces, declarations⟩ =>
    .placed .namespaceDecl pos name
      (NamespaceDecl.outlines namespaces ++ declarations.map GeneralDecl.outline)

/-- The outlines of a list of namespaces. -/
def NamespaceDecl.outlines : List NamespaceDecl → List Outline
  | [] => []
  | decl :: rest => decl.outline :: NamespaceDecl.outlines rest

end

/-! ## Units -/

/-- The outline of a name that is included. -/
def IncludeItem.outline (d : IncludeItem) : Outline := .placed .includeItemDecl d.pos d.name []

/-- The outlines of the names that are included; none if it is all of them. -/
def IncludeItems.outlines : IncludeItems → List Outline
  | .all => []
  | .named items => items.map IncludeItem.outline

/-- The outline of a scoped name. -/
def ScopedName.outline (d : ScopedName) : Outline :=
  .placed .scopedIdentifierDecl d.pos ("::".intercalate d.segments) []

/-- The outline of an include. -/
def IncludeDecl.outline (d : IncludeDecl) : Outline :=
  .placed .includeDecl d.pos "" (d.items.outlines ++ [d.path.outline])

/-- The outline of a unit. -/
def CodeUnit.outline (u : CodeUnit) : Outline :=
  .node .codeUnit none u.sourceName
    (u.includes.map IncludeDecl.outline ++ NamespaceDecl.outlines u.namespaces)

/-- The lines of the outline of a unit, the counts first. -/
def CodeUnit.entries (u : CodeUnit) : List Outline.Entry := .summary u.summary :: u.outline.entries

end ScriptFront
