import ScriptFront.Datum.Tree
import ScriptFront.Syntax.Decl

/-!
# Declarations and units as data
-/

namespace ScriptFront

/-- Who may use a member, as data. -/
def Access.datum : Access → Datum := .ofAll Access.all Access.name

/-- A parameter as data. -/
def ParameterDecl.datum (d : ParameterDecl) : Datum :=
  .record [⟨"pos", .position d.pos⟩, ⟨"ownership", d.ownership.datum⟩,
    ⟨"binding", d.binding.datum⟩, ⟨"ty", .ofOption TypeExpr.datum d.type⟩,
    ⟨"is_variadic", .flag d.variadic⟩]

/-- A type parameter as data. -/
def GenericItem.datum (d : GenericItem) : Datum :=
  .record [⟨"pos", .position d.pos⟩, ⟨"name", .text d.name⟩,
    ⟨"where_types", .ofList TypeExpr.datum d.constraints⟩]

/-- Type parameters as data. -/
def GenericDecl.datum (d : GenericDecl) : Datum :=
  .record [⟨"pos", .position d.pos⟩, ⟨"items", .ofList GenericItem.datum d.items⟩]

/-! ## Members -/

/-- A function of a class as data. -/
def ClassFunctionDecl.datum (d : ClassFunctionDecl) : Datum :=
  .record [⟨"pos", .position d.pos⟩, ⟨"access", d.access.datum⟩,
    ⟨"is_static", .flag d.isStatic⟩, ⟨"is_abstract", .flag d.isAbstract⟩,
    ⟨"is_virtual", .flag d.isVirtual⟩, ⟨"is_override", .flag d.isOverride⟩,
    ⟨"is_final", .flag d.isFinal⟩, ⟨"source_type", .ofOption TypeExpr.datum d.sourceType⟩,
    ⟨"name", .text d.name⟩, ⟨"generics", .ofOption GenericDecl.datum d.generics⟩,
    ⟨"params", .ofList ParameterDecl.datum d.params⟩, ⟨"return_type", d.result.datum⟩,
    ⟨"body", .ofOption Block.datum d.body⟩]

/-- A variable of a class as data. -/
def ClassVariableDecl.datum (d : ClassVariableDecl) : Datum :=
  .record [⟨"access", d.access.datum⟩, ⟨"is_static", .flag d.isStatic⟩,
    ⟨"variable", d.decl.datum⟩]

/-- The first value of a field as data. -/
def FieldInit.datum (d : FieldInit) : Datum :=
  .record [⟨"pos", .position d.pos⟩, ⟨"name", .text d.name⟩, ⟨"value", d.value.datum⟩]

/-- A constructor as data. -/
def ConstructorDecl.datum (d : ConstructorDecl) : Datum :=
  .record [⟨"pos", .position d.pos⟩, ⟨"access", d.access.datum⟩,
    ⟨"params", .ofList ParameterDecl.datum d.params⟩,
    ⟨"super_args", .ofOption (.ofList Expr.datum) d.superArgs⟩,
    ⟨"initializers", .ofList FieldInit.datum d.inits⟩, ⟨"body", d.body.datum⟩]

/-- A destructor as data. -/
def DestructorDecl.datum (d : DestructorDecl) : Datum :=
  .record [⟨"pos", .position d.pos⟩, ⟨"body", d.body.datum⟩]

/-- A function of an interface as data. -/
def SignatureDecl.datum (d : SignatureDecl) : Datum :=
  .record [⟨"pos", .position d.pos⟩, ⟨"name", .text d.name⟩,
    ⟨"generics", .ofOption GenericDecl.datum d.generics⟩,
    ⟨"params", .ofList ParameterDecl.datum d.params⟩, ⟨"return_type", d.result.datum⟩]

/-- A function of a trait as data. -/
def TraitFunctionDecl.datum (d : TraitFunctionDecl) : Datum :=
  .record [⟨"pos", .position d.pos⟩, ⟨"is_static", .flag d.isStatic⟩, ⟨"name", .text d.name⟩,
    ⟨"generics", .ofOption GenericDecl.datum d.generics⟩,
    ⟨"params", .ofList ParameterDecl.datum d.params⟩, ⟨"return_type", d.result.datum⟩,
    ⟨"body", .ofOption Block.datum d.body⟩]

/-- What an item of an enum stands for, as data. -/
def EnumItemValue.datum : EnumItemValue → Datum
  | .none => .choice 0 "None"
  | .value e => .choiceOf 1 "Value" e.datum
  | .data types => .choiceOf 2 "Data" (.ofList TypeExpr.datum types)

/-- An item of an enum as data. -/
def EnumItemDecl.datum (d : EnumItemDecl) : Datum :=
  .record [⟨"pos", .position d.pos⟩, ⟨"name", .text d.name⟩, ⟨"value", d.value.datum⟩]

/-! ## Declarations of a namespace -/

/-- A class as data. -/
def ClassDecl.datum (d : ClassDecl) : Datum :=
  .record [⟨"pos", .position d.pos⟩, ⟨"exported", .flag d.exported⟩,
    ⟨"is_abstract", .flag d.isAbstract⟩, ⟨"name", .text d.name⟩,
    ⟨"generics", .ofOption GenericDecl.datum d.generics⟩,
    ⟨"base", .ofOption TypeExpr.datum d.base⟩,
    ⟨"interfaces", .ofList TypeExpr.datum d.interfaces⟩,
    ⟨"functions", .ofList ClassFunctionDecl.datum d.functions⟩,
    ⟨"variables", .ofList ClassVariableDecl.datum d.fields⟩,
    ⟨"constructors", .ofList ConstructorDecl.datum d.constructors⟩,
    ⟨"destructors", .ofList DestructorDecl.datum d.destructors⟩]

/-- An interface as data. -/
def InterfaceDecl.datum (d : InterfaceDecl) : Datum :=
  .record [⟨"pos", .position d.pos⟩, ⟨"exported", .flag d.exported⟩, ⟨"name", .text d.name⟩,
    ⟨"generics", .ofOption GenericDecl.datum d.generics⟩,
    ⟨"functions", .ofList SignatureDecl.datum d.functions⟩]

/-- A struct as data. -/
def StructDecl.datum (d : StructDecl) : Datum :=
  .record [⟨"pos", .position d.pos⟩, ⟨"exported", .flag d.exported⟩, ⟨"name", .text d.name⟩,
    ⟨"generics", .ofOption GenericDecl.datum d.generics⟩,
    ⟨"variables", .ofList VariableDecl.datum d.fields⟩]

/-- An enum as data. -/
def EnumDecl.datum (d : EnumDecl) : Datum :=
  .record [⟨"pos", .position d.pos⟩, ⟨"exported", .flag d.exported⟩, ⟨"name", .text d.name⟩,
    ⟨"generics", .ofOption GenericDecl.datum d.generics⟩,
    ⟨"items", .ofList EnumItemDecl.datum d.items⟩]

/-- A trait as data. -/
def TraitDecl.datum (d : TraitDecl) : Datum :=
  .record [⟨"pos", .position d.pos⟩, ⟨"exported", .flag d.exported⟩, ⟨"name", .text d.name⟩,
    ⟨"generics", .ofOption GenericDecl.datum d.generics⟩,
    ⟨"for_type", .ofOption TypeExpr.datum d.forType⟩,
    ⟨"functions", .ofList TraitFunctionDecl.datum d.functions⟩]

/-- A function as data. -/
def FunctionDecl.datum (d : FunctionDecl) : Datum :=
  .record [⟨"pos", .position d.pos⟩, ⟨"exported", .flag d.exported⟩, ⟨"name", .text d.name⟩,
    ⟨"generics", .ofOption GenericDecl.datum d.generics⟩,
    ⟨"params", .ofList ParameterDecl.datum d.params⟩, ⟨"return_type", d.result.datum⟩,
    ⟨"body", d.body.datum⟩]

/-- A declaration of a namespace as data. -/
def GeneralDecl.datum : GeneralDecl → Datum
  | .class decl => .choiceOf 0 "Class" decl.datum
  | .interface decl => .choiceOf 1 "Interface" decl.datum
  | .struct decl => .choiceOf 2 "Struct" decl.datum
  | .enum decl => .choiceOf 3 "Enum" decl.datum
  | .trait decl => .choiceOf 4 "Trait" decl.datum
  | .function decl => .choiceOf 5 "Function" decl.datum
  | .variable decl => .choiceOf 6 "Variable" decl.datum

mutual

/-- A namespace as data. -/
def NamespaceDecl.datum : NamespaceDecl → Datum
  | ⟨pos, name, namespaces, declarations⟩ =>
    .record [⟨"pos", .position pos⟩, ⟨"name", .text name⟩,
      ⟨"namespaces", .list (NamespaceDecl.data namespaces)⟩,
      ⟨"declarations", .ofList GeneralDecl.datum declarations⟩]

/-- Each namespace of a list as data. -/
def NamespaceDecl.data : List NamespaceDecl → List Datum
  | [] => []
  | decl :: rest => decl.datum :: NamespaceDecl.data rest

end

/-! ## Units -/

/-- A name that is included, as data. -/
def IncludeItem.datum (d : IncludeItem) : Datum :=
  .record [⟨"pos", .position d.pos⟩, ⟨"name", .text d.name⟩]

/-- What is included, as data. -/
def IncludeItems.datum : IncludeItems → Datum
  | .all => .choice 0 "All"
  | .named items => .choiceOf 1 "Named" (.ofList IncludeItem.datum items)

/-- A scoped name as data. -/
def ScopedName.datum (d : ScopedName) : Datum :=
  .record [⟨"pos", .position d.pos⟩, ⟨"root", .flag d.root⟩,
    ⟨"segments", .ofList Datum.text d.segments⟩]

/-- An include as data. -/
def IncludeDecl.datum (d : IncludeDecl) : Datum :=
  .record [⟨"pos", .position d.pos⟩, ⟨"items", d.items.datum⟩, ⟨"from", d.path.datum⟩]

/-- A unit as data. -/
def CodeUnit.datum (u : CodeUnit) : Datum :=
  .record [⟨"source_name", .text u.sourceName⟩, ⟨"includes", .ofList IncludeDecl.datum u.includes⟩,
    ⟨"namespaces", .ofList NamespaceDecl.datum u.namespaces⟩]

end ScriptFront
