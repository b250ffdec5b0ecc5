import ScriptFront.Binary.Tree
import ScriptFront.Syntax.Decl

/-!
# Reading declarations and units from bytes

`CodeUnit.decode` reads what stored files hold.
-/

namespace ScriptFront

namespace Decoder

open Decode

variable (d : Decoder)

/-! ## Parts of declarations -/

/-- Read who may use a member. -/
def access : Decode Access := oneOf Access.all

/-- Read a parameter. -/
def parameterDecl : Decode ParameterDecl := return {
  pos := ← position
  ownership := ← ownership
  binding := ← binding d
  type := ← option (d .type)
  variadic := ← flag }

/-- Read a type parameter. -/
def genericItem : Decode GenericItem := return ⟨← position, ← text, ← list (d .type)⟩

/-- Read type parameters. -/
def genericDecl : Decode GenericDecl := return ⟨← position, ← list (genericItem d)⟩

/-! ## Members -/

/-- Read a function of a class. -/
def classFunctionDecl : Decode ClassFunctionDecl := return {
  pos := ← position
  access := ← access
  isStatic := ← flag
  isAbstract := ← flag
  isVirtual := ← flag
  isOverride := ← flag
  isFinal := ← flag
  sourceType := ← option (d .type)
  name := ← text
  generics := ← option (genericDecl d)
  params := ← list (parameterDecl d)
  result := ← d .type
  body := ← option (block d) }

/-- Read a variable of a class. -/
def classVariableDecl : Decode ClassVariableDecl := return {
  access := ← access
  isStatic := ← flag
  decl := ← variableDecl d }

/-- Read the first value of a field. -/
def fieldInit : Decode FieldInit := return ⟨← position, ← text, ← d .expr⟩

/-- Read a constructor. -/
def constructorDecl : Decode ConstructorDecl := return {
  pos := ← position
  access := ← access
  params := ← list (parameterDecl d)
  superArgs := ← option (list (d .expr))
  inits := ← list (fieldInit d)
  body := ← block d }

/-- Read a destructor. -/
def destructorDecl : Decode DestructorDecl := return ⟨← position, ← block d⟩

/-- Read a function of an interface. -/
def signatureDecl : Decode SignatureDecl := return {
  pos := ← position
  name := ← text
  generics := ← option (genericDecl d)
  params := ← list (parameterDecl d)
  result := ← d .type }

/-- Read a function of a trait. -/
def traitFunctionDecl : Decode TraitFunctionDecl := return {
  pos := ← position
  isStatic := ← flag
  name := ← text
  generics := ← option (genericDecl d)
  params := ← list (parameterDecl d)
  result := ← d .type
  body := ← option (block d) }

/-- Read what an item of an enum stands for. -/
def enumItemValue : Decode EnumItemValue := choice fun
  | 0 => return .none
  | 1 => return .value (← d .expr)
  | 2 => return .data (← list (d .type))
  | _ => failure

/-- Read an item of an enum. -/
def enumItemDecl : Decode EnumItemDecl := return ⟨← position, ← text, ← enumItemValue d⟩

/-! ## Declarations of a namespace -/

/-- Read a class. -/
def classDecl : Decode ClassDecl := return {
  pos := ← position
  exported := ← flag
  isAbstract := ← flag
  name := ← text
  generics := ← option (genericDecl d)
  base := ← option (d .type)
  interfaces := ← list (d .type)
  functions := ← list (classFunctionDecl d)
  fields := ← list (classVariableDecl d)
  constructors := ← list (constructorDecl d)
  destructors := ← list (destructorDecl d) }

/-- Read an interface. -/
def interfaceDecl : Decode InterfaceDecl := return {
  pos := ← position
  exported := ← flag
  name := ← text
  generics := ← option (genericDecl d)
  functions := ← list (signatureDecl d) }

/-- Read a struct. -/
def structDecl : Decode StructDecl := return {
  pos := ← position
  exported := ← flag
  name := ← text
  generics := ← option (genericDecl d)
  fields := ← list (variableDecl d) }

/-- Read an enum. -/
def enumDecl : Decode EnumDecl := return {
  pos := ← position
  exported := ← flag
  name := ← text
  generics := ← option (genericDecl d)
  items := ← list (enumItemDecl d) }

/-- Read a trait. -/
def traitDecl : Decode TraitDecl := return {
  pos := ← position
  exported := ← flag
  name := ← text
  generics := ← option (genericDecl d)
  forType := ← option (d .type)
  functions := ← list (traitFunctionDecl d) }

/-- Read a function. -/
def functionDecl : Decode FunctionDecl := return {
  pos := ← position
  exported := ← flag
  name := ← text
  generics := ← option (genericDecl d)
  params := ← list (parameterDecl d)
  result := ← d .type
  body := ← block d }

/-- Read a declaration of a namespace. -/
def generalDecl : Decode GeneralDecl := choice fun
  | 0 => return .class (← classDecl d)
  | 1 => return .interface (← interfaceDecl d)
  | 2 => return .struct (← structDecl d)
  | 3 => return .enum (← enumDecl d)
  | 4 => return .trait (← traitDecl d)
  | 5 => return .function (← functionDecl d)
  | 6 => return .variable (← variableDecl d)
  | _ => failure

/-- Read a namespace, nested at most `depth` deep. -/
def namespaceDecl : (depth : Nat) → Decode NamespaceDecl
  | 0 => failure
  | depth + 1 => do
    let pos ← position
    let name ← text
    let namespaces ← list (namespaceDecl depth)
    return { pos, name, namespaces, declarations := ← list (generalDecl d) }

/-! ## Units -/

/-- Read a name that is included. -/
def includeItem : Decode IncludeItem := return ⟨← position, ← text⟩

/-- Read what is included. -/
def includeItems : Decode IncludeItems := choice fun
  | 0 => return .all
  | 1 => return .named (← list includeItem)
  | _ => failure

/-- Read a scoped name. -/
def scopedName : Decode ScopedName := return ⟨← position, ← flag, ← list text⟩

/-- Read an include. -/
def includeDecl : Decode IncludeDecl := return ⟨← position, ← includeItems, ← scopedName⟩

/-- Read a unit. -/
def codeUnit : Decode CodeUnit := do
  let bytes ← get
  let sourceName ← text
  let includes ← list includeDecl
  return { sourceName, includes, namespaces := ← list (namespaceDecl d (bytes.length + 1)) }

end Decoder

/-- Read a unit from the front of some bytes. -/
def CodeUnit.decode : Decode CodeUnit := Decoder.whole Decoder.codeUnit

/-- Read a list of expressions from the front of some bytes. -/
def Expr.decodeList : Decode (List Expr) := Decoder.whole fun d => Decode.list (d .expr)

end ScriptFront
