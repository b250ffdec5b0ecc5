import ScriptFront.Syntax.Tree

/-!
# Declarations

A `CodeUnit` is one text: includes, then namespaces, which hold declarations and further
namespaces. Members of a type are kept by kind, each kind in the order of the text.
-/

namespace ScriptFront

/-- Who may use a member. -/
inductive Access where
  | publicMember
  | protectedMember
  | privateMember
deriving DecidableEq, Repr

namespace Access

/-- The name in listings and trees. -/
def name : Access → String
  | .publicMember => "Public"
  | .protectedMember => "Protected"
  | .privateMember => "Private"

/-- All of them. -/
def all : List Access := [.publicMember, .protectedMember, .privateMember]

theorem mem_all (a : Access) : a ∈ all := by cases a <;> decide

end Access

/-- A parameter of a function; `name...` takes all further arguments and has no type. -/
structure ParameterDecl where
  pos : Position
  ownership : Ownership
  binding : Binding
  type : Option TypeExpr
  variadic : Bool

/-- A type parameter and the types that it is constrained to. -/
structure GenericItem where
  pos : Position
  name : String
  constraints : List TypeExpr

/-- `<T : where T is A | B, U>` -/
structure GenericDecl where
  pos : Position
  items : List GenericItem

/-- A function of a class. -/
structure ClassFunctionDecl where
  pos : Position
  access : Access
  isStatic : Bool
  isAbstract : Bool
  isVirtual : Bool
  isOverride : Bool
  isFinal : Bool
  /-- The interface that `fn IFoo.run()` names before the function. -/
  sourceType : Option TypeExpr
  name : String
  generics : Option GenericDecl
  params : List ParameterDecl
  result : TypeExpr
  body : Option Block

/-- A variable of a class. -/
structure ClassVariableDecl where
  access : Access
  isStatic : Bool
  decl : VariableDecl

/-- `field(value)` in front of a constructor's body. -/
structure FieldInit where
  pos : Position
  name : String
  value : Expr

/-- `constructor(params) : super(args), field(value) { }` -/
structure ConstructorDecl where
  pos : Position
  access : Access
  params : List ParameterDecl
  superArgs : Option (List Expr)
  inits : List FieldInit
  body : Block

/-- `destructor() { }` -/
structure DestructorDecl where
  pos : Position
  body : Block

/-- A class. Its base and interfaces are named types. -/
structure ClassDecl where
  pos : Position
  exported : Bool
  isAbstract : Bool
  name : String
  generics : Option GenericDecl
  base : Option TypeExpr
  interfaces : List TypeExpr
  functions : List ClassFunctionDecl
  fields : List ClassVariableDecl
  constructors : List ConstructorDecl
  destructors : List DestructorDecl

/-- A function of an interface. -/
structure SignatureDecl where
  pos : Position
  name : String
  generics : Option GenericDecl
  params : List ParameterDecl
  result : TypeExpr

/-- An interface. -/
structure InterfaceDecl where
  pos : Position
  exported : Bool
  name : String
  generics : Option GenericDecl
  functions : List SignatureDecl

/-- A struct. -/
structure StructDecl where
  pos : Position
  exported : Bool
  name : String
  generics : Option GenericDecl
  fields : List VariableDecl

/-- A function of a trait; it has a body if the trait is for a type. -/
structure TraitFunctionDecl where
  pos : Position
  isStatic : Bool
  name : String
  generics : Option GenericDecl
  params : List ParameterDecl
  result : TypeExpr
  body : Option Block

/-- A trait, or its definition for a type. -/
structure TraitDecl where
  pos : Position
  exported : Bool
  name : String
  generics : Option GenericDecl
  forType : Option TypeExpr
  functions : List TraitFunctionDecl

/-- Whether a trait is defined for a type. -/
def TraitDecl.isDefinition (t : TraitDecl) : Bool := t.forType.isSome

/-- What an item of an enum stands for. -/
inductive EnumItemValue where
  | none
  | value (value : Expr)
  | data (types : List TypeExpr)

/-- An item of an enum. -/
structure EnumItemDecl where
  pos : Position
  name : String
  value : EnumItemValue

/-- An enum. -/
structure EnumDecl where
  pos : Position
  exported : Bool
  name : String
  generics : Option GenericDecl
  items : List EnumItemDecl

/-- A function of a namespace. -/
structure FunctionDecl where
  pos : Position
  exported : Bool
  name : String
  generics : Option GenericDecl
  params : List ParameterDecl
  result : TypeExpr
  body : Block

/-- What a namespace holds besides namespaces. -/
inductive GeneralDecl where
  | «class» (decl : ClassDecl)
  | interface (decl : InterfaceDecl)
  | struct (decl : StructDecl)
  | enum (decl : EnumDecl)
  | trait (decl : TraitDecl)
  | function (decl : FunctionDecl)
  | variable (decl : VariableDecl)

/-- The name that a declaration gives; none if it takes a value apart. -/
def GeneralDecl.name? : GeneralDecl → Option String
  | .class decl => some decl.name
  | .interface decl => some decl.name
  | .struct decl => some decl.name
  | .enum decl => some decl.name
  | .trait decl => some decl.name
  | .function decl => some decl.name
  | .variable decl => decl.binding.name?

/-- The position of a declaration. -/
def GeneralDecl.pos : GeneralDecl → Position
  | .class decl => decl.pos
  | .interface decl => decl.pos
  | .struct decl => decl.pos
  | .enum decl => decl.pos
  | .trait decl => decl.pos
  | .function decl => decl.pos
  | .variable decl => decl.pos

/-- A name that is included. -/
structure IncludeItem where
  pos : Position
  name : String

/-- What is included: all names, or some. -/
inductive IncludeItems where
  | all
  | named (items : List IncludeItem)

/-- `::a::b::c` -/
structure ScopedName where
  pos : Position
  root : Bool
  segments : List String

/-- `include { a, b } from path;` -/
structure IncludeDecl where
  pos : Position
  items : IncludeItems
  path : ScopedName

/-- A namespace. -/
structure NamespaceDecl where
  pos : Position
  name : String
  namespaces : List NamespaceDecl
  declarations : List GeneralDecl

/-- One text. -/
structure CodeUnit where
  sourceName : String
  includes : List IncludeDecl
  namespaces : List NamespaceDecl

end ScriptFront
