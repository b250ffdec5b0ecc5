import ScriptFront.Grammar.Decls

/-!
# The grammar of classes

A member starts with an access modifier and `static`, which some kinds of members do without. A
function may name the interface that it implements before its own name (`fn IFoo<T>.run()`); that
is found out by looking for a dot before the parameters.
-/

namespace ScriptFront

namespace Grammar

open ScriptFront.Parser

variable {σ : Type} [ByteSource σ] (g : Grammar σ)

/-- A member of a class. -/
inductive ClassMember where
  | function (decl : ClassFunctionDecl)
  | variable (decl : ClassVariableDecl)
  | constructor (decl : ConstructorDecl)
  | destructor (decl : DestructorDecl)

namespace ClassMember

/-- The function that a member is. -/
def asFunction? : ClassMember → Option ClassFunctionDecl
  | .function decl => some decl
  | _ => none

/-- The variable that a member is. -/
def asVariable? : ClassMember → Option ClassVariableDecl
  | .variable decl => some decl
  | _ => none

/-- The constructor that a member is. -/
def asConstructor? : ClassMember → Option ConstructorDecl
  | .constructor decl => some decl
  | _ => none

/-- The destructor that a member is. -/
def asDestructor? : ClassMember → Option DestructorDecl
  | .destructor decl => some decl
  | _ => none

end ClassMember

/-! ## Functions of classes -/

/-- Whether a dot comes before whatever ends the name of a function. -/
def dotAhead : (steps : Nat) → Parse σ Bool
  | 0 => failAtStart .tooDeep
  | steps + 1 => do
    let k ← kind
    if k = Symbol.dot then return true
    else if k = Symbol.lParen || k = Symbol.lBrace || k = Symbol.semicolon || k = .eof then
      return false
    else
      drop
      dotAhead steps

/-- Whether the name of a function is preceded by an interface. -/
def namesSourceType : Parse σ Bool := do
  lookAhead (dotAhead (← listBound))

/-- The interface before the name of a function, and the dot. -/
def sourceType : Parse σ TypeExpr := do
  let type ← builtType g
  mark Symbol.dot
  return type

/-- `override` and `final` behind a function, at most one of them. -/
def closingModifiers (isAbstract : Bool) (name : String) : Parse σ (Bool × Bool) := do
  let k ← kind
  let overrides := k = Keyword.overrideKw
  let final := k = Keyword.finalKw
  if overrides || final then
    if isAbstract then failAtStart (.modifierClash (.abstractFunction name))
    drop
  return (overrides, final)

/-- A function behind `abstract` and `virtual`; an abstract one has a semicolon in place of a
body. -/
def classFunctionBehind (pos : Position) (access : Access) (isStatic isAbstract isVirtual : Bool) :
    Parse σ ClassFunctionDecl := do
  mark Keyword.fnKw
  let sourceType ← builtOptionally namesSourceType (sourceType g)
  let name ← expectIdentifier
  let generics ← generics g
  let params ← parameters g
  let result ← resultType g .build
  let (isOverride, isFinal) ← closingModifiers isAbstract name
  let body ← builtOptionally (return !isAbstract) (block g .build)
  if isAbstract then mark Symbol.semicolon
  return { pos, access, isStatic, isAbstract, isVirtual, isOverride, isFinal, sourceType, name,
           generics, params, result, body }

/-- `(abstract|virtual)? fn (Source.)?name<T>(params) -> R (override|final)? body` -/
def classFunction (access : Access) (isStatic : Bool) : Parse σ ClassFunctionDecl := do
  let pos ← position
  let isAbstract ← eat Keyword.abstractKw
  let isVirtual ← if isAbstract then pure false else eat Keyword.virtualKw
  classFunctionBehind g pos access isStatic isAbstract isVirtual

/-! ## Constructors and destructors -/

/-- `field(value)` -/
def fieldInit : Parse σ FieldInit := do
  let pos ← position
  let name ← expectIdentifier
  mark Symbol.lParen
  let value ← g.expr .build Level.chain
  mark Symbol.rParen
  return { pos, name, value }

/-- What stands between the colon and the body of a constructor: the arguments for the base class
or a field, then further fields. -/
def constructorInits : Parse σ (Option (List Expr) × List FieldInit) := do
  if ← eat Keyword.superKw then
    mark Symbol.lParen
    let args ← callArgs g .build
    return (some args, ← builtWhile (eat Symbol.comma) (fieldInit g))
  else
    let first ← fieldInit g
    return (none, first :: (← builtWhile (eat Symbol.comma) (fieldInit g)))

/-- `constructor(params) : super(args), field(value) { }` -/
def constructorDecl (access : Access) : Parse σ ConstructorDecl := do
  let pos ← position
  mark Keyword.constructorKw
  let params ← parameters g
  let (superArgs, inits) ←
    if ← eat Symbol.colon then constructorInits g else pure (none, [])
  let body ← block g .build
  return { pos, access, params, superArgs, inits, body }

/-- `destructor() { }` -/
def destructorDecl : Parse σ DestructorDecl := do
  let pos ← position
  mark Keyword.destructorKw
  mark Symbol.lParen
  mark Symbol.rParen
  let body ← block g .build
  return { pos, body }

/-! ## Members -/

/-- The tokens that a member may start with, and the one that ends the class. -/
def memberStart : List TokenKind :=
  [Keyword.publicKw, Keyword.protectedKw, Keyword.privateKw, Keyword.letKw, Keyword.constKw,
    Keyword.virtualKw, Keyword.abstractKw, Keyword.fnKw, Keyword.constructorKw,
    Keyword.destructorKw, Symbol.rBrace]

/-- The access modifier that a token writes. -/
def accessOf? : TokenKind → Option Access
  | .keyword .publicKw => some .publicMember
  | .keyword .protectedKw => some .protectedMember
  | .keyword .privateKw => some .privateMember
  | _ => none

/-- An access modifier, if there is one. -/
def accessModifier : Parse σ (Option Access) := do
  let access := accessOf? (← kind)
  if access.isSome then drop
  return access

/-- Stop because modifiers do not go together. -/
def clash {α : Type} (clash : ModifierClash) : Parse σ α := failAtStart (.modifierClash clash)

/-- A member. Without an access modifier it is private. -/
def classMember : Parse σ ClassMember := do
  let modifier ← accessModifier
  let access := modifier.getD .privateMember
  let isStatic ← eat Keyword.staticKw
  match ← kind with
  | .keyword .abstractKw =>
    if isStatic then clash .staticAbstract
    else return .function (← classFunction g access isStatic)
  | .keyword .virtualKw =>
    if isStatic then clash .staticVirtual
    else return .function (← classFunction g access isStatic)
  | .keyword .fnKw => return .function (← classFunction g access isStatic)
  | .keyword .letKw | .keyword .constKw =>
    return .variable { access, isStatic, decl := ← variableDecl g .build false false }
  | .keyword .constructorKw =>
    if isStatic then clash .staticConstructor
    else return .constructor (← constructorDecl g access)
  | .keyword .destructorKw =>
    if isStatic then clash .staticDestructor
    else if modifier.isSome then clash .destructorAccess
    else return .destructor (← destructorDecl g)
  | _ => expectedOneOf memberStart

/-! ## Classes -/

/-- A type that has to be named, or else there is a fault where it starts. -/
def namedType (fault : SyntaxFault) : Parse σ TypeExpr := do
  let start ← save
  let type ← builtType g
  if type.isNamed then return type else failAt fault start.place

/-- The interfaces that a class implements. -/
def interfaces (className : String) : Parse σ (List TypeExpr) := do
  if ← eat Keyword.implementsKw then
    let element := namedType g (.notAnInterface className)
    let first ← element
    return first :: (← builtWhile (eat Symbol.comma) element)
  else return []

/-- `class Name<T> extends Base implements I, J { members }` -/
def classDecl (exported isAbstract : Bool) : Parse σ ClassDecl := do
  let pos ← position
  mark Keyword.classKw
  let name ← expectIdentifier
  let generics ← generics g
  let base ← builtOptionally (eat Keyword.extendsKw) (namedType g (.notABase name))
  let interfaces ← interfaces g name
  mark Symbol.lBrace
  let members ← builtWhile (checkNot Symbol.rBrace) (classMember g)
  drop
  return { pos, exported, isAbstract, name, generics, base, interfaces
           functions := members.filterMap ClassMember.asFunction?
           fields := members.filterMap ClassMember.asVariable?
           constructors := members.filterMap ClassMember.asConstructor?
           destructors := members.filterMap ClassMember.asDestructor? }

end Grammar

end ScriptFront
