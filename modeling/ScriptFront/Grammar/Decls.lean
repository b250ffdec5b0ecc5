import ScriptFront.Grammar.Stmts
import ScriptFront.Syntax.Decl

/-!
# The grammar of declarations

    unit      := include* namespace*
    namespace := 'namespace' identifier '{' (namespace | declaration)* '}'

Declarations are only built. Parameters and type parameters are shared by all of them.

- A parameter has a type unless it is variadic; only a struct pattern may stand in its place.
- Type parameters may be constrained, each by its own name.
- `self` is a type behind the type parameters of a trait.
-/

namespace ScriptFront

namespace Grammar

open ScriptFront.Parser

variable {σ : Type} [ByteSource σ] (g : Grammar σ)

/-- A part that is only built. -/
def built {α : Type} (part : Parse σ α) : Parse σ (Yield .build α) := part

/-- An optional part that is only built. -/
def builtOptionally {α : Type} (test : Parse σ Bool) (part : Parse σ α) : Parse σ (Option α) :=
  optionally test (built part)

/-- The parts before which a test holds. -/
def builtWhile {α : Type} (test : Parse σ Bool) (part : Parse σ α) : Parse σ (List α) :=
  listWhile test (built part)

/-- A type. -/
abbrev builtType : Parse σ TypeExpr := g.type .build

/-! ## Type parameters -/

/-- A type that a type parameter is constrained to. -/
def constraint : Parse σ TypeExpr := do
  let start ← save
  let type ← builtType g
  if type.nullable then failAt .nullableConstraint start.place else return type

/-- `where T is A | B`, for the type parameter `name`. -/
def constraints (name : String) : Parse σ (List TypeExpr) := do
  mark Keyword.whereKw
  let start ← save
  let constrained ← expectIdentifier
  if constrained ≠ name then failAt (.foreignConstraint name) start.place
  mark Keyword.isKw
  let first ← constraint g
  return first :: (← builtWhile (eat Symbol.pipe) (constraint g))

/-- A type parameter. The colon before its constraints may be left out. -/
def genericItem : Parse σ GenericItem := do
  let pos ← position
  let name ← expectIdentifier
  let colon ← eat Symbol.colon
  if colon || (← check Keyword.whereKw) then return ⟨pos, name, ← constraints g name⟩
  else return ⟨pos, name, []⟩

/-- `<T : where T is A | B, U>` -/
def genericDecl : Parse σ GenericDecl := do
  let pos ← position
  mark Symbol.lt
  let first ← genericItem g
  let rest ← builtWhile (eat Symbol.comma) (genericItem g)
  splitClosingAngle
  mark Symbol.gt
  return ⟨pos, first :: rest⟩

/-- Type parameters, if there are some. -/
def generics : Parse σ (Option GenericDecl) :=
  builtOptionally (check Symbol.lt) (inContext .genericParams (genericDecl g))

/-! ## Parameters -/

/-- A parameter that takes a name, behind its ownership. -/
def namedParameter (pos : Position) (ownership : Ownership) : Parse σ ParameterDecl := do
  let name ← expectIdentifier
  if ← eat Symbol.ellipsis then return ⟨pos, ownership, .named name, none, true⟩
  else
    mark Symbol.colon
    let type ← parameterType g .build name
    return ⟨pos, ownership, .named name, some type, false⟩

/-- A parameter that takes a value apart, behind its ownership. -/
def patternParameter (pos : Position) (ownership : Ownership) : Parse σ ParameterDecl := do
  let pattern ← g.pattern .build
  mark Symbol.colon
  rejectVoid (.parameter none)
  let type ← builtType g
  return ⟨pos, ownership, .destructured pattern, some type, false⟩

/-- A parameter. -/
def parameter : Parse σ ParameterDecl := do
  let pos ← position
  let ownership ← ownership
  let k ← kind
  if k = .identifier then namedParameter g pos ownership
  else if k = Symbol.lBrace then patternParameter g pos ownership
  else expectedOneOf [.identifier, Symbol.lBrace]

/-- Append the parameters up to the closing parenthesis to `taken`. A variadic one is the last. -/
def parametersOnto : (steps : Nat) → (taken : Array ParameterDecl) →
    Parse σ (Array ParameterDecl)
  | 0, _ => failAtStart .tooDeep
  | steps + 1, taken => do
    let next ← parameter g
    let taken := taken.push next
    if next.variadic then
      mark Symbol.rParen
      return taken
    else
      let k ← kind
      if k = Symbol.comma then
        drop
        parametersOnto steps taken
      else if k = Symbol.rParen then
        drop
        return taken
      else failAtStart .unclosedParameters

/-- `(a: T, ref b: U, c...)` -/
def parameters : Parse σ (List ParameterDecl) := do
  mark Symbol.lParen
  inContext .parameters do
    if ← eat Symbol.rParen then return []
    else return (← parametersOnto g (← listBound) #[]).toList

/-! ## Functions, interfaces, structs -/

/-- `fn name<T>(params) -> R { }` -/
def functionDecl (exported : Bool) : Parse σ FunctionDecl := do
  let pos ← position
  mark Keyword.fnKw
  let name ← expectIdentifier
  let generics ← generics g
  let params ← parameters g
  let result ← resultType g .build
  let body ← block g .build
  return { pos, exported, name, generics, params, result, body }

/-- `fn name<T>(params) -> R;` -/
def signature : Parse σ SignatureDecl := do
  let pos ← position
  drop
  let name ← expectIdentifier
  let generics ← generics g
  let params ← parameters g
  let result ← resultType g .build
  mark Symbol.semicolon
  return { pos, name, generics, params, result }

/-- `interface Name<T> { signatures }` -/
def interfaceDecl (exported : Bool) : Parse σ InterfaceDecl := do
  let pos ← position
  mark Keyword.interfaceKw
  let name ← expectIdentifier
  let generics ← generics g
  mark Symbol.lBrace
  let functions ← builtWhile (checkNot Symbol.rBrace) do
    if ← check Keyword.fnKw then signature g
    else expectedOneOf [Keyword.fnKw, Symbol.rBrace]
  drop
  return { pos, exported, name, generics, functions }

/-- Whether a variable is declared here. -/
def atVariable : Parse σ Bool := do
  let k ← kind
  return k = Keyword.letKw || k = Keyword.constKw

/-- `struct Name<T> { fields }` -/
def structDecl (exported : Bool) : Parse σ StructDecl := do
  let pos ← position
  mark Keyword.structKw
  let name ← expectIdentifier
  let generics ← generics g
  mark Symbol.lBrace
  let fields ← builtWhile (checkNot Symbol.rBrace) do
    if ← atVariable then variableDecl g .build false false
    else expectedOneOf [Keyword.letKw, Keyword.constKw, Symbol.rBrace]
  drop
  return { pos, exported, name, generics, fields }

/-! ## Traits -/

/-- `static fn name<T>(params) -> R`, with a body or a semicolon. -/
def traitFunction (hasBody : Bool) : Parse σ TraitFunctionDecl := do
  let pos ← position
  let isStatic ← eat Keyword.staticKw
  mark Keyword.fnKw
  let name ← expectIdentifier
  let generics ← generics g
  let params ← parameters g
  let result ← resultType g .build
  if hasBody then
    let body ← block g .build
    return { pos, isStatic, name, generics, params, result, body := some body }
  else
    mark Symbol.semicolon
    return { pos, isStatic, name, generics, params, result, body := none }

/-- The type that a trait is for, and its functions. -/
def traitBody : Parse σ (Option TypeExpr × List TraitFunctionDecl) := do
  let forType ← builtOptionally (eat Keyword.forKw) (builtType g)
  mark Symbol.lBrace
  let functions ← builtWhile (checkNot Symbol.rBrace) do
    let k ← kind
    if k = Keyword.staticKw || k = Keyword.fnKw then traitFunction g forType.isSome
    else expectedOneOf [Keyword.fnKw, Keyword.staticKw, Symbol.rBrace]
  drop
  return (forType, functions)

/-- `trait Name<T> for U { functions }` -/
def traitDecl (exported : Bool) : Parse σ TraitDecl := do
  let pos ← position
  mark Keyword.traitKw
  let name ← expectIdentifier
  let generics ← generics g
  let (forType, functions) ← inTraitMode (traitBody g)
  return { pos, exported, name, generics, forType, functions }

/-! ## Enums -/

/-- What an item of an enum stands for. -/
def enumItemValue : Parse σ EnumItemValue := do
  let k ← kind
  if k = Symbol.eq then
    drop
    return .value (← g.expr .build Level.item)
  else if k = Symbol.lParen then
    drop
    return .data (← closedList .rParen (g.type .build))
  else return .none

/-- An item of an enum, and the comma behind it, which only the last one does without. -/
def enumItem : Parse σ EnumItemDecl := do
  let pos ← position
  let name ← expectIdentifier
  let value ← enumItemValue g
  let k ← kind
  if k = Symbol.comma then drop
  else if k ≠ Symbol.rBrace then unexpected
  return { pos, name, value }

/-- `enum Name<T> { items }` -/
def enumDecl (exported : Bool) : Parse σ EnumDecl := do
  let pos ← position
  mark Keyword.enumKw
  let name ← expectIdentifier
  let generics ← generics g
  mark Symbol.lBrace
  let items ← builtWhile (checkNot Symbol.rBrace) (enumItem g)
  drop
  return { pos, exported, name, generics, items }

end Grammar

end ScriptFront
