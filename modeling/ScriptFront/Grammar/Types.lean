import ScriptFront.Grammar.Production
import ScriptFront.Text.Digits

/-!
# The grammar of types

    type     := base '?'? ('[' size? ']')* '?'?
    base     := primitive | 'self' | function | '(' type (',' type)* ')' | path
    function := 'fn' '(' (type (',' type)*)? ('->' type)? ')'
    path     := '::'? segment ('::' segment)*
    segment  := identifier ('<' type (',' type)* '>')?

`void` is a type only where no value of it is needed. The second `?` needs a dimension before it.
A `>` that closes type arguments is cut off a longer symbol that begins with it.
-/

namespace ScriptFront

namespace Grammar

open ScriptFront.Parser

variable {σ : Type} [ByteSource σ] (g : Grammar σ) (mode : Mode)

/-- Stop if the current token is `void`. -/
def rejectVoid (use : VoidUse) : Parse σ Unit := do
  if ← check (.primitive .void) then failAtStart (.misplacedVoid use)

/-- A type of which there are values. -/
def valueType : Parse σ (Yield mode TypeExpr) := do
  rejectVoid .value
  g.type mode

/-- Cut the `>` that closes type arguments off a longer symbol. -/
def splitClosingAngle : Parse σ Unit := do
  let k ← kind
  if k = Symbol.shr || k = Symbol.gtEq || k = Symbol.shrEq then narrow Symbol.gt 1

/-- One type argument, with a closing `>` set apart behind it. -/
def genericArg : Parse σ (Yield mode TypeExpr) := do
  rejectVoid .argument
  let arg ← g.type mode
  splitClosingAngle
  return arg

/-- `<T, U>` -/
def genericArgs : Parse σ (Yield mode (List TypeExpr)) := do
  mark Symbol.lt
  closedList .gt (genericArg g mode)

/-- The largest size of an array, and one. -/
def arraySizeLimit : Nat := UInt64.size

/-- The size between the brackets of an array type. -/
def arraySize : Parse σ Nat := do
  let start ← save
  match (← kind).integerForm? with
  | none => failHere (.wrongToken (.integer .i32))
  | some form =>
    let text := (← advance).text
    match Digits.read? form.radix text with
    | some size =>
      if size < arraySizeLimit then return size else failAt (.arraySize text) start.place
    | none => failAt (.arraySize text) start.place

/-- A dimension behind its opening bracket. -/
def arrayDim : Parse σ ArrayDim := do
  if ← check Symbol.rBracket then
    drop
    return .unsized
  else
    let size ← arraySize
    mark Symbol.rBracket
    return .sized size

/-- All dimensions of an array type. -/
def arrayDims : Parse σ (Yield mode (List ArrayDim)) :=
  listWhile (eat Symbol.lBracket) (do return pure (← arrayDim))

/-- One name of a path and its type arguments. -/
def pathSegment (root : Bool) : Parse σ (Yield mode PathSegment) := do
  let pos ← position
  let name ← expectIdentifier
  if ← check Symbol.lt then
    return PathSegment.mk pos name root <$> (← genericArgs g mode)
  else return pure ⟨pos, name, root, []⟩

/-- A path of names. -/
def typePath : Parse σ (Yield mode TypePath) := do
  let root ← eat Symbol.colonColon
  let head ← pathSegment g mode root
  let tail ← listWhile (eat Symbol.colonColon) (pathSegment g mode false)
  return TypePath.mk <$> head <*> tail

/-- The parameters, which are appended to `params`, and the result of a function type. Without an
arrow the result is `void` where the type closes. -/
def functionPartsOnto : (steps : Nat) → (params : Yield mode (Array TypeExpr)) →
    Parse σ (Yield mode (Array TypeExpr) × Yield mode TypeExpr)
  | 0, _ => failAtStart .tooDeep
  | steps + 1, params => do
    let k ← kind
    if k = Symbol.rParen then
      let close ← position
      drop
      return (params, pure (TypeExpr.voidAt close))
    else if k = Symbol.arrow then
      drop
      let result ← g.type mode
      mark Symbol.rParen
      return (params, result)
    else
      let param ← valueType g mode
      let params := params.push param
      let k ← kind
      if k = Symbol.comma then
        drop
        functionPartsOnto steps params
      else if k = Symbol.rParen || k = Symbol.arrow then functionPartsOnto steps params
      else failAtStart .unclosedFunctionType

/-- `fn(A, B -> R)` -/
def functionType : Parse σ (Yield mode TypeForm) := do
  mark Keyword.fnKw
  mark Symbol.lParen
  let (params, result) ← functionPartsOnto g mode (← listBound) (pure #[])
  return TypeForm.function <$> (Array.toList <$> params) <*> result

/-- `(A, B)` -/
def tupleType : Parse σ (Yield mode TypeForm) := do
  mark Symbol.lParen
  return TypeForm.tuple <$> (← closedList .rParen (valueType g mode))

/-- `self`, which is a type in traits. -/
def selfType : Parse σ (Yield mode TypeForm) := do
  if (← get).inTrait then
    drop
    return pure .selfType
  else failAtStart .selfOutsideTrait

/-- A type without what may stand behind it. -/
def baseType : Parse σ (Yield mode TypeForm) := do
  match ← kind with
  | .keyword (.primitive type) =>
    drop
    return pure (.primitive type)
  | .keyword .fnKw => functionType g mode
  | .symbol .lParen => tupleType g mode
  | .keyword .selfKw => selfType mode
  | .symbol .colonColon | .identifier => return TypeForm.named <$> (← typePath g mode)
  | _ => unexpected

/-- A question mark behind a type that starts at `start`. -/
def absenceSuffix (start : Bookmark) (isVoid : Bool) (type : Yield mode TypeExpr) :
    Parse σ (Yield mode TypeExpr) := do
  if ← check Symbol.question then
    if isVoid then failAt (.misplacedVoid .nullable) start.place
    else
      drop
      return TypeExpr.orAbsent <$> type
  else return type

/-- Dimensions behind a type that starts at `start`, and a question mark behind them. -/
def arraySuffix (start : Bookmark) (isVoid : Bool) (element : Yield mode TypeExpr) :
    Parse σ (Yield mode TypeExpr) := do
  if ← check Symbol.lBracket then
    if isVoid then failAt (.misplacedVoid .value) start.place
    else
      let dims ← arrayDims mode
      let type := (fun element dims => TypeExpr.plain start.position (.array element dims)) <$>
        element <*> dims
      if ← eat Symbol.question then return TypeExpr.orAbsent <$> type else return type
  else return element

/-- A type. -/
def typeStep : Parse σ (Yield mode TypeExpr) := do
  let start ← save
  let isVoid ← check (.primitive .void)
  let form ← baseType g mode
  let type ← absenceSuffix mode start isVoid (TypeExpr.plain start.position <$> form)
  arraySuffix mode start isVoid type

end Grammar

end ScriptFront
