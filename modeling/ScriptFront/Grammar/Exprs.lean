import ScriptFront.Grammar.Types
import ScriptFront.Syntax.Precedence

/-!
# The grammar of expressions

An operand is an operator with its operand behind it, a `match`, or an atom. What may stand behind
an operand is taken level by level, from the tightest one down to the level that is asked for: all
that binds as tightly as the level or tighter and starts at this operand (`Grammar.climb`).

- Behind an operator with its operand, and behind a `match`, calls and the like are not tried
  first: they belong to the operand inside.
- `<` behind an operand begins type arguments if those can be read and a `(` follows them, and is
  an operator otherwise. A `void` among the type arguments is an error in both cases.
- A lambda has types for all its parameters or for none, as the first one has one.
-/

namespace ScriptFront

namespace Grammar

open ScriptFront.Parser

variable {σ : Type} [ByteSource σ] (g : Grammar σ) (mode : Mode)

/-- `{ statements }` -/
def block : Parse σ (Yield mode Block) := do
  let pos ← position
  mark Symbol.lBrace
  let statements ← listWhile (checkNot Symbol.rBrace) (g.statement mode)
  drop
  return Block.mk pos <$> statements

/-- The arguments of a call behind its opening parenthesis, and the closing one. -/
def callArgs : Parse σ (Yield mode (List Expr)) := do
  if ← eat Symbol.rParen then return pure []
  else
    let args ← g.expr mode Level.chain
    mark Symbol.rParen
    return Expr.commaList <$> args

/-- Type of the parameter `name`. -/
def parameterType (name : String) : Parse σ (Yield mode TypeExpr) := do
  rejectVoid (.parameter (some name))
  g.type mode

/-! ## Atoms -/

/-- The expression that a single token is, made from its text. -/
def tokenForm? : TokenKind → Option (String → ExprForm)
  | .keyword .thisKw => some fun _ => .this
  | .keyword .superKw => some fun _ => .super
  | .identifier => some fun text => .identifier text false
  | .keyword .nullKw => some fun _ => .literal .null
  | .keyword .trueKw => some fun _ => .literal (.bool true)
  | .keyword .falseKw => some fun _ => .literal (.bool false)
  | .real form => some fun text => .literal (.real form text)
  | .string => some fun text => .literal (.string text)
  | .character => some fun text => .literal (.character text)
  | .integer form => some fun text => .literal (.integer form text)
  | _ => none

/-- An expression in parentheses, which takes their position. -/
def parenthesized : Parse σ (Yield mode Expr) := do
  let pos ← position
  drop
  let inner ← g.expr mode Level.chain
  mark Symbol.rParen
  return (fun e => { e with pos }) <$> inner

/-- `[a, b]` -/
def arrayLiteral : Parse σ (Yield mode ExprForm) := do
  mark Symbol.lBracket
  return ExprForm.array <$> (← openListOrEmpty .rBracket (g.expr mode Level.single))

/-- The parameters of a lambda up to the closing bar, which are appended to `taken`. -/
def lambdaParamsOnto (typed : Bool) : (steps : Nat) → (taken : Yield mode (Array LambdaParam)) →
    Parse σ (Yield mode (Array LambdaParam))
  | 0, _ => failAtStart .tooDeep
  | steps + 1, taken => do
    let pos ← position
    let name ← expectIdentifier
    if ← eat Symbol.ellipsis then return taken.push (pure ⟨pos, name, none, true⟩)
    else
      let type ← optionally (return typed) (do
        mark Symbol.colon
        parameterType g mode name)
      let taken := taken.push ((fun type => ⟨pos, name, type, false⟩) <$> type)
      if ← eat Symbol.comma then lambdaParamsOnto typed steps taken
      else if ← check Symbol.pipe then return taken
      else expectedOneOf [Symbol.comma, Symbol.pipe]

/-- The parameters of a lambda between its bars, and whether they are without types though there
are some. -/
def lambdaParams : Parse σ (Yield mode (List LambdaParam) × Bool) := do
  if ← check .identifier then
    let typed := (← peek).kind = Symbol.colon
    let params ← lambdaParamsOnto g mode typed (← listBound) (pure #[])
    return (Array.toList <$> params, !typed)
  else return (pure [], false)

/-- What the types of a lambda leave open. -/
def inferenceOf (untyped explicitResult : Bool) : Inference :=
  match untyped, explicitResult with
  | true, false => .full
  | true, true => .onlyParams
  | false, false => .onlyReturn
  | false, true => .none

/-- The result type behind an arrow, or `void` where the arrow might stand. -/
def resultType : Parse σ (Yield mode TypeExpr) := do
  if ← eat Symbol.arrow then g.type mode
  else return pure (TypeExpr.voidAt (← position))

/-- Set the two bars around no parameters apart. -/
def splitBars : Parse σ Unit := do
  if ← check Symbol.pipePipe then narrow Symbol.pipe 1

/-- `|a, b: T| -> R { … }` -/
def lambda : Parse σ (Yield mode ExprForm) := do
  splitBars
  mark Symbol.pipe
  let (params, untyped) ← lambdaParams g mode
  mark Symbol.pipe
  let explicitResult ← check Symbol.arrow
  let result ← resultType g mode
  let body ← block g mode
  let inference := inferenceOf untyped explicitResult
  return (fun params result body => .lambda params result inference body) <$>
    params <*> result <*> body

/-- A field that a `new` expression sets. -/
def newItem : Parse σ (Yield mode NewItem) := do
  let pos ← position
  let name ← expectIdentifier
  let value ← optionally (eat Symbol.colon) (g.expr mode Level.item)
  return NewItem.mk pos name <$> value

/-- `new T(args) { name: value, … }` -/
def newObject : Parse σ (Yield mode ExprForm) := do
  mark Keyword.newKw
  let type ← g.type mode
  mark Symbol.lParen
  let args ← callArgs g mode
  let init ← optionally (eat Symbol.lBrace) (openListOrEmpty .rBrace (newItem g mode))
  return ExprForm.new <$> type <*> args <*> init

/-- A name with a leading `::`. -/
def rootIdentifier : Parse σ (Yield mode ExprForm) := do
  drop
  let name ← expectIdentifier
  return pure (.identifier name true)

/-- An atom that is not in parentheses. -/
def atomForm : Parse σ (Yield mode ExprForm) := do
  match ← kind with
  | .symbol .lBracket => arrayLiteral g mode
  | .symbol .pipe | .symbol .pipePipe => inContext .lambda (lambda g mode)
  | .keyword .newKw => inContext .new (newObject g mode)
  | .symbol .colonColon => rootIdentifier mode
  | .keyword (.primitive _) => return ExprForm.primitive <$> (← g.type mode)
  | k =>
    match tokenForm? k with
    | some form =>
      let text := (← advance).text
      return pure (form text)
    | none => unexpected

/-- An operand that no operator is part of. -/
def atom : Parse σ (Yield mode Expr) := do
  if ← check Symbol.lParen then parenthesized g mode
  else
    let pos ← position
    return Expr.mk pos <$> (← atomForm g mode)

/-! ## Match expressions -/

/-- What an arm yields: a block, or one value. -/
def armBody : Parse σ (Yield mode ArmBody) := do
  if ← check Symbol.lBrace then return ArmBody.block <$> (← block g mode)
  else return ArmBody.expr <$> (← g.expr mode Level.single)

/-- An arm, and perhaps a comma behind it. -/
def exprArm : Parse σ (Yield mode ExprArm) := do
  let pos ← position
  mark Keyword.whenKw
  let pattern ← g.pattern mode
  mark Symbol.arrow
  let body ← armBody g mode
  let _ ← eat Symbol.comma
  return ExprArm.mk pos <$> pattern <*> body

/-- `match subject { when pattern -> body, … }` with at least one arm. -/
def selectExpr : Parse σ (Yield mode ExprForm) := do
  mark Keyword.matchKw
  let subject ← g.expr mode Level.operand
  mark Symbol.lBrace
  let arms ← listOnceAndWhile (checkNot Symbol.rBrace) (exprArm g mode)
  mark Symbol.rBrace
  return ExprForm.select <$> subject <*> arms

/-! ## Behind an operand -/

/-- At `<`: the type arguments of a call, with the reading behind them, or none with the reading
where it was. -/
def genericCallArgs : Parse σ (Option (Yield mode (List TypeExpr))) := do
  let start ← save
  let isCall ← match ← attempt (genericArgs g .check) with
    | .ok _ => check Symbol.lParen
    | .error e => if e.code = .misplacedVoid then throw e else pure false
  goBack start
  if isCall then return some (← genericArgs g mode) else return none

/-- A call behind its type arguments. -/
def genericCall (callee : Yield mode Expr) (generics : Yield mode (List TypeExpr)) :
    Parse σ (Yield mode ExprForm) := do
  mark Symbol.lParen
  let args ← callArgs g mode
  return ExprForm.genericCall <$> callee <*> generics <*> args

/-- Both branches behind a question mark. -/
def ternary (condition : Yield mode Expr) : Parse σ (Yield mode ExprForm) := do
  drop
  let consequence ← g.expr mode Level.single
  mark Symbol.colon
  let alternative ← g.expr mode Level.chain
  return ExprForm.ternary <$> condition <*> consequence <*> alternative

/-- What stands behind an operand, from its first token on. -/
def continuation (left : Yield mode Expr) : Continuation → Parse σ (Yield mode ExprForm)
  | .binary op => do
    drop
    let right ← g.expr mode op.rightLevel
    return ExprForm.binary op <$> left <*> right
  | .ternary => ternary g mode left
  | .count op => do
    drop
    return ExprForm.unary op .behind <$> left
  | .call => do
    drop
    let args ← callArgs g mode
    return ExprForm.call <$> left <*> args
  | .index => do
    drop
    let position ← g.expr mode Level.chain
    mark Symbol.rBracket
    return ExprForm.index <$> left <*> position
  | .cast => do
    drop
    let type ← g.type mode
    return ExprForm.cast <$> left <*> type
  | .typeTest => do
    drop
    let type ← g.type mode
    return ExprForm.typeTest <$> left <*> type

/-- All that stands behind the operand `left` and binds at least as tightly as `level`. Every node
has the position of the operand. Nothing is taken behind the branches of `?:`. -/
def climb (pos : Position) (level : Nat) :
    (steps : Nat) → (left : Yield mode Expr) → Parse σ (Yield mode Expr)
  | 0, _ => failAtStart .tooDeep
  | steps + 1, left => do
    let k ← kind
    if k = Symbol.lt && level = Level.access then
      match ← genericCallArgs g mode with
      | some generics =>
        let form ← genericCall g mode left generics
        climb pos level steps (Expr.mk pos <$> form)
      | none => return left
    else
      match Continuation.ofKind? k with
      | none => return left
      | some c =>
        if c.level < level then return left
        else
          let whole := Expr.mk pos <$> (← continuation g mode left c)
          if c = .ternary then return whole else climb pos level steps whole

/-- Climb at all levels from `top` down to `level`. -/
def descend (pos : Position) (level : Nat) :
    (top : Nat) → (left : Yield mode Expr) → Parse σ (Yield mode Expr)
  | 0, left => return left
  | top + 1, left =>
    if top + 1 < level then return left
    else do
      let left ← climb g mode pos (top + 1) (← listBound) left
      descend pos level top left

/-- An operator and the operand behind it. -/
def unary (op : UnaryOp) : Parse σ (Yield mode ExprForm) := do
  drop
  let operand ← g.expr mode Level.operand
  return ExprForm.unary op .before <$> operand

/-- An expression at a level. -/
def exprStep (level : Nat) : Parse σ (Yield mode Expr) := do
  let pos ← position
  let k ← kind
  match UnaryOp.ofKind? k with
  | some op =>
    let left := Expr.mk pos <$> (← unary g mode op)
    descend g mode pos level Level.operand left
  | none =>
    if k = Keyword.matchKw then
      let left := Expr.mk pos <$> (← inContext .select (selectExpr g mode))
      descend g mode pos level Level.operand left
    else
      let left ← atom g mode
      descend g mode pos level Level.path left

end Grammar

end ScriptFront
