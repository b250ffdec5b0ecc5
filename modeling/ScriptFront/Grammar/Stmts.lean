import ScriptFront.Grammar.Exprs
import ScriptFront.Grammar.Patterns

/-!
# The grammar of statements

The first token tells what a statement is, but for two: `if` is followed by `let` where it takes a
value apart, and an identifier is followed by `:` where it is a label.

A variable without a type, and a constant, need a value. Only statements take values apart.
-/

namespace ScriptFront

namespace Grammar

open ScriptFront.Parser

variable {σ : Type} [ByteSource σ] (g : Grammar σ) (mode : Mode)

/-! ## Variables -/

/-- `ref` or `shared`, or neither. -/
def ownership : Parse σ Ownership := do
  match ← kind with
  | .keyword .refKw =>
    drop
    return .ref
  | .keyword .sharedKw =>
    drop
    return .shared
  | _ => return .owned

/-- What a variable names, or the values that it takes apart. -/
def variableBinding (destructures : Bool) : Parse σ (Yield mode Binding) := do
  let k ← kind
  if k = .identifier then return pure (.named (← expectIdentifier))
  else if !destructures then failHere .missingIdentifier
  else if k = Symbol.lBrace || k = Symbol.lParen then
    return Binding.destructured <$> (← g.pattern mode)
  else expectedOneOf [.identifier, Symbol.lBrace, Symbol.lParen]

/-- The type behind a colon. -/
def variableType : Parse σ (Yield mode TypeExpr) := do
  rejectVoid .variable
  g.type mode

/-- The value behind an equals sign. -/
def initialValue : Parse σ (Yield mode Expr) := do
  mark Symbol.eq
  g.expr mode Level.single

/-- `let` or `const`, what it names, its type and its value. -/
def variableDecl (exported destructures : Bool) : Parse σ (Yield mode VariableDecl) := do
  let pos ← position
  let constant := (← expectOneOf [Keyword.letKw, Keyword.constKw]).kind = Keyword.constKw
  let ownership ← ownership
  let binding ← variableBinding g mode destructures
  let typed ← eat Symbol.colon
  let type ← optionally (return typed) (variableType g mode)
  let assigned ← check Symbol.eq
  let init ← optionally (return constant || !typed || assigned) (initialValue g mode)
  mark Symbol.semicolon
  return VariableDecl.mk pos exported constant ownership <$> binding <*> type <*> init

/-! ## Statements with blocks -/

/-- The block behind `else`. -/
def elseBlock : Parse σ (Yield mode (Option Block)) :=
  optionally (eat Keyword.elseKw) (block g mode)

/-- `if condition { } else { }` -/
def branch : Parse σ (Yield mode StmtForm) := do
  mark Keyword.ifKw
  let condition ← g.expr mode Level.chain
  let consequence ← block g mode
  let alternative ← elseBlock g mode
  return StmtForm.branch <$> condition <*> consequence <*> alternative

/-- `if let pattern = value { } else { }` -/
def branchOn : Parse σ (Yield mode StmtForm) := do
  mark Keyword.ifKw
  mark Keyword.letKw
  let pattern ← g.pattern mode
  mark Symbol.eq
  let value ← g.expr mode Level.chain
  let consequence ← block g mode
  let alternative ← elseBlock g mode
  return StmtForm.branchOn <$> pattern <*> value <*> consequence <*> alternative

/-- What a `for` loop starts with. -/
def forInit : Parse σ (Yield mode (Option ForInit)) := do
  let k ← kind
  if k = Symbol.semicolon then return pure none
  else if k = Keyword.letKw then
    let pos ← position
    drop
    let name ← expectIdentifier
    mark Symbol.eq
    return (fun value => some (.bind pos name value)) <$> (← g.expr mode Level.chain)
  else return (fun value => some (.expr value)) <$> (← g.expr mode Level.chain)

/-- `for init ; condition ; update { }` -/
def forLoop : Parse σ (Yield mode StmtForm) := do
  mark Keyword.forKw
  let init ← forInit g mode
  mark Symbol.semicolon
  let condition ← optionally (checkNot Symbol.semicolon) (g.expr mode Level.chain)
  mark Symbol.semicolon
  let update ← optionally (checkNot Symbol.lBrace) (g.expr mode Level.chain)
  let body ← block g mode
  return StmtForm.forLoop <$> init <*> condition <*> update <*> body

/-- `while condition { }` -/
def whileLoop : Parse σ (Yield mode StmtForm) := do
  drop
  let condition ← g.expr mode Level.chain
  let body ← block g mode
  return StmtForm.whileLoop <$> condition <*> body

/-- `do { } while condition;` -/
def doWhile : Parse σ (Yield mode StmtForm) := do
  drop
  let body ← block g mode
  mark Keyword.whileKw
  let condition ← g.expr mode Level.chain
  mark Symbol.semicolon
  return StmtForm.doWhile <$> body <*> condition

/-- An arm with its block. -/
def stmtArm : Parse σ (Yield mode StmtArm) := do
  let pos ← position
  mark Keyword.whenKw
  let pattern ← g.pattern mode
  mark Symbol.arrow
  let body ← block g mode
  return StmtArm.mk pos <$> pattern <*> body

/-- `match subject { when pattern -> { }, … }` with at least one arm. -/
def selectStmt : Parse σ (Yield mode StmtForm) := do
  mark Keyword.matchKw
  let subject ← g.expr mode Level.chain
  mark Symbol.lBrace
  let arms ← openList .rBrace (stmtArm g mode)
  return StmtForm.select <$> subject <*> arms

/-- `catch (T name) { }` -/
def catchClause : Parse σ (Yield mode CatchClause) := do
  let pos ← position
  mark Keyword.catchKw
  mark Symbol.lParen
  let type ← valueType g mode
  let name ← expectIdentifier
  mark Symbol.rParen
  let body ← block g mode
  return (CatchClause.mk pos · name ·) <$> type <*> body

/-- `try { } catch (T name) { } …` with at least one `catch`. -/
def attemptStmt : Parse σ (Yield mode StmtForm) := do
  mark Keyword.tryKw
  let body ← block g mode
  let handlers ← listOnceAndWhile (check Keyword.catchKw) (catchClause g mode)
  return StmtForm.attempt <$> body <*> handlers

/-! ## Other statements -/

/-- `return value;` -/
def giveBack : Parse σ (Yield mode StmtForm) := do
  drop
  let value ← optionally (checkNot Symbol.semicolon) (g.expr mode Level.chain)
  mark Symbol.semicolon
  return StmtForm.giveBack <$> value

/-- A keyword and a semicolon. -/
def bareStmt (form : StmtForm) : Parse σ (Yield mode StmtForm) := do
  drop
  mark Symbol.semicolon
  return pure form

/-- `goto label;` -/
def gotoStmt : Parse σ (Yield mode StmtForm) := do
  drop
  let label ← expectIdentifier
  mark Symbol.semicolon
  return pure (.goto label)

/-- `panic(value);` -/
def panicStmt : Parse σ (Yield mode StmtForm) := do
  drop
  mark Symbol.lParen
  let value ← g.expr mode Level.chain
  mark Symbol.rParen
  mark Symbol.semicolon
  return StmtForm.panic <$> value

/-- `label:` -/
def labelStmt : Parse σ (Yield mode StmtForm) := do
  let name ← expectIdentifier
  drop
  return pure (.label name)

/-- `value;` -/
def exprStmt : Parse σ (Yield mode StmtForm) := do
  let value ← g.expr mode Level.chain
  mark Symbol.semicolon
  return StmtForm.expr <$> value

/-- A statement without its position. -/
def stmtForm : Parse σ (Yield mode StmtForm) := do
  match ← kind with
  | .keyword .ifKw =>
    if (← peek).kind = Keyword.letKw then branchOn g mode else branch g mode
  | .keyword .forKw => forLoop g mode
  | .keyword .whileKw => whileLoop g mode
  | .keyword .doKw => doWhile g mode
  | .keyword .matchKw => inContext .select (selectStmt g mode)
  | .keyword .returnKw => giveBack g mode
  | .keyword .continueKw => bareStmt mode .next
  | .keyword .breakKw => bareStmt mode .leave
  | .keyword .gotoKw => gotoStmt mode
  | .keyword .tryKw => attemptStmt g mode
  | .keyword .panicKw => panicStmt g mode
  | .keyword .letKw | .keyword .constKw =>
    return StmtForm.variable <$> (← variableDecl g mode false true)
  | .identifier =>
    if (← peek).kind = Symbol.colon then labelStmt mode else exprStmt g mode
  | _ => exprStmt g mode

/-- A statement. -/
def statementStep : Parse σ (Yield mode Stmt) := do
  let pos ← position
  return Stmt.mk pos <$> (← stmtForm g mode)

/-! ## The whole -/

/-- One step of the grammar below declarations. -/
def step (g : Grammar σ) : Grammar σ
  | mode, .type => typeStep g mode
  | mode, .expr level => exprStep g mode level
  | mode, .pattern => patternStep g mode
  | mode, .statement => statementStep g mode

/-- The grammar below declarations for texts that nest at most `depth` deep. -/
def upTo (depth : Nat) : Grammar σ := nest step depth

end Grammar

end ScriptFront
