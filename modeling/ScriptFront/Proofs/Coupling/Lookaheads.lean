import ScriptFront.Grammar.Units

/-!
# The grammar with its lookaheads left open

Five productions look further than the current token and come back: the parameters of a lambda and
the statement look at the next token, what stands behind an operand looks for type arguments and a
`(`, a pattern looks for a `(` behind a path, and a function of a class looks for a dot. Here these
lookaheads are a parameter, and with them all productions that lead to them; every other production
is taken as it is.

- `Lookaheads`: one reading for each of the four ways to look further.
- `Lookaheads.plain`: the lookaheads of the grammar.
- `Lookaheads.read_plain`: with these, all readings are those of the front end.
-/

namespace ScriptFront

open ScriptFront.Parser

/-! ## Readings -/

/-- What can be read from where a reading stands. -/
inductive Entry where
  | unit
  | type
  | expr
  | pattern
  | statement
  | block
  /-- Nothing but the end of the text. -/
  | eof
deriving DecidableEq, Repr

namespace Entry

/-- What a reading comes to. -/
abbrev Tree : Entry → Type
  | .unit => CodeUnit
  | .type => TypeExpr
  | .expr => Expr
  | .pattern => Pattern
  | .statement => Stmt
  | .block => Block
  | .eof => Unit

/-- Read it. -/
def read {σ : Type} [ByteSource σ] : (entry : Entry) → Parse σ entry.Tree
  | .unit => parseUnit
  | .type => parseType
  | .expr => parseExpr
  | .pattern => parsePattern
  | .statement => parseStatement
  | .block => parseBlock
  | .eof => expectEof

end Entry

/-! ## Looking further -/

/-- How a reading looks further than the current token. -/
structure Lookaheads (σ : Type) where
  /-- At `<`, look for type arguments with a `(` behind them, and read them if they are there. -/
  callGenerics : (g : Grammar σ) → (mode : Mode) → Parse σ (Option (Yield mode (List TypeExpr)))
  /-- Look for a `(` behind a path. -/
  parenBehind : (g : Grammar σ) → Parse σ Bool
  /-- Look for a dot in front of the parameters of a function. -/
  dotBefore : Parse σ Bool
  /-- Look at the next token. -/
  second : Parse σ Token

namespace Lookaheads

variable {σ : Type} [ByteSource σ]

/-- The lookaheads of the grammar. -/
def plain : Lookaheads σ where
  callGenerics := Grammar.genericCallArgs
  parenBehind := Grammar.pathOpensParen
  dotBefore := Grammar.namesSourceType
  second := Parser.peek

variable (L : Lookaheads σ) (g : Grammar σ) (mode : Mode)

/-! ## Expressions -/

/-- As `Grammar.lambdaParams`. -/
def lambdaParams : Parse σ (Yield mode (List LambdaParam) × Bool) := do
  if ← check .identifier then
    let typed := (← L.second).kind = Symbol.colon
    let params ← g.lambdaParamsOnto mode typed (← listBound) (pure #[])
    return (Array.toList <$> params, !typed)
  else return (pure [], false)

/-- As `Grammar.lambda`. -/
def lambda : Parse σ (Yield mode ExprForm) := do
  Grammar.splitBars
  mark Symbol.pipe
  let (params, untyped) ← L.lambdaParams g mode
  mark Symbol.pipe
  let explicitResult ← check Symbol.arrow
  let result ← g.resultType mode
  let body ← g.block mode
  let inference := Grammar.inferenceOf untyped explicitResult
  return (fun params result body => .lambda params result inference body) <$>
    params <*> result <*> body

/-- As `Grammar.atomForm`. -/
def atomForm : Parse σ (Yield mode ExprForm) := do
  match ← kind with
  | .symbol .lBracket => g.arrayLiteral mode
  | .symbol .pipe | .symbol .pipePipe => inContext .lambda (L.lambda g mode)
  | .keyword .newKw => inContext .new (g.newObject mode)
  | .symbol .colonColon => Grammar.rootIdentifier mode
  | .keyword (.primitive _) => return ExprForm.primitive <$> (← g.type mode)
  | k =>
    match Grammar.tokenForm? k with
    | some form =>
      let text := (← advance).text
      return pure (form text)
    | none => unexpected

/-- As `Grammar.atom`. -/
def atom : Parse σ (Yield mode Expr) := do
  if ← check Symbol.lParen then g.parenthesized mode
  else
    let pos ← position
    return Expr.mk pos <$> (← L.atomForm g mode)

/-- As `Grammar.climb`. -/
def climb (pos : Position) (level : Nat) :
    (steps : Nat) → (left : Yield mode Expr) → Parse σ (Yield mode Expr)
  | 0, _ => failAtStart .tooDeep
  | steps + 1, left => do
    let k ← kind
    if k = Symbol.lt && level = Level.access then
      match ← L.callGenerics g mode with
      | some generics =>
        let form ← g.genericCall mode left generics
        climb pos level steps (Expr.mk pos <$> form)
      | none => return left
    else
      match Continuation.ofKind? k with
      | none => return left
      | some c =>
        if c.level < level then return left
        else
          let whole := Expr.mk pos <$> (← g.continuation mode left c)
          if c = .ternary then return whole else climb pos level steps whole

/-- As `Grammar.descend`. -/
def descend (pos : Position) (level : Nat) :
    (top : Nat) → (left : Yield mode Expr) → Parse σ (Yield mode Expr)
  | 0, left => return left
  | top + 1, left =>
    if top + 1 < level then return left
    else do
      let left ← L.climb g mode pos (top + 1) (← listBound) left
      descend pos level top left

/-- As `Grammar.exprStep`. -/
def exprStep (level : Nat) : Parse σ (Yield mode Expr) := do
  let pos ← position
  let k ← kind
  match UnaryOp.ofKind? k with
  | some op =>
    let left := Expr.mk pos <$> (← g.unary mode op)
    L.descend g mode pos level Level.operand left
  | none =>
    if k = Keyword.matchKw then
      let left := Expr.mk pos <$> (← inContext .select (g.selectExpr mode))
      L.descend g mode pos level Level.operand left
    else
      let left ← L.atom g mode
      L.descend g mode pos level Level.path left

/-! ## Patterns and statements -/

/-- As `Grammar.patternForm`. -/
def patternForm : Parse σ (Yield mode PatternForm) := do
  match ← kind with
  | .identifier | .symbol .colonColon =>
    if ← L.parenBehind g then g.variantPattern mode else g.literalPattern mode
  | .symbol .lParen =>
    drop
    return PatternForm.tuple <$> (← g.patternItems mode)
  | .symbol .lBrace =>
    drop
    return PatternForm.fields <$> (← openListOrEmpty .rBrace (g.fieldPattern mode))
  | k => if Grammar.startsLiteral k then g.literalPattern mode else unexpected

/-- As `Grammar.patternStep`. -/
def patternStep : Parse σ (Yield mode Pattern) := do
  let pos ← position
  return Pattern.mk pos <$> (← L.patternForm g mode)

/-- As `Grammar.stmtForm`. -/
def stmtForm : Parse σ (Yield mode StmtForm) := do
  match ← kind with
  | .keyword .ifKw =>
    if (← L.second).kind = Keyword.letKw then g.branchOn mode else g.branch mode
  | .keyword .forKw => g.forLoop mode
  | .keyword .whileKw => g.whileLoop mode
  | .keyword .doKw => g.doWhile mode
  | .keyword .matchKw => inContext .select (g.selectStmt mode)
  | .keyword .returnKw => g.giveBack mode
  | .keyword .continueKw => Grammar.bareStmt mode .next
  | .keyword .breakKw => Grammar.bareStmt mode .leave
  | .keyword .gotoKw => Grammar.gotoStmt mode
  | .keyword .tryKw => g.attemptStmt mode
  | .keyword .panicKw => g.panicStmt mode
  | .keyword .letKw | .keyword .constKw =>
    return StmtForm.variable <$> (← g.variableDecl mode false true)
  | .identifier =>
    if (← L.second).kind = Symbol.colon then Grammar.labelStmt mode else g.exprStmt mode
  | _ => g.exprStmt mode

/-- As `Grammar.statementStep`. -/
def statementStep : Parse σ (Yield mode Stmt) := do
  let pos ← position
  return Stmt.mk pos <$> (← L.stmtForm g mode)

/-- As `Grammar.step`. -/
def step (g : Grammar σ) : Grammar σ
  | mode, .type => g.typeStep mode
  | mode, .expr level => L.exprStep g mode level
  | mode, .pattern => L.patternStep g mode
  | mode, .statement => L.statementStep g mode

/-- As `Grammar.upTo`. -/
def upTo (depth : Nat) : Grammar σ := Grammar.nest L.step depth

/-! ## Declarations -/

/-- As `Grammar.classFunctionBehind`. -/
def classFunctionBehind (pos : Position) (access : Access)
    (isStatic isAbstract isVirtual : Bool) : Parse σ ClassFunctionDecl := do
  mark Keyword.fnKw
  let sourceType ← Grammar.builtOptionally L.dotBefore g.sourceType
  let name ← expectIdentifier
  let generics ← g.generics
  let params ← g.parameters
  let result ← g.resultType .build
  let (isOverride, isFinal) ← Grammar.closingModifiers isAbstract name
  let body ← Grammar.builtOptionally (return !isAbstract) (g.block .build)
  if isAbstract then mark Symbol.semicolon
  return { pos, access, isStatic, isAbstract, isVirtual, isOverride, isFinal, sourceType, name,
           generics, params, result, body }

/-- As `Grammar.classFunction`. -/
def classFunction (access : Access) (isStatic : Bool) : Parse σ ClassFunctionDecl := do
  let pos ← position
  let isAbstract ← eat Keyword.abstractKw
  let isVirtual ← if isAbstract then pure false else eat Keyword.virtualKw
  L.classFunctionBehind g pos access isStatic isAbstract isVirtual

/-- As `Grammar.classMember`. -/
def classMember : Parse σ Grammar.ClassMember := do
  let modifier ← Grammar.accessModifier
  let access := modifier.getD .privateMember
  let isStatic ← eat Keyword.staticKw
  match ← kind with
  | .keyword .abstractKw =>
    if isStatic then Grammar.clash .staticAbstract
    else return .function (← L.classFunction g access isStatic)
  | .keyword .virtualKw =>
    if isStatic then Grammar.clash .staticVirtual
    else return .function (← L.classFunction g access isStatic)
  | .keyword .fnKw => return .function (← L.classFunction g access isStatic)
  | .keyword .letKw | .keyword .constKw =>
    return .variable { access, isStatic, decl := ← g.variableDecl .build false false }
  | .keyword .constructorKw =>
    if isStatic then Grammar.clash .staticConstructor
    else return .constructor (← g.constructorDecl access)
  | .keyword .destructorKw =>
    if isStatic then Grammar.clash .staticDestructor
    else if modifier.isSome then Grammar.clash .destructorAccess
    else return .destructor (← g.destructorDecl)
  | _ => expectedOneOf Grammar.memberStart

/-- As `Grammar.classDecl`. -/
def classDecl (exported isAbstract : Bool) : Parse σ ClassDecl := do
  let pos ← position
  mark Keyword.classKw
  let name ← expectIdentifier
  let generics ← g.generics
  let base ← Grammar.builtOptionally (eat Keyword.extendsKw) (g.namedType (.notABase name))
  let interfaces ← g.interfaces name
  mark Symbol.lBrace
  let members ← Grammar.builtWhile (checkNot Symbol.rBrace) (L.classMember g)
  drop
  return { pos, exported, isAbstract, name, generics, base, interfaces
           functions := members.filterMap Grammar.ClassMember.asFunction?
           fields := members.filterMap Grammar.ClassMember.asVariable?
           constructors := members.filterMap Grammar.ClassMember.asConstructor?
           destructors := members.filterMap Grammar.ClassMember.asDestructor? }

/-- As `Grammar.declaration`. -/
def declaration (exported isAbstract : Bool) : Parse σ GeneralDecl := do
  match ← kind with
  | .keyword .classKw =>
    return .class (← inContext .classes (L.classDecl g exported isAbstract))
  | .keyword .interfaceKw => return .interface (← inContext .interfaces (g.interfaceDecl exported))
  | .keyword .structKw => return .struct (← inContext .structs (g.structDecl exported))
  | .keyword .enumKw => return .enum (← inContext .enums (g.enumDecl exported))
  | .keyword .traitKw => return .trait (← inContext .traits (g.traitDecl exported))
  | .keyword .fnKw => return .function (← inContext .functions (g.functionDecl exported))
  | .keyword .letKw | .keyword .constKw =>
    return .variable (← g.variableDecl .build exported false)
  | _ =>
    expectedOneOf [Keyword.classKw, Keyword.interfaceKw, Keyword.structKw, Keyword.enumKw,
      Keyword.traitKw, Keyword.letKw, Keyword.constKw, Keyword.fnKw]

/-- As `Grammar.generalDecl`. -/
def generalDecl : Parse σ GeneralDecl := do
  let exported ← eat Keyword.exportKw
  let isAbstract ← eat Keyword.abstractKw
  if isAbstract && (← checkNot Keyword.classKw) then unexpected
  else L.declaration g exported isAbstract

/-- As `Grammar.namespaceDecl`. -/
def namespaceDecl : (depth : Nat) → Parse σ NamespaceDecl
  | 0 => failAtStart .tooDeep
  | depth + 1 => do
    let pos ← position
    mark Keyword.namespaceKw
    let name ← expectIdentifier
    inContext .namespaces do
      mark Symbol.lBrace
      let members ← Grammar.builtWhile (checkNot Symbol.rBrace) do
        if ← check Keyword.namespaceKw then
          return Grammar.NamespaceMember.inner (← namespaceDecl depth)
        else return Grammar.NamespaceMember.declaration (← L.generalDecl g)
      drop
      return { pos, name
               namespaces := members.filterMap Grammar.NamespaceMember.inner?
               declarations := members.filterMap Grammar.NamespaceMember.declaration? }

/-- As `Grammar.topNamespace`. -/
def topNamespace : Parse σ NamespaceDecl := do
  if ← check Keyword.namespaceKw then L.namespaceDecl g (← listBound)
  else expectedOneOf [Keyword.namespaceKw]

/-- As `Grammar.unit`. -/
def unit : Parse σ CodeUnit := do
  let sourceName := (← get).sourceName
  let includes ← Grammar.builtWhile (check Keyword.includeKw)
    (inContext .includes Grammar.includeDecl)
  let namespaces ← Grammar.builtWhile (checkNot .eof) (L.topNamespace g)
  return { sourceName, includes, namespaces }

/-! ## Whole readings -/

/-- As `Parser.grammar`. -/
def grammar : Parse σ (Grammar σ) := return L.upTo (← get).bound

/-- As `Entry.read`. -/
def read : (entry : Entry) → Parse σ entry.Tree
  | .unit => do L.unit (← L.grammar)
  | .type => do (← L.grammar).type .build
  | .expr => do (← L.grammar).expr .build Level.chain
  | .pattern => do (← L.grammar).pattern .build
  | .statement => do (← L.grammar).statement .build
  | .block => do (← L.grammar).block .build
  | .eof => expectEof

/-! ## The lookaheads of the grammar -/

theorem lambdaParams_plain : plain.lambdaParams g mode = g.lambdaParams mode := rfl

theorem lambda_plain : plain.lambda g mode = g.lambda mode := by
  unfold lambda Grammar.lambda
  rw [lambdaParams_plain]

theorem atomForm_plain : plain.atomForm g mode = g.atomForm mode := by
  unfold atomForm Grammar.atomForm
  exact lambda_plain g mode ▸ rfl

theorem atom_plain : plain.atom g mode = g.atom mode := by
  unfold atom Grammar.atom
  rw [atomForm_plain]

theorem climb_plain (pos : Position) (level steps : Nat) (left : Yield mode Expr) :
    plain.climb g mode pos level steps left = g.climb mode pos level steps left := by
  induction steps generalizing left with
  | zero => rfl
  | succ steps ih =>
    unfold climb Grammar.climb
    simp only [ih]
    rfl

theorem descend_plain (pos : Position) (level top : Nat) (left : Yield mode Expr) :
    plain.descend g mode pos level top left = g.descend mode pos level top left := by
  induction top generalizing left with
  | zero => rfl
  | succ top ih =>
    unfold descend Grammar.descend
    simp only [climb_plain, ih]

theorem exprStep_plain (level : Nat) : plain.exprStep g mode level = g.exprStep mode level := by
  have hdescend : plain.descend g mode = g.descend mode := by
    funext pos level top left
    exact descend_plain g mode pos level top left
  unfold exprStep Grammar.exprStep
  exact hdescend ▸ atom_plain g mode ▸ rfl

theorem patternForm_plain : plain.patternForm g mode = g.patternForm mode := rfl

theorem stmtForm_plain : plain.stmtForm g mode = g.stmtForm mode := rfl

/-- With the lookaheads of the grammar, a step is a step of the grammar. -/
theorem step_plain (g : Grammar σ) : plain.step g = Grammar.step g := by
  funext mode production
  cases production with
  | type => rfl
  | expr level => exact exprStep_plain g mode level
  | pattern =>
    show plain.patternStep g mode = g.patternStep mode
    unfold patternStep Grammar.patternStep
    rw [patternForm_plain]
  | statement =>
    show plain.statementStep g mode = g.statementStep mode
    unfold statementStep Grammar.statementStep
    rw [stmtForm_plain]

theorem upTo_plain (depth : Nat) : plain.upTo depth = (Grammar.upTo depth : Grammar σ) := by
  have hstep : (plain.step : Grammar σ → Grammar σ) = Grammar.step := funext step_plain
  unfold upTo Grammar.upTo
  rw [hstep]

theorem grammar_plain : (plain.grammar : Parse σ (Grammar σ)) = Parser.grammar := by
  unfold grammar Parser.grammar
  simp only [upTo_plain]

theorem classFunctionBehind_plain (pos : Position) (access : Access)
    (isStatic isAbstract isVirtual : Bool) :
    plain.classFunctionBehind g pos access isStatic isAbstract isVirtual =
      g.classFunctionBehind pos access isStatic isAbstract isVirtual := rfl

theorem classFunction_plain (access : Access) (isStatic : Bool) :
    plain.classFunction g access isStatic = g.classFunction access isStatic := by
  unfold classFunction Grammar.classFunction
  simp only [classFunctionBehind_plain]

theorem classMember_plain : plain.classMember g = g.classMember := by
  have hfunction : plain.classFunction g = g.classFunction := by
    funext access isStatic
    exact classFunction_plain g access isStatic
  unfold classMember Grammar.classMember
  exact hfunction ▸ rfl

theorem classDecl_plain (exported isAbstract : Bool) :
    plain.classDecl g exported isAbstract = g.classDecl exported isAbstract := by
  unfold classDecl Grammar.classDecl
  simp only [classMember_plain]

theorem declaration_plain (exported isAbstract : Bool) :
    plain.declaration g exported isAbstract = g.declaration exported isAbstract := by
  unfold declaration Grammar.declaration
  exact classDecl_plain g exported isAbstract ▸ rfl

theorem generalDecl_plain : plain.generalDecl g = g.generalDecl := by
  unfold generalDecl Grammar.generalDecl
  simp only [declaration_plain]

theorem namespaceDecl_plain (depth : Nat) :
    plain.namespaceDecl g depth = g.namespaceDecl depth := by
  induction depth with
  | zero => rfl
  | succ depth ih =>
    unfold namespaceDecl Grammar.namespaceDecl
    simp only [ih, generalDecl_plain]

theorem topNamespace_plain : plain.topNamespace g = g.topNamespace := by
  unfold topNamespace Grammar.topNamespace
  simp only [namespaceDecl_plain]

theorem unit_plain : plain.unit g = g.unit := by
  unfold unit Grammar.unit
  simp only [topNamespace_plain]

/-- With the lookaheads of the grammar, every reading is the one that the front end offers. -/
theorem read_plain (entry : Entry) : plain.read entry = (entry.read : Parse σ entry.Tree) := by
  cases entry with
  | unit =>
    unfold read Entry.read parseUnit
    simp only [grammar_plain, unit_plain]
  | type =>
    show (plain.grammar >>= fun g => g.type .build) = _
    rw [grammar_plain]
    rfl
  | expr =>
    show (plain.grammar >>= fun g => g.expr .build Level.chain) = _
    rw [grammar_plain]
    rfl
  | pattern =>
    show (plain.grammar >>= fun g => g.pattern .build) = _
    rw [grammar_plain]
    rfl
  | statement =>
    show (plain.grammar >>= fun g => g.statement .build) = _
    rw [grammar_plain]
    rfl
  | block =>
    show (plain.grammar >>= fun g => g.block .build) = _
    rw [grammar_plain]
    rfl
  | eof => rfl

end Lookaheads

end ScriptFront
