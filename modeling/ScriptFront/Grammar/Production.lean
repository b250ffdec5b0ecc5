import ScriptFront.Grammar.Parser
import ScriptFront.Grammar.Yield
import ScriptFront.Syntax.Tree

/-!
# Productions

The productions below declarations need each other. Each is written as a step over a `Grammar`
that stands for all of them, and the step is iterated as often as a text can nest.

- `Production`: what can be read, and the tree that it yields.
- `Grammar`: a way to read every production in every mode.
- `Grammar.nest`: the grammar that `depth` steps make.
- `Parser.closedList`, `Parser.openList`: the two ways to write a list with commas.
-/

namespace ScriptFront

/-- What can be read below declarations. Expressions are read at a level: only operators that bind
as tightly as the level or tighter belong to them. -/
inductive Production where
  | type
  | expr (level : Nat)
  | pattern
  | statement
deriving DecidableEq, Repr

/-- The tree that a production yields. -/
abbrev Production.Tree : Production → Type
  | .type => TypeExpr
  | .expr _ => Expr
  | .pattern => Pattern
  | .statement => Stmt

/-- A way to read every production in every mode. -/
abbrev Grammar (σ : Type) :=
  (mode : Mode) → (production : Production) → Parse σ (Yield mode production.Tree)

namespace Grammar

variable {σ : Type} [ByteSource σ]

/-- The grammar that reads nothing. -/
def empty : Grammar σ := fun _ _ => Parser.failAtStart .tooDeep

/-- The grammar of `depth` steps, each of which reads the parts of a production with the one
before it. -/
def nest (step : Grammar σ → Grammar σ) : (depth : Nat) → Grammar σ
  | 0 => empty
  | depth + 1 => fun mode production => step (nest step depth) mode production

variable (g : Grammar σ) (mode : Mode)

/-- Read a type. -/
abbrev type : Parse σ (Yield mode TypeExpr) := g mode .type

/-- Read an expression at a level. -/
abbrev expr (level : Nat) : Parse σ (Yield mode Expr) := g mode (.expr level)

/-- Read a pattern. -/
abbrev pattern : Parse σ (Yield mode Pattern) := g mode .pattern

/-- Read a statement. -/
abbrev statement : Parse σ (Yield mode Stmt) := g mode .statement

end Grammar

/-! ## Lists -/

namespace Parser

variable {σ : Type} [ByteSource σ] {mode : Mode} {α : Type}

/-- How many items a list can have in this text. -/
def listBound : Parse σ Nat := return (← get).bound

/-- Append the items up to the closing token, each followed by a comma but the last one, to
`taken`. -/
def closedListOnto (close : Symbol) (item : Parse σ (Yield mode α)) :
    (steps : Nat) → (taken : Yield mode (Array α)) → Parse σ (Yield mode (Array α))
  | 0, _ => failAtStart .tooDeep
  | steps + 1, taken => do
    let next ← item
    let taken := taken.push next
    let k ← kind
    if k = Symbol.comma then
      drop
      closedListOnto close item steps taken
    else if k = close then
      drop
      return taken
    else expectedOneOf [Symbol.comma, close]

/-- A list of at least one item, with a comma between two of them, and its closing token. -/
def closedList (close : Symbol) (item : Parse σ (Yield mode α)) :
    Parse σ (Yield mode (List α)) := do
  return Array.toList <$> (← closedListOnto close item (← listBound) (pure #[]))

/-- Behind an item: append the items up to the closing token to `taken`, with a comma before each
and perhaps one behind the last. -/
def openTailOnto (close : Symbol) (item : Parse σ (Yield mode α)) :
    (steps : Nat) → (taken : Yield mode (Array α)) → Parse σ (Yield mode (Array α))
  | 0, _ => failAtStart .tooDeep
  | steps + 1, taken => do
    let comma ← eat Symbol.comma
    if ← check close then
      drop
      return taken
    else if comma then
      let next ← item
      openTailOnto close item steps (taken.push next)
    else expectedOneOf [Symbol.comma, close]

/-- A list of at least one item that may end in a comma, and its closing token. -/
def openList (close : Symbol) (item : Parse σ (Yield mode α)) : Parse σ (Yield mode (List α)) := do
  let first ← item
  return Array.toList <$> (← openTailOnto close item (← listBound) (Yield.push (pure #[]) first))

/-- A list that may be empty or end in a comma, and its closing token. -/
def openListOrEmpty (close : Symbol) (item : Parse σ (Yield mode α)) :
    Parse σ (Yield mode (List α)) := do
  if ← check close then
    drop
    return pure []
  else openList close item

/-- Append items to `taken` for as long as a test holds before them. -/
def whileOnto (test : Parse σ Bool) (item : Parse σ (Yield mode α)) :
    (steps : Nat) → (taken : Yield mode (Array α)) → Parse σ (Yield mode (Array α))
  | 0, _ => failAtStart .tooDeep
  | steps + 1, taken => do
    if ← test then
      let next ← item
      whileOnto test item steps (taken.push next)
    else return taken

/-- All items before which a test holds. -/
def listWhile (test : Parse σ Bool) (item : Parse σ (Yield mode α)) :
    Parse σ (Yield mode (List α)) := do
  return Array.toList <$> (← whileOnto test item (← listBound) (pure #[]))

/-- One item, and all further ones before which a test holds. -/
def listOnceAndWhile (test : Parse σ Bool) (item : Parse σ (Yield mode α)) :
    Parse σ (Yield mode (List α)) := do
  let first ← item
  return Array.toList <$> (← whileOnto test item (← listBound) (Yield.push (pure #[]) first))

/-- Whether the current token is of another kind. -/
def checkNot (k : TokenKind) : Parse σ Bool := return !(← check k)

/-- An optional part. -/
def optionally (test : Parse σ Bool) (part : Parse σ (Yield mode α)) :
    Parse σ (Yield mode (Option α)) := do
  if ← test then return some <$> (← part) else return pure none

end Parser

end ScriptFront
