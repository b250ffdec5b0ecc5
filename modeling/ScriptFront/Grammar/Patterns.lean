import ScriptFront.Grammar.Types
import ScriptFront.Syntax.Precedence

/-!
# The grammar of patterns

    pattern := literal                       -- a constant, or a path of names
             | path '(' (item (',' item)*)? ')'
             | '(' item (',' item)* ')'
             | '{' (field (':' target)?),* '}'

Items and paths are expressions without operators other than `::` outside parentheses. A path is
the name of a variant only if a `(` follows it, which is found out by reading it twice.
-/

namespace ScriptFront

namespace Grammar

open ScriptFront.Parser

variable {σ : Type} [ByteSource σ] (g : Grammar σ) (mode : Mode)

/-- Whether a constant starts with a token of this kind. -/
def startsLiteral : TokenKind → Bool
  | .integer _ | .real _ | .character | .string => true
  | .keyword .trueKw | .keyword .falseKw | .keyword .nullKw | .symbol .minus => true
  | _ => false

/-- Whether a `(` follows the path at the current token. What is no path is left to be read, and
reported, as a constant. -/
def pathOpensParen : Parse σ Bool := do
  let start ← save
  let opens ← match ← attempt (g.expr .check Level.path) with
    | .ok _ => check Symbol.lParen
    | .error _ => pure false
  goBack start
  return opens

/-- The items behind an opening parenthesis, and the closing one. -/
def patternItems : Parse σ (Yield mode (List Expr)) :=
  closedList .rParen (g.expr mode Level.path)

/-- `Color::Rgb(r, g, b)` -/
def variantPattern : Parse σ (Yield mode PatternForm) := do
  let path ← g.expr mode Level.path
  mark Symbol.lParen
  if ← eat Symbol.rParen then return (PatternForm.variant · []) <$> path
  else return PatternForm.variant <$> path <*> (← patternItems g mode)

/-- A constant or a name. -/
def literalPattern : Parse σ (Yield mode PatternForm) := do
  return PatternForm.literal <$> (← g.expr mode Level.path)

/-- What a field is bound to behind its colon. -/
def fieldTarget : Parse σ (Yield mode FieldBinding) := do
  let k ← kind
  if k = Symbol.lBrace || k = Symbol.lParen then
    return FieldBinding.nested <$> (← g.pattern mode)
  else return FieldBinding.indirect <$> (← g.expr mode Level.path)

/-- A field with what it is bound to. -/
def fieldPattern : Parse σ (Yield mode FieldPattern) := do
  let pos ← position
  let field ← expectIdentifier
  if ← eat Symbol.colon then return FieldPattern.mk pos field <$> (← fieldTarget g mode)
  else return pure ⟨pos, field, .direct⟩

/-- A pattern without its position. -/
def patternForm : Parse σ (Yield mode PatternForm) := do
  match ← kind with
  | .identifier | .symbol .colonColon =>
    if ← pathOpensParen g then variantPattern g mode else literalPattern g mode
  | .symbol .lParen =>
    drop
    return PatternForm.tuple <$> (← patternItems g mode)
  | .symbol .lBrace =>
    drop
    return PatternForm.fields <$> (← openListOrEmpty .rBrace (fieldPattern g mode))
  | k => if startsLiteral k then literalPattern g mode else unexpected

/-- A pattern. -/
def patternStep : Parse σ (Yield mode Pattern) := do
  let pos ← position
  return Pattern.mk pos <$> (← patternForm g mode)

end Grammar

end ScriptFront
