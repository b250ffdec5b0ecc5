import ScriptFront.Grammar.Fault
import ScriptFront.Lexer.Next

/-!
# One token at a time

A `Parser` holds one token and the place where it starts; everything else is read again when it is
needed. All productions are built from the steps of this module.

- `Parser.advance`, `eat`, `expect`, …: take tokens.
- `Parser.save`, `Parser.goBack`: take down where the token starts, and go back and read it again.
- `Parser.narrow`: cut the token down to a symbol that it begins with; the rest is read next.
- `Parser.peek`, `Parser.lookAhead`: look further and return.
- `Parser.inTraitMode`, `Parser.inContext`: what holds during a part of a reading.
-/

namespace ScriptFront

/-- A text that is being read, the current token, and whether a trait is being read. -/
structure Parser (σ : Type) where
  lexer : Walker σ
  current : Token
  start : Place
  inTrait : Bool

/-- Read a part of a text, or stop at an error. The state of the reading is kept in both cases. -/
abbrev Parse (σ : Type) := ExceptT SyntaxError (StateM (Parser σ))

/-- A place in the reading to go back to: where a token starts. -/
structure Bookmark where
  start : Place
deriving DecidableEq, Repr

namespace Bookmark

/-- Line and column of the token. -/
def position (b : Bookmark) : Position := b.start.toPosition

/-- The place of the token as errors store it. -/
def place (b : Bookmark) : Place := b.start.stored

end Bookmark

namespace Parser

variable {σ : Type} [ByteSource σ]

/-- Read with the lexer. -/
def lex {α : Type} (act : Lex σ α) : Parse σ α := ExceptT.mk fun p =>
  match act.run p.lexer with
  | (.ok value, lexer) => (.ok value, { p with lexer })
  | (.error e, lexer) => (.error e.toSyntaxError, { p with lexer })

/-- Start to read at the first token. -/
def ofWalker (lexer : Walker σ) : Except SyntaxError (Parser σ) :=
  match Lexer.skip.run lexer with
  | (.error e, _) => .error e.toSyntaxError
  | (.ok _, lexer) =>
    match Lexer.next.run lexer with
    | (.error e, _) => .error e.toSyntaxError
    | (.ok current, next) => .ok ⟨next, current, lexer.place, false⟩

/-- Start to read a source. -/
def ofSource (source : σ) (tabWidth : UInt32 := defaultTabWidth) : Except SyntaxError (Parser σ) :=
  ofWalker (Walker.ofSource source tabWidth)

/-- The name of the text. -/
def sourceName (p : Parser σ) : String := p.lexer.name

/-! ## The current token -/

/-- The current token. -/
def token : Parse σ Token := return (← get).current

/-- The kind of the current token. -/
def kind : Parse σ TokenKind := return (← token).kind

/-- The position of the current token. -/
def position : Parse σ Position := return (← token).position

/-- Whether the current token is of a kind. -/
def check (k : TokenKind) : Parse σ Bool := return (← kind) = k

/-- Whether all tokens have been taken. -/
def atEof : Parse σ Bool := check .eof

/-- Where the current token starts. -/
def save : Parse σ Bookmark := return ⟨(← get).start⟩

/-! ## Failing -/

/-- Stop at a place. -/
def failAt {α : Type} (fault : SyntaxFault) (place : Place) : Parse σ α :=
  throw ⟨fault, place, none⟩

/-- Stop at the current token, of whose text the fault may make use. -/
def failHere {α : Type} (fault : String → SyntaxFault) : Parse σ α := do
  let t ← token
  failAt (fault t.text) t.place

/-- Stop where the current token starts. -/
def failAtStart {α : Type} (fault : SyntaxFault) : Parse σ α := do
  failAt fault (← save).place

/-- Stop because no production goes on with the current token. -/
def unexpected {α : Type} : Parse σ α := failHere .unexpected

/-- Stop because the current token is none of some kinds. -/
def expectedOneOf {α : Type} (kinds : List TokenKind) : Parse σ α := failHere (.noneOf kinds)

/-! ## Taking tokens -/

/-- Take the current token and go to the next one. -/
def advance : Parse σ Token := do
  lex Lexer.skip
  modify fun p => { p with start := p.lexer.place }
  let next ← lex Lexer.next
  modifyGet fun p => (p.current, { p with current := next })

/-- Take the current token if it is of a kind. -/
def eat (k : TokenKind) : Parse σ Bool := do
  if ← check k then
    let _ ← advance
    return true
  else return false

/-- Take the current token, which has to be of a kind. -/
def expect (k : TokenKind) : Parse σ Token := do
  if ← check k then advance else failHere (.wrongToken k)

/-- Take an identifier. -/
def expectIdentifier : Parse σ String := do
  if ← check .identifier then return (← advance).text else failHere .missingIdentifier

/-- Take the current token, which has to be of one of some kinds. -/
def expectOneOf (kinds : List TokenKind) : Parse σ Token := do
  if kinds.contains (← kind) then advance else expectedOneOf kinds

/-- Take the current token, whatever it is. -/
def drop : Parse σ Unit := do
  let _ ← advance
  return ()

/-- Take a token of a kind that has nothing to tell. -/
def mark (k : TokenKind) : Parse σ Unit := do
  let _ ← expect k
  return ()

/-! ## Looking further -/

/-- The token behind the current one. -/
def peek : Parse σ Token := ExceptT.mk fun p =>
  let (result, lexer) := Lexer.next.run p.lexer
  let lexer := (Walker.reset p.lexer.place lexer).2
  match result with
  | .ok next => (.ok next, { p with lexer })
  | .error e => (.error e.toSyntaxError, { p with lexer })

/-- Go back to where a token starts and read it again. -/
def goBack (b : Bookmark) : Parse σ Unit := do
  modify fun p => { p with lexer := (Walker.reset b.start p.lexer).2, start := b.start }
  let current ← lex Lexer.next
  modify fun p => { p with current }

/-- Take the first `width` bytes of the current token for a token of kind `k`. What is behind them
is read next. No line ends within them, for only symbols are ever cut. -/
def narrow (k : TokenKind) (width : Nat) : Parse σ Unit := modify fun p =>
  let rest : Place := ⟨⟨p.start.line, p.start.column + .ofNat width⟩, p.start.offset + width⟩
  { p with
    lexer := (Walker.reset rest p.lexer).2
    current := { p.current with kind := k, text := k.describe } }

/-- What a part of a reading comes to; an error is no reason to stop. -/
def attempt {α : Type} (scan : Parse σ α) : Parse σ (Except SyntaxError α) := ExceptT.mk fun p =>
  let (result, p) := scan.run p
  (.ok result, p)

/-- Go on with a result or stop at an error. -/
def settle {α : Type} : Except SyntaxError α → Parse σ α
  | .ok value => return value
  | .error e => throw e

/-- Read on, then go back to where the reading was. -/
def lookAhead {α : Type} (scan : Parse σ α) : Parse σ α := do
  let start ← save
  let result ← attempt scan
  goBack start
  settle result

/-! ## Parts of a reading -/

/-- Read a part of a trait, where `self` is a type. -/
def inTraitMode {α : Type} (part : Parse σ α) : Parse σ α := do
  let outside := (← get).inTrait
  modify fun p => { p with inTrait := true }
  let result ← attempt part
  modify fun p => { p with inTrait := outside }
  settle result

/-- Say what was being read, if reading this part ends in an error. -/
def inContext {α : Type} (context : ErrorContext) (part : Parse σ α) : Parse σ α :=
  tryCatch part fun e => throw (e.within context)

/-- How deep a text can nest and how long its lists can be: every level and every item takes a
byte, and no more than three levels begin at one token. -/
def bound (p : Parser σ) : Nat := 4 * (p.lexer.extent + 2)

end Parser

end ScriptFront
