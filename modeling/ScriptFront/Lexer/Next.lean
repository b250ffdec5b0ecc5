import ScriptFront.Lexer.Number
import ScriptFront.Lexer.Quoted
import ScriptFront.Lexer.Trivia
import ScriptFront.Text.Escape

/-!
# The next token

`Lexer.next` goes behind white space and comments and reads one token. Where it fails it leaves
the walker at the start of the lexeme or comment that it reports.

- `Lexer.scan`: the kind and text of the lexeme at the current byte, chosen by that byte.
- `Lexer.run`: all tokens up to the end of the text or to an error, and the error.
- `Lexer.tokenize`: all tokens, or the error.
-/

namespace ScriptFront

namespace Lexer

variable {σ : Type} [ByteSource σ]

/-- The text of the token at the end. -/
def eofText : String := "<eof>"

/-- A keyword or an identifier: the longest run of letters and digits. -/
def word : Scan σ (TokenKind × String) := do
  let text := asciiText (← walk (Walker.takeWhile isWordByte))
  match Keyword.lookup? text with
  | some keyword => return (.keyword keyword, text)
  | none => return (.identifier, text)

/-- The bytes from the current one on, `count` of them. -/
def lookAt : (count : Nat) → (ahead : Nat) → StateM (Walker σ) (List UInt8)
  | 0, _ => return []
  | count + 1, ahead => do
    let byte ← Walker.read ahead
    return byte :: (← lookAt count (ahead + 1))

/-- The current character as a message shows it. -/
def describeCurrent : StateM (Walker σ) String := do
  let lead ← Walker.current
  if lead < 128 then return Escape.ascii (Char.ofNat lead.toNat)
  else
    match Utf8.decode? (← lookAt (Utf8.width lead) 0).toArray with
    | some text => return text
    | none => return Escape.byte lead

/-- The longest symbol at the current byte. -/
def symbol : Scan σ (TokenKind × String) := do
  match Symbol.classify (← walk (lookAt 3 0)) with
  | some (mark, width) =>
    walk (Walker.advanceBy width)
    return (.symbol mark, mark.spelling)
  | none => throw (.unexpectedCharacter (← walk describeCurrent))

/-- The lexeme at the current byte. -/
def scan : Scan σ (TokenKind × String) := do
  if ← walk Walker.atEnd then return (.eof, eofText)
  let first ← walk Walker.current
  if isLetter first then word
  else if isDigit first then number
  else if first = quote then characterLiteral
  else if first = doubleQuote then stringLiteral
  else symbol

/-- The next token. At the end of the text that is `eof`, as often as asked. -/
def next : Lex σ Token := do
  skip
  let start := (← get).place
  match ← walk scan.run with
  | .ok (kind, text) => return ⟨kind, text, start.stored⟩
  | .error fault => failAt fault start

/-- Append the tokens up to the end, at most `steps` of them, to `taken`. -/
def runOnto : (steps : Nat) → (taken : Array Token) →
    StateM (Walker σ) (Array Token × Option LexError)
  | 0, taken => return (taken, none)
  | steps + 1, taken => do
    match ← next.run with
    | .ok token =>
      if token.kind = .eof then return (taken.push token, none)
      else runOnto steps (taken.push token)
    | .error error => return (taken, some error)

/-- The tokens up to the end or to an error, and the error. Every token but the last takes a byte,
so there are at most one more than bytes. -/
def run : StateM (Walker σ) (Array Token × Option LexError) := do
  runOnto ((← get).extent + 1) #[]

/-- All tokens up to the end. -/
def tokenize : Lex σ (Array Token) := do
  match ← walk run with
  | (tokens, none) => return tokens
  | (_, some error) => throw error

end Lexer

end ScriptFront
