import ScriptFront.Proofs.Writing.Scanning

/-!
# What the lexer accounts for

Every byte of a text belongs to a token, stands between tokens, or is left behind an error.

- `Trivia`: what may stand between tokens.
- `Spells`: the bytes that a token is made of.
- `LexFault.At`: what is left of a text where the lexer stops at a fault.
- `Listing`: a whole text, taken apart into all of these, each with its place.
-/

namespace ScriptFront

/-! ## Between tokens -/

/-- The bytes that open a comment to the end of the line. -/
def lineCommentOpen : List UInt8 := [byteOf '/', byteOf '/']

/-- The bytes that open a comment with an end of its own. -/
def commentOpen : List UInt8 := [byteOf '/', byteOf '*']

/-- The bytes that close such a comment. -/
def commentClose : List UInt8 := [byteOf '*', byteOf '/']

/-- Whether bytes may stand inside a comment: it is not closed before they end. -/
def isCommentBody : List UInt8 → Bool
  | [] => true
  | b :: bytes => !commentClose.isPrefixOf (b :: bytes ++ commentClose) && isCommentBody bytes

/-- White space and complete comments, in front of `rest`. A comment to the end of the line is
complete where a line ends or the text does. -/
inductive Trivia : List UInt8 → List UInt8 → Prop where
  | nil (rest : List UInt8) : Trivia [] rest
  | blank {b : UInt8} {gap rest : List UInt8} (hb : isBlank b) (hgap : Trivia gap rest) :
    Trivia (b :: gap) rest
  | line {body gap rest : List UInt8} (hbody : newline ∉ body)
    (hend : ∀ b ∈ (gap ++ rest).head?, b = newline) (hgap : Trivia gap rest) :
    Trivia (lineCommentOpen ++ body ++ gap) rest
  | block {body gap rest : List UInt8} (hbody : isCommentBody body) (hgap : Trivia gap rest) :
    Trivia (commentOpen ++ body ++ commentClose ++ gap) rest

/-! ## Tokens -/

/-- The marks that may stand in front of the digits of an integer. -/
def IntegerForm.marks : IntegerForm → List String
  | .hex => ["0x", "0X"]
  | .bin => ["0b", "0B"]
  | _ => [""]

/-- The sizes that may stand behind the digits of an integer; none has to for thirty-two bits with a
sign. -/
def IntegerForm.suffixes : IntegerForm → List String
  | .i32 => ["", "i32", "I32"]
  | .hex | .bin => [""]
  | form => [form.tag, form.name]

/-- The sizes that may stand behind the digits of a real. -/
def RealForm.suffixes : RealForm → List String
  | .fp32 => ["f", "F"]
  | .fp64 => [""]

/-- The bytes that write a text as a token of some kind. -/
def Writes (kind : TokenKind) (text : String) (slice : List UInt8) : Prop :=
  match kind with
  | .identifier | .keyword _ | .symbol _ => slice = textBytes text
  | .eof => False
  | .integer form =>
    ∃ mark ∈ form.marks, ∃ size ∈ form.suffixes,
      slice = textBytes mark ++ textBytes text ++ textBytes size
  | .real form => ∃ size ∈ form.suffixes, slice = textBytes text ++ textBytes size
  | .character => slice = [Lexer.quote] ++ textBytes text ++ [Lexer.quote]
  | .string =>
    ∃ mark ∈ [[Lexer.doubleQuote], tripleQuote], slice = mark ++ textBytes text ++ mark

/-- In front of `rest`, the bytes `slice` are a token of this kind and text. -/
structure Spells (kind : TokenKind) (text : String) (slice rest : List UInt8) : Prop where
  /-- A token of this kind can have this text. -/
  wellFormed : Lexeme.WellFormed ⟨kind, text⟩
  written : Writes kind text slice
  /-- A word is an identifier exactly if it is not reserved. -/
  unreserved : kind = .identifier → ∀ k : Keyword, k.spelling ≠ text
  reserved : ∀ k : Keyword, kind = .keyword k → k.spelling = text
  /-- A word goes on as far as there are letters and digits. -/
  whole : kind = .identifier ∨ (∃ k : Keyword, kind = .keyword k) → Apart isWordByte rest
  /-- No longer symbol stands there. -/
  longest : ∀ s : Symbol, kind = .symbol s →
    ∀ t : Symbol, t.bytes <+: slice ++ rest → t.bytes.length ≤ slice.length

/-! ## Faults -/

/-- What is left where the lexer stops: the comment that is never closed, or a lexeme that goes
wrong behind its first byte, or a byte that starts none. -/
def LexFault.At (fault : LexFault) (left : List UInt8) : Prop :=
  match fault with
  | .unclosedComment => ∃ body, left = commentOpen ++ body ∧ ¬commentClose <:+: body
  | .malformedNumber => ∃ b tail, left = b :: tail ∧ isDigit b
  | .malformedCharacter => ∃ tail, left = Lexer.quote :: tail
  | .malformedString => ∃ tail, left = Lexer.doubleQuote :: tail
  | .unexpectedCharacter _ =>
    ∃ b tail, left = b :: tail ∧ isBlank b = false ∧ isWordByte b = false ∧ b ≠ Lexer.quote ∧
      b ≠ Lexer.doubleQuote ∧ ∀ s : Symbol, ¬s.bytes <+: left

/-! ## Whole texts -/

/-- From the place `p` on, the bytes are accounted for by the tokens, each at its place, and by the
error behind them. -/
inductive Listing (tabWidth : UInt32) :
    Place → List UInt8 → List Token → Option LexError → Prop where
  /-- Nothing but white space and comments is left. -/
  | finished {p : Place} {gap : List UInt8} (hgap : Trivia gap []) :
    Listing tabWidth p gap [⟨.eof, Lexer.eofText, p.afterAll tabWidth gap⟩] none
  /-- Behind white space and comments, there is no token. -/
  | stopped {p : Place} {gap left : List UInt8} {fault : LexFault} (hgap : Trivia gap left)
    (hfault : fault.At left) :
    Listing tabWidth p (gap ++ left) [] (some ⟨fault, p.afterAll tabWidth gap⟩)
  /-- Behind white space and comments there is a token, and the rest is accounted for too. -/
  | token {p : Place} {gap slice rest : List UInt8} {kind : TokenKind} {text : String}
    {tokens : List Token} {error : Option LexError} (hgap : Trivia gap (slice ++ rest))
    (hslice : Spells kind text slice rest)
    (hmore : Listing tabWidth (p.afterAll tabWidth (gap ++ slice)) rest tokens error) :
    Listing tabWidth p (gap ++ slice ++ rest)
      (⟨kind, text, p.afterAll tabWidth gap⟩ :: tokens) error

end ScriptFront
