/-!
# Symbols

Operators and punctuation. Every spelling is one to three ASCII characters.

- `Symbol.spelling`, `Symbol.bytes`: what the symbol looks like.
- `Symbol.classify`: the symbol that some bytes begin with and its width, found by trying symbols in
  a fixed order.
- `Symbol.atFront?`: the longest symbol that some bytes begin with.
-/

namespace ScriptFront

/-- The bytes of an ASCII text. -/
def asciiBytes (text : String) : List UInt8 := text.toList.map fun c => UInt8.ofNat c.toNat

/-- The text of ASCII bytes. -/
def asciiText (bytes : List UInt8) : String :=
  String.ofList (bytes.map fun byte => Char.ofNat byte.toNat)

/-- An operator or a punctuation mark. -/
inductive Symbol where
  | colonColon
  | colon
  | arrow
  | plusPlus
  | minusMinus
  | plus
  | minus
  | star
  | slash
  | percent
  | eq
  | plusEq
  | minusEq
  | starEq
  | slashEq
  | percentEq
  | ampEq
  | pipeEq
  | caretEq
  | shlEq
  | shrEq
  | eqEq
  | notEq
  | gt
  | lt
  | gtEq
  | ltEq
  | ampAmp
  | pipePipe
  | bang
  | tilde
  | amp
  | pipe
  | caret
  | shl
  | shr
  | question
  | questionDot
  | dot
  | dotDot
  | ellipsis
  | comma
  | semicolon
  | lParen
  | rParen
  | lBracket
  | rBracket
  | lBrace
  | rBrace
deriving DecidableEq, Repr

namespace Symbol

/-- How the symbol is written. -/
def spelling : Symbol → String
  | .colonColon => "::"
  | .colon => ":"
  | .arrow => "->"
  | .plusPlus => "++"
  | .minusMinus => "--"
  | .plus => "+"
  | .minus => "-"
  | .star => "*"
  | .slash => "/"
  | .percent => "%"
  | .eq => "="
  | .plusEq => "+="
  | .minusEq => "-="
  | .starEq => "*="
  | .slashEq => "/="
  | .percentEq => "%="
  | .ampEq => "&="
  | .pipeEq => "|="
  | .caretEq => "^="
  | .shlEq => "<<="
  | .shrEq => ">>="
  | .eqEq => "=="
  | .notEq => "!="
  | .gt => ">"
  | .lt => "<"
  | .gtEq => ">="
  | .ltEq => "<="
  | .ampAmp => "&&"
  | .pipePipe => "||"
  | .bang => "!"
  | .tilde => "~"
  | .amp => "&"
  | .pipe => "|"
  | .caret => "^"
  | .shl => "<<"
  | .shr => ">>"
  | .question => "?"
  | .questionDot => "?."
  | .dot => "."
  | .dotDot => ".."
  | .ellipsis => "..."
  | .comma => ","
  | .semicolon => ";"
  | .lParen => "("
  | .rParen => ")"
  | .lBracket => "["
  | .rBracket => "]"
  | .lBrace => "\x7b"
  | .rBrace => "\x7d"

/-- The name of the symbol in listings. -/
def name : Symbol → String
  | .colonColon => "ColonColon"
  | .colon => "Colon"
  | .arrow => "Arrow"
  | .plusPlus => "PlusPlus"
  | .minusMinus => "MinusMinus"
  | .plus => "Plus"
  | .minus => "Minus"
  | .star => "Star"
  | .slash => "Slash"
  | .percent => "Percent"
  | .eq => "Eq"
  | .plusEq => "PlusEq"
  | .minusEq => "MinusEq"
  | .starEq => "StarEq"
  | .slashEq => "SlashEq"
  | .percentEq => "PercentEq"
  | .ampEq => "AmpEq"
  | .pipeEq => "PipeEq"
  | .caretEq => "CaretEq"
  | .shlEq => "ShlEq"
  | .shrEq => "ShrEq"
  | .eqEq => "EqEq"
  | .notEq => "NotEq"
  | .gt => "Gt"
  | .lt => "Lt"
  | .gtEq => "GtEq"
  | .ltEq => "LtEq"
  | .ampAmp => "AmpAmp"
  | .pipePipe => "PipePipe"
  | .bang => "Bang"
  | .tilde => "Tilde"
  | .amp => "Amp"
  | .pipe => "Pipe"
  | .caret => "Caret"
  | .shl => "Shl"
  | .shr => "Shr"
  | .question => "Question"
  | .questionDot => "QuestionDot"
  | .dot => "Dot"
  | .dotDot => "DotDot"
  | .ellipsis => "Ellipsis"
  | .comma => "Comma"
  | .semicolon => "Semicolon"
  | .lParen => "LParen"
  | .rParen => "RParen"
  | .lBracket => "LBracket"
  | .rBracket => "RBracket"
  | .lBrace => "LBrace"
  | .rBrace => "RBrace"

/-- The bytes of the symbol. -/
def bytes (s : Symbol) : List UInt8 := asciiBytes s.spelling

/-- All symbols, longer ones first. -/
def all : List Symbol :=
  [.shlEq, .shrEq, .ellipsis, .colonColon, .arrow, .plusPlus, .minusMinus, .plusEq, .minusEq,
    .starEq, .slashEq, .percentEq, .ampEq, .pipeEq, .caretEq, .eqEq, .notEq, .gtEq, .ltEq,
    .ampAmp, .pipePipe, .shl, .shr, .questionDot, .dotDot, .colon, .plus, .minus, .star, .slash,
    .percent, .eq, .gt, .lt, .bang, .tilde, .amp, .pipe, .caret, .question, .dot, .comma,
    .semicolon, .lParen, .rParen, .lBracket, .rBracket, .lBrace, .rBrace]

/-- The symbols with their widths, in the order in which they are tried. -/
def arms : List (Symbol × Nat) :=
  [(.shrEq, 3), (.shr, 2), (.gtEq, 2), (.gt, 1), (.shlEq, 3), (.shl, 2), (.ltEq, 2), (.lt, 1),
    (.colonColon, 2), (.colon, 1), (.plusPlus, 2), (.plusEq, 2), (.plus, 1), (.minusMinus, 2),
    (.minusEq, 2), (.arrow, 2), (.minus, 1), (.starEq, 2), (.star, 1), (.slashEq, 2),
    (.slash, 1), (.percentEq, 2), (.percent, 1), (.eqEq, 2), (.eq, 1), (.notEq, 2), (.bang, 1),
    (.ampAmp, 2), (.ampEq, 2), (.amp, 1), (.pipePipe, 2), (.pipeEq, 2), (.pipe, 1),
    (.caretEq, 2), (.caret, 1), (.ellipsis, 3), (.dotDot, 2), (.dot, 1), (.questionDot, 2),
    (.question, 1), (.tilde, 1), (.lParen, 1), (.rParen, 1), (.lBracket, 1), (.rBracket, 1),
    (.lBrace, 1), (.rBrace, 1), (.semicolon, 1), (.comma, 1)]

/-- The first symbol in the order of `arms` that the bytes begin with, and its width. -/
def classify (front : List UInt8) : Option (Symbol × Nat) :=
  arms.find? fun (s, _) => s.bytes.isPrefixOf front

/-- The longest symbol that the bytes begin with. -/
def atFront? (front : List UInt8) : Option Symbol :=
  all.find? fun s => s.bytes.isPrefixOf front

theorem mem_all (s : Symbol) : s ∈ all := by cases s <;> decide

/-- In `all`, no symbol stands behind a shorter one. -/
theorem all_longest_first : all.Pairwise fun s t => t.bytes.length ≤ s.bytes.length := by decide

theorem bytes_ne_nil (s : Symbol) : s.bytes ≠ [] := by cases s <;> decide

end Symbol

end ScriptFront
