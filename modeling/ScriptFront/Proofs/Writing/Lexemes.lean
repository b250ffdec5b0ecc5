import ScriptFront.Lexer.Next

/-!
# Writing tokens

A `Lexeme` is a token as it is to be written, without a place. Lexemes are written with one blank
between two of them; that keeps each of them apart from the next.

- `Lexeme.spelling`: what a lexeme looks like. A string literal stands between single quotation
  marks where it can, and between triple ones else.
- `Lexeme.WellFormed`: the lexemes that the lexer can read at all.
- `writeLexemes`: the text that a row of lexemes makes.
- `layout`, `behind`: its bytes, from the first lexeme on and from behind one.
-/

namespace ScriptFront

/-! ## Bytes of texts -/

/-- The bytes of a string. -/
def textBytes (text : String) : List UInt8 := (utf8Bytes text).toList

@[simp] theorem textBytes_append (a b : String) :
    textBytes (a ++ b) = textBytes a ++ textBytes b := by
  simp [textBytes, utf8Bytes]

/-- An ASCII character takes one byte. -/
theorem utf8EncodeChar_ascii {c : Char} (h : c.toNat < 128) :
    String.utf8EncodeChar c = [UInt8.ofNat c.toNat] := by
  have hle : c.val ≤ 127 := UInt32.le_iff_toNat_le.2 (Nat.le_of_lt_succ h)
  rw [String.utf8EncodeChar_eq_singleton (Char.utf8Size_eq_one_iff.2 hle)]
  rfl

theorem textBytes_ofList {chars : List Char} (h : ∀ c ∈ chars, c.toNat < 128) :
    textBytes (String.ofList chars) = chars.map fun c => UInt8.ofNat c.toNat := by
  have hencode : textBytes (String.ofList chars) = chars.flatMap String.utf8EncodeChar := by
    simp [textBytes, utf8Bytes, List.utf8Encode]
  rw [hencode]
  clear hencode
  induction chars with
  | nil => rfl
  | cons c chars ih =>
    have hhead := utf8EncodeChar_ascii (h c List.mem_cons_self)
    have htail := ih fun c hc => h c (List.mem_cons_of_mem _ hc)
    rw [List.flatMap_cons, List.map_cons, hhead, htail]
    rfl

theorem textBytes_ascii {text : String} (h : text.toList.all fun c => c.toNat < 128) :
    textBytes text = asciiBytes text := by
  have hchars : ∀ c ∈ text.toList, c.toNat < 128 := fun c hc =>
    of_decide_eq_true (List.all_eq_true.1 h c hc)
  have hbytes := textBytes_ofList hchars
  rw [String.ofList_toList] at hbytes
  exact hbytes

theorem toNat_ofNat_byte (b : UInt8) : (Char.ofNat b.toNat).toNat = b.toNat := by
  have hlt := b.toNat_lt
  have hvalid : b.toNat.isValidChar := .inl (by omega)
  rw [Char.ofNat, dif_pos hvalid]
  rfl

/-- ASCII bytes are the bytes of their text. -/
theorem textBytes_asciiText {bytes : List UInt8} (h : ∀ b ∈ bytes, b < 128) :
    textBytes (asciiText bytes) = bytes := by
  have hchars : ∀ c ∈ bytes.map fun byte => Char.ofNat byte.toNat, c.toNat < 128 := by
    intro c hc
    obtain ⟨b, hb, rfl⟩ := List.mem_map.1 hc
    rw [toNat_ofNat_byte]
    exact UInt8.lt_iff_toNat_lt.1 (h b hb)
  rw [asciiText, textBytes_ofList hchars, List.map_map]
  have hsame : ((fun c : Char => UInt8.ofNat c.toNat) ∘ fun byte : UInt8 =>
      Char.ofNat byte.toNat) = id := by
    funext b
    rw [Function.comp_apply, toNat_ofNat_byte]
    exact UInt8.ofNat_toNat
  rw [hsame, List.map_id]

/-- The bytes of a text are well formed and stand for it. -/
theorem decode?_textBytes (text : String) : Utf8.decode? (textBytes text).toArray = some text := by
  have hbytes : (textBytes text).toArray = text.toByteArray.data := by
    simp [textBytes, utf8Bytes]
  rw [hbytes, Utf8.decode?, String.fromUTF8?, dif_pos text.isValidUTF8]
  rfl

/-! ## Lexemes -/

/-- What marks the radix of an integer. -/
def IntegerForm.opening : IntegerForm → String
  | .hex => "0x"
  | .bin => "0b"
  | _ => ""

/-- What marks the size of an integer; thirty-two bits with a sign need no mark. -/
def IntegerForm.closing : IntegerForm → String
  | .i32 | .hex | .bin => ""
  | form => form.tag

/-- What marks the size of a real; sixty-four bits need no mark. -/
def RealForm.closing : RealForm → String
  | .fp32 => "f"
  | .fp64 => ""

/-- Whether bytes may stand between single quotation marks on one line. -/
def isLineBody : List UInt8 → Bool
  | [] => true
  | [b] => b ≠ newline && b ≠ Lexer.doubleQuote && b ≠ Lexer.backslash
  | b :: c :: bytes =>
    if b = Lexer.backslash then isLineBody bytes
    else b ≠ newline && b ≠ Lexer.doubleQuote && isLineBody (c :: bytes)

/-- Three quotation marks. -/
def tripleQuote : List UInt8 := [Lexer.doubleQuote, Lexer.doubleQuote, Lexer.doubleQuote]

/-- Whether bytes may stand between triple quotation marks: these do not appear before the end. -/
def isRawBody : List UInt8 → Bool
  | [] => true
  | b :: bytes => !tripleQuote.isPrefixOf (b :: bytes ++ tripleQuote) && isRawBody bytes

/-- In front of `tail`, a string with this body may stand between these quotation marks. Three of
them in a row are not those of an empty string. -/
def Encloses (mark body tail : List UInt8) : Prop :=
  (mark = [Lexer.doubleQuote] ∧ isLineBody body ∧
      (body = [] → tail[0]?.getD endByte ≠ Lexer.doubleQuote)) ∨
    (mark = tripleQuote ∧ isRawBody body)

/-- Whether bytes are one character, or a backslash and the byte behind it. -/
def isCharacterBody : List UInt8 → Bool
  | [] => false
  | lead :: bytes =>
    lead ≠ Lexer.quote && lead ≠ newline &&
      bytes.length + 1 = if lead = Lexer.backslash then 2 else Utf8.width lead

/-- A token as it is to be written. -/
structure Lexeme where
  kind : TokenKind
  text : String
deriving DecidableEq, Repr

namespace Lexeme

/-- A symbol. -/
def mark (s : Symbol) : Lexeme := ⟨s, s.spelling⟩

/-- A keyword. -/
def word (k : Keyword) : Lexeme := ⟨k, k.spelling⟩

/-- An identifier. -/
def name (text : String) : Lexeme := ⟨.identifier, text⟩

/-- What a lexeme looks like. -/
def spelling (l : Lexeme) : String :=
  match l.kind with
  | .integer form => form.opening ++ l.text ++ form.closing
  | .real form => l.text ++ form.closing
  | .character => "'" ++ l.text ++ "'"
  | .string =>
    if isLineBody (textBytes l.text) then "\"" ++ l.text ++ "\""
    else "\"\"\"" ++ l.text ++ "\"\"\""
  | _ => l.text

/-- The bytes of a lexeme. -/
def bytes (l : Lexeme) : List UInt8 := textBytes l.spelling

end Lexeme

/-! ## Lexemes that can be read -/

/-- A word that is not reserved. -/
def IsName (text : String) : Prop :=
  ∃ first rest, text = asciiText (first :: rest) ∧ isLetter first ∧ (∀ b ∈ rest, isWordByte b) ∧
    Keyword.ofSpelling? text = none

/-- The digits of an integer. -/
def IntegerForm.isDigit (form : IntegerForm) (byte : UInt8) : Bool :=
  match form with
  | .hex => isHexDigit byte
  | .bin => isBinaryDigit byte
  | _ => ScriptFront.isDigit byte

/-- At least one digit. -/
def IsInteger (form : IntegerForm) (text : String) : Prop :=
  ∃ digits, digits ≠ [] ∧ text = asciiText digits ∧ ∀ b ∈ digits, form.isDigit b

/-- At least one digit, a point, and perhaps digits behind it. -/
def IsReal (text : String) : Prop :=
  ∃ whole fraction, whole ≠ [] ∧ text = asciiText (whole ++ byteOf '.' :: fraction) ∧
    (∀ b ∈ whole, isDigit b) ∧ ∀ b ∈ fraction, isDigit b

/-- One character, perhaps an escaped one. -/
def IsCharacter (text : String) : Prop := isCharacterBody (textBytes text)

/-- A text that one of the two kinds of quotation marks can hold. -/
def IsString (text : String) : Prop := isLineBody (textBytes text) ∨ isRawBody (textBytes text)

/-- The lexemes that the lexer can read. -/
inductive Lexeme.WellFormed : Lexeme → Prop where
  | mark (s : Symbol) : WellFormed (.mark s)
  | word (k : Keyword) : WellFormed (.word k)
  | name {text : String} (h : IsName text) : WellFormed (.name text)
  | integer {form : IntegerForm} {text : String} (h : IsInteger form text) :
    WellFormed ⟨.integer form, text⟩
  | real {form : RealForm} {text : String} (h : IsReal text) : WellFormed ⟨.real form, text⟩
  | character {text : String} (h : IsCharacter text) : WellFormed ⟨.character, text⟩
  | string {text : String} (h : IsString text) : WellFormed ⟨.string, text⟩

/-! ## Rows of lexemes -/

/-- Lexemes with one blank between two of them. -/
def writeLexemes : List Lexeme → String
  | [] => ""
  | [l] => l.spelling
  | l :: ls => l.spelling ++ " " ++ writeLexemes ls

/-- The bytes of further lexemes behind one. -/
def behind : List Lexeme → List UInt8
  | [] => []
  | l :: ls => 32 :: (l.bytes ++ behind ls)

/-- The bytes of a row of lexemes. -/
def layout : List Lexeme → List UInt8
  | [] => []
  | l :: ls => l.bytes ++ behind ls

theorem textBytes_writeLexemes (ls : List Lexeme) : textBytes (writeLexemes ls) = layout ls := by
  induction ls with
  | nil => decide
  | cons l ls ih =>
    cases ls with
    | nil =>
      show l.bytes = l.bytes ++ []
      rw [List.append_nil]
    | cons l' ls =>
      have hblank : textBytes " " = [32] := by decide
      show textBytes (l.spelling ++ " " ++ writeLexemes (l' :: ls)) = _
      rw [textBytes_append, textBytes_append, ih, hblank, List.append_assoc]
      rfl

end ScriptFront
