import ScriptFront.Proofs.Lexing.Tables
import ScriptFront.Proofs.Writing.Scanning

/-!
# Words and numbers read back

The lexer takes a word or a number for what it is if nothing that goes on with it follows.

- `Separated`: nothing or a blank follows.
- `Takes.word`, `Takes.keyword`, `Takes.name`: words.
- `Takes.integer`, `Takes.real`: numbers.
-/

namespace ScriptFront

open Walker

/-- Nothing or a blank stands in front. -/
inductive Separated : List UInt8 → Prop where
  | nil : Separated []
  | blank (tail : List UInt8) : Separated (32 :: tail)

theorem separated_behind (ls : List Lexeme) : Separated (behind ls) := by
  cases ls with
  | nil => exact .nil
  | cons l ls => exact .blank _

/-- No class of bytes goes on behind a run that is separated from what follows. -/
theorem Separated.apart {tail : List UInt8} (h : Separated tail) {inClass : UInt8 → Bool}
    (hend : inClass endByte = false) (hblank : inClass 32 = false) : Apart inClass tail := by
  cases h with
  | nil => exact hend
  | blank tail => exact hblank

/-- What follows is no byte that is neither the end nor a blank. -/
theorem Separated.head_ne {tail : List UInt8} (h : Separated tail) {byte : UInt8}
    (hend : byte ≠ endByte) (hblank : byte ≠ 32) : tail[0]?.getD endByte ≠ byte := by
  cases h with
  | nil => exact hend.symm
  | blank tail => exact hblank.symm

/-! ## Classes of bytes -/

/-- The bytes that words and numbers go on with. -/
def isNumberByte (b : UInt8) : Bool := isWordByte b || b = byteOf '.'

/-- No smaller class goes on where a class does not. -/
theorem Apart.mono {inClass inClass' : UInt8 → Bool} {tail : List UInt8} (h : Apart inClass tail)
    (hclass : ∀ b, inClass' b → inClass b) : Apart inClass' tail := by
  refine Bool.eq_false_iff.2 fun hmem => ?_
  rw [Apart, hclass _ hmem] at h
  nomatch h

/-- What is no part of a number is none of the bytes that numbers are made of. -/
theorem Apart.ne {tail : List UInt8} (h : Apart isNumberByte tail) {b : UInt8}
    (hb : isNumberByte b) : tail[0]?.getD endByte ≠ b := by
  rintro rfl
  rw [Apart, hb] at h
  nomatch h

theorem lt_of_isWordByte {b : UInt8} (h : isWordByte b) : b < 128 := by
  grind [isWordByte, isLetter, isDigit]

theorem lt_of_isDigit {form : IntegerForm} {b : UInt8} (h : form.isDigit b) : b < 128 := by
  cases form <;> grind [IntegerForm.isDigit, isHexDigit, isBinaryDigit, ScriptFront.isDigit]

namespace Takes

variable {w : Walker Buffer} {tail : List UInt8}

/-! ## Words -/

/-- A word is all that is made of letters and digits. -/
theorem word {bytes : List UInt8} (hbytes : ∀ b ∈ bytes, isWordByte b)
    (htail : Apart isWordByte tail) (hrest : w.rest = bytes ++ tail) :
    Takes Lexer.word w bytes.length
      (match Keyword.ofSpelling? (asciiText bytes) with
        | some keyword => (.keyword keyword, asciiText bytes)
        | none => (.identifier, asciiText bytes)) := by
  refine (takeWhile hbytes htail hrest).map fun v _ => ?_
  dsimp only
  rw [Keyword.lookup?_eq]
  cases Keyword.ofSpelling? (asciiText bytes) with
  | some k => exact .pure _
  | none => exact .pure _

theorem bytes_word (k : Keyword) : (Lexeme.word k).bytes = asciiBytes k.spelling := by
  refine textBytes_ascii ?_
  cases k with
  | primitive type => cases type <;> decide
  | _ => decide

theorem asciiText_spelling (k : Keyword) : asciiText (asciiBytes k.spelling) = k.spelling := by
  cases k with
  | primitive type => cases type <;> decide
  | _ => decide

theorem isWordByte_spelling (k : Keyword) : (asciiBytes k.spelling).all isWordByte := by
  cases k with
  | primitive type => cases type <;> decide
  | _ => decide

theorem keyword (k : Keyword) (htail : Apart isWordByte tail)
    (hrest : w.rest = (Lexeme.word k).bytes ++ tail) :
    Takes Lexer.word w (Lexeme.word k).bytes.length (.keyword k, k.spelling) := by
  rw [bytes_word] at hrest ⊢
  have hword := word (List.all_eq_true.1 (isWordByte_spelling k)) htail hrest
  rw [asciiText_spelling, Keyword.ofSpelling?_spelling] at hword
  exact hword

theorem bytes_name {first : UInt8} {rest : List UInt8} (hfirst : isLetter first)
    (hrest : ∀ b ∈ rest, isWordByte b) :
    (Lexeme.name (asciiText (first :: rest))).bytes = first :: rest := by
  refine textBytes_asciiText fun b hb => lt_of_isWordByte ?_
  rcases List.mem_cons.1 hb with rfl | hb
  · simp [isWordByte, hfirst]
  · exact hrest b hb

theorem name {text : String} (h : IsName text) (htail : Apart isWordByte tail)
    (hrest : w.rest = (Lexeme.name text).bytes ++ tail) :
    Takes Lexer.word w (Lexeme.name text).bytes.length (.identifier, text) := by
  obtain ⟨first, rest, rfl, hfirst, hall, hnone⟩ := h
  have hbytes : ∀ b ∈ first :: rest, isWordByte b := by
    intro b hb
    rcases List.mem_cons.1 hb with rfl | hb
    · simp [isWordByte, hfirst]
    · exact hall b hb
  rw [bytes_name hfirst hall] at hrest ⊢
  have hword := word hbytes htail hrest
  rw [hnone] at hword
  exact hword

/-! ## Numbers -/

theorem digits {form : IntegerForm} {bytes : List UInt8} (hne : bytes ≠ [])
    (hbytes : ∀ b ∈ bytes, form.isDigit b) (htail : Apart isNumberByte tail) {mark : List UInt8}
    (hmark : mark.length = 2) (hrest : w.rest = mark ++ (bytes ++ tail)) :
    Takes (Lexer.radixDigits form form.isDigit) w (mark ++ bytes).length
      (.integer form, asciiText bytes) := by
  have hapart : Apart form.isDigit tail := by
    refine htail.mono fun b hb => ?_
    cases form <;> grind [IntegerForm.isDigit, isHexDigit, isBinaryDigit, isNumberByte, isWordByte,
      isLetter, ScriptFront.isDigit]
  rw [List.length_append]
  rw [Lexer.radixDigits, ← hmark]
  refine (Walks.advanceBy hrest).walk.bind fun v hv => ?_
  refine (takeWhile hbytes hapart (hv.rest_append hrest rfl)).map fun u _ => ?_
  have hfull : bytes.isEmpty = false := by
    cases bytes with
    | nil => exact absurd rfl hne
    | cons b bytes => rfl
  rw [hfull]
  exact .pure _

/-- A size that is written behind the digits of an integer. -/
theorem writtenSize {form : IntegerForm} {letter second : UInt8} {more : List UInt8} {bits : Nat}
    (hletter : letter = byteOf 'i' ∨ letter = byteOf 'u')
    (hsize : Lexer.sizeBits? second ((more ++ tail)[0]?.getD endByte) =
      some (bits, more.length + 2))
    (hform : Lexer.sizedForm (letter = byteOf 'i') bits = form)
    (hrest : w.rest = letter :: second :: more ++ tail) :
    Takes Lexer.integerSize w (more.length + 2) form := by
  have hsigned : (letter = byteOf 'i' || letter = byteOf 'I') = decide (letter = byteOf 'i') := by
    rcases hletter with rfl | rfl <;> rfl
  refine Takes.current hrest ?_
  dsimp only
  rw [hsigned]
  refine ifTrue (by rcases hletter with rfl | rfl <;> rfl) (Takes.read (Takes.read ?_))
  have hsecond : (letter :: second :: more ++ tail)[1]?.getD endByte = second := rfl
  have hthird : (letter :: second :: more ++ tail)[2]? = (more ++ tail)[0]? := rfl
  rw [hrest, hsecond, hthird, hsize, ← hform]
  exact (Walks.advanceBy hrest).walk.map fun _ _ => .pure _

/-- The size of an integer is read where it is written, and is 32 bits with a sign elsewhere. -/
theorem integerSize {form : IntegerForm} (hradix : form.radix = 10)
    (htail : Apart isNumberByte tail) (hrest : w.rest = textBytes form.closing ++ tail) :
    Takes Lexer.integerSize w (textBytes form.closing).length form := by
  cases form with
  | hex => exact absurd hradix (by decide)
  | bin => exact absurd hradix (by decide)
  | i32 =>
    refine Takes.read ?_
    rw [hrest]
    refine ifFalse ?_ (.pure _)
    simp only [Bool.or_eq_true, decide_eq_true_eq, not_or]
    exact ⟨⟨⟨htail.ne rfl, htail.ne rfl⟩, htail.ne rfl⟩, htail.ne rfl⟩
  | i8 => exact writtenSize (.inl rfl) rfl rfl hrest
  | u8 => exact writtenSize (.inr rfl) rfl rfl hrest
  | i16 => exact writtenSize (.inl rfl) rfl rfl hrest
  | u16 => exact writtenSize (.inr rfl) rfl rfl hrest
  | u32 => exact writtenSize (.inr rfl) rfl rfl hrest
  | i64 => exact writtenSize (.inl rfl) rfl rfl hrest
  | u64 => exact writtenSize (.inr rfl) rfl rfl hrest

/-- No class of bytes that does not know the letters of sizes goes on behind digits. -/
theorem closing_apart (form : IntegerForm) (htail : Apart isNumberByte tail)
    {inClass : UInt8 → Bool} (hclass : ∀ b, inClass b → isNumberByte b)
    (hsizes : [byteOf 'i', byteOf 'u'].all fun b => !inClass b) :
    Apart inClass (textBytes form.closing ++ tail) := by
  simp only [List.all_cons, List.all_nil, Bool.and_true, Bool.and_eq_true,
    Bool.not_eq_true'] at hsizes
  obtain ⟨hi, hu⟩ := hsizes
  cases form with
  | i32 | hex | bin => exact htail.mono hclass
  | i8 | i16 | i64 => exact hi
  | u8 | u16 | u32 | u64 => exact hu

/-- An integer without a radix mark. -/
theorem decimalInteger {form : IntegerForm} (hradix : form.radix = 10) {bytes : List UInt8}
    (hbytes : ∀ b ∈ bytes, isDigit b) (htail : Apart isNumberByte tail)
    (hrest : w.rest = bytes ++ (textBytes form.closing ++ tail)) :
    Takes Lexer.decimal w (bytes ++ textBytes form.closing).length
      (.integer form, asciiText bytes) := by
  rw [List.length_append]
  have hdigit (b : UInt8) (hb : isDigit b) : isNumberByte b := by
    simp [isNumberByte, isWordByte, hb]
  refine (takeWhile hbytes (closing_apart form htail hdigit (by decide)) hrest).bind fun v hv => ?_
  have hleft := hv.rest_append hrest rfl
  have hpoint : Apart (fun b => b = byteOf '.') (textBytes form.closing ++ tail) :=
    closing_apart form htail (fun b hb => by simp [isNumberByte, of_decide_eq_true hb]) (by decide)
  refine Takes.read (ifFalse ?_ ((integerSize hradix htail hleft).map fun _ _ => .pure _))
  rw [hleft]
  exact of_decide_eq_false hpoint

/-- A real. -/
theorem decimalReal {form : RealForm} {whole fraction : List UInt8}
    (hwhole : ∀ b ∈ whole, isDigit b)
    (hfraction : ∀ b ∈ fraction, isDigit b) (htail : Apart isNumberByte tail)
    (hrest : w.rest = whole ++ byteOf '.' :: (fraction ++ (textBytes form.closing ++ tail))) :
    Takes Lexer.decimal w (whole ++ byteOf '.' :: (fraction ++ textBytes form.closing)).length
      (.real form, asciiText (whole ++ byteOf '.' :: fraction)) := by
  have hapart : Apart isDigit (textBytes form.closing ++ tail) := by
    cases form with
    | fp32 => rfl
    | fp64 => exact htail.mono fun b hb => by simp [isNumberByte, isWordByte, hb]
  have hlength : (whole ++ byteOf '.' :: (fraction ++ textBytes form.closing)).length =
      whole.length + (1 + (fraction.length + (textBytes form.closing).length)) := by
    simp
    omega
  rw [hlength]
  have hstop : Apart isDigit (byteOf '.' :: (fraction ++ (textBytes form.closing ++ tail))) := by
    rfl
  refine (takeWhile hwhole hstop hrest).bind fun v hv => ?_
  have hpoint := hv.rest_append hrest rfl
  refine current hpoint (ifTrue rfl ((Walks.advance hpoint).walk.bind fun u hu => ?_))
  have hbehind := hu.rest_cons hpoint
  refine (takeWhile hfraction hapart hbehind).bind fun t ht => ?_
  have hsize : Takes Lexer.realSize t (textBytes form.closing).length form := by
    have hleft := ht.rest_append hbehind rfl
    cases form with
    | fp32 => exact current hleft (ifTrue rfl ((Walks.advance hleft).walk.map fun _ _ => .pure _))
    | fp64 =>
      refine Takes.read ?_
      rw [hleft]
      refine ifFalse ?_ (.pure _)
      simp only [Bool.or_eq_true, decide_eq_true_eq, not_or]
      exact ⟨htail.ne rfl, htail.ne rfl⟩
  exact hsize.map fun _ _ => .pure _

/-- What marks the radix of an integer behind a zero. -/
def isRadixMark (b : UInt8) : Bool :=
  b = byteOf 'x' || b = byteOf 'X' || b = byteOf 'b' || b = byteOf 'B'

/-- A number without a radix mark. -/
theorem numberOfDecimal {first : UInt8} {bytes : List UInt8} {n : Nat} {result : TokenKind × String}
    (hrest : w.rest = first :: bytes) (hbytes : Apart isRadixMark bytes)
    (h : Takes Lexer.decimal w n result) : Takes Lexer.number w n result := by
  rw [Apart, isRadixMark] at hbytes
  simp only [Bool.or_eq_false_iff, decide_eq_false_iff_not] at hbytes
  obtain ⟨⟨⟨hx, hX⟩, hb⟩, hB⟩ := hbytes
  refine current hrest (Takes.read ?_)
  rw [hrest, List.getElem?_cons_succ]
  refine ifFalse ?_ (ifFalse ?_ h)
  · simp only [Bool.and_eq_true, Bool.or_eq_true, decide_eq_true_eq, not_and, not_or]
    exact fun _ => ⟨hx, hX⟩
  · simp only [Bool.and_eq_true, Bool.or_eq_true, decide_eq_true_eq, not_and, not_or]
    exact fun _ => ⟨hb, hB⟩

theorem isRadixMark_of_isDigit {b : UInt8} (h : isDigit b) : isRadixMark b = false := by
  grind [isRadixMark, isDigit]

theorem isNumberByte_of_isRadixMark {b : UInt8} (h : isRadixMark b) : isNumberByte b := by
  grind [isRadixMark, isNumberByte, isWordByte, isLetter]

/-- No radix mark stands behind the first of some digits. -/
theorem digits_apart {bytes rest : List UInt8} (hbytes : ∀ b ∈ bytes, isDigit b)
    (hrest : Apart isRadixMark rest) : Apart isRadixMark (bytes ++ rest) := by
  cases bytes with
  | nil => exact hrest
  | cons b bytes => exact isRadixMark_of_isDigit (hbytes b List.mem_cons_self)

theorem bytes_integer (form : IntegerForm) {digits : List UInt8}
    (hdigits : ∀ b ∈ digits, form.isDigit b) :
    (Lexeme.mk (.integer form) (asciiText digits)).bytes =
      textBytes form.opening ++ (digits ++ textBytes form.closing) := by
  show textBytes (form.opening ++ asciiText digits ++ form.closing) = _
  rw [textBytes_append, textBytes_append, List.append_assoc,
    textBytes_asciiText fun b hb => lt_of_isDigit (hdigits b hb)]

theorem integer {form : IntegerForm} {text : String} (h : IsInteger form text)
    (htail : Apart isNumberByte tail)
    (hrest : w.rest = (Lexeme.mk (.integer form) text).bytes ++ tail) :
    Takes Lexer.number w (Lexeme.mk (.integer form) text).bytes.length (.integer form, text) := by
  obtain ⟨bytes, hne, rfl, hbytes⟩ := h
  rw [bytes_integer form hbytes] at hrest ⊢
  have hdecimal (hradix : form.radix = 10) (hopening : textBytes form.opening = [])
      (hdigits : ∀ b ∈ bytes, isDigit b) :
      Takes Lexer.number w (textBytes form.opening ++ (bytes ++ textBytes form.closing)).length
        (.integer form, asciiText bytes) := by
    rw [hopening, List.nil_append, List.append_assoc] at hrest
    rw [hopening, List.nil_append]
    have hwhole := decimalInteger hradix hdigits htail hrest
    cases bytes with
    | nil => exact absurd rfl hne
    | cons b bytes =>
      refine numberOfDecimal hrest ?_ hwhole
      refine digits_apart (fun b hb => hdigits b (List.mem_cons_of_mem _ hb)) ?_
      exact closing_apart form htail (fun b hb => isNumberByte_of_isRadixMark hb) (by decide)
  cases form with
  | hex =>
    rw [List.append_assoc, List.append_assoc] at hrest
    rw [← List.append_assoc, List.length_append]
    refine Takes.current hrest (Takes.read ?_)
    rw [hrest]
    exact ifTrue rfl (digits hne hbytes htail rfl hrest)
  | bin =>
    rw [List.append_assoc, List.append_assoc] at hrest
    rw [← List.append_assoc, List.length_append]
    refine Takes.current hrest (Takes.read ?_)
    rw [hrest]
    exact ifFalse Bool.false_ne_true (ifTrue rfl (digits hne hbytes htail rfl hrest))
  | _ => exact hdecimal rfl rfl hbytes

theorem bytes_real (form : RealForm) {whole fraction : List UInt8} (hwhole : ∀ b ∈ whole, isDigit b)
    (hfraction : ∀ b ∈ fraction, isDigit b) :
    (Lexeme.mk (.real form) (asciiText (whole ++ byteOf '.' :: fraction))).bytes =
      whole ++ byteOf '.' :: (fraction ++ textBytes form.closing) := by
  have hascii : ∀ b ∈ whole ++ byteOf '.' :: fraction, b < 128 := by
    intro b hb
    rcases List.mem_append.1 hb with hb | hb
    · exact lt_of_isDigit (show IntegerForm.i32.isDigit b from hwhole b hb)
    · rcases List.mem_cons.1 hb with rfl | hb
      · decide
      · exact lt_of_isDigit (show IntegerForm.i32.isDigit b from hfraction b hb)
  show textBytes (asciiText (whole ++ byteOf '.' :: fraction) ++ form.closing) = _
  rw [textBytes_append, textBytes_asciiText hascii, List.append_assoc, List.cons_append]

theorem real {form : RealForm} {text : String} (h : IsReal text)
    (htail : Apart isNumberByte tail)
    (hrest : w.rest = (Lexeme.mk (.real form) text).bytes ++ tail) :
    Takes Lexer.number w (Lexeme.mk (.real form) text).bytes.length (.real form, text) := by
  obtain ⟨whole, fraction, hne, rfl, hwhole, hfraction⟩ := h
  rw [bytes_real form hwhole hfraction] at hrest ⊢
  rw [List.append_assoc, List.cons_append, List.append_assoc] at hrest
  have hdecimal := decimalReal hwhole hfraction htail hrest
  cases whole with
  | nil => exact absurd rfl hne
  | cons b whole =>
    refine numberOfDecimal hrest ?_ hdecimal
    exact digits_apart (fun b hb => hwhole b (List.mem_cons_of_mem _ hb)) rfl

end Takes

end ScriptFront
