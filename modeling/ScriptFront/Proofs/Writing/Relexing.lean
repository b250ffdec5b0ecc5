import ScriptFront.Proofs.Writing.Quotations

/-!
# Lexemes read back

The lexer takes a lexeme for what it is if a blank, or nothing, follows it.

- `Takes.symbol`: symbols, of which the longest one is taken.
- `Takes.scan`: any lexeme that can be read at all.
- `Takes.next`: a token behind a blank, or the one at the end of the text.
-/

namespace ScriptFront

open Walker

namespace Takes

variable {w : Walker Buffer} {tail : List UInt8}

/-! ## Symbols -/

theorem bytes_mark (s : Symbol) : (Lexeme.mark s).bytes = s.bytes := by
  refine textBytes_ascii ?_
  cases s <;> decide

/-- In front of a blank or the end, a symbol is not taken for a longer one. -/
theorem atFront?_bytes (s : Symbol) (htail : Separated tail) :
    Symbol.atFront? [(s.bytes ++ tail)[0]?.getD endByte, (s.bytes ++ tail)[1]?.getD endByte,
      (s.bytes ++ tail)[2]?.getD endByte] = some s := by
  cases htail with
  | nil => cases s <;> rfl
  | blank tail => cases s <;> rfl

theorem lookAt (count ahead : Nat) :
    Walks (Lexer.lookAt count ahead) w 0
      ((List.range' ahead count).map fun k => w.rest[k]?.getD endByte) := by
  induction count generalizing ahead with
  | zero => exact .pure _
  | succ count ih =>
    rw [List.range'_succ, List.map_cons]
    refine Walks.read ?_
    rw [← Nat.zero_add 0]
    refine (ih (ahead + 1)).bind fun _ _ => ?_
    exact .pure _

theorem symbol (s : Symbol) (htail : Separated tail) (hrest : w.rest = s.bytes ++ tail) :
    Takes Lexer.symbol w s.bytes.length (.symbol s, s.spelling) := by
  have hfront : Walks (Lexer.lookAt 3 0) w 0 [w.rest[0]?.getD endByte, w.rest[1]?.getD endByte,
      w.rest[2]?.getD endByte] := lookAt 3 0
  rw [hrest] at hfront
  rw [← Nat.zero_add s.bytes.length]
  refine hfront.walk.bind fun v hv => ?_
  rw [Symbol.classify_eq, atFront?_bytes s htail]
  have hleft : v.rest = s.bytes ++ tail := hv.rest_eq.trans hrest
  exact (Walks.advanceBy hleft).walk.map fun _ _ => .pure _

/-! ## Any lexeme -/

theorem bytes_word_cons (k : Keyword) :
    ∃ b more, (Lexeme.word k).bytes = b :: more ∧ isLetter b := by
  rw [bytes_word]
  cases k with
  | primitive type => cases type <;> exact ⟨_, _, rfl, rfl⟩
  | _ => exact ⟨_, _, rfl, rfl⟩

theorem bytes_name_cons {text : String} (h : IsName text) :
    ∃ b more, (Lexeme.name text).bytes = b :: more ∧ isLetter b := by
  obtain ⟨first, rest, rfl, hfirst, hall, -⟩ := h
  exact ⟨first, rest, bytes_name hfirst hall, hfirst⟩

theorem bytes_integer_cons {form : IntegerForm} {text : String} (h : IsInteger form text) :
    ∃ b more, (Lexeme.mk (.integer form) text).bytes = b :: more ∧ isDigit b := by
  obtain ⟨bytes, hne, rfl, hbytes⟩ := h
  rw [bytes_integer form hbytes]
  cases bytes with
  | nil => exact absurd rfl hne
  | cons b bytes =>
    have hb : form.isDigit b := hbytes b List.mem_cons_self
    cases form with
    | hex | bin => exact ⟨_, _, rfl, rfl⟩
    | _ => exact ⟨_, _, rfl, hb⟩

theorem bytes_real_cons {form : RealForm} {text : String} (h : IsReal text) :
    ∃ b more, (Lexeme.mk (.real form) text).bytes = b :: more ∧ isDigit b := by
  obtain ⟨whole, fraction, hne, rfl, hwhole, hfraction⟩ := h
  rw [bytes_real form hwhole hfraction]
  cases whole with
  | nil => exact absurd rfl hne
  | cons b whole => exact ⟨_, _, rfl, hwhole b List.mem_cons_self⟩

theorem bytes_string_cons (text : String) :
    ∃ more, (Lexeme.mk .string text).bytes = Lexer.doubleQuote :: more := by
  by_cases h : isLineBody (textBytes text)
  · exact ⟨_, bytes_lineString h⟩
  · exact ⟨_, bytes_rawString h⟩

theorem bytes_mark_cons (s : Symbol) : ∃ b more, s.bytes = b :: more ∧
    (isLetter b || isDigit b || b = Lexer.quote || b = Lexer.doubleQuote) = false := by
  cases s <;> exact ⟨_, _, rfl, rfl⟩

/-- The byte that a lexeme starts with tells which scanner reads it. -/
theorem scan {l : Lexeme} (hl : l.WellFormed) (htail : Separated tail)
    (hrest : w.rest = l.bytes ++ tail) :
    Takes Lexer.scan w l.bytes.length (l.kind, l.text) := by
  have hcons {b : UInt8} {more : List UInt8} (h : l.bytes = b :: more) :
      w.rest = b :: (more ++ tail) := by rw [hrest, h, List.cons_append]
  have hdigit {b : UInt8} (h : isDigit b) : ¬isLetter b := by grind [isLetter, isDigit]
  cases hl with
  | mark s =>
    rw [bytes_mark] at hrest hcons ⊢
    obtain ⟨b, more, hbytes, hb⟩ := bytes_mark_cons s
    simp only [Bool.or_eq_false_iff, decide_eq_false_iff_not] at hb
    obtain ⟨⟨⟨hletter, hdigit⟩, hquote⟩, hdouble⟩ := hb
    refine notAtEnd (hcons hbytes) (current (hcons hbytes) ?_)
    refine ifFalse (Bool.eq_false_iff.1 hletter) (ifFalse (Bool.eq_false_iff.1 hdigit) ?_)
    exact ifFalse hquote (ifFalse hdouble (symbol s htail hrest))
  | word k =>
    obtain ⟨b, more, hbytes, hb⟩ := bytes_word_cons k
    refine notAtEnd (hcons hbytes) (current (hcons hbytes) (ifTrue hb ?_))
    exact keyword k (htail.apart rfl rfl) hrest
  | name h =>
    obtain ⟨b, more, hbytes, hb⟩ := bytes_name_cons h
    refine notAtEnd (hcons hbytes) (current (hcons hbytes) (ifTrue hb ?_))
    exact name h (htail.apart rfl rfl) hrest
  | integer h =>
    obtain ⟨b, more, hbytes, hb⟩ := bytes_integer_cons h
    refine notAtEnd (hcons hbytes) (current (hcons hbytes) ?_)
    exact ifFalse (hdigit hb) (ifTrue hb (integer h (htail.apart rfl rfl) hrest))
  | real h =>
    obtain ⟨b, more, hbytes, hb⟩ := bytes_real_cons h
    refine notAtEnd (hcons hbytes) (current (hcons hbytes) ?_)
    exact ifFalse (hdigit hb) (ifTrue hb (real h (htail.apart rfl rfl) hrest))
  | character h =>
    have hbytes := hcons (bytes_character _)
    refine notAtEnd hbytes (current hbytes ?_)
    exact ifFalse (by decide) (ifFalse (by decide) (ifTrue rfl (character h hrest)))
  | string h =>
    obtain ⟨more, hbytes⟩ := bytes_string_cons _
    refine notAtEnd (hcons hbytes) (current (hcons hbytes) ?_)
    refine ifFalse (by decide) (ifFalse (by decide) (ifFalse (by decide) (ifTrue rfl ?_)))
    exact string h htail hrest

/-! ## What stands between tokens -/

/-- Whether neither white space nor a comment nor the end stands in front. -/
def opensToken : List UInt8 → Bool
  | [] => false
  | b :: more =>
    let second := more[0]?.getD endByte
    !isBlank b && !(b = byteOf '/' && second = byteOf '/') &&
      !(b = byteOf '/' && second = byteOf '*')

theorem opensToken_of_ne {b : UInt8} (more : List UInt8) (hblank : isBlank b = false)
    (hb : b ≠ byteOf '/') : opensToken (b :: more) := by
  rw [opensToken, hblank, decide_eq_false hb]
  rfl

theorem opensToken_bytes {l : Lexeme} (hl : l.WellFormed) (htail : Separated tail) :
    opensToken (l.bytes ++ tail) := by
  have hletter {bytes : List UInt8} (h : ∃ b more, bytes = b :: more ∧ isLetter b) :
      opensToken (bytes ++ tail) := by
    obtain ⟨b, more, rfl, hb⟩ := h
    refine opensToken_of_ne _ ?_ ?_
    · grind [isLetter, isBlank]
    · rintro rfl
      exact absurd hb (by decide)
  have hdigit {bytes : List UInt8} (h : ∃ b more, bytes = b :: more ∧ isDigit b) :
      opensToken (bytes ++ tail) := by
    obtain ⟨b, more, rfl, hb⟩ := h
    refine opensToken_of_ne _ ?_ ?_
    · grind [isDigit, isBlank]
    · rintro rfl
      exact absurd hb (by decide)
  cases hl with
  | mark s =>
    rw [bytes_mark]
    cases htail with
    | nil => cases s <;> rfl
    | blank tail => cases s <;> rfl
  | word k => exact hletter (bytes_word_cons k)
  | name h => exact hletter (bytes_name_cons h)
  | integer h => exact hdigit (bytes_integer_cons h)
  | real h => exact hdigit (bytes_real_cons h)
  | character h =>
    rw [bytes_character]
    exact opensToken_of_ne _ rfl (by decide)
  | string h =>
    obtain ⟨more, hbytes⟩ := bytes_string_cons _
    rw [hbytes]
    exact opensToken_of_ne _ rfl (by decide)

theorem skipNothing (steps : Nat) (hrest : opensToken w.rest) :
    Takes (Lexer.skipUpTo (steps + 1)) w 0 () := by
  cases hbytes : w.rest with
  | nil =>
    rw [hbytes] at hrest
    exact absurd hrest Bool.false_ne_true
  | cons b more =>
    rw [hbytes, opensToken] at hrest
    simp only [Bool.and_eq_true, Bool.not_eq_true'] at hrest
    obtain ⟨⟨hblank, hline⟩, hblock⟩ := hrest
    refine notAtEnd hbytes (current hbytes (Takes.read ?_))
    rw [hbytes, List.getElem?_cons_succ]
    refine ifFalse (Bool.eq_false_iff.1 hblank) (ifFalse ?_ (ifFalse ?_ (.pure ())))
    · rw [hline]
      exact Bool.false_ne_true
    · rw [hblock]
      exact Bool.false_ne_true

/-- Behind at most one blank, the next token is reached. -/
theorem skip {blank bytes : List UInt8} (hblank : blank = [] ∨ blank = [32])
    (hbytes : opensToken bytes) (hrest : w.rest = blank ++ bytes) :
    Takes Lexer.skip w blank.length () := by
  refine Takes.get ?_
  rcases hblank with rfl | rfl
  · refine skipNothing _ ?_
    rw [hrest]
    exact hbytes
  · refine notAtEnd hrest (current hrest (Takes.read (ifTrue rfl ?_)))
    refine (Walks.advance hrest).walk.map fun v hv => skipNothing _ ?_
    rw [hv.rest_cons hrest]
    exact hbytes

/-- At the end of the text there is nothing to skip. -/
theorem skip_atEnd (hrest : w.rest = []) : Takes Lexer.skip w 0 () := by
  refine Takes.get (Takes.atEnd ?_)
  rw [hrest]
  exact ifTrue rfl (.pure ())

theorem scan_atEnd (hrest : w.rest = []) :
    Takes Lexer.scan w 0 (.eof, Lexer.eofText) := by
  refine Takes.atEnd ?_
  rw [hrest]
  exact ifTrue rfl (.pure _)

/-! ## Tokens -/

/-- A token is what the scanner finds behind what is skipped. -/
theorem next {m n : Nat} {kind : TokenKind} {text : String} (hskip : Takes Lexer.skip w m ())
    (hscan : ∀ v, w.Further m v → Takes Lexer.scan v n (kind, text)) :
    ∃ token, token.kind = kind ∧ token.text = text ∧ Takes Lexer.next w (m + n) token := by
  obtain ⟨v, hv, hfurther⟩ := hskip
  obtain ⟨u, hu, hfurther'⟩ := hscan v hfurther
  refine ⟨⟨kind, text, v.place.stored⟩, rfl, rfl, u, ?_, hfurther.trans hfurther'⟩
  rw [Lexer.next, run_bind_ok hv, run_get_bind]
  dsimp only
  rw [run_lift_bind (show StateT.run Lexer.scan.run v = _ from hu)]
  rfl

end Takes

end ScriptFront
