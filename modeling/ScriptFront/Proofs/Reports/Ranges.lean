import ScriptFront.Diagnostic.Excerpt
import ScriptFront.Proofs.Reports.Parting
import ScriptFront.Proofs.Speculation.Places

/-!
# What reports underline

An error knows the byte where it is, a report counts characters.

- `charIndex_of_append`, `charIndex_cases`: the number of a character at a byte.
- `Label.Underlines`: a label about the text, from the character at an offset on.
- `Label.underlines`: labels at places between two characters.
- `Text.errors_underlined`: the labels of all errors.
- `Text.label_behind_text`: a label that ends within a character, and behind the text.
-/

namespace ScriptFront

open ScriptFront.Parser

/-! ## Numbers of characters -/

/-- Whether a byte is one of a character, but not the first. -/
def Cuts (chars : List Char) (byte : Nat) : Prop :=
  ∃ before c behind, chars = before ++ c :: behind ∧ (charBytes before).length < byte ∧
    byte < (charBytes before).length + c.utf8Size

theorem length_charBytes_cons (c : Char) (chars : List Char) :
    (charBytes (c :: chars)).length = c.utf8Size + (charBytes chars).length := by
  rw [charBytes_cons, List.length_append, String.length_utf8EncodeChar]

theorem countChars_cons {byte : Nat} (h : byte ≠ 0) (c : Char) (chars : List Char) :
    countChars (c :: chars) byte =
      if c.utf8Size ≤ byte then (countChars chars (byte - c.utf8Size)).map (· + 1) else none := by
  rw [countChars]
  exact h

theorem countChars_of_append (before behind : List Char) :
    countChars (before ++ behind) (charBytes before).length = some before.length := by
  induction before with
  | nil => cases behind <;> rfl
  | cons c before ih =>
    have hpos := c.utf8Size_pos
    have hne : c.utf8Size + (charBytes before).length ≠ 0 := by omega
    rw [length_charBytes_cons, List.cons_append, countChars_cons hne,
      if_pos (Nat.le_add_right _ _), Nat.add_sub_cancel_left, ih]
    rfl

/-- The characters in front of a place are as many as its number says. -/
theorem charIndex_of_append (before behind : List Char) :
    charIndex (before ++ behind) (charBytes before).length = before.length := by
  rw [charIndex, countChars_of_append]
  rfl

/-- There are not more characters than there are, and only within a character none are counted. -/
theorem countChars_cases (chars : List Char) (byte : Nat) :
    (∃ n, countChars chars byte = some n ∧ n ≤ chars.length) ∨
      countChars chars byte = none ∧ Cuts chars byte := by
  induction chars generalizing byte with
  | nil => cases byte <;> exact .inl ⟨0, rfl, Nat.le_refl 0⟩
  | cons c chars ih =>
    by_cases hbyte : byte = 0
    · rw [hbyte]
      exact .inl ⟨0, rfl, Nat.zero_le _⟩
    · rw [countChars_cons hbyte]
      by_cases hfits : c.utf8Size ≤ byte
      · rw [if_pos hfits]
        rcases ih (byte - c.utf8Size) with ⟨n, hn, hle⟩ | ⟨hnone, before, d, behind, rfl, hlt, hlt'⟩
        · rw [hn]
          exact .inl ⟨n + 1, rfl, Nat.succ_le_succ hle⟩
        · rw [hnone]
          refine .inr ⟨rfl, c :: before, d, behind, rfl, ?_, ?_⟩
          · rw [length_charBytes_cons]
            omega
          · rw [length_charBytes_cons]
            omega
      · rw [if_neg hfits]
        refine .inr ⟨rfl, [], c, chars, rfl, Nat.pos_of_ne_zero hbyte, ?_⟩
        rw [charBytes_nil, List.length_nil]
        omega

theorem charIndex_cases (chars : List Char) (byte : Nat) :
    charIndex chars byte ≤ chars.length ∨ charIndex chars byte = byte ∧ Cuts chars byte := by
  rw [charIndex]
  rcases countChars_cases chars byte with ⟨n, hn, hle⟩ | ⟨hnone, hcuts⟩
  · rw [hn]
    exact .inl hle
  · rw [hnone]
    exact .inr ⟨rfl, hcuts⟩

theorem length_le_length_charBytes (chars : List Char) :
    chars.length ≤ (charBytes chars).length := by
  induction chars with
  | nil => exact Nat.le_refl 0
  | cons c chars ih =>
    have hpos := c.utf8Size_pos
    rw [length_charBytes_cons, List.length_cons]
    omega

/-! ## Labels -/

/-- What the label underlines starts with the character at an offset of the text, or at the end of
the text, and goes on in the text. There is an exception: where the label ends within a character,
the number of the byte is taken for that of a character. -/
structure Label.Underlines (chars : List Char) (offset : Nat) (l : Label) : Prop where
  start_eq : ∃ before behind, chars = before ++ behind ∧ (charBytes before).length = offset ∧
    (l.charRange chars).1 = before.length
  start_le : (l.charRange chars).1 ≤ (l.charRange chars).2
  stop_le : (l.charRange chars).2 ≤ chars.length ∨
    Cuts chars l.stop ∧ (l.charRange chars).2 = l.stop

/-- A label that starts between two characters, and ends further on. -/
theorem Label.underlines {front rest : List UInt8} {chars : List Char} (h : Parted front rest)
    (heq : charBytes chars = front ++ rest) {l : Label} (hstart : l.start = front.length)
    (hstop : l.start ≤ l.stop) : l.Underlines chars l.start := by
  obtain ⟨before, behind, rfl, rfl, -⟩ := h.chars heq
  have hindex : charIndex (before ++ behind) l.start = before.length := by
    rw [hstart, charIndex_of_append]
  have hshort := length_le_length_charBytes before
  refine {
    start_eq := ⟨before, behind, rfl, hstart.symm, hindex⟩
    start_le := Nat.le_max_left _ _
    stop_le := ?_ }
  show max (charIndex (before ++ behind) l.start) (charIndex (before ++ behind) l.stop) ≤ _ ∨
    _ ∧ max (charIndex (before ++ behind) l.start) (charIndex (before ++ behind) l.stop) = _
  rw [hindex]
  rcases charIndex_cases (before ++ behind) l.stop with hle | ⟨hbyte, hcuts⟩
  · left
    rw [List.length_append] at hle ⊢
    omega
  · right
    refine ⟨hcuts, ?_⟩
    rw [hbyte]
    omega

/-! ## Texts -/

namespace Text

section

variable {σ : Type} [ByteSource σ] {t : Text} {limit : Nat} {shows : σ → Nat → Prop} {s : σ}

/-- A walker that has passed a part of a text is behind that many bytes. -/
theorem offset_of_passes {tabWidth : UInt32} {front : List UInt8} {w : Walker Buffer}
    (h : (Walker.ofSource t.inMemory tabWidth).Passes front w) :
    t.content.toList = front ++ w.rest ∧ w.place.offset = front.length := by
  have hoffset : w.place.offset = 0 + front.length := h.offset_eq
  rw [Nat.zero_add] at hoffset
  exact ⟨h.rest_eq, hoffset⟩

/-- The lexer tells of an error between two characters. -/
theorem parted_of_lexing (hfaithful : t.Faithful limit shows) (hroom : t.content.size + 3 < limit)
    (hs : shows s 0) (hsize : t.content.size < 2 ^ 32) (tabWidth : UInt32) {e : LexError}
    (h : e ∈ (Lexer.run.run (Walker.ofSource s tabWidth)).1.2) :
    ∃ front rest, t.content.toList = front ++ rest ∧ Parted front rest ∧
      e.place.offset = front.length := by
  let T := besideMemory hfaithful hroom
  have hb : T.right t.inMemory 0 := t.inMemory_shows
  let w := Walker.ofSource t.inMemory tabWidth
  have hsame : (Lexer.run.run (Walker.ofSource s tabWidth)).1 = (Lexer.run.run w).1 :=
    (Twins.run (Twins.beside_ofSource (T := T) hs hb tabWidth)).1
  have hsteps : w.rest.length < w.extent + 1 := by
    have hle := w.length_rest_le
    omega
  obtain ⟨tokens, ending, v, hrun, hfinishes⟩ := Walker.Finishes.of_runOnto hsteps #[]
  have hlexed : (Lexer.run.run w).1 = (tokens, ending.map Prod.fst) := congrArg Prod.fst hrun
  rw [hsame, hlexed] at h
  obtain ⟨⟨error, place⟩, hending, rfl⟩ := Option.map_eq_some_iff.1 h
  obtain ⟨front, u, hpasses, hparted, hplace⟩ := hfinishes.parted hending
  have hstored : u.place.stored = u.place :=
    stored_of_sameText (Nat.le_pred_of_lt hsize) hpasses.toSameText
  obtain ⟨hcontent, hoffset⟩ := offset_of_passes hpasses
  refine ⟨front, u.rest, hcontent, hparted, ?_⟩
  show error.place.offset = _
  rw [hplace, hstored, hoffset]

/-- A parser tells of an error between two characters. -/
theorem parted_of_reading (hfaithful : t.Faithful limit shows) (hroom : t.content.size + 3 < limit)
    (hs : shows s 0) (hsize : t.content.size < 2 ^ 32) (tabWidth : UInt32) (entry : Entry)
    {e : SyntaxError} (h : Parser.run entry.read s tabWidth = .error e) :
    ∃ front rest, t.content.toList = front ++ rest ∧ Parted front rest ∧
      e.place.offset = front.length := by
  let T := besideMemory hfaithful hroom
  have hb : T.right t.inMemory 0 := t.inMemory_shows
  obtain ⟨C, horigin, -⟩ := Course.ofWalker (Walker.ofSource t.inMemory tabWidth)
  have hstored {w : Walker Buffer} (hw : C.origin.SameText w) : w.place.stored = w.place := by
    refine stored_of_sameText ?_ hw
    rw [horigin]
    exact Nat.le_pred_of_lt hsize
  by_cases hlexical : ∃ fault, e.fault = .lexical fault
  · obtain ⟨fault, hfault⟩ := hlexical
    obtain ⟨error, place, hending, -, hplace⟩ :=
      (Course.told_of_run hs hb horigin entry h).lexical fault hfault
    obtain ⟨front, w, hpasses, hparted, herror⟩ := C.finishes.parted hending
    rw [hstored hpasses.toSameText, hplace] at herror
    rw [horigin] at hpasses
    obtain ⟨hcontent, hoffset⟩ := offset_of_passes hpasses
    exact ⟨front, w.rest, hcontent, hparted, by rw [herror, hoffset]⟩
  · have hnot : ∀ fault, e.fault ≠ .lexical fault := fun fault hfault => hlexical ⟨fault, hfault⟩
    rw [Twins.run_read (T := T) hs hb] at h
    obtain ⟨place, token, behind, hstands, ⟨w, rfl, hstrays⟩, hplace, -⟩ :=
      Course.marks_of_run horigin entry h hnot
    obtain ⟨v, hv, hvplace, hsettled, hnext⟩ := hstands.front
    obtain rfl := Walker.eq_of_place (hstrays.sameText.symm.trans hv) hvplace
    rw [hstored hv] at hplace
    obtain ⟨front, hpasses⟩ := hstrays.passes
    rw [horigin] at hpasses
    obtain ⟨hcontent, hoffset⟩ := offset_of_passes hpasses
    refine ⟨front, v.rest, hcontent, .inr (Walker.head_of_next hsettled hnext), ?_⟩
    rw [hplace, hoffset]

/-- Over a faithful source of characters, whatever error the lexer or a fresh parser stops at: its
report underlines what starts with the character at the error, and goes on in the text. -/
theorem errors_underlined (text : String) (htext : t.content = utf8Bytes text)
    (hfaithful : t.Faithful limit shows) (hroom : t.content.size + 3 < limit) (hs : shows s 0)
    (hsize : t.content.size < 2 ^ 32) (tabWidth : UInt32) :
    (∀ e ∈ (Lexer.run.run (Walker.ofSource s tabWidth)).1.2,
      ∃ l ∈ e.toDiagnostic.primary?, l.Underlines text.toList e.place.offset) ∧
    ∀ (entry : Entry) (e : SyntaxError), Parser.run entry.read s tabWidth = .error e →
      ∃ l ∈ e.toDiagnostic.primary?, l.Underlines text.toList e.place.offset := by
  have hchars {front rest : List UInt8} (h : t.content.toList = front ++ rest) :
      charBytes text.toList = front ++ rest := by
    rw [← h, htext, ← textBytes_eq]
    rfl
  constructor
  · intro e he
    obtain ⟨front, rest, hcontent, hparted, hoffset⟩ :=
      parted_of_lexing hfaithful hroom hs hsize tabWidth he
    let l : Label := ⟨e.place.offset, e.place.offset + 1, e.fault.remark⟩
    have hl : l.Underlines text.toList l.start :=
      Label.underlines hparted (hchars hcontent) hoffset (Nat.le_add_right _ _)
    exact ⟨l, rfl, hl⟩
  · intro entry e he
    obtain ⟨front, rest, hcontent, hparted, hoffset⟩ :=
      parted_of_reading hfaithful hroom hs hsize tabWidth entry he
    let l : Label := ⟨e.place.offset, e.place.offset + e.width, e.remark⟩
    have hl : l.Underlines text.toList l.start :=
      Label.underlines hparted (hchars hcontent) hoffset (Nat.le_add_right _ _)
    exact ⟨l, rfl, hl⟩

end

/-- A string where a type should be, behind a comment with characters of two bytes, in chunks of two
bytes: the label is about the string up to its end, counted in characters. -/
theorem errors_underlined_string :
    let text := "/*ééé*/ \"ab\""
    let t : Text := ⟨"string", utf8Bytes text⟩
    let s := t.inChunks 2
    let e : SyntaxError := ⟨.unexpected "ab", ⟨⟨1, 12⟩, 11⟩, none⟩
    t.content.size + 3 < addressLimit - 1 ∧ t.content.size < 2 ^ 32 ∧
      Parser.run (Entry.read .type) s 4 = .error e ∧
      ∃ l ∈ e.toDiagnostic.primary?, l.Underlines text.toList 11 ∧
        l.charRange text.toList = (8, 10) := by
  intro text t s e
  have hroom : t.content.size + 3 < addressLimit - 1 := by decide
  have hsize : t.content.size < 2 ^ 32 := by decide
  have hread : errorOf? (Parser.run (Entry.read .type) s 4) = some e := by decide +kernel
  have hread' := eq_error_of_errorOf? hread
  obtain ⟨l, hl, hunderlines⟩ := (t.errors_underlined (s := s) text rfl t.chunks hroom
    (InChunks.start t 2) hsize 4).2 .type e hread'
  refine ⟨hroom, hsize, hread', l, hl, hunderlines, ?_⟩
  obtain rfl : (⟨11, 13, "here"⟩ : Label) = l := Option.some.inj hl
  decide +kernel

/-- With one character of two bytes in the string, the label ends within it. So it ends behind the
text, and there is no line to show it in. -/
theorem label_behind_text :
    let text := "/*ééé*/ \"é\""
    let e : SyntaxError := ⟨.unexpected "é", ⟨⟨1, 12⟩, 11⟩, none⟩
    Parser.run (Entry.read .type) (Buffer.ofString text) 4 = .error e ∧
      ∃ l ∈ e.toDiagnostic.primary?, l.charRange text.toList = (8, 13) ∧ text.toList.length = 11 ∧
        Excerpt.ofLabel? text.toList l = none := by
  intro text e
  have hread : errorOf? (Parser.run (Entry.read .type) (Buffer.ofString text) 4) = some e := by
    decide +kernel
  refine ⟨eq_error_of_errorOf? hread, ⟨11, 13, "here"⟩, rfl, ?_, ?_, ?_⟩
  · decide +kernel
  · decide +kernel
  · decide +kernel

end Text

end ScriptFront
