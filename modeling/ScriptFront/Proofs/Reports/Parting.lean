import Mathlib.Data.List.Basic
import ScriptFront.Proofs.Lexing.Starts

/-!
# Where the lexer parts a text

The lexer knows bytes and no characters. Nevertheless it comes only to places between two
characters: what it has passed ends in an ASCII byte, or what is left starts with one.

- `charBytes`: the bytes of characters.
- `Parted`: there is an ASCII byte on one side of the place. `Parted.chars`: then no character is
  cut in two there.
- `Trivia.parted`, `Spells.ascii_head`, `Spells.ascii_last`: white space, comments and tokens.
- `Walker.Finishes.parted`, `Walker.head_of_next`: where errors are told.
-/

namespace ScriptFront

-- What a reading comes to is told by the rules; nothing is to be run to find out.
attribute [local irreducible] Ends

/-! ## Characters and bytes -/

/-- The bytes of characters. -/
def charBytes (chars : List Char) : List UInt8 := chars.flatMap String.utf8EncodeChar

theorem textBytes_eq (text : String) : textBytes text = charBytes text.toList := by
  have hbytes : textBytes (String.ofList text.toList) = charBytes text.toList := by
    simp only [textBytes, utf8Bytes, String.toUTF8_eq_toByteArray, String.toByteArray_ofList,
      List.utf8Encode, List.data_toByteArray, charBytes]
  rw [String.ofList_toList] at hbytes
  exact hbytes

@[simp] theorem charBytes_nil : charBytes [] = [] := rfl

@[simp] theorem charBytes_cons (c : Char) (chars : List Char) :
    charBytes (c :: chars) = String.utf8EncodeChar c ++ charBytes chars := rfl

/-- All bytes of a character of more than one byte tell so. -/
theorem le_of_mem_utf8EncodeChar {c : Char} (hlong : 1 < c.utf8Size) {b : UInt8}
    (hb : b ∈ String.utf8EncodeChar c) : 128 ≤ b := by
  rw [← String.length_utf8EncodeChar] at hlong
  have hmark : ∀ n, 128 ≤ n → n < 256 → 128 ≤ UInt8.ofNat n := by
    intro n hle hlt
    rw [UInt8.le_iff_toNat_le, UInt8.toNat_ofNat_of_lt' hlt]
    exact hle
  unfold String.utf8EncodeChar at hb hlong
  dsimp only at hb hlong
  split at hb
  case isTrue hshort =>
    rw [if_pos hshort] at hlong
    exact absurd hlong (by simp)
  case isFalse =>
    -- two, three or four bytes, each of them above 128
    split at hb
    case isTrue =>
      simp only [List.mem_cons, List.not_mem_nil, or_false] at hb
      rcases hb with rfl | rfl <;> exact hmark _ (by omega) (by omega)
    case isFalse =>
      split at hb
      case isTrue =>
        simp only [List.mem_cons, List.not_mem_nil, or_false] at hb
        rcases hb with rfl | rfl | rfl <;> exact hmark _ (by omega) (by omega)
      case isFalse =>
        simp only [List.mem_cons, List.not_mem_nil, or_false] at hb
        rcases hb with rfl | rfl | rfl | rfl <;> exact hmark _ (by omega) (by omega)

/-! ## Places between two characters -/

/-- On one side of the place there is an ASCII byte, or nothing. -/
def Parted (front rest : List UInt8) : Prop :=
  (∀ b ∈ front.getLast?, b < 128) ∨ ∀ b ∈ rest.head?, b < 128

namespace Parted

variable {front mid rest : List UInt8}

theorem nil (rest : List UInt8) : Parted [] rest := .inl nofun

/-- From place to place. -/
theorem trans (h : Parted front (mid ++ rest)) (h' : Parted mid rest) :
    Parted (front ++ mid) rest := by
  by_cases hmid : mid = []
  · rw [hmid, List.append_nil]
    rw [hmid] at h
    exact h
  · unfold Parted at h' ⊢
    rw [List.getLast?_append_of_ne_nil _ hmid]
    exact h'

/-- No character is cut in two. -/
theorem chars {chars : List Char} (h : Parted front rest) (heq : charBytes chars = front ++ rest) :
    ∃ before behind, chars = before ++ behind ∧ charBytes before = front ∧
      charBytes behind = rest := by
  induction chars generalizing front with
  | nil =>
    obtain ⟨rfl, rfl⟩ := List.append_eq_nil_iff.1 heq.symm
    exact ⟨[], [], rfl, rfl, rfl⟩
  | cons c chars ih =>
    have further {front' : List UInt8} (hfront : front = String.utf8EncodeChar c ++ front')
        (hrest : charBytes chars = front' ++ rest) : ∃ before behind,
          c :: chars = before ++ behind ∧ charBytes before = front ∧ charBytes behind = rest := by
      have h' : Parted front' rest := by
        by_cases hnil : front' = []
        · rw [hnil]
          exact .nil rest
        · unfold Parted at h ⊢
          rw [hfront, List.getLast?_append_of_ne_nil _ hnil] at h
          exact h
      obtain ⟨before, behind, rfl, hbefore, hbehind⟩ := ih h' hrest
      refine ⟨c :: before, behind, rfl, ?_, hbehind⟩
      rw [charBytes_cons, hbefore, hfront]
    rw [charBytes_cons] at heq
    rcases List.append_eq_append_iff.1 heq with ⟨front', hfront, hrest⟩ | ⟨back, hc, hrest⟩
    · exact further hfront hrest
    · by_cases hfront : front = []
      · refine ⟨[], c :: chars, rfl, hfront.symm, ?_⟩
        rw [charBytes_cons, heq, hfront]
        rfl
      · by_cases hback : back = []
        · rw [hback, List.append_nil] at hc
          rw [hback, List.nil_append] at hrest
          have hfront' : front = String.utf8EncodeChar c ++ [] := by rw [hc, List.append_nil]
          exact further hfront' hrest.symm
        · -- both sides of the place would be bytes of a character of more than one byte
          have hlong : 1 < c.utf8Size := by
            have hlength := congrArg List.length hc
            have hpos := List.length_pos_iff.2 hfront
            have hpos' := List.length_pos_iff.2 hback
            rw [String.length_utf8EncodeChar, List.length_append] at hlength
            omega
          have hhigh : ∀ b ∈ front ++ back, ¬b < 128 := fun b hb =>
            UInt8.not_lt.2 (le_of_mem_utf8EncodeChar hlong (hc ▸ hb))
          rcases h with hlast | hhead
          · have hmem := List.getLast_mem hfront
            exact absurd (hlast _ (List.getLast?_eq_some_getLast hfront))
              (hhigh _ (List.mem_append_left _ hmem))
          · obtain ⟨b, tail, rfl⟩ := List.exists_cons_of_ne_nil hback
            rw [hrest] at hhead
            exact absurd (hhead b rfl) (hhigh b (List.mem_append_right _ List.mem_cons_self))

end Parted

/-! ## Trivia and tokens -/

theorem lt_of_all {bytes : List UInt8} (h : bytes.all fun b => b < 128) : ∀ b ∈ bytes, b < 128 :=
  fun b hb => of_decide_eq_true (List.all_eq_true.1 h b hb)

theorem lt_of_isBlank {b : UInt8} (h : isBlank b) : b < 128 := by
  grind [isBlank]

theorem Trivia.parted {gap rest : List UInt8} (h : Trivia gap rest) : Parted gap rest := by
  induction h with
  | nil rest => exact .nil rest
  | @blank b gap rest hb hgap ih =>
    have hfirst : Parted [b] (gap ++ rest) := by
      left
      rintro c hc
      obtain rfl := Option.some.inj hc
      exact lt_of_isBlank hb
    exact hfirst.trans ih
  | @line body gap rest hbody hend hgap ih =>
    -- what is in the line may be anything; but behind it the line ends
    have hfirst : Parted (lineCommentOpen ++ body) (gap ++ rest) := by
      right
      intro b hb
      rw [hend b hb]
      decide
    exact hfirst.trans ih
  | @block body gap rest hbody hgap ih =>
    have hfirst : Parted (commentOpen ++ body ++ commentClose) (gap ++ rest) := by
      left
      rw [List.getLast?_append_of_ne_nil _ (show commentClose ≠ [] by decide)]
      decide +kernel
    exact hfirst.trans ih

namespace Spells

variable {kind : TokenKind} {text : String} {slice rest : List UInt8}

/-- A token is made of ASCII bytes, or stands between quotation marks. -/
theorem cases_bytes (h : Spells kind text slice rest) :
    (∀ b ∈ slice, b < 128) ∨
      ∃ mark body, mark ≠ [] ∧ (∀ b ∈ mark, b < 128) ∧ slice = mark ++ body ++ mark := by
  obtain ⟨hwell, hwritten, -, -, -, -⟩ := h
  have htext {bytes : List UInt8} (hbytes : ∀ b ∈ bytes, b < 128) :
      ∀ b ∈ textBytes (asciiText bytes), b < 128 := by
    rw [textBytes_asciiText hbytes]
    exact hbytes
  cases hwell with
  | mark s =>
    left
    have hslice : slice = (Lexeme.mark s).bytes := hwritten
    rw [hslice, Takes.bytes_mark]
    exact lt_of_all (by cases s <;> decide)
  | word k =>
    left
    have hslice : slice = (Lexeme.word k).bytes := hwritten
    rw [hslice, Takes.bytes_word]
    refine lt_of_all ?_
    cases k with
    | primitive type => cases type <;> decide
    | _ => decide
  | name hname =>
    left
    obtain ⟨first, more, rfl, hfirst, hmore, -⟩ := hname
    have hslice : slice = textBytes (asciiText (first :: more)) := hwritten
    rw [hslice]
    refine htext fun b hb => lt_of_isWordByte ?_
    rcases List.mem_cons.1 hb with rfl | hb
    · rw [isWordByte, hfirst]
      rfl
    · exact hmore b hb
  | @integer form text hinteger =>
    left
    obtain ⟨mark, hmark, size, hsize, rfl⟩ := hwritten
    obtain ⟨digits, -, rfl, hdigits⟩ := hinteger
    have hmark' : ∀ b ∈ textBytes mark, b < 128 := by
      have hall : ∀ mark ∈ form.marks, (textBytes mark).all fun b => b < 128 := by
        cases form <;> decide
      exact lt_of_all (hall mark hmark)
    have hsize' : ∀ b ∈ textBytes size, b < 128 := by
      have hall : ∀ size ∈ form.suffixes, (textBytes size).all fun b => b < 128 := by
        cases form <;> decide
      exact lt_of_all (hall size hsize)
    intro b hb
    rcases List.mem_append.1 hb with hb | hb
    · rcases List.mem_append.1 hb with hb | hb
      · exact hmark' b hb
      · exact htext (fun b hb => lt_of_isDigit (hdigits b hb)) b hb
    · exact hsize' b hb
  | @real form text hreal =>
    left
    obtain ⟨size, hsize, rfl⟩ := hwritten
    obtain ⟨whole, fraction, -, rfl, hwhole, hfraction⟩ := hreal
    have hsize' : ∀ b ∈ textBytes size, b < 128 := by
      have hall : ∀ size ∈ form.suffixes, (textBytes size).all fun b => b < 128 := by
        cases form <;> decide
      exact lt_of_all (hall size hsize)
    intro b hb
    rcases List.mem_append.1 hb with hb | hb
    · refine htext (fun b hb => ?_) b hb
      rcases List.mem_append.1 hb with hb | hb
      · exact lt_of_isDigit (show IntegerForm.i32.isDigit b from hwhole b hb)
      · rcases List.mem_cons.1 hb with rfl | hb
        · decide
        · exact lt_of_isDigit (show IntegerForm.i32.isDigit b from hfraction b hb)
    · exact hsize' b hb
  | character =>
    right
    exact ⟨[Lexer.quote], textBytes text, (by rintro ⟨⟩), lt_of_all (by decide), hwritten⟩
  | string =>
    right
    obtain ⟨mark, hmark, rfl⟩ := hwritten
    rcases List.mem_cons.1 hmark with rfl | hmark
    · exact ⟨[Lexer.doubleQuote], textBytes text, (by rintro ⟨⟩), lt_of_all (by decide), rfl⟩
    · obtain rfl := List.mem_singleton.1 hmark
      exact ⟨tripleQuote, textBytes text, (by rintro ⟨⟩), lt_of_all (by decide), rfl⟩

theorem ascii_head (h : Spells kind text slice rest) : ∀ b ∈ slice.head?, b < 128 := by
  intro b hb
  rcases h.cases_bytes with hall | ⟨mark, body, hne, hmark, rfl⟩
  · exact hall b (List.mem_of_mem_head? hb)
  · rw [List.append_assoc, List.head?_append_of_ne_nil _ hne] at hb
    exact hmark b (List.mem_of_mem_head? hb)

theorem ascii_last (h : Spells kind text slice rest) : ∀ b ∈ slice.getLast?, b < 128 := by
  intro b hb
  rcases h.cases_bytes with hall | ⟨mark, body, hne, hmark, rfl⟩
  · exact hall b (List.mem_of_getLast? hb)
  · rw [List.getLast?_append_of_ne_nil _ hne] at hb
    exact hmark b (List.mem_of_getLast? hb)

end Spells

/-! ## Where errors are told -/

namespace Walker

variable {origin w v : Walker Buffer} {token : Token} {e : LexError} {place : Place}
  {ending : Option (LexError × Place)}

/-- Behind a token there is a place between two characters. -/
theorem parted_of_next (h : Lexer.next.run w = (.ok token, v)) :
    ∃ bytes, w.Passes bytes v ∧ Parted bytes v.rest := by
  obtain ⟨gap, slice, mid, hmid, hslice, -, hend | hspells⟩ := Ends.ok (Ends.next w) h
  · obtain ⟨-, -, rfl, -⟩ := hend
    have hgap := hmid.trivia.parted
    rw [hslice.rest_eq, List.nil_append] at hgap
    have hpasses := hmid.passes.trans hslice
    rw [List.append_nil] at hpasses
    exact ⟨gap, hpasses, hgap⟩
  · have hgap := hmid.trivia.parted
    rw [hslice.rest_eq] at hgap
    exact ⟨gap ++ slice, hmid.passes.trans hslice, hgap.trans (.inl hspells.ascii_last)⟩

/-- An error that the tokens of a text end at is told between two characters. -/
theorem Finishes.parted (h : origin.Finishes ending) (hending : ending = some (e, place)) :
    ∃ front w, origin.Passes front w ∧ Parted front w.rest ∧ e.place = w.place.stored := by
  induction h with
  | eof hnext hkind => cases hending
  | error hnext =>
    cases hending
    obtain ⟨gap, hgap, -, hplace⟩ := stopped_of_next hnext
    exact ⟨gap, _, hgap.passes, hgap.trivia.parted, hplace⟩
  | token hnext hkind hmore ih =>
    obtain ⟨bytes, w, hbytes, hparted, hplace⟩ := ih hending
    obtain ⟨front, hfront, hparted'⟩ := parted_of_next hnext
    rw [hbytes.rest_eq] at hparted'
    exact ⟨front ++ bytes, w, hfront.trans hbytes, hparted'.trans hparted, hplace⟩

/-- Where a token starts, there is an ASCII byte, or the text is at its end. -/
theorem head_of_next (hw : w.Settled) (h : Lexer.next.run w = (.ok token, v)) :
    ∀ b ∈ w.rest.head?, b < 128 := by
  by_cases hkind : token.kind = .eof
  · rw [rest_of_settled_eof hw h hkind]
    exact nofun
  · obtain ⟨slice, hpasses, hspells⟩ := lexed_of_next hw h hkind
    rw [hpasses.rest_eq, List.head?_append_of_ne_nil _ hspells.slice_ne_nil]
    exact hspells.ascii_head

end Walker

end ScriptFront
