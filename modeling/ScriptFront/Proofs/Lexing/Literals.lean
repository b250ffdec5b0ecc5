import ScriptFront.Proofs.Lexing.Scanners
import ScriptFront.Proofs.Reports.Parting

/-!
# Literals

The scanners of numbers, characters and strings take exactly the literals. Numbers have a grammar in
which the longest word counts; characters and strings end at the first mark that closes them.

- `CharacterText`: what may stand between single quotation marks.
- `LineBody`, `StringLiteral`: how strings are written.
- `Decides`: a scanner that takes this, and stops at that fault everywhere else.
- `Lexer.literals_exact`: the three scanners.
-/

namespace ScriptFront

open Walker

-- What a reading comes to is told by the rules; nothing is to be run to find out.
attribute [local irreducible] Ends

/-! ## Characters -/

/-- One character other than a single quotation mark, a backslash and a newline, or a backslash and
one ASCII character, whichever it is. -/
inductive CharacterText : String → Prop where
  | plain {c : Char} (hquote : c ≠ '\'') (hescape : c ≠ '\\') (hline : c ≠ '\n') :
    CharacterText (String.ofList [c])
  | escaped {c : Char} (hascii : c.toNat < 128) : CharacterText (String.ofList ['\\', c])

theorem Utf8.width_ofNat {n : Nat} (hn : n < 256) : Utf8.width (UInt8.ofNat n) =
    if 192 ≤ n ∧ n ≤ 223 then 2 else if 224 ≤ n ∧ n ≤ 239 then 3
    else if 240 ≤ n ∧ n ≤ 247 then 4 else 1 := by
  simp only [Utf8.width, Bool.and_eq_true, decide_eq_true_eq, UInt8.le_iff_toNat_le,
    UInt8.toNat_ofNat_of_lt' hn]
  rfl

/-- The first byte of a character tells how many bytes it has. -/
theorem Utf8.width_lead (c : Char) : ∃ lead more, String.utf8EncodeChar c = lead :: more ∧
    Utf8.width lead = more.length + 1 := by
  have hsize := c.utf8Size_le_four
  unfold String.utf8EncodeChar
  dsimp only
  split
  · refine ⟨_, _, rfl, ?_⟩
    rw [Utf8.width_ofNat (by omega), if_neg (by omega), if_neg (by omega), if_neg (by omega)]
    rfl
  · split
    · refine ⟨_, _, rfl, ?_⟩
      rw [Utf8.width_ofNat (by omega), if_pos (by omega)]
      rfl
    · split
      · refine ⟨_, _, rfl, ?_⟩
        rw [Utf8.width_ofNat (by omega), if_neg (by omega), if_pos (by omega)]
        rfl
      · refine ⟨_, _, rfl, ?_⟩
        rw [Utf8.width_ofNat (by omega), if_neg (by omega), if_neg (by omega), if_pos (by omega)]
        rfl

theorem toNat_lt_of_length {c : Char} (h : (String.utf8EncodeChar c).length = 1) :
    c.toNat < 128 := by
  rw [String.length_utf8EncodeChar, Char.utf8Size_eq_one_iff] at h
  exact Nat.lt_succ_of_le (UInt32.le_iff_toNat_le.1 h)

/-- A character that begins with an ASCII byte is this byte. -/
theorem char_of_lead {c : Char} {lead : UInt8} {more : List UInt8}
    (h : String.utf8EncodeChar c = lead :: more) (hlead : lead < 128) :
    more = [] ∧ c = Char.ofNat lead.toNat := by
  have hone : c.utf8Size = 1 := by
    have hpos := c.utf8Size_pos
    by_contra hne
    have hlong : 1 < c.utf8Size := by omega
    have hmem : lead ∈ String.utf8EncodeChar c := h ▸ List.mem_cons_self
    exact UInt8.not_lt.2 (le_of_mem_utf8EncodeChar hlong hmem) hlead
  have hascii := toNat_lt_of_length ((String.length_utf8EncodeChar c).trans hone)
  rw [utf8EncodeChar_ascii hascii] at h
  obtain ⟨rfl, rfl⟩ := List.cons.inj h
  refine ⟨rfl, ?_⟩
  rw [UInt8.toNat_ofNat_of_lt' (Nat.lt_trans hascii (by decide)), Char.ofNat_toNat]

theorem charBytes_eq_nil (chars : List Char) (h : (charBytes chars).length = 0) : chars = [] := by
  cases chars with
  | nil => rfl
  | cons c chars =>
    have hpos := c.utf8Size_pos
    rw [charBytes_cons, List.length_append, String.length_utf8EncodeChar] at h
    omega

/-- What the scanner asks of the bytes is that they are such a text. -/
theorem isCharacter_iff (text : String) : IsCharacter text ↔ CharacterText text := by
  have hcons (c : Char) (chars : List Char) {lead : UInt8} {more : List UInt8}
      (hbytes : String.utf8EncodeChar c = lead :: more) :
      isCharacterBody (charBytes (c :: chars)) ↔ (lead ≠ Lexer.quote ∧ lead ≠ newline) ∧
        (more ++ charBytes chars).length + 1 =
          if lead = Lexer.backslash then 2 else Utf8.width lead := by
    rw [charBytes_cons, hbytes, List.cons_append, isCharacterBody]
    simp only [ne_eq, Bool.and_eq_true, decide_eq_true_eq]
  constructor
  · intro h
    rw [IsCharacter, textBytes_eq] at h
    rw [← String.ofList_toList (s := text)]
    generalize text.toList = chars at h ⊢
    cases chars with
    | nil => exact absurd h Bool.false_ne_true
    | cons c chars =>
      obtain ⟨lead, more, hbytes, hwidth⟩ := Utf8.width_lead c
      obtain ⟨⟨hquote, hline⟩, hlength⟩ := (hcons c chars hbytes).1 h
      rw [List.length_append] at hlength
      by_cases hescape : lead = Lexer.backslash
      · subst hescape
        obtain ⟨rfl, rfl⟩ := char_of_lead hbytes (by decide)
        rw [if_pos rfl, List.length_nil] at hlength
        cases chars with
        | nil => cases hlength
        | cons d others =>
          have hpos := d.utf8Size_pos
          rw [← String.length_utf8EncodeChar] at hpos
          rw [charBytes_cons, List.length_append] at hlength
          obtain rfl := charBytes_eq_nil others (by omega)
          exact .escaped (toNat_lt_of_length (by omega))
      · rw [if_neg hescape, hwidth] at hlength
        obtain rfl := charBytes_eq_nil chars (by omega)
        -- The first byte of each of the three characters is not the one that it has.
        have hne {d : Char} {b : UInt8} (hd : String.utf8EncodeChar d = [b])
            (hb : lead ≠ b) : c ≠ d := by
          rintro rfl
          rw [hd] at hbytes
          exact hb (List.cons.inj hbytes).1.symm
        exact .plain (hne rfl hquote) (hne rfl hescape) (hne rfl hline)
  · intro h
    rw [IsCharacter, textBytes_eq]
    cases h with
    | @plain c hquote hescape hline =>
      obtain ⟨lead, more, hbytes, hwidth⟩ := Utf8.width_lead c
      have hne (b : UInt8) (hb : b < 128) (hc : c ≠ Char.ofNat b.toNat) : lead ≠ b := by
        rintro rfl
        exact hc (char_of_lead hbytes hb).2
      rw [String.toList_ofList, hcons c [] hbytes, if_neg (hne Lexer.backslash (by decide) hescape),
        hwidth]
      exact ⟨⟨hne Lexer.quote (by decide) hquote, hne newline (by decide) hline⟩, by simp⟩
    | @escaped c hascii =>
      have hbytes : String.utf8EncodeChar '\\' = [Lexer.backslash] := by decide
      rw [String.toList_ofList, hcons '\\' [c] hbytes, if_pos rfl, charBytes_cons,
        utf8EncodeChar_ascii hascii]
      exact ⟨by decide, rfl⟩

/-- The characters in front of a text: they stand between single quotation marks. -/
inductive CharacterLiteral (x : List UInt8) : String → List UInt8 → Prop where
  | enclosed {text : String} {rest : List UInt8} (htext : CharacterText text)
    (hx : x = [Lexer.quote] ++ textBytes text ++ [Lexer.quote] ++ rest) :
    CharacterLiteral x text ([Lexer.quote] ++ textBytes text ++ [Lexer.quote])

/-! ## Strings -/

/-- What may stand between quotation marks on one line: a backslash takes the byte behind it along,
whichever it is. -/
inductive LineBody : List UInt8 → Prop where
  | nil : LineBody []
  | plain {b : UInt8} {bytes : List UInt8} (hline : b ≠ newline) (hquote : b ≠ Lexer.doubleQuote)
    (hescape : b ≠ Lexer.backslash) (hmore : LineBody bytes) : LineBody (b :: bytes)
  | escaped {b : UInt8} {bytes : List UInt8} (hmore : LineBody bytes) :
    LineBody (Lexer.backslash :: b :: bytes)

/-- The strings in front of a text. Three quotation marks open one that the first three behind them
close. -/
inductive StringLiteral (x : List UInt8) : String → List UInt8 → Prop where
  | raw {text : String} {rest : List UInt8}
    (hx : x = tripleQuote ++ textBytes text ++ tripleQuote ++ rest)
    (hfirst : ∀ front back, x = tripleQuote ++ front ++ tripleQuote ++ back →
      (textBytes text).length ≤ front.length) :
    StringLiteral x text (tripleQuote ++ textBytes text ++ tripleQuote)
  | line {text : String} {rest : List UInt8} (hopen : ¬tripleQuote <+: x)
    (hx : x = [Lexer.doubleQuote] ++ textBytes text ++ [Lexer.doubleQuote] ++ rest)
    (hbody : LineBody (textBytes text)) :
    StringLiteral x text ([Lexer.doubleQuote] ++ textBytes text ++ [Lexer.doubleQuote])

theorem isLineBody_iff (bytes : List UInt8) : isLineBody bytes ↔ LineBody bytes := by
  constructor
  · intro h
    induction bytes using isLineBody.induct with
    | case1 => exact .nil
    | case2 b =>
      simp only [isLineBody, ne_eq, Bool.and_eq_true, decide_eq_true_eq] at h
      exact .plain h.1.1 h.1.2 h.2 .nil
    | case3 b bytes ih =>
      rw [isLineBody, if_pos rfl] at h
      exact .escaped (ih h)
    | case4 b c bytes hescape ih =>
      rw [isLineBody, if_neg hescape] at h
      simp only [ne_eq, Bool.and_eq_true, decide_eq_true_eq] at h
      exact .plain h.1.1 h.1.2 hescape (ih h.2)
  · intro h
    induction h with
    | nil => rfl
    | plain hline hquote hescape hmore ih => exact Ends.isLineBody_cons hline hquote hescape ih
    | escaped hmore ih =>
      rw [isLineBody, if_pos rfl]
      exact ih

/-- A body can stand between triple quotation marks if these do not appear earlier. -/
theorem isRawBody_iff (body rest : List UInt8) : isRawBody body ↔ ∀ front back,
    body ++ tripleQuote ++ rest = front ++ tripleQuote ++ back → body.length ≤ front.length := by
  induction body with
  | nil => exact ⟨fun _ _ _ _ => Nat.zero_le _, fun _ => rfl⟩
  | cons b bytes ih =>
    rw [isRawBody, Bool.and_eq_true, ih, Bool.not_eq_true', Bool.eq_false_iff,
      ← Ends.isPrefixOf_append_tripleQuote _ rest, ne_eq, List.isPrefixOf_iff_prefix]
    constructor
    · rintro ⟨hopen, hmore⟩ front back heq
      cases front with
      | nil =>
        rw [List.nil_append] at heq
        exact absurd ⟨back, heq.symm⟩ hopen
      | cons c front =>
        obtain ⟨-, htail⟩ := List.cons.inj heq
        exact Nat.succ_le_succ (hmore front back htail)
    · intro hall
      constructor
      · rintro ⟨back, hback⟩
        exact absurd (hall [] back hback.symm) (Nat.not_succ_le_zero _)
      · intro front back heq
        exact Nat.le_of_succ_le_succ (hall (b :: front) back (congrArg (b :: ·) heq))

/-- The scanner's way to say where a string ends is that of the grammar. -/
theorem stringLiteral_iff {x slice : List UInt8} {text : String} : StringLiteral x text slice ↔
    ∃ mark rest, x = mark ++ textBytes text ++ mark ++ rest ∧
      slice = mark ++ textBytes text ++ mark ∧ Encloses mark (textBytes text) rest := by
  constructor
  · intro h
    cases h with
    | @raw rest hx hfirst =>
      refine ⟨tripleQuote, rest, hx, rfl, .inr ⟨rfl, (isRawBody_iff _ rest).2 ?_⟩⟩
      intro front back heq
      refine hfirst front back ?_
      simpa only [hx, List.append_assoc, List.append_cancel_left_eq] using heq
    | @line rest hopen hx hbody =>
      refine ⟨_, rest, hx, rfl, .inl ⟨rfl, (isLineBody_iff _).2 hbody, ?_⟩⟩
      intro hnone hthird
      obtain ⟨more, rfl⟩ := exists_of_getD hthird (by decide)
      rw [hnone] at hx
      exact hopen ⟨more, hx.symm⟩
  · rintro ⟨mark, rest, hx, rfl, ⟨rfl, hline, hnext⟩ | ⟨rfl, hraw⟩⟩
    · have hbody := (isLineBody_iff _).1 hline
      refine .line ?_ hx hbody
      rintro ⟨more, hmore⟩
      rw [hx] at hmore
      -- The second of three marks would be in the body.
      generalize textBytes text = body at *
      cases hbody with
      | nil =>
        have hrest : rest = Lexer.doubleQuote :: more :=
          (List.cons.inj (List.cons.inj hmore).2).2.symm
        exact hnext rfl (by rw [hrest]; rfl)
      | plain hline hquote => exact hquote (List.cons.inj (List.cons.inj hmore).2).1.symm
      | escaped => exact absurd (List.cons.inj (List.cons.inj hmore).2).1 (by decide)
    · refine .raw hx ?_
      intro front back heq
      refine (isRawBody_iff _ rest).1 hraw front back ?_
      rw [hx] at heq
      simpa only [List.append_assoc, List.append_cancel_left_eq] using heq

/-! ## What the scanners take -/

/-- From `w` on, a scanner takes the bytes `slice` for the lexeme. -/
def Accepts (x : Scan Buffer (TokenKind × String)) (w : Walker Buffer) (lexeme : TokenKind × String)
    (slice : List UInt8) : Prop :=
  ∃ v, x.run w = (.ok lexeme, v) ∧ w.Passes slice v

/-- From `w` on, a scanner stops at this fault. -/
def Refuses (x : Scan Buffer (TokenKind × String)) (w : Walker Buffer) (fault : LexFault) : Prop :=
  ∃ v, x.run w = (.error fault, v)

/-- From `w` on, a scanner takes exactly what is accepted, and stops exactly if something is
refused, at the one fault that it has. -/
structure Decides (x : Scan Buffer (TokenKind × String)) (w : Walker Buffer) (fault : LexFault)
    (accepted : TokenKind × String → List UInt8 → Prop) (refused : Prop) : Prop where
  accepts (lexeme : TokenKind × String) (slice : List UInt8) :
    Accepts x w lexeme slice ↔ accepted lexeme slice
  refuses : Refuses x w fault ↔ refused
  faults {e : LexFault} (h : Refuses x w e) : e = fault

/-- The numbers in front of a text: the longest one, if there is none that is malformed. -/
structure LongestNumeral (x : List UInt8) (lexeme : TokenKind × String) (slice : List UInt8) :
    Prop where
  numeral : Numeral lexeme.1 lexeme.2 slice
  front : slice <+: x
  longest : ∀ kind text slice', Numeral kind text slice' → slice' <+: x →
    slice'.length ≤ slice.length
  wellFormed : ¬MalformedNumber x
  /-- Behind a radix mark, it is a number of this radix. -/
  marked : ∀ form : IntegerForm, form.radix ≠ 10 → ∀ mark ∈ form.marks, textBytes mark <+: x →
    lexeme.1 = .integer form
  /-- Where a point follows the digits, it is a real. -/
  pointed : ∀ digits : List UInt8, (∀ b ∈ digits, isDigit b) → digits ++ [byteOf '.'] <+: x →
    ∃ form, lexeme.1 = .real form

theorem NumberRead.longestNumeral {kind : TokenKind} {text : String} {slice rest : List UInt8}
    (h : NumberRead kind text slice rest) : LongestNumeral (slice ++ rest) (kind, text) slice where
  numeral := h.numeral
  front := List.prefix_append _ _
  longest _ _ _ := h.longest
  wellFormed := h.wellFormed
  marked _ hradix _ hmark := h.kind_of_mark hradix hmark
  pointed _ := h.kind_of_point

section Deciding

variable {x : Scan Buffer (TokenKind × String)} {w : Walker Buffer} {fault : LexFault}
  {accepted : TokenKind × String → List UInt8 → Prop} {refused : Prop}

/-- It is enough to tell both ends of a scanner, if one thing at most is accepted and nothing is
where something is refused. -/
theorem decides_of_ends (hends : Ends (fun e _ => e = fault ∧ refused) x w
      (fun lexeme v => ∃ slice, w.Passes slice v ∧ accepted lexeme slice))
    (hunique : ∀ {lexeme lexeme' slice slice'}, accepted lexeme slice → accepted lexeme' slice' →
      lexeme = lexeme' ∧ slice = slice')
    (hrefused : refused → ∀ lexeme slice, ¬accepted lexeme slice) :
    Decides x w fault accepted refused := by
  rw [Ends] at hends
  rcases hrun : x.run w with ⟨e | lexeme, v⟩
  · rw [hrun] at hends
    obtain ⟨rfl, hstopped⟩ := hends
    constructor
    case accepts =>
      intro lexeme slice
      constructor
      · rintro ⟨u, hrun', -⟩
        rw [hrun] at hrun'
        cases hrun'
      · exact fun h => absurd h (hrefused hstopped lexeme slice)
    case refuses => exact ⟨fun _ => hstopped, fun _ => ⟨v, hrun⟩⟩
    case faults =>
      rintro e' ⟨u, hrun'⟩
      rw [hrun] at hrun'
      cases hrun'
      rfl
  · rw [hrun] at hends
    obtain ⟨slice, hv, htaken⟩ := hends
    have hgoes {e : LexFault} : ¬Refuses x w e := by
      rintro ⟨u, hrun'⟩
      rw [hrun] at hrun'
      cases hrun'
    constructor
    case accepts =>
      intro lexeme' slice'
      constructor
      · rintro ⟨u, hrun', hu⟩
        rw [hrun] at hrun'
        cases hrun'
        rw [List.append_cancel_right (hu.rest_eq.symm.trans hv.rest_eq)]
        exact htaken
      · intro h
        obtain ⟨rfl, rfl⟩ := hunique htaken h
        exact ⟨v, hrun, hv⟩
    case refuses =>
      exact ⟨fun h => absurd h hgoes, fun h => absurd htaken (hrefused h lexeme slice)⟩
    case faults => exact fun h => absurd h hgoes

/-- A scanner that takes what is written in some way, and nothing else, stops where nothing is. -/
theorem decides_of_takes {kind : TokenKind} {written : String → List UInt8 → Prop}
    (hends : Ends (Fails fault w) x w
      (fun lexeme v => ∃ slice, w.Passes slice v ∧ lexeme.1 = kind ∧ written lexeme.2 slice))
    (hfront : ∀ {text slice}, written text slice → slice <+: w.rest)
    (htakes : ∀ {text slice}, written text slice → Takes x w slice.length (kind, text)) :
    Decides x w fault (fun lexeme slice => lexeme.1 = kind ∧ written lexeme.2 slice)
      (¬∃ text slice, written text slice) := by
  refine decides_of_ends ?_ ?_ fun hnone _ _ h => hnone ⟨_, _, h.2⟩
  · rw [Ends] at hends ⊢
    rcases hrun : x.run w with ⟨e | lexeme, v⟩
    · rw [hrun] at hends
      refine ⟨hends.1, ?_⟩
      rintro ⟨text, slice, h⟩
      obtain ⟨u, hrun', -⟩ := htakes h
      rw [hrun] at hrun'
      cases hrun'
    · rw [hrun] at hends
      exact hends
  · rintro ⟨_, text⟩ ⟨_, text'⟩ slice slice' ⟨rfl, h⟩ ⟨rfl, h'⟩
    obtain ⟨v, hrun, hv⟩ := htakes h
    obtain ⟨v', hrun', hv'⟩ := htakes h'
    rw [hrun] at hrun'
    cases hrun'
    have hlength : slice.length = slice'.length :=
      Nat.add_left_cancel (hv.position_eq.symm.trans hv'.position_eq)
    refine ⟨rfl, ?_⟩
    exact (List.prefix_of_prefix_length_le (hfront h) (hfront h')
      (Nat.le_of_eq hlength)).eq_of_length hlength

end Deciding

namespace Lexer

variable {w : Walker Buffer} {tail : List UInt8}

/-- The scanner of numbers takes the longest number, and stops at what is malformed. -/
theorem decides_number {first : UInt8} (hrest : w.rest = first :: tail) (hfirst : isDigit first) :
    Decides Lexer.number w .malformedNumber (LongestNumeral w.rest) (MalformedNumber w.rest) := by
  refine decides_of_ends ?_ ?_ fun hmalformed _ _ h => h.wellFormed hmalformed
  · refine ((Ends.numberRead hrest hfirst).monoError fun e v h => ⟨h.1, h.2.2⟩).mono ?_
    rintro lexeme v ⟨slice, hv, h⟩
    refine ⟨slice, hv, ?_⟩
    rw [hv.rest_eq]
    exact h.longestNumeral
  · intro lexeme lexeme' slice slice' h h'
    have hle := h.longest _ _ _ h'.numeral h'.front
    have hle' := h'.longest _ _ _ h.numeral h.front
    obtain rfl : slice = slice' :=
      (List.prefix_of_prefix_length_le h.front h'.front hle').eq_of_length (by omega)
    obtain ⟨hkind, htext⟩ := h'.numeral.unique h.numeral
    exact ⟨Prod.ext hkind htext, rfl⟩

/-- The scanner of characters takes the character that stands in front. -/
theorem decides_character (hrest : w.rest = quote :: tail) :
    Decides characterLiteral w .malformedCharacter
      (fun lexeme slice => lexeme.1 = .character ∧ CharacterLiteral w.rest lexeme.2 slice)
      (¬∃ text slice, CharacterLiteral w.rest text slice) := by
  refine decides_of_takes ((Ends.enclosedCharacter hrest).mono ?_) ?_ ?_
  · rintro _ v ⟨text, rfl, htext, hv⟩
    exact ⟨_, hv, rfl, .enclosed ((isCharacter_iff text).1 htext) hv.rest_eq⟩
  · rintro text _ ⟨htext, hx⟩
    rw [hx]
    exact List.prefix_append _ _
  · rintro text _ ⟨htext, hx⟩
    have hbytes : [quote] ++ textBytes text ++ [quote] = (Lexeme.mk .character text).bytes :=
      (Takes.bytes_character text).symm
    rw [hbytes] at hx ⊢
    exact Takes.character ((isCharacter_iff text).2 htext) hx

/-- The scanner of strings takes the string that stands in front. -/
theorem decides_string (hrest : w.rest = doubleQuote :: tail) :
    Decides stringLiteral w .malformedString
      (fun lexeme slice => lexeme.1 = .string ∧ StringLiteral w.rest lexeme.2 slice)
      (¬∃ text slice, StringLiteral w.rest text slice) := by
  refine decides_of_takes ((Ends.enclosedText hrest).mono ?_) ?_ ?_
  · rintro _ v ⟨mark, text, rfl, hv, hmark⟩
    exact ⟨_, hv, rfl, stringLiteral_iff.2 ⟨mark, v.rest, hv.rest_eq, rfl, hmark⟩⟩
  · intro text slice h
    obtain ⟨mark, rest, hx, rfl, -⟩ := stringLiteral_iff.1 h
    rw [hx]
    exact List.prefix_append _ _
  · intro text slice h
    obtain ⟨mark, rest, hx, rfl, hmark⟩ := stringLiteral_iff.1 h
    exact Takes.stringLiteral hmark hx

/-- Each scanner of literals takes exactly its literals, whatever stands behind them: the longest
number, if what stands there is not malformed, the character or the string. Where there is none it
stops at its own fault. -/
theorem literals_exact (w : Walker Buffer) :
    (∀ first tail, w.rest = first :: tail → isDigit first →
      Decides number w .malformedNumber (LongestNumeral w.rest) (MalformedNumber w.rest)) ∧
    (∀ tail, w.rest = quote :: tail →
      Decides characterLiteral w .malformedCharacter
        (fun lexeme slice => lexeme.1 = .character ∧ CharacterLiteral w.rest lexeme.2 slice)
        (¬∃ text slice, CharacterLiteral w.rest text slice)) ∧
    (∀ tail, w.rest = doubleQuote :: tail →
      Decides stringLiteral w .malformedString
        (fun lexeme slice => lexeme.1 = .string ∧ StringLiteral w.rest lexeme.2 slice)
        (¬∃ text slice, StringLiteral w.rest text slice)) :=
  ⟨fun _ _ hrest hfirst => decides_number hrest hfirst, fun _ hrest => decides_character hrest,
    fun _ hrest => decides_string hrest⟩

/-- A walker over a few bytes. -/
def walkerOf (bytes : List UInt8) : Walker Buffer := Walker.ofSource (Buffer.ofBytes bytes.toArray)

/-- `0xg` is no number, `'\'` is a character, and `"\""` is a string. -/
theorem literals_exact_marks :
    Refuses number (walkerOf [48, 120, 103]) .malformedNumber ∧
      Accepts characterLiteral (walkerOf [39, 92, 39, 39, 59]) (.character, "\\'")
        [39, 92, 39, 39] ∧
      Accepts stringLiteral (walkerOf [34, 92, 34, 34, 59]) (.string, "\\\"") [34, 92, 34, 34] := by
  refine ⟨?_, ?_, ?_⟩
  · refine ((literals_exact (walkerOf [48, 120, 103])).1 _ _ rfl (by decide)).refuses.2 ?_
    have hx : (walkerOf [48, 120, 103]).rest = textBytes "0x" ++ [103] := by decide
    rw [hx]
    exact .bare (by decide : IntegerForm.hex.radix ≠ 10) (by decide) rfl
  · refine (((literals_exact (walkerOf [39, 92, 39, 39, 59])).2.1 _ rfl).accepts _ _).2 ⟨rfl, ?_⟩
    have hbytes : [39, 92, 39, 39] = [quote] ++ textBytes "\\'" ++ [quote] := by decide
    rw [hbytes]
    exact .enclosed (.escaped (by decide)) (show _ = _ ++ [59] by decide)
  · refine (((literals_exact (walkerOf [34, 92, 34, 34, 59])).2.2 _ rfl).accepts _ _).2 ⟨rfl, ?_⟩
    have htext : textBytes "\\\"" = [92, 34] := by decide
    have hbytes : [34, 92, 34, 34] = [doubleQuote] ++ textBytes "\\\"" ++ [doubleQuote] := by
      rw [htext]
      decide
    rw [hbytes]
    refine .line (by decide) (show _ = _ ++ [59] by decide) ?_
    rw [htext]
    exact .escaped .nil

end Lexer

end ScriptFront
