import ScriptFront.Proofs.Lexing.Numbers

/-!
# What scanners take

Whatever stands at the current byte, a scanner passes the bytes of a token that they spell, or stops
at a fault of the kind that the first byte tells.

- `Ends.word`, `Ends.number`, …: one scanner after the other.
- `Ends.scan`: the lexeme at the current byte.
-/

namespace ScriptFront

open Walker

-- What a reading comes to is told by the rules; nothing is to be run to find out.
attribute [local irreducible] Ends

/-- A scanner that began at `w` stopped at this fault, somewhere in the text. -/
def Fails (fault : LexFault) (w : Walker Buffer) (e : LexFault) (v : Walker Buffer) : Prop :=
  e = fault ∧ w.SameText v

/-- A scanner that began at `w` stopped at a fault of what stood there. -/
def Stuck (w : Walker Buffer) (e : LexFault) (v : Walker Buffer) : Prop :=
  e.At w.rest ∧ w.SameText v

/-- From `w` on, a scanner took the bytes of a token. -/
def Lexed (w : Walker Buffer) (lexeme : TokenKind × String) (v : Walker Buffer) : Prop :=
  ∃ slice, w.Passes slice v ∧ Spells lexeme.1 lexeme.2 slice v.rest

theorem Fails.from {fault e : LexFault} {w v u : Walker Buffer} (h : Fails fault v e u)
    (hv : w.SameText v) : Fails fault w e u := ⟨h.1, hv.trans h.2⟩

namespace Ends

variable {w : Walker Buffer}

/-! ## Words -/

theorem word {first : UInt8} {tail : List UInt8} (hrest : w.rest = first :: tail)
    (hfirst : isLetter first) : Ends (Stuck w) Lexer.word w (Lexed w) := by
  refine takeWhile rfl ?_
  intro bytes v hv hbytes hapart
  have hword : isWordByte first := by simp [isWordByte, hfirst]
  -- The first byte is a letter, so the run is not empty and begins with it.
  obtain ⟨more, rfl⟩ : ∃ more, bytes = first :: more := by
    have hsplit := hv.rest_eq
    rw [hrest] at hsplit
    cases bytes with
    | nil =>
      rw [List.nil_append] at hsplit
      rw [Apart, ← hsplit] at hapart
      exact absurd hword (Bool.eq_false_iff.1 hapart)
    | cons b more =>
      rw [List.cons_append] at hsplit
      obtain ⟨rfl, -⟩ := List.cons.inj hsplit
      exact ⟨more, rfl⟩
  have htext : textBytes (asciiText (first :: more)) = first :: more :=
    textBytes_asciiText fun b hb => lt_of_isWordByte (hbytes b hb)
  dsimp only
  rw [Keyword.lookup?_eq]
  cases hk : Keyword.ofSpelling? (asciiText (first :: more)) with
  | some k =>
    have hspelling := Keyword.ofSpelling?_eq_some.1 hk
    refine pure ⟨first :: more, hv, ?_⟩
    constructor
    case wellFormed =>
      rw [← hspelling]
      exact .word k
    case written => exact htext.symm
    case unreserved =>
      intro h
      cases h
    case reserved =>
      intro k' h
      injection h with h
      rw [← h]
      exact hspelling
    case whole => exact fun _ => hapart
    case longest =>
      intro s h
      cases h
  | none =>
    refine pure ⟨first :: more, hv, ?_⟩
    constructor
    case wellFormed =>
      refine .name ⟨first, more, rfl, hfirst, ?_, hk⟩
      intro b hb
      exact hbytes b (List.mem_cons_of_mem _ hb)
    case written => exact htext.symm
    case unreserved => exact fun _ => Keyword.ofSpelling?_eq_none.1 hk
    case reserved =>
      intro k h
      cases h
    case whole => exact fun _ => hapart
    case longest =>
      intro s h
      cases h

/-! ## Numbers -/

/-- A lexeme that is neither a word nor a symbol. -/
theorem spells_of_written {kind : TokenKind} {text : String} {slice rest : List UInt8}
    (hkind : (∃ form, kind = .integer form) ∨ (∃ form, kind = .real form) ∨ kind = .character ∨
      kind = .string)
    (hwell : Lexeme.WellFormed ⟨kind, text⟩) (hwrites : Writes kind text slice) :
    Spells kind text slice rest := by
  rcases hkind with ⟨form, rfl⟩ | ⟨form, rfl⟩ | rfl | rfl <;>
    exact ⟨hwell, hwrites, nofun, nofun, by simp, nofun⟩

/-- Decimal digits are ASCII. -/
theorem ascii_of_digits {bytes : List UInt8} (h : ∀ b ∈ bytes, isDigit b) : ∀ b ∈ bytes, b < 128 :=
  fun b hb => lt_of_isDigit (show IntegerForm.i32.isDigit b from h b hb)

theorem ascii_of_real {whole fraction : List UInt8} (hwhole : ∀ b ∈ whole, isDigit b)
    (hfraction : ∀ b ∈ fraction, isDigit b) : ∀ b ∈ whole ++ byteOf '.' :: fraction, b < 128 := by
  intro b hb
  rcases List.mem_append.1 hb with hb | hb
  · exact ascii_of_digits hwhole b hb
  · rcases List.mem_cons.1 hb with rfl | hb
    · decide
    · exact ascii_of_digits hfraction b hb

/-- A number spells itself. -/
theorem spells_of_numeral {kind : TokenKind} {text : String} {slice rest : List UInt8}
    (h : Numeral kind text slice) : Spells kind text slice rest := by
  have hnone : textBytes "" = [] := by decide
  cases h with
  | @marked form mark digits hradix hmark hne hdigits =>
    refine spells_of_written (.inl ⟨form, rfl⟩) (.integer ⟨digits, hne, rfl, hdigits⟩) ?_
    refine ⟨mark, hmark, "", ?_, ?_⟩
    · cases form with
      | hex | bin => decide
      | _ => exact absurd rfl hradix
    · rw [textBytes_asciiText fun b hb => lt_of_isDigit (hdigits b hb), hnone, List.append_nil]
  | @integer form size digits hradix hsize hne hdigits =>
    have hclass : ∀ b ∈ digits, form.isDigit b := by
      intro b hb
      have hdigit := hdigits b hb
      cases form with
      | hex | bin => nomatch hradix
      | _ => exact hdigit
    refine spells_of_written (.inl ⟨form, rfl⟩) (.integer ⟨digits, hne, rfl, hclass⟩) ?_
    refine ⟨"", ?_, size, hsize, ?_⟩
    · cases form with
      | hex | bin => nomatch hradix
      | _ => decide
    · rw [textBytes_asciiText (ascii_of_digits hdigits), hnone, List.nil_append]
  | @real form size whole fraction hsize hne hwhole hfraction =>
    have hreal : IsReal (asciiText (whole ++ byteOf '.' :: fraction)) :=
      ⟨whole, fraction, hne, rfl, hwhole, hfraction⟩
    refine spells_of_written (.inr (.inl ⟨form, rfl⟩)) (.real hreal) ⟨size, hsize, ?_⟩
    rw [textBytes_asciiText (ascii_of_real hwhole hfraction), List.append_assoc]
    rfl

/-- What has been written as a number is one of the numbers. -/
theorem numeral_of_spells {kind : TokenKind} {text : String} {slice rest : List UInt8}
    (h : Spells kind text slice rest)
    (hkind : (∃ form, kind = .integer form) ∨ ∃ form, kind = .real form) :
    Numeral kind text slice := by
  have hnone : textBytes "" = [] := by decide
  have hwell := h.wellFormed
  have hwritten := h.written
  rcases hkind with ⟨form, rfl⟩ | ⟨form, rfl⟩
  · obtain ⟨mark, hmark, size, hsize, rfl⟩ := hwritten
    cases hwell with
    | integer hdigits =>
      obtain ⟨digits, hne, rfl, hdigits⟩ := hdigits
      rw [textBytes_asciiText fun b hb => lt_of_isDigit (hdigits b hb)]
      by_cases hradix : form.radix = 10
      · have hunmarked : ∀ form : IntegerForm, form.radix = 10 → ∀ mark ∈ form.marks, mark = "" ∧
            form.isDigit = isDigit := by
          intro form
          cases form <;> simp [IntegerForm.radix, IntegerForm.marks] <;> rfl
        obtain ⟨rfl, hclass⟩ := hunmarked form hradix mark hmark
        rw [hnone, List.nil_append]
        exact .integer hradix hsize hne (hclass ▸ hdigits)
      · have hunsized : ∀ form : IntegerForm, form.radix ≠ 10 →
            ∀ size ∈ form.suffixes, size = "" := by
          intro form
          cases form <;> decide
        rw [hunsized form hradix size hsize, hnone, List.append_nil]
        exact .marked hradix hmark hne hdigits
  · obtain ⟨size, hsize, rfl⟩ := hwritten
    cases hwell with
    | real hdigits =>
      obtain ⟨whole, fraction, hne, rfl, hwhole, hfraction⟩ := hdigits
      rw [textBytes_asciiText (ascii_of_real hwhole hfraction), List.append_assoc]
      exact .real hsize hne hwhole hfraction

theorem number {first : UInt8} {tail : List UInt8} (hrest : w.rest = first :: tail)
    (hfirst : isDigit first) : Ends (Fails .malformedNumber w) Lexer.number w (Lexed w) := by
  refine ((numberRead hrest hfirst).monoError fun e v h => ⟨h.1, h.2.1⟩).mono ?_
  rintro lexeme v ⟨slice, hv, hread⟩
  exact ⟨slice, hv, spells_of_numeral hread.numeral⟩

/-! ## Characters and strings -/

section Quoted

variable {fault : LexFault}

theorem takeByte (taken : Bytes) :
    Ends (Fails fault w) (Lexer.takeByte fault taken) w
      (fun bytes v => ∃ b, bytes = taken.push b ∧ w.Passes [b] v) := by
  unfold Lexer.takeByte
  refine ifAtEnd ?_ ?_
  · intro _
    exact throw ⟨rfl, .refl w⟩
  · intro b tail hrest
    refine bump hrest ?_
    intro v hv
    exact pure ⟨b, rfl, hv⟩

theorem takeBytes (count : Nat) (taken : Bytes) :
    Ends (Fails fault w) (Lexer.takeBytes fault count taken) w
      (fun bytes v => ∃ more, bytes = taken ++ more.toArray ∧ more.length = count ∧
        w.Passes more v) := by
  induction count generalizing w taken with
  | zero => exact pure ⟨[], by simp, rfl, .refl w⟩
  | succ count ih =>
    refine Ends.bind (takeByte taken) ?_
    rintro _ v ⟨b, rfl, hv⟩
    refine ((ih (taken.push b)).monoError fun e u h => h.from hv.toSameText).mono ?_
    rintro _ u ⟨more, rfl, hlength, hu⟩
    refine ⟨b :: more, by simp, ?_, hv.trans hu⟩
    rw [List.length_cons, hlength]

/-- The text of well-formed bytes has these bytes. -/
theorem textBytes_of_decode? {body : Bytes} {text : String} (h : Utf8.decode? body = some text) :
    textBytes text = body.toList := by
  unfold Utf8.decode? String.fromUTF8? at h
  split at h
  · obtain rfl := Option.some.inj h
    rfl
  · nomatch h

theorem quotedText (body : Bytes) :
    Ends (Fails fault w) (Lexer.quotedText fault body) w
      (fun text v => v = w ∧ textBytes text = body.toList) := by
  unfold Lexer.quotedText
  split
  next text htext => exact pure ⟨rfl, textBytes_of_decode? htext⟩
  next => exact throw ⟨rfl, .refl w⟩

theorem enclosedCharacter {tail : List UInt8} (hrest : w.rest = Lexer.quote :: tail) :
    Ends (Fails .malformedCharacter w) Lexer.characterLiteral w (fun lexeme v =>
      ∃ text, lexeme = (.character, text) ∧ IsCharacter text ∧
        w.Passes ([Lexer.quote] ++ textBytes text ++ [Lexer.quote]) v) := by
  unfold Lexer.characterLiteral
  refine advance hrest ?_
  intro v hv
  refine ifAtEnd ?_ ?_
  · intro _
    exact throw ⟨rfl, hv.toSameText⟩
  intro lead tail' hlead
  refine current hlead (ite ?_ ?_)
  · intro _
    exact throw ⟨rfl, hv.toSameText⟩
  intro hnot
  simp only [Bool.or_eq_true, decide_eq_true_eq, not_or] at hnot
  refine Ends.bind ((takeBytes _ #[]).monoError fun e u h => h.from hv.toSameText) ?_
  rintro _ u ⟨body, rfl, hcount, hu⟩
  have hvu := hv.trans hu
  refine ifAtEnd ?_ ?_
  · intro _
    exact throw ⟨rfl, hvu.toSameText⟩
  intro b tail'' hclose
  refine current hclose (ite ?_ ?_)
  · rintro rfl
    refine advance hclose ?_
    intro t ht
    have htext : ∀ e s, Fails .malformedCharacter t e s → Fails .malformedCharacter w e s :=
      fun e s h => h.from (hvu.trans ht).toSameText
    refine Ends.bind ((quotedText _).monoError htext) ?_
    rintro text s ⟨rfl, hbody⟩
    have hbody' : textBytes text = body := by
      rw [hbody]
      simp
    refine pure ⟨text, rfl, ?_, ?_⟩
    · -- The body begins with the byte that said how long it is.
      unfold IsCharacter
      rw [hbody']
      cases body with
      | nil =>
        exfalso
        have hpos : 0 < if lead = Lexer.backslash then 2 else Utf8.width lead := by
          unfold Utf8.width
          split
          · decide
          · split
            · decide
            · split
              · decide
              · split <;> decide
        rw [← hcount] at hpos
        exact absurd hpos (Nat.lt_irrefl 0)
      | cons b more =>
        have hsplit := hu.rest_eq
        rw [hlead] at hsplit
        obtain ⟨rfl, -⟩ := List.cons.inj hsplit
        simp only [isCharacterBody, ne_eq, Bool.and_eq_true, decide_eq_true_eq]
        refine ⟨⟨?_, ?_⟩, ?_⟩
        · simpa using hnot.1
        · simpa using hnot.2
        · rw [← hcount, List.length_cons]
    · rw [hbody']
      exact hvu.trans ht
  · intro _
    exact throw ⟨rfl, hvu.toSameText⟩

theorem characterLiteral {tail : List UInt8} (hrest : w.rest = Lexer.quote :: tail) :
    Ends (Fails .malformedCharacter w) Lexer.characterLiteral w (Lexed w) := by
  refine (enclosedCharacter hrest).mono ?_
  rintro _ v ⟨text, rfl, htext, hv⟩
  exact ⟨_, hv, spells_of_written (.inr (.inr (.inl rfl))) (.character htext) rfl⟩

/-- An ordinary byte in front of the body of a string on one line. -/
theorem isLineBody_cons {b : UInt8} {bytes : List UInt8} (hline : b ≠ newline)
    (hquote : b ≠ Lexer.doubleQuote) (hescape : b ≠ Lexer.backslash) (h : isLineBody bytes) :
    isLineBody (b :: bytes) := by
  cases bytes with
  | nil => simp [isLineBody, hline, hquote, hescape]
  | cons c bytes => simp [isLineBody, hline, hquote, hescape, h]

theorem lineString {steps : Nat} (hsteps : w.rest.length < steps) (taken : Bytes) :
    Ends (Fails .malformedString w) (Lexer.lineString steps taken) w
      (fun bytes v => ∃ body : List UInt8, bytes = taken ++ body.toArray ∧ isLineBody body ∧
        w.Passes (body ++ [Lexer.doubleQuote]) v) := by
  induction steps generalizing w taken with
  | zero => exact absurd hsteps (Nat.not_lt_zero _)
  | succ steps ih =>
    unfold Lexer.lineString
    refine ifAtEnd ?_ ?_
    · intro _
      exact throw ⟨rfl, .refl w⟩
    intro b tail hrest
    refine current hrest (ite ?_ fun hline => ite ?_ fun hquote => ite ?_ fun hescape => ?_)
    · intro _
      exact throw ⟨rfl, .refl w⟩
    · rintro rfl
      refine advance hrest ?_
      intro v hv
      exact pure ⟨[], by simp, rfl, hv⟩
    · -- A backslash takes the next byte with it, whatever it is.
      rintro rfl
      refine Ends.bind (takeBytes 2 taken) ?_
      rintro _ v ⟨pair, rfl, hpair, hv⟩
      have hlength := hv.length_le
      have hmore : v.rest.length < steps := by omega
      refine ((ih hmore _).monoError fun e u h => h.from hv.toSameText).mono ?_
      rintro _ u ⟨body, rfl, hbody, hu⟩
      obtain ⟨first, second, rfl⟩ : ∃ first second, pair = [first, second] := by
        match pair, hpair with
        | [first, second], _ => exact ⟨first, second, rfl⟩
      have hsplit := hv.rest_eq
      rw [hrest] at hsplit
      obtain ⟨rfl, -⟩ := List.cons.inj hsplit
      refine ⟨Lexer.backslash :: second :: body, by simp, ?_, hv.trans hu⟩
      rw [isLineBody, if_pos rfl]
      exact hbody
    · refine bump hrest ?_
      intro v hv
      have hlength := hv.length_le
      have hmore : v.rest.length < steps := by
        simp only [List.length_cons, List.length_nil] at hlength
        omega
      refine ((ih hmore _).monoError fun e u h => h.from hv.toSameText).mono ?_
      rintro _ u ⟨body, rfl, hbody, hu⟩
      refine ⟨b :: body, by simp, isLineBody_cons hline hquote hescape hbody, ?_⟩
      exact hv.trans hu

/-- Three quotation marks are looked for one by one. -/
theorem run_atTripleQuote (w : Walker Buffer) :
    Lexer.atTripleQuote.run w = (tripleQuote.isPrefixOf w.rest, w) := by
  have hread : Lexer.atTripleQuote.run w =
      (decide (w.rest[0]?.getD endByte = Lexer.doubleQuote) &&
        (decide (w.rest[1]?.getD endByte = Lexer.doubleQuote) &&
          decide (w.rest[2]?.getD endByte = Lexer.doubleQuote)), w) := by
    unfold Lexer.atTripleQuote
    rw [StateT.run_bind, run_read]
    change ((if _ ≠ _ then _ else _ : StateM (Walker Buffer) Bool).run w) = _
    by_cases hfirst : w.rest[0]?.getD endByte = Lexer.doubleQuote
    · rw [if_neg (not_not_intro hfirst), decide_eq_true hfirst, StateT.run_bind, run_read]
      change ((if _ ≠ _ then _ else _ : StateM (Walker Buffer) Bool).run w) = _
      by_cases hsecond : w.rest[1]?.getD endByte = Lexer.doubleQuote
      · rw [if_neg (not_not_intro hsecond), decide_eq_true hsecond, StateT.run_bind, run_read]
        rfl
      · rw [if_pos hsecond, decide_eq_false hsecond]
        rfl
    · rw [if_pos hfirst, decide_eq_false hfirst]
      rfl
  have hend : endByte ≠ Lexer.doubleQuote := by decide
  have hsame (x : UInt8) : (Lexer.doubleQuote == x) = decide (x = Lexer.doubleQuote) := by
    rw [Bool.beq_eq_decide_eq]
    exact decide_eq_decide.2 eq_comm
  rw [hread]
  match w.rest with
  | [] => simp [tripleQuote, hend]
  | [a] => simp [tripleQuote, List.isPrefixOf, hend]
  | [a, b] => simp [tripleQuote, List.isPrefixOf, hend]
  | a :: b :: c :: front => simp [tripleQuote, List.isPrefixOf, hsame]

/-- What begins a longer run does not tell whether three quotation marks stand there. -/
theorem isPrefixOf_append_tripleQuote (front tail : List UInt8) :
    tripleQuote.isPrefixOf (front ++ tripleQuote ++ tail) =
      tripleQuote.isPrefixOf (front ++ tripleQuote) := by
  rw [Bool.eq_iff_iff, List.isPrefixOf_iff_prefix, List.isPrefixOf_iff_prefix]
  constructor
  · intro h
    refine List.prefix_of_prefix_length_le h (List.prefix_append _ tail) ?_
    rw [List.length_append]
    exact Nat.le_add_left _ _
  · intro h
    exact h.trans (List.prefix_append _ tail)

theorem rawString {steps : Nat} (hsteps : w.rest.length < steps) (taken : Bytes) :
    Ends (Fails .malformedString w) (Lexer.rawString steps taken) w
      (fun bytes v => ∃ body : List UInt8, bytes = taken ++ body.toArray ∧ isRawBody body ∧
        w.Passes (body ++ tripleQuote) v) := by
  induction steps generalizing w taken with
  | zero => exact absurd hsteps (Nat.not_lt_zero _)
  | succ steps ih =>
    unfold Lexer.rawString
    refine ifAtEnd ?_ ?_
    · intro _
      exact throw ⟨rfl, .refl w⟩
    intro b tail hrest
    refine Ends.bind (Q := fun c v => c = tripleQuote.isPrefixOf w.rest ∧ v = w) ?_ ?_
    · refine walk ?_
      rw [run_atTripleQuote]
      exact ⟨rfl, rfl⟩
    rintro _ v ⟨rfl, rfl⟩
    refine ite ?_ ?_
    · intro hclose
      obtain ⟨tail', htail⟩ := List.isPrefixOf_iff_prefix.1 hclose
      have hclose' : v.rest = tripleQuote ++ tail' := htail.symm
      have hlength : 3 = tripleQuote.length := rfl
      rw [hlength]
      apply advanceBy hclose'
      intro u hu
      exact pure ⟨[], by simp, rfl, hu⟩
    · intro hopen
      refine bump hrest ?_
      intro u hu
      have hlength := hu.length_le
      have hmore : u.rest.length < steps := by
        simp only [List.length_cons, List.length_nil] at hlength
        omega
      refine ((ih hmore _).monoError fun e t h => h.from hu.toSameText).mono ?_
      rintro _ t ⟨body, rfl, hbody, ht⟩
      have hwhole := hu.trans ht
      refine ⟨b :: body, by simp, ?_, hwhole⟩
      rw [isRawBody, hbody, Bool.and_true, Bool.not_eq_true',
        ← isPrefixOf_append_tripleQuote _ t.rest]
      have hrest' : b :: body ++ tripleQuote ++ t.rest = v.rest := hwhole.rest_eq.symm
      rw [hrest']
      exact Bool.eq_false_iff.2 hopen

/-- Which marks stand around a string, and what stands between them. -/
theorem stringBody {tail : List UInt8} (hrest : w.rest = Lexer.doubleQuote :: tail) :
    Ends (Fails .malformedString w) Lexer.stringBody w (fun bytes v =>
      ∃ mark body : List UInt8, bytes = body.toArray ∧ w.Passes (mark ++ body ++ mark) v ∧
        Encloses mark body v.rest) := by
  have hle := w.length_rest_le
  unfold Lexer.stringBody
  refine get ?_
  dsimp only
  refine advance hrest ?_
  intro v hv
  have hlength := hv.length_le
  simp only [List.length_cons, List.length_nil] at hlength
  refine read (ite ?_ ?_)
  · intro hsecond
    obtain ⟨tail', hv'⟩ := exists_of_getD hsecond (by decide)
    refine advance hv' ?_
    intro u hu
    have hlength' := hu.length_le
    simp only [List.length_cons, List.length_nil] at hlength'
    refine read (ite ?_ ?_)
    · intro hthird
      obtain ⟨tail'', hu'⟩ := exists_of_getD hthird (by decide)
      refine advance hu' ?_
      intro t ht
      have hlength'' := ht.length_le
      simp only [List.length_cons, List.length_nil] at hlength''
      have hopen : w.Passes tripleQuote t := hv.trans (hu.trans ht)
      refine ((rawString (by omega) #[]).monoError fun e s h => h.from hopen.toSameText).mono ?_
      rintro _ s ⟨body, rfl, hbody, hs⟩
      refine ⟨tripleQuote, body, by simp, ?_, .inr ⟨rfl, hbody⟩⟩
      rw [List.append_assoc]
      exact hopen.trans hs
    · intro hthird
      exact pure ⟨[Lexer.doubleQuote], [], rfl, hv.trans hu, .inl ⟨rfl, rfl, fun _ => hthird⟩⟩
  · intro hsecond
    refine ((lineString (by omega) #[]).monoError fun e s h => h.from hv.toSameText).mono ?_
    rintro _ s ⟨body, rfl, hbody, hs⟩
    refine ⟨[Lexer.doubleQuote], body, by simp, ?_, .inl ⟨rfl, hbody, ?_⟩⟩
    · rw [List.append_assoc]
      exact hv.trans hs
    · rintro rfl
      rw [hs.rest_eq] at hsecond
      exact absurd rfl hsecond

theorem enclosedText {tail : List UInt8} (hrest : w.rest = Lexer.doubleQuote :: tail) :
    Ends (Fails .malformedString w) Lexer.stringLiteral w (fun lexeme v =>
      ∃ mark text, lexeme = (.string, text) ∧ w.Passes (mark ++ textBytes text ++ mark) v ∧
        Encloses mark (textBytes text) v.rest) := by
  unfold Lexer.stringLiteral
  refine Ends.bind (stringBody hrest) ?_
  rintro _ v ⟨mark, body, rfl, hv, hmark⟩
  refine Ends.bind ((quotedText _).monoError fun e s h => h.from hv.toSameText) ?_
  rintro text s ⟨rfl, hbody⟩
  obtain rfl : textBytes text = body := hbody
  exact pure ⟨mark, text, rfl, hv, hmark⟩

theorem stringLiteral {tail : List UInt8} (hrest : w.rest = Lexer.doubleQuote :: tail) :
    Ends (Fails .malformedString w) Lexer.stringLiteral w (Lexed w) := by
  refine (enclosedText hrest).mono ?_
  rintro _ v ⟨mark, text, rfl, hv, hmark⟩
  refine ⟨_, hv, spells_of_written (.inr (.inr (.inr rfl))) (.string ?_) ⟨mark, ?_, rfl⟩⟩
  · rcases hmark with ⟨-, hline, -⟩ | ⟨-, hraw⟩
    · exact .inl hline
    · exact .inr hraw
  · rcases hmark with ⟨rfl, -⟩ | ⟨rfl, -⟩ <;> simp

end Quoted

/-! ## Symbols -/

theorem run_lookAt (w : Walker Buffer) (count ahead : Nat) :
    (Lexer.lookAt count ahead).run w =
      ((List.range' ahead count).map fun k => w.rest[k]?.getD endByte, w) := by
  induction count generalizing ahead with
  | zero => rfl
  | succ count ih =>
    rw [Lexer.lookAt, StateT.run_bind, run_read]
    show StateT.run (Lexer.lookAt count (ahead + 1) >>= fun more => Pure.pure (_ :: more)) w = _
    rw [StateT.run_bind, ih]
    rfl

theorem run_describeCurrent (w : Walker Buffer) : (Lexer.describeCurrent.run w).2 = w := by
  unfold Lexer.describeCurrent
  rw [StateT.run_bind, Walker.current, run_read]
  change ((if _ < _ then _ else _ : StateM (Walker Buffer) String).run w).2 = w
  split
  · rfl
  · rw [StateT.run_bind, run_lookAt]
    change (StateT.run (_ : StateM (Walker Buffer) String) w).2 = w
    split <;> rfl

/-- Three bytes ahead are enough to tell which symbols stand in front. -/
theorem isPrefix_lookAhead (s : Symbol) (rest : List UInt8) :
    s.bytes <+: [rest[0]?.getD endByte, rest[1]?.getD endByte, rest[2]?.getD endByte] ↔
      s.bytes <+: rest := by
  have hlength : s.bytes.length ≤ 3 := by cases s <;> decide
  have hend : endByte ∉ s.bytes := by cases s <;> decide
  constructor
  · intro h
    refine isPrefix_of_read hend ?_
    intro i hi
    have hbyte := List.prefix_iff_getElem?.1 h i hi
    match i, hi with
    | 0, _ => exact Option.some.inj hbyte
    | 1, _ => exact Option.some.inj hbyte
    | 2, _ => exact Option.some.inj hbyte
    | i + 3, hi => omega
  · intro h
    rw [List.prefix_iff_getElem?]
    intro i hi
    have hbyte := List.prefix_iff_getElem?.1 h i hi
    match i, hi with
    | 0, _ => simp [hbyte]
    | 1, _ => simp [hbyte]
    | 2, _ => simp [hbyte]
    | i + 3, hi => omega

theorem symbol {b : UInt8} {tail : List UInt8} (hrest : w.rest = b :: tail)
    (hblank : isBlank b = false) (hword : isWordByte b = false) (hquote : b ≠ Lexer.quote)
    (hdouble : b ≠ Lexer.doubleQuote) : Ends (Stuck w) Lexer.symbol w (Lexed w) := by
  unfold Lexer.symbol
  refine Ends.bind (Q := fun front v => front = [w.rest[0]?.getD endByte, w.rest[1]?.getD endByte,
    w.rest[2]?.getD endByte] ∧ v = w) ?_ ?_
  · refine walk ?_
    rw [run_lookAt]
    exact ⟨rfl, rfl⟩
  rintro _ v ⟨rfl, rfl⟩
  rw [Symbol.classify_eq]
  cases hfound : Symbol.atFront? _ with
  | some s =>
    obtain ⟨hfront, hlongest⟩ := Symbol.atFront?_eq_some hfound
    obtain ⟨tail', htail⟩ := (isPrefix_lookAhead s v.rest).1 hfront
    refine advanceBy htail.symm ?_
    intro u hu
    refine pure ⟨s.bytes, hu, ?_⟩
    constructor
    case wellFormed => exact .mark s
    case written => exact (Takes.bytes_mark s).symm
    case unreserved =>
      intro h
      nomatch h
    case reserved =>
      intro k h
      nomatch h
    case whole =>
      rintro (h | ⟨k, h⟩)
      · nomatch h
      · nomatch h
    case longest =>
      intro s' _ t ht
      rw [← hu.rest_eq] at ht
      exact hlongest t ((isPrefix_lookAhead t v.rest).2 ht)
  | none =>
    refine Ends.bind (Q := fun _ u => u = v) (walk (run_describeCurrent v)) ?_
    rintro shown _ rfl
    refine throw ⟨⟨b, tail, hrest, hblank, hword, hquote, hdouble, ?_⟩, .refl _⟩
    intro s hs
    exact Symbol.atFront?_eq_none hfound s ((isPrefix_lookAhead s _).2 hs)

/-! ## Any lexeme -/

/-- A fault of a scanner is one of what stands where it began. -/
theorem of_fails {fault : LexFault} {x : Scan Buffer (TokenKind × String)}
    (hfault : fault.At w.rest)
    (h : Ends (Fails fault w) x w (Lexed w)) : Ends (Stuck w) x w (Lexed w) := by
  refine h.monoError ?_
  rintro e v ⟨rfl, hv⟩
  exact ⟨hfault, hv⟩

/-- The first byte of a lexeme tells the scanner that reads it. -/
theorem scan {b : UInt8} {tail : List UInt8} (hrest : w.rest = b :: tail)
    (hblank : isBlank b = false) : Ends (Stuck w) Lexer.scan w (Lexed w) := by
  unfold Lexer.scan
  refine ifAtEnd ?_ ?_
  · intro hnil
    rw [hrest] at hnil
    nomatch hnil
  intro _ _ _
  refine current hrest ?_
  refine ite (word hrest) fun hletter => ite ?_ fun hdigit => ite ?_ fun hquote =>
    ite ?_ fun hdouble => ?_
  · intro hdigit
    have hfault : LexFault.malformedNumber.At w.rest := ⟨b, tail, hrest, hdigit⟩
    exact of_fails hfault (number hrest hdigit)
  · rintro rfl
    have hfault : LexFault.malformedCharacter.At w.rest := ⟨tail, hrest⟩
    exact of_fails hfault (characterLiteral hrest)
  · rintro rfl
    have hfault : LexFault.malformedString.At w.rest := ⟨tail, hrest⟩
    exact of_fails hfault (stringLiteral hrest)
  · have hword : isWordByte b = false := by
      unfold isWordByte
      rw [Bool.eq_false_iff.2 hletter, Bool.eq_false_iff.2 hdigit]
      rfl
    exact symbol hrest hblank hword hquote hdouble

end Ends

end ScriptFront
