import ScriptFront.Proofs.Lexing.Layouts
import ScriptFront.Proofs.Lexing.Starts
import ScriptFront.Proofs.Writing.Numerals

/-!
# Tokens with nothing between them

Where no blank keeps a lexeme apart, the byte behind it decides whether the lexer goes on. It is
always the longest symbol that is taken, so closing angles are taken together with other angles and
with equals signs behind them; they are never alone in a row of them.

- `Lexes.mark`, `Lexes.word`, …: lexemes that are taken for themselves in front of some bytes.
- `Walker.next_alike`: what is taken is told by the bytes that are left.
- `unspaced`: the bytes of a row of lexemes with nothing between them.
- `KeptApart`: all lexemes of a row but closing angles are taken for themselves.
-/

namespace ScriptFront

open Walker

-- What a reading comes to is told by the rules; nothing is to be run to find out.
attribute [local irreducible] Ends

/-! ## Where lexemes end -/

/-- The bytes that longer symbols go on with. -/
def Symbol.furtherBytes (s : Symbol) : List UInt8 :=
  Symbol.all.filterMap fun t =>
    if s.bytes.isPrefixOf t.bytes then t.bytes[s.bytes.length]? else none

/-- A symbol that goes on behind another one goes on with such a byte. -/
theorem Symbol.head_mem_furtherBytes {s t : Symbol} {b : UInt8} {tail : List UInt8}
    (ht : t.bytes <+: s.bytes ++ b :: tail) (hlong : s.bytes.length < t.bytes.length) :
    b ∈ s.furtherBytes := by
  have hs : s.bytes <+: t.bytes :=
    List.prefix_of_prefix_length_le (List.prefix_append _ _) ht (Nat.le_of_lt hlong)
  have hbyte := List.prefix_iff_getElem?.1 ht s.bytes.length hlong
  rw [List.getElem?_append_right (Nat.le_refl _), Nat.sub_self, List.getElem?_cons_zero] at hbyte
  refine List.mem_filterMap.2 ⟨t, t.mem_all, ?_⟩
  rw [if_pos (List.isPrefixOf_iff_prefix.2 hs), List.getElem?_eq_getElem hlong]
  exact hbyte.symm

namespace Lexes

variable {tail : List UInt8}

/-- A symbol is taken for itself, if no longer one stands there. -/
theorem mark (s : Symbol) (hslash : s.bytes.head? ≠ some (byteOf '/'))
    (htail : ∀ b ∈ tail.head?, b ∉ s.furtherBytes) :
    Lexes (.symbol s, s.spelling) s.bytes tail := by
  have hopens : Takes.opensToken (s.bytes ++ tail) := by
    obtain ⟨b, more, hbytes⟩ := List.exists_cons_of_ne_nil s.bytes_ne_nil
    have hblank : s.bytes.head?.all fun b => !isBlank b := by cases s <;> rfl
    rw [hbytes] at hblank hslash ⊢
    refine Takes.opensToken_of_ne _ ?_ ?_
    · simpa using hblank
    · rintro rfl
      exact hslash rfl
  have hrest := rest_ofBytes (s.bytes ++ tail)
  have hprefix : s.bytes <+: (Walker.ofSource (Buffer.ofBytes (s.bytes ++ tail).toArray)).rest := by
    rw [hrest]
    exact List.prefix_append _ _
  obtain ⟨t, v, hscan, hpasses, hlongest⟩ := run_scan_symbol hprefix
  -- The symbol that is taken begins with this one, and does not go on behind it.
  have hsplit := hrest.symm.trans hpasses.rest_eq
  have hshort : t.bytes.length ≤ s.bytes.length := by
    by_contra hlong
    cases tail with
    | nil =>
      have hlength := congrArg List.length hsplit
      rw [List.append_nil, List.length_append] at hlength
      omega
    | cons b tail =>
      have hb := Symbol.head_mem_furtherBytes ⟨v.rest, hsplit.symm⟩ (Nat.not_le.1 hlong)
      exact htail b rfl hb
  have hbytes := List.append_inj hsplit (Nat.le_antisymm (hlongest s hprefix) hshort)
  obtain rfl : s = t := Symbol.bytes_injective hbytes.1
  exact ⟨hopens, v, hscan, hbytes.2.symm⟩

/-- What the scanner comes to in front of the bytes, if nothing is skipped there. -/
theorem of_takes {lexeme : TokenKind × String} {b : UInt8} {more : List UInt8}
    (hblank : isBlank b = false) (hslash : b ≠ byteOf '/')
    (h : ∀ w : Walker Buffer, w.rest = b :: more ++ tail →
      Takes Lexer.scan w (b :: more).length lexeme) : Lexes lexeme (b :: more) tail := by
  have hrest := rest_ofBytes (b :: more ++ tail)
  obtain ⟨v, hscan, hfurther⟩ := h _ hrest
  exact ⟨Takes.opensToken_of_ne _ hblank hslash, v, hscan, hfurther.rest_append hrest rfl⟩

/-- Nothing that begins with a letter or a digit is skipped. -/
theorem opens_of_isWordByte {b : UInt8} (hb : isWordByte b) :
    isBlank b = false ∧ b ≠ byteOf '/' := by
  constructor
  · grind [isWordByte, isLetter, isDigit, isBlank]
  · rintro rfl
    exact absurd hb (by decide)

/-- A keyword is taken as far as there are letters and digits. -/
theorem word (k : Keyword) (htail : Apart isWordByte tail) :
    Lexes (.keyword k, k.spelling) (Lexeme.word k).bytes tail := by
  obtain ⟨b, more, hbytes, hb⟩ := Takes.bytes_word_cons k
  obtain ⟨hblank, hslash⟩ := opens_of_isWordByte (b := b) (by simp [isWordByte, hb])
  have htakes (w : Walker Buffer) (hw : w.rest = (Lexeme.word k).bytes ++ tail) :
      Takes Lexer.scan w (Lexeme.word k).bytes.length (.keyword k, k.spelling) := by
    have hcons : w.rest = b :: (more ++ tail) := by rw [hw, hbytes, List.cons_append]
    exact Takes.notAtEnd hcons (Takes.current hcons (Takes.ifTrue hb (Takes.keyword k htail hw)))
  rw [hbytes] at htakes ⊢
  exact of_takes hblank hslash htakes

/-- A name is taken as far as there are letters and digits. -/
theorem name {text : String} (h : IsName text) (htail : Apart isWordByte tail) :
    Lexes (.identifier, text) (Lexeme.name text).bytes tail := by
  obtain ⟨b, more, hbytes, hb⟩ := Takes.bytes_name_cons h
  obtain ⟨hblank, hslash⟩ := opens_of_isWordByte (b := b) (by simp [isWordByte, hb])
  have htakes (w : Walker Buffer) (hw : w.rest = (Lexeme.name text).bytes ++ tail) :
      Takes Lexer.scan w (Lexeme.name text).bytes.length (.identifier, text) := by
    have hcons : w.rest = b :: (more ++ tail) := by rw [hw, hbytes, List.cons_append]
    exact Takes.notAtEnd hcons (Takes.current hcons (Takes.ifTrue hb (Takes.name h htail hw)))
  rw [hbytes] at htakes ⊢
  exact of_takes hblank hslash htakes

/-- An integer is taken as far as there are letters, digits and points. -/
theorem integer {form : IntegerForm} {text : String} (h : IsInteger form text)
    (htail : Apart isNumberByte tail) :
    Lexes (.integer form, text) (Lexeme.mk (.integer form) text).bytes tail := by
  obtain ⟨b, more, hbytes, hb⟩ := Takes.bytes_integer_cons h
  obtain ⟨hblank, hslash⟩ := opens_of_isWordByte (b := b) (by simp [isWordByte, hb])
  have hletter : ¬isLetter b := by grind [isLetter, isDigit]
  have htakes (w : Walker Buffer) (hw : w.rest = (Lexeme.mk (.integer form) text).bytes ++ tail) :
      Takes Lexer.scan w (Lexeme.mk (.integer form) text).bytes.length (.integer form, text) := by
    have hcons : w.rest = b :: (more ++ tail) := by rw [hw, hbytes, List.cons_append]
    refine Takes.notAtEnd hcons (Takes.current hcons (Takes.ifFalse hletter ?_))
    exact Takes.ifTrue hb (Takes.integer h htail hw)
  rw [hbytes] at htakes ⊢
  exact of_takes hblank hslash htakes

/-- The next token in front of the bytes is the lexeme, and nothing is skipped before it. -/
theorem run_next {kind : TokenKind} {text : String} {slice : List UInt8} {w : Walker Buffer}
    (h : Lexes (kind, text) slice tail) (hw : w.rest = slice ++ tail) :
    w.Settled ∧ ∃ v, Lexer.next.run w = (.ok ⟨kind, text, w.place.stored⟩, v) ∧
      w.Passes slice v := by
  have hsettled : w.Settled := .inr (hw ▸ h.opens)
  obtain ⟨v, hscan, hv⟩ := h.run_scan (.refl tail) hw
  have hnext := run_next_settled hsettled
  rw [hscan] at hnext
  obtain ⟨bytes, hbytes⟩ := passes_of_next hnext
  have hslice := hbytes.rest_eq
  rw [hw, hv] at hslice
  rw [← List.append_cancel_right hslice] at hbytes
  exact ⟨hsettled, v, hnext, hbytes⟩

end Lexes

/-! ## What is left of a text -/

namespace Walker

variable {w w' v : Walker Buffer} {token : Token}

/-- From two places with the same bytes behind them, the same is skipped and the same token is
taken; only the places differ. -/
theorem next_alike (hrest : w'.rest = w.rest) (hnext : Lexer.next.run w = (.ok token, v)) :
    ∃ gap mid mid' v', w.Passes gap mid ∧ Trivia gap mid.rest ∧ token.place = mid.place.stored ∧
      Lexer.skip.run w' = (.ok (), mid') ∧ w'.Passes gap mid' ∧
      Lexer.next.run mid' = (.ok ⟨token.kind, token.text, mid'.place.stored⟩, v') ∧
      v'.rest = v.rest := by
  rcases hskip : Lexer.skip.run w with ⟨e | _, mid⟩
  · rw [run_next_of_skip_error hskip] at hnext
    cases hnext
  obtain ⟨gap, hgap, hsettled⟩ := Ends.ok (Ends.skip w) hskip
  rw [run_next_of_skip hskip] at hnext
  obtain ⟨hplace, hscan⟩ := token_of_next hsettled hnext
  obtain ⟨mid', hskip', -, hmid'⟩ := hgap.trivia.run_skip (hrest.trans hgap.rest_eq) hsettled
  obtain ⟨gap', hgap'⟩ := passes_of_skip hskip'
  obtain rfl : gap' = gap := by
    have hsplit := hgap'.rest_eq
    rw [hrest, hgap.rest_eq, hmid'] at hsplit
    exact (List.append_cancel_right hsplit).symm
  have hsettled' : mid'.Settled := by
    unfold Walker.Settled
    rwa [hmid']
  have hscan' : ∃ v', Lexer.scan.run mid' = (.ok (token.kind, token.text), v') ∧
      v'.rest = v.rest := by
    cases hbytes : mid.rest with
    | nil =>
      obtain ⟨u, hu, hfurther⟩ := Takes.scan_atEnd hbytes
      obtain ⟨u', hu', hfurther'⟩ := Takes.scan_atEnd (hmid'.trans hbytes)
      rw [hscan] at hu
      obtain ⟨hlexeme, rfl⟩ := Prod.mk.inj hu
      rw [← Except.ok.inj hlexeme] at hu'
      refine ⟨u', hu', ?_⟩
      rw [hfurther'.rest_eq, hfurther.rest_eq, hmid']
    | cons b tail =>
      obtain ⟨slice, hslice, hspells⟩ := lexed_of_next hsettled hnext fun heof => by
        have hnil := rest_of_settled_eof hsettled hnext heof
        rw [hbytes] at hnil
        cases hnil
      have hmid := hmid'.trans hslice.rest_eq
      exact (Glued.refl v.rest).run_scan hspells.slice_ne_nil hslice.rest_eq hmid hscan
        (List.nil_append _).symm
  obtain ⟨v', hrun, hleft⟩ := hscan'
  refine ⟨gap', mid, mid', v', hgap.passes, hgap.trivia, hplace, hskip', hgap', ?_, hleft⟩
  rw [run_next_settled hsettled', hrun]

end Walker

/-! ## Rows of lexemes -/

/-- The bytes of lexemes with nothing between them. -/
def unspaced (ls : List Lexeme) : List UInt8 := ls.flatMap Lexeme.bytes

@[simp] theorem unspaced_nil : unspaced [] = [] := rfl

@[simp] theorem unspaced_cons (l : Lexeme) (ls : List Lexeme) :
    unspaced (l :: ls) = l.bytes ++ unspaced ls := rfl

@[simp] theorem unspaced_append (ls ls' : List Lexeme) :
    unspaced (ls ++ ls') = unspaced ls ++ unspaced ls' := List.flatMap_append

/-- In front of what stands behind it, each lexeme of a row is taken for itself. A closing angle may
be taken together with what stands behind it. -/
inductive KeptApart (tail : List UInt8) : List Lexeme → Prop where
  | nil : KeptApart tail []
  | token {l : Lexeme} {ls : List Lexeme} (h : Lexes (l.kind, l.text) l.bytes (unspaced ls ++ tail))
    (hmore : KeptApart tail ls) : KeptApart tail (l :: ls)
  | angle {ls : List Lexeme} (hmore : KeptApart tail ls) : KeptApart tail (.mark .gt :: ls)

namespace KeptApart

variable {tail : List UInt8} {l : Lexeme} {ls : List Lexeme}

theorem tail_keptApart (h : KeptApart tail (l :: ls)) : KeptApart tail ls := by
  cases h with
  | token h hmore => exact hmore
  | angle hmore => exact hmore

/-- All lexemes but closing angles are taken for themselves. -/
theorem lexes (h : KeptApart tail (l :: ls)) (hl : l ≠ .mark .gt) :
    Lexes (l.kind, l.text) l.bytes (unspaced ls ++ tail) := by
  cases h with
  | token h hmore => exact h
  | angle hmore => exact absurd rfl hl

/-- Every lexeme takes a byte. -/
theorem length_le (h : KeptApart tail ls) : ls.length ≤ (unspaced ls).length := by
  induction h with
  | nil => exact Nat.le_refl _
  | token h hmore ih =>
    have hpos := List.length_pos_iff.2 h.ne_nil
    rw [unspaced_cons, List.length_cons, List.length_append]
    omega
  | angle hmore ih =>
    have hpos : 0 < (Lexeme.mark .gt).bytes.length := by decide
    rw [unspaced_cons, List.length_cons, List.length_append]
    omega

end KeptApart

end ScriptFront
