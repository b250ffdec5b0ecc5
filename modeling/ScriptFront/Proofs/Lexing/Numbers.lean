import ScriptFront.Proofs.Lexing.NumberFronts
import ScriptFront.Proofs.Lexing.Passing
import ScriptFront.Proofs.Writing.Relexing

/-!
# Numbers

The lexer takes the longest number that stands in front, and where there is none, what stands there
is malformed.

- `TakesNumber`, `RefusesNumber`: what scanning a number comes to.
- `Ends.numberRead`: this is what the lexer takes.
-/

namespace ScriptFront

open Walker

-- What a reading comes to is told by the rules; nothing is to be run to find out.
attribute [local irreducible] Ends

/-! ## Scanning -/

/-- A scanner that began at `w` took a number, and it goes on no further. -/
def TakesNumber (w : Walker Buffer) (lexeme : TokenKind × String) (v : Walker Buffer) : Prop :=
  ∃ slice, w.Passes slice v ∧ NumberRead lexeme.1 lexeme.2 slice v.rest

/-- A scanner that began at `w` stopped, as what stands there is no number. -/
def RefusesNumber (w : Walker Buffer) (e : LexFault) (v : Walker Buffer) : Prop :=
  e = .malformedNumber ∧ w.SameText v ∧ MalformedNumber w.rest

namespace Ends

variable {w : Walker Buffer}

theorem radixDigits (form : IntegerForm) {mark : String} (hradix : form.radix ≠ 10)
    (hmark : mark ∈ form.marks) {tail : List UInt8} (hrest : w.rest = textBytes mark ++ tail) :
    Ends (RefusesNumber w) (Lexer.radixDigits form form.isDigit) w (TakesNumber w) := by
  have hlength : (textBytes mark).length = 2 := by
    obtain ⟨letter, hbytes, -⟩ := exists_of_mark hradix hmark
    rw [hbytes]
    rfl
  have hend : form.isDigit endByte = false := by cases form <;> rfl
  unfold Lexer.radixDigits
  rw [← hlength]
  refine advanceBy hrest ?_
  intro v hv
  refine takeWhile hend ?_
  intro digits u hu hdigits hapart
  refine ite ?_ ?_
  · intro hnone
    rw [List.isEmpty_iff.1 hnone] at hu
    refine throw ⟨rfl, (hv.trans hu).toSameText, ?_⟩
    rw [(hv.trans hu).rest_eq, List.append_nil]
    exact .bare hradix hmark hapart
  · intro hne
    have hne' : digits ≠ [] := fun h => hne (List.isEmpty_iff.2 h)
    exact pure ⟨_, hv.trans hu, .marked hradix hmark hne' hdigits hapart⟩

/-- The sizes that two bytes behind a letter can name. -/
theorem sizeBits?_cases {second third : UInt8} {bits width : Nat}
    (h : Lexer.sizeBits? second third = some (bits, width)) :
    (second = byteOf '1' ∧ third = byteOf '6' ∧ bits = 16 ∧ width = 3) ∨
      (second = byteOf '3' ∧ third = byteOf '2' ∧ bits = 32 ∧ width = 3) ∨
      (second = byteOf '6' ∧ third = byteOf '4' ∧ bits = 64 ∧ width = 3) ∨
      (second = byteOf '8' ∧ bits = 8 ∧ width = 2) := by
  unfold Lexer.sizeBits? at h
  split at h
  · simp_all
  · split at h
    · simp_all
    · split at h
      · simp_all
      · split at h
        · simp_all
        · nomatch h

/-- Where no size is named, none is written. -/
theorem no_width {second third : UInt8} {tail : List UInt8}
    (h : Lexer.sizeBits? second third = none) (hsecond : tail[0]?.getD endByte = second)
    (hthird : tail[1]?.getD endByte = third) : ∀ width ∈ sizeWidths, ¬textBytes width <+: tail := by
  have hbytes : textBytes "8" = [56] ∧ textBytes "16" = [49, 54] ∧ textBytes "32" = [51, 50] ∧
      textBytes "64" = [54, 52] := by decide
  rintro width hwidth ⟨more, rfl⟩
  subst hsecond hthird
  simp only [sizeWidths, List.mem_cons, List.not_mem_nil, or_false] at hwidth
  rcases hwidth with rfl | rfl | rfl | rfl <;> simp [Lexer.sizeBits?, hbytes] at h

/-- Bytes that are read one by one stand in front, as none of them can come from behind the end. -/
theorem isPrefix_of_read {xs ys : List UInt8} (hxs : endByte ∉ xs)
    (h : ∀ i (hi : i < xs.length), ys[i]?.getD endByte = xs[i]) : xs <+: ys := by
  rw [List.prefix_iff_getElem?]
  intro i hi
  have hbyte := h i hi
  cases hy : ys[i]? with
  | some y =>
    rw [hy] at hbyte
    exact congrArg some hbyte
  | none =>
    rw [hy] at hbyte
    have hmem : xs[i] ∈ xs := List.getElem_mem hi
    rw [← hbyte] at hmem
    exact absurd hmem hxs

/-- A size that is told by its letters is one that its form may be written with. -/
theorem mem_suffixes {letter second third : UInt8} {bits width : Nat}
    (hletter : isSizeLetter letter) (hsize : Lexer.sizeBits? second third = some (bits, width)) :
    ∃ size ∈ (Lexer.sizedForm (letter = byteOf 'i' || letter = byteOf 'I') bits).suffixes,
      textBytes size = [letter, second, third].take width ∧ (textBytes size).length = width ∧
        endByte ∉ textBytes size := by
  simp only [isSizeLetter, Bool.or_eq_true, decide_eq_true_eq, or_assoc] at hletter
  rcases sizeBits?_cases hsize with ⟨rfl, rfl, rfl, rfl⟩ | ⟨rfl, rfl, rfl, rfl⟩ |
    ⟨rfl, rfl, rfl, rfl⟩ | ⟨rfl, rfl, rfl⟩
  · rcases hletter with rfl | rfl | rfl | rfl <;> decide
  · rcases hletter with rfl | rfl | rfl | rfl <;> decide
  · rcases hletter with rfl | rfl | rfl | rfl <;> decide
  · rcases hletter with rfl | rfl | rfl | rfl <;> simp only [List.take] <;> decide

theorem radix_sizedForm (signed : Bool) (bits : Nat) :
    (Lexer.sizedForm signed bits).radix = 10 := by
  unfold Lexer.sizedForm
  split <;> cases signed <;> rfl

theorem integerSize :
    Ends (fun e v => e = .malformedNumber ∧ w.SameText v ∧ ∃ letter tail, w.rest = letter :: tail ∧
        isSizeLetter letter ∧ ∀ width ∈ sizeWidths, ¬textBytes width <+: tail)
      Lexer.integerSize w
      (fun form v => form.radix = 10 ∧ ∃ size ∈ form.suffixes, w.Passes (textBytes size) v ∧
        (textBytes size = [] → Apart isSizeLetter v.rest)) := by
  have hnone : textBytes "" = [] := by decide
  refine read ?_
  dsimp only
  refine ite ?_ ?_
  · intro hletter
    have hletter' : isSizeLetter (w.rest[0]?.getD endByte) := hletter
    obtain ⟨tail, hrest⟩ := exists_of_getD rfl fun hend => absurd (hend ▸ hletter') (by decide)
    refine read (read ?_)
    cases hsize : Lexer.sizeBits? (w.rest[1]?.getD endByte) (w.rest[2]?.getD endByte) with
    | none =>
      rw [hrest] at hsize
      exact throw ⟨rfl, .refl w, _, tail, hrest, hletter', no_width hsize rfl rfl⟩
    | some size =>
      obtain ⟨bits, width⟩ := size
      obtain ⟨size, hmem, hbytes, hlength, hend⟩ := mem_suffixes hletter' hsize
      have hne : textBytes size ≠ [] := by
        intro hnil
        rw [hnil] at hlength
        rcases sizeBits?_cases hsize with ⟨-, -, -, rfl⟩ | ⟨-, -, -, rfl⟩ | ⟨-, -, -, rfl⟩ |
          ⟨-, -, rfl⟩ <;> nomatch hlength
      have hfront : textBytes size <+: w.rest := by
        refine isPrefix_of_read hend ?_
        intro i hi
        have hi' : i < [w.rest[0]?.getD endByte, w.rest[1]?.getD endByte,
            w.rest[2]?.getD endByte].length := by
          have hle := List.length_take_le width [w.rest[0]?.getD endByte, w.rest[1]?.getD endByte,
            w.rest[2]?.getD endByte]
          rw [hbytes] at hi
          simp only [List.length_take] at hi ⊢
          omega
        simp only [hbytes, List.getElem_take]
        match i, hi' with
        | 0, _ => rfl
        | 1, _ => rfl
        | 2, _ => rfl
      obtain ⟨tail, htail⟩ := hfront
      dsimp only
      rw [← hlength]
      refine advanceBy htail.symm ?_
      intro v hv
      exact pure ⟨radix_sizedForm _ _, size, hmem, hv, fun hnil => absurd hnil hne⟩
  · intro hletter
    refine pure ⟨rfl, "", by decide, ?_, fun _ => Bool.eq_false_iff.2 hletter⟩
    rw [hnone]
    exact .refl w

theorem realSize {E : LexFault → Walker Buffer → Prop} :
    Ends E Lexer.realSize w (fun form v => ∃ size ∈ form.suffixes, w.Passes (textBytes size) v ∧
      (textBytes size = [] → Apart isRealLetter v.rest)) := by
  have hnone : textBytes "" = [] := by decide
  have hsome : ∀ letter, isRealLetter letter →
      ∃ size ∈ RealForm.fp32.suffixes, textBytes size = [letter] := by
    intro letter hletter
    simp only [isRealLetter, Bool.or_eq_true, decide_eq_true_eq] at hletter
    rcases hletter with rfl | rfl
    · exact ⟨"f", by decide, by decide⟩
    · exact ⟨"F", by decide, by decide⟩
  refine read (ite ?_ ?_)
  · intro hletter
    have hletter' : isRealLetter (w.rest[0]?.getD endByte) := hletter
    obtain ⟨tail, hrest⟩ := exists_of_getD rfl fun hend => absurd (hend ▸ hletter') (by decide)
    obtain ⟨size, hmem, hbytes⟩ := hsome _ hletter'
    refine advance hrest ?_
    intro v hv
    rw [← hbytes] at hv
    refine pure ⟨size, hmem, hv, fun hnil => ?_⟩
    rw [hbytes] at hnil
    cases hnil
  · intro hletter
    refine pure ⟨"", by decide, ?_, fun _ => Bool.eq_false_iff.2 hletter⟩
    rw [hnone]
    exact .refl w

/-- A number without a radix mark. -/
theorem decimal {first : UInt8} {tail : List UInt8} (hrest : w.rest = first :: tail)
    (hfirst : isDigit first) (hunmarked : Unmarked w.rest) :
    Ends (RefusesNumber w) Lexer.decimal w (TakesNumber w) := by
  unfold Lexer.decimal
  refine takeWhile rfl ?_
  intro whole v hv hwhole hapart
  have hne : whole ≠ [] := by
    rintro rfl
    have hsplit := hv.rest_eq
    rw [List.nil_append, hrest] at hsplit
    rw [Apart, ← hsplit] at hapart
    exact absurd hfirst (Bool.eq_false_iff.1 hapart)
  refine read (ite ?_ ?_)
  · intro hpoint
    obtain ⟨rest, hv'⟩ := exists_of_getD hpoint (by decide)
    apply advance hv'
    intro u hu
    refine takeWhile rfl ?_
    intro fraction t ht hfraction hend
    refine Ends.bind realSize ?_
    rintro form s ⟨size, hmem, hs, hsized⟩
    refine pure ⟨_, hv.trans (hu.trans (ht.trans hs)), .real hmem hne hwhole hfraction ?_ hsized⟩
    rw [← hs.rest_eq]
    exact hend
  · intro hpoint
    refine Ends.bind (integerSize.monoError ?_) ?_
    · rintro e u ⟨rfl, hu, letter, tail, hv', hletter, hwidth⟩
      refine ⟨rfl, hv.toSameText.trans hu, ?_⟩
      rw [hv.rest_eq, hv']
      exact .unsized hne hwhole hletter hwidth
    · rintro form u ⟨hradix, size, hmem, hu, hsized⟩
      refine pure ⟨_, hv.trans hu, .integer hradix hmem hne hwhole ?_ ?_ ?_ hsized⟩
      · rw [← hu.rest_eq, ← hv.rest_eq]
        exact hunmarked
      · rw [← hu.rest_eq]
        exact hapart
      · rw [← hu.rest_eq]
        exact hpoint

/-- The lexer takes a number that goes on no further, or there is no number. -/
theorem numberRead {first : UInt8} {tail : List UInt8} (hrest : w.rest = first :: tail)
    (hfirst : isDigit first) : Ends (RefusesNumber w) Lexer.number w (TakesNumber w) := by
  have hmarked : ∀ (mark : String) {second : UInt8}, first = byteOf '0' →
      w.rest[1]?.getD endByte = second → second ≠ endByte →
      textBytes mark = [byteOf '0', second] → ∃ more, w.rest = textBytes mark ++ more := by
    intro mark second hzero hsecond hend hmark
    rw [hrest] at hsecond
    cases tail with
    | nil => exact absurd hsecond.symm hend
    | cons b more =>
      have hb : b = second := hsecond
      exact ⟨more, by rw [hrest, hmark, hzero, hb]; rfl⟩
  unfold Lexer.number
  refine current hrest (read (ite ?_ fun hhex => ite ?_ fun hbin => decimal hrest hfirst ?_))
  · intro h
    simp only [Bool.and_eq_true, Bool.or_eq_true, decide_eq_true_eq] at h
    obtain ⟨hzero, hx | hX⟩ := h
    · obtain ⟨more, hmore⟩ := hmarked "0x" hzero hx (by decide) (by decide)
      exact radixDigits .hex (by decide) (by decide) hmore
    · obtain ⟨more, hmore⟩ := hmarked "0X" hzero hX (by decide) (by decide)
      exact radixDigits .hex (by decide) (by decide) hmore
  · intro h
    simp only [Bool.and_eq_true, Bool.or_eq_true, decide_eq_true_eq] at h
    obtain ⟨hzero, hb | hB⟩ := h
    · obtain ⟨more, hmore⟩ := hmarked "0b" hzero hb (by decide) (by decide)
      exact radixDigits .bin (by decide) (by decide) hmore
    · obtain ⟨more, hmore⟩ := hmarked "0B" hzero hB (by decide) (by decide)
      exact radixDigits .bin (by decide) (by decide) hmore
  · rintro form hradix mark hmark ⟨more, hmore⟩
    obtain ⟨letter, hbytes, hletter, -⟩ := exists_of_mark hradix hmark
    rw [hrest, hbytes] at hmore
    obtain ⟨rfl, rfl⟩ := List.cons.inj hmore
    rw [hrest] at hhex hbin
    have hcases : letter = byteOf 'x' ∨ letter = byteOf 'X' ∨ letter = byteOf 'b' ∨
        letter = byteOf 'B' := by
      simpa [Takes.isRadixMark, or_assoc] using hletter
    rcases hcases with rfl | rfl | rfl | rfl
    · exact hhex rfl
    · exact hhex rfl
    · exact hbin rfl
    · exact hbin rfl

end Ends

end ScriptFront
