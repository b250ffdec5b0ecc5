import ScriptFront.Proofs.Lexing.Numerals

/-!
# Numbers in front of a text

A number that stands in front of a text and goes on no further there is the longest one that does.

- `NumberRead`: a number that goes on no further.
- `NumberRead.compare`: any other number in front of the text is shorter, or it is the same.
- `NumberRead.longest`, `NumberRead.wellFormed`: no longer one stands there, and it is not
  malformed.
- `Numeral.unique`: what is written is one number.
-/

namespace ScriptFront

open Walker

/-! ## Numbers in front of a text -/

/-- No radix mark begins here. -/
def Unmarked (x : List UInt8) : Prop :=
  ∀ form : IntegerForm, form.radix ≠ 10 → ∀ mark ∈ form.marks, ¬textBytes mark <+: x

/-- A number in front of `rest` that does not go on there. -/
inductive NumberRead : TokenKind → String → List UInt8 → List UInt8 → Prop where
  | marked {form : IntegerForm} {mark : String} {digits rest : List UInt8}
    (hradix : form.radix ≠ 10)
    (hmark : mark ∈ form.marks) (hne : digits ≠ []) (hdigits : ∀ b ∈ digits, form.isDigit b)
    (hapart : Apart form.isDigit rest) :
    NumberRead (.integer form) (asciiText digits) (textBytes mark ++ digits) rest
  | integer {form : IntegerForm} {size : String} {digits rest : List UInt8}
    (hradix : form.radix = 10) (hsize : size ∈ form.suffixes) (hne : digits ≠ [])
    (hdigits : ∀ b ∈ digits, isDigit b) (hunmarked : Unmarked (digits ++ (textBytes size ++ rest)))
    (hapart : Apart isDigit (textBytes size ++ rest))
    (hpoint : (textBytes size ++ rest)[0]?.getD endByte ≠ byteOf '.')
    (hsized : textBytes size = [] → Apart isSizeLetter rest) :
    NumberRead (.integer form) (asciiText digits) (digits ++ textBytes size) rest
  | real {form : RealForm} {size : String} {whole fraction rest : List UInt8}
    (hsize : size ∈ form.suffixes) (hne : whole ≠ []) (hwhole : ∀ b ∈ whole, isDigit b)
    (hfraction : ∀ b ∈ fraction, isDigit b) (hapart : Apart isDigit (textBytes size ++ rest))
    (hsized : textBytes size = [] → Apart isRealLetter rest) :
    NumberRead (.real form) (asciiText (whole ++ byteOf '.' :: fraction))
      (whole ++ byteOf '.' :: (fraction ++ textBytes size)) rest

/-- How a number may begin that begins with the decimal digits `digits`, or with some of them. -/
inductive NumeralFront (digits rest : List UInt8) : TokenKind → String → List UInt8 → Prop where
  | marked {form : IntegerForm} {mark : String} {digits' : List UInt8} (hradix : form.radix ≠ 10)
    (hmark : mark ∈ form.marks) (hdigits : ∀ b ∈ digits', form.isDigit b)
    (hfront : textBytes mark ++ digits' <+: digits ++ rest) :
    NumeralFront digits rest (.integer form) (asciiText digits') (textBytes mark ++ digits')
  | plain {some more : List UInt8} (hsplit : digits = some ++ more) :
    NumeralFront digits rest (.integer .i32) (asciiText some) some
  | sized {form : IntegerForm} {size width : String} {letter : UInt8} (hradix : form.radix = 10)
    (hsize : size ∈ form.suffixes) (hletter : isSizeLetter letter) (hwidth : width ∈ sizeWidths)
    (hbytes : textBytes size = letter :: textBytes width) (hfront : textBytes size <+: rest) :
    NumeralFront digits rest (.integer form) (asciiText digits) (digits ++ textBytes size)
  | real {form : RealForm} {size : String} {fraction : List UInt8} (hsize : size ∈ form.suffixes)
    (hfraction : ∀ b ∈ fraction, isDigit b)
    (hfront : byteOf '.' :: (fraction ++ textBytes size) <+: rest) :
    NumeralFront digits rest (.real form) (asciiText (digits ++ byteOf '.' :: fraction))
      (digits ++ byteOf '.' :: (fraction ++ textBytes size))

theorem isDigit_of_isSizeLetter {b : UInt8} (h : isSizeLetter b) : isDigit b = false := by
  grind [isSizeLetter, isDigit]

theorem isDigit_of_isRealLetter {b : UInt8} (h : isRealLetter b) : isDigit b = false := by
  grind [isRealLetter, isDigit]

theorem point_of_isSizeLetter {b : UInt8} (h : isSizeLetter b) : b ≠ byteOf '.' := by
  rintro rfl
  exact absurd h (by decide)

/-- What is written without a size is an integer of the usual one. -/
theorem form_of_noSize {form : IntegerForm} {size : String} (hradix : form.radix = 10)
    (hsize : size ∈ form.suffixes) (hnone : textBytes size = []) : form = .i32 := by
  obtain rfl : size = "" := eq_of_textBytes (hnone.trans (by decide))
  exact form_of_size hradix hsize rfl (by decide)

/-- The size of an integer that goes on no further is the one that stands there. -/
theorem size_unique {form : IntegerForm} {size width : String} {letter : UInt8} {rest : List UInt8}
    (hradix : form.radix = 10) (hsize : size ∈ form.suffixes)
    (hsized : textBytes size = [] → Apart isSizeLetter rest) (hletter : isSizeLetter letter)
    (hwidth : width ∈ sizeWidths) (hfront : letter :: textBytes width <+: textBytes size ++ rest) :
    letter :: textBytes width = textBytes size := by
  rcases exists_of_size hradix hsize with hnone | ⟨letter', -, width', hwidth', hbytes⟩
  · have hstart := hsized hnone
    rw [hnone, List.nil_append] at hfront
    obtain ⟨more, rfl⟩ := hfront
    exact absurd hletter (Bool.eq_false_iff.1 hstart)
  · rw [hbytes, List.cons_append] at hfront
    obtain ⟨rfl, hmore⟩ := List.cons_prefix_cons.1 hfront
    rw [width_unique hwidth hwidth' hmore (List.prefix_append _ _), hbytes]

/-- The same of the size of a real. -/
theorem realSize_unique {form : RealForm} {size : String} {letter : UInt8} {rest more : List UInt8}
    (hsize : size ∈ form.suffixes) (hsized : textBytes size = [] → Apart isRealLetter rest)
    (hletter : isRealLetter letter) (hfront : letter :: more = textBytes size ++ rest) :
    [letter] = textBytes size := by
  rcases exists_of_realSize hsize with hnone | ⟨letter', -, hbytes⟩
  · have hstart := hsized hnone
    rw [hnone, List.nil_append] at hfront
    rw [← hfront] at hstart
    exact absurd hletter (Bool.eq_false_iff.1 hstart)
  · rw [hbytes] at hfront
    obtain ⟨rfl, -⟩ := List.cons.inj hfront
    exact hbytes.symm

/-- All ways in which a number can stand in front of a text that begins with digits. -/
theorem Numeral.front {kind : TokenKind} {text : String} {slice digits rest : List UInt8}
    (h : Numeral kind text slice) (hfront : slice <+: digits ++ rest)
    (hdigits : ∀ b ∈ digits, isDigit b) (hapart : Apart isDigit rest) :
    NumeralFront digits rest kind text slice := by
  -- Behind some of the digits there is none other, if something else stands there.
  have hwhole {some tail more : List UInt8} {b : UInt8} (hsome : ∀ b ∈ some, isDigit b)
      (hb : isDigit b = false) (heq : some ++ (b :: tail ++ more) = digits ++ rest) :
      some = digits ∧ b :: tail ++ more = rest :=
    run_unique hsome hdigits hb hapart heq
  cases h with
  | marked hradix hmark hne hdigits' => exact .marked hradix hmark hdigits' hfront
  | @integer form size some hradix hsize hne hsome =>
    obtain ⟨more, hmore⟩ := hfront
    rw [List.append_assoc] at hmore
    rcases exists_of_size hradix hsize with hnone | ⟨letter, hletter, width, hwidth, hbytes⟩
    · rw [hnone, List.nil_append] at hmore
      obtain ⟨others, hsplit, -⟩ := run_split hsome hapart hmore
      rw [hnone, List.append_nil, form_of_noSize hradix hsize hnone]
      exact .plain hsplit
    · have hmore' := hmore
      rw [hbytes] at hmore'
      obtain ⟨rfl, hrest⟩ := hwhole hsome (isDigit_of_isSizeLetter hletter) hmore'
      refine .sized hradix hsize hletter hwidth hbytes ⟨more, ?_⟩
      rw [hbytes]
      exact hrest
  | real hsize hne hsome hfraction =>
    obtain ⟨more, hmore⟩ := hfront
    rw [List.append_assoc] at hmore
    obtain ⟨rfl, hrest⟩ := hwhole hsome (by decide) hmore
    exact .real hsize hfraction ⟨more, hrest⟩

/-- Behind digits, a byte that is no letter of a radix keeps them from being a radix mark. -/
theorem unmarked_of_apart {digits rest : List UInt8} (hne : digits ≠ [])
    (hdigits : ∀ b ∈ digits, isDigit b) (hapart : Apart Takes.isRadixMark rest) :
    Unmarked (digits ++ rest) := by
  rintro form hradix mark hmark ⟨more, hmore⟩
  obtain ⟨letter, hbytes, hletter, -⟩ := exists_of_mark hradix hmark
  rw [hbytes] at hmore
  obtain ⟨first, others, rfl⟩ := List.exists_cons_of_ne_nil hne
  have hothers := Takes.digits_apart (fun b hb => hdigits b (List.mem_cons_of_mem _ hb)) hapart
  have htail : letter :: more = others ++ rest := (List.cons.inj hmore).2
  rw [← htail] at hothers
  exact absurd hletter (Bool.eq_false_iff.1 hothers)

namespace NumberRead

variable {kind kind' : TokenKind} {text text' : String} {slice slice' rest x : List UInt8}

/-- A point keeps digits from being a radix mark. -/
theorem unmarked_of_point {digits tail : List UInt8} (hne : digits ≠ [])
    (hdigits : ∀ b ∈ digits, isDigit b) : Unmarked (digits ++ byteOf '.' :: tail) :=
  unmarked_of_apart hne hdigits (by show Takes.isRadixMark (byteOf '.') = false; decide)

section Comparing

variable {others : List UInt8}

/-- Of two runs of digits, the one that goes on is the longer one. -/
theorem shorter_or_same (digits others : List UInt8) :
    digits.length < (digits ++ others).length ∨ others = [] := by
  cases others with
  | nil => exact .inr rfl
  | cons b others => exact .inl (by simp)

theorem compare_marked {form : IntegerForm} {mark : String} {digits : List UInt8}
    (hradix : form.radix ≠ 10) (hmark : mark ∈ form.marks) (hne : digits ≠ [])
    (hapart : Apart form.isDigit rest) (h' : Numeral kind' text' slice')
    (hfront : slice' <+: textBytes mark ++ digits ++ rest) :
    slice'.length < (textBytes mark ++ digits).length ∨
      (kind' = .integer form ∧ text' = asciiText digits ∧ slice' = textBytes mark ++ digits) := by
  obtain ⟨letter, hbytes, -, hletter, hpoint, hsize⟩ := exists_of_mark hradix hmark
  have hsplit : textBytes mark ++ digits ++ rest = [byteOf '0'] ++
      (letter :: (digits ++ rest)) := by
    rw [hbytes]
    rfl
  rw [hsplit] at hfront
  cases h'.front hfront zero_isDigit hletter with
  | @marked form' mark' digits' hradix' hmark' hdigits' hfront' =>
    rw [← hsplit, List.append_assoc] at hfront'
    obtain ⟨rfl, hsame⟩ := mark_unique hradix hmark hradix' hmark' (List.prefix_append _ _)
      ((List.prefix_append _ _).trans hfront')
    rw [← hsame] at hfront' ⊢
    obtain ⟨more, hmore⟩ := hfront'
    rw [List.append_assoc] at hmore
    obtain ⟨others, rfl, -⟩ := run_split hdigits' hapart (List.append_cancel_left hmore)
    rw [← List.append_assoc]
    rcases shorter_or_same (textBytes mark ++ digits') others with hlt | rfl
    · exact .inl hlt
    · rw [List.append_nil, List.append_nil]
      exact .inr ⟨rfl, rfl, rfl⟩
  | @plain _ others hsplit =>
    have hle := congrArg List.length hsplit
    have hpos := List.length_pos_iff.2 hne
    rw [hbytes]
    simp only [List.length_append, List.length_cons, List.length_nil] at hle ⊢
    omega
  | sized hradix' hsize' hletter' hwidth hbytes' hfront' =>
    rw [hbytes'] at hfront'
    obtain rfl := (List.cons_prefix_cons.1 hfront').1
    exact absurd hletter' (Bool.eq_false_iff.1 hsize)
  | real hsize' hfraction hfront' => exact absurd (List.cons_prefix_cons.1 hfront').1.symm hpoint

theorem compare_integer {form : IntegerForm} {size : String} {digits : List UInt8}
    (hradix : form.radix = 10) (hsize : size ∈ form.suffixes) (hdigits : ∀ b ∈ digits, isDigit b)
    (hunmarked : Unmarked (digits ++ (textBytes size ++ rest)))
    (hapart : Apart isDigit (textBytes size ++ rest))
    (hpoint : (textBytes size ++ rest)[0]?.getD endByte ≠ byteOf '.')
    (hsized : textBytes size = [] → Apart isSizeLetter rest) (h' : Numeral kind' text' slice')
    (hfront : slice' <+: digits ++ (textBytes size ++ rest)) :
    slice'.length < (digits ++ textBytes size).length ∨
      (kind' = .integer form ∧ text' = asciiText digits ∧ slice' = digits ++ textBytes size) := by
  cases h'.front hfront hdigits hapart with
  | marked hradix' hmark' hdigits' hfront' =>
    exact absurd ((List.prefix_append _ _).trans hfront') (hunmarked _ hradix' _ hmark')
  | @plain _ others hsplit =>
    rw [hsplit, List.append_assoc]
    rcases shorter_or_same slice' (others ++ textBytes size) with hlt | hnil
    · exact .inl hlt
    · obtain ⟨rfl, hnone⟩ := List.append_eq_nil_iff.1 hnil
      rw [hnone, form_of_noSize hradix hsize hnone, List.append_nil, List.append_nil]
      exact .inr ⟨rfl, rfl, rfl⟩
  | @sized form' size' width' letter' hradix' hsize' hletter' hwidth' hbytes' hfront' =>
    rw [hbytes'] at hfront'
    obtain rfl := eq_of_textBytes
      (hbytes'.trans (size_unique hradix hsize hsized hletter' hwidth' hfront'))
    rw [form_of_size hradix' hsize' hradix hsize]
    exact .inr ⟨rfl, rfl, rfl⟩
  | real hsize' hfraction hfront' =>
    obtain ⟨more, hmore⟩ := hfront'
    rw [← hmore] at hpoint
    exact absurd rfl hpoint

theorem compare_real {form : RealForm} {size : String} {whole fraction : List UInt8}
    (hsize : size ∈ form.suffixes) (hne : whole ≠ []) (hwhole : ∀ b ∈ whole, isDigit b)
    (hfraction : ∀ b ∈ fraction, isDigit b) (hapart : Apart isDigit (textBytes size ++ rest))
    (hsized : textBytes size = [] → Apart isRealLetter rest) (h' : Numeral kind' text' slice')
    (hfront : slice' <+: whole ++ byteOf '.' :: (fraction ++ (textBytes size ++ rest))) :
    slice'.length < (whole ++ byteOf '.' :: (fraction ++ textBytes size)).length ∨
      (kind' = .real form ∧ text' = asciiText (whole ++ byteOf '.' :: fraction) ∧
        slice' = whole ++ byteOf '.' :: (fraction ++ textBytes size)) := by
  have hpoint : Apart isDigit (byteOf '.' :: (fraction ++ (textBytes size ++ rest))) := rfl
  cases h'.front hfront hwhole hpoint with
  | marked hradix' hmark' hdigits' hfront' =>
    exact absurd ((List.prefix_append _ _).trans hfront')
      (unmarked_of_point hne hwhole _ hradix' _ hmark')
  | @plain _ others hsplit =>
    rw [hsplit]
    simp only [List.length_append, List.length_cons]
    omega
  | sized hradix' hsize' hletter' hwidth hbytes' hfront' =>
    rw [hbytes'] at hfront'
    exact absurd (List.cons_prefix_cons.1 hfront').1 (point_of_isSizeLetter hletter')
  | @real form' size' fraction' hsize' hfraction' hfront' =>
    obtain ⟨more, hmore⟩ := (List.cons_prefix_cons.1 hfront').2
    rw [List.append_assoc] at hmore
    obtain ⟨others, rfl, hrest⟩ := run_split hfraction' hapart hmore
    -- The one size is nothing, or it stands where the other one does.
    have hcases : textBytes size' = [] ∨ others = [] ∧ textBytes size' = textBytes size := by
      refine (exists_of_realSize hsize').imp_right fun ⟨letter, hletter, hbytes⟩ => ?_
      rw [hbytes] at hrest ⊢
      cases others with
      | nil => exact ⟨rfl, realSize_unique hsize hsized hletter hrest⟩
      | cons b others =>
        obtain ⟨rfl, -⟩ := List.cons.inj hrest
        have hdigit := hfraction letter (List.mem_append_right _ List.mem_cons_self)
        exact absurd hdigit (Bool.eq_false_iff.1 (isDigit_of_isRealLetter hletter))
    have hsame : (fraction' ++ textBytes size').length <
      (fraction' ++ others ++ textBytes size).length ∨
        others = [] ∧ textBytes size' = textBytes size := by
      rcases hcases with hnone | hsame
      · rw [hnone, List.append_nil, List.append_assoc]
        refine (shorter_or_same fraction' (others ++ textBytes size)).imp_right fun hnil => ?_
        exact (List.append_eq_nil_iff.1 hnil).imp_right Eq.symm
      · exact .inr hsame
    rcases hsame with hlt | ⟨rfl, hsame⟩
    · left
      rw [List.length_append, List.length_append, List.length_cons, List.length_cons]
      omega
    · right
      obtain rfl := eq_of_textBytes hsame
      rw [form_of_realSize hsize' hsize, List.append_nil]
      exact ⟨rfl, rfl, rfl⟩

end Comparing

/-- Any number that stands in front is shorter or the same. -/
theorem compare (h : NumberRead kind text slice rest) (h' : Numeral kind' text' slice')
    (hfront : slice' <+: slice ++ rest) :
    slice'.length < slice.length ∨ (kind' = kind ∧ text' = text ∧ slice' = slice) := by
  cases h with
  | marked hradix hmark hne hdigits hapart => exact compare_marked hradix hmark hne hapart h' hfront
  | integer hradix hsize hne hdigits hunmarked hapart hpoint hsized =>
    rw [List.append_assoc] at hfront
    exact compare_integer hradix hsize hdigits hunmarked hapart hpoint hsized h' hfront
  | real hsize hne hwhole hfraction hapart hsized =>
    rw [List.append_assoc, List.cons_append, List.append_assoc] at hfront
    exact compare_real hsize hne hwhole hfraction hapart hsized h' hfront

/-- No longer number stands there. -/
theorem longest (h : NumberRead kind text slice rest) (h' : Numeral kind' text' slice')
    (hfront : slice' <+: slice ++ rest) : slice'.length ≤ slice.length := by
  rcases h.compare h' hfront with hlt | ⟨-, -, rfl⟩
  · exact Nat.le_of_lt hlt
  · exact Nat.le_refl _

/-- What has been read is a number. -/
theorem numeral (h : NumberRead kind text slice rest) : Numeral kind text slice := by
  cases h with
  | marked hradix hmark hne hdigits hapart => exact .marked hradix hmark hne hdigits
  | integer hradix hsize hne hdigits hunmarked hapart hpoint hsized =>
    exact .integer hradix hsize hne hdigits
  | real hsize hne hwhole hfraction hapart hsized => exact .real hsize hne hwhole hfraction

/-- It begins with a radix mark, or with decimal digits that no mark begins with. -/
theorem front (h : NumberRead kind text slice rest) :
    (∃ form mark digits, form.radix ≠ 10 ∧ mark ∈ IntegerForm.marks form ∧
      kind = .integer form ∧ digits ≠ [] ∧ (∀ b ∈ digits, form.isDigit b) ∧
      slice ++ rest = textBytes mark ++ (digits ++ rest)) ∨
    ∃ digits tail, digits ≠ [] ∧ (∀ b ∈ digits, isDigit b) ∧ slice ++ rest = digits ++ tail ∧
      Apart isDigit tail ∧ Unmarked (digits ++ tail) ∧
      ((∃ form, kind = .real form) ∨ tail[0]?.getD endByte ≠ byteOf '.') ∧
      ∀ letter more, isSizeLetter letter → tail = letter :: more →
        ∃ width ∈ sizeWidths, textBytes width <+: more := by
  cases h with
  | @marked form mark digits rest hradix hmark hne hdigits hapart =>
    exact .inl ⟨form, mark, digits, hradix, hmark, rfl, hne, hdigits, List.append_assoc _ _ _⟩
  | @integer form size digits rest hradix hsize hne hdigits hunmarked hapart hpoint hsized =>
    refine .inr ⟨digits, textBytes size ++ rest, hne, hdigits, List.append_assoc _ _ _, hapart,
      hunmarked, .inr hpoint, ?_⟩
    intro letter more hletter heq
    rcases exists_of_size hradix hsize with hnone | ⟨letter', -, width, hwidth, hbytes⟩
    · have hstart := hsized hnone
      rw [hnone, List.nil_append] at heq
      rw [heq] at hstart
      exact absurd hletter (Bool.eq_false_iff.1 hstart)
    · rw [hbytes] at heq
      obtain ⟨-, rfl⟩ := List.cons.inj heq
      exact ⟨width, hwidth, List.prefix_append _ _⟩
  | @real form size whole fraction rest hsize hne hwhole hfraction hapart hsized =>
    refine .inr ⟨whole, byteOf '.' :: (fraction ++ (textBytes size ++ rest)), hne, hwhole, by simp,
      rfl, unmarked_of_point hne hwhole, .inl ⟨form, rfl⟩, ?_⟩
    intro letter more hletter heq
    obtain ⟨rfl, -⟩ := List.cons.inj heq
    exact absurd hletter (by decide)

/-- What has been read is not malformed. -/
theorem wellFormed (h : NumberRead kind text slice rest) : ¬MalformedNumber (slice ++ rest) := by
  intro hmalformed
  generalize hx : slice ++ rest = x at hmalformed
  rcases h.front with ⟨form, mark, digits, hradix, hmark, -, hne, hdigits, hsplit⟩ |
    ⟨digits, tail, hne, hdigits, hsplit, hapart, hunmarked, -, hsized⟩
  · obtain ⟨letter, hbytes, -, hletter, -, hsize⟩ := exists_of_mark hradix hmark
    rw [hsplit] at hx
    cases hmalformed with
    | @bare form' mark' tail hradix' hmark' htail =>
      obtain ⟨rfl, hsame⟩ := mark_unique hradix hmark hradix' hmark' (hx ▸ List.prefix_append _ _)
        (List.prefix_append _ _)
      rw [hsame] at hx
      obtain ⟨first, others, rfl⟩ := List.exists_cons_of_ne_nil hne
      rw [← List.append_cancel_left hx] at htail
      exact absurd (hdigits first List.mem_cons_self) (Bool.eq_false_iff.1 htail)
    | @unsized digits' tail letter' hne' hdigits' hletter' hwidth =>
      rw [hbytes] at hx
      have hfront : [byteOf '0'] ++ letter :: (digits ++ rest) = digits' ++ letter' :: tail := hx
      obtain ⟨-, hrest⟩ := run_unique zero_isDigit hdigits' (apart_cons hletter _)
        (apart_cons (isDigit_of_isSizeLetter hletter') _) hfront
      obtain ⟨rfl, -⟩ := List.cons.inj hrest
      exact absurd hletter' (Bool.eq_false_iff.1 hsize)
  · rw [hsplit] at hx
    cases hmalformed with
    | bare hradix' hmark' htail => exact hunmarked _ hradix' _ hmark' (hx ▸ List.prefix_append _ _)
    | unsized hne' hdigits' hletter' hwidth =>
      obtain ⟨-, rfl⟩ := run_unique hdigits hdigits' hapart
        (apart_cons (isDigit_of_isSizeLetter hletter') _) hx
      obtain ⟨width, hmem, hfront⟩ := hsized _ _ hletter' rfl
      exact hwidth width hmem hfront

/-- Behind a radix mark, a number of the radix is read. -/
theorem kind_of_mark (h : NumberRead kind text slice rest) {form : IntegerForm} {mark : String}
    (hradix : form.radix ≠ 10) (hmark : mark ∈ form.marks)
    (hfront : textBytes mark <+: slice ++ rest) :
    kind = .integer form := by
  rcases h.front with ⟨form', mark', digits, hradix', hmark', rfl, -, -, hsplit⟩ |
    ⟨digits, tail, -, -, hsplit, -, hunmarked, -, -⟩
  · rw [(mark_unique hradix hmark hradix' hmark' hfront (hsplit ▸ List.prefix_append _ _)).1]
  · exact absurd (hsplit ▸ hfront) (hunmarked form hradix mark hmark)

/-- Where a point is behind the digits, a real is read. -/
theorem kind_of_point (h : NumberRead kind text slice rest) {digits : List UInt8}
    (hdigits : ∀ b ∈ digits, isDigit b) (hfront : digits ++ [byteOf '.'] <+: slice ++ rest) :
    ∃ form, kind = .real form := by
  obtain ⟨more, hmore⟩ := hfront
  rw [List.append_assoc] at hmore
  have hpoint : Apart isDigit ([byteOf '.'] ++ more) := rfl
  rcases h.front with ⟨form, mark, digits', hradix, hmark, -, -, -, hsplit⟩ |
    ⟨digits', tail, -, hdigits', hsplit, hapart, -, hreal, -⟩
  · obtain ⟨letter, hbytes, -, hletter, hne, -⟩ := exists_of_mark hradix hmark
    rw [hsplit, hbytes] at hmore
    have hfront : digits ++ ([byteOf '.'] ++ more) = [byteOf '0'] ++ letter ::
        (digits' ++ rest) := hmore
    obtain ⟨-, hrest⟩ := run_unique hdigits zero_isDigit hpoint (apart_cons hletter _) hfront
    exact absurd (List.cons.inj hrest).1.symm hne
  · rw [hsplit] at hmore
    obtain ⟨-, rfl⟩ := run_unique hdigits hdigits' hpoint hapart hmore
    exact hreal.resolve_right fun h => h rfl

/-- A number that no byte of a number follows goes on no further. -/
theorem of_numeral (h : Numeral kind text slice) (hrest : Apart isNumberByte rest) :
    NumberRead kind text slice rest := by
  have hdigit (b : UInt8) (hb : isDigit b) : isNumberByte b := by
    simp [isNumberByte, isWordByte, hb]
  have hletter (b : UInt8) (hb : isSizeLetter b) : isNumberByte b := by
    grind [isSizeLetter, isNumberByte, isWordByte, isLetter]
  -- No class without the letters of sizes goes on behind a size.
  have hbehind {form : IntegerForm} {size : String} (hradix : form.radix = 10)
      (hsize : size ∈ form.suffixes) {inClass : UInt8 → Bool}
      (hclass : ∀ b, inClass b → isNumberByte b)
        (hletters : ∀ b, isSizeLetter b → inClass b = false) :
      Apart inClass (textBytes size ++ rest) := by
    rcases exists_of_size hradix hsize with hnone | ⟨letter, hletter, width, -, hbytes⟩
    · rw [hnone]
      exact hrest.mono hclass
    · rw [hbytes]
      exact hletters letter hletter
  cases h with
  | @marked form mark digits hradix hmark hne hdigits =>
    refine .marked hradix hmark hne hdigits (hrest.mono fun b hb => ?_)
    cases form <;> grind [IntegerForm.isDigit, isHexDigit, isBinaryDigit, isNumberByte, isWordByte,
      isLetter, ScriptFront.isDigit]
  | integer hradix hsize hne hdigits =>
    refine .integer hradix hsize hne hdigits ?_ ?_ ?_ fun _ => hrest.mono hletter
    · refine unmarked_of_apart hne hdigits (hbehind hradix hsize ?_ ?_)
      · exact fun b hb => Takes.isNumberByte_of_isRadixMark hb
      · grind [isSizeLetter, Takes.isRadixMark]
    · exact hbehind hradix hsize hdigit fun b hb => isDigit_of_isSizeLetter hb
    · have hpoint : Apart (fun b => b = byteOf '.') _ := hbehind hradix hsize
        (fun b hb => by simp [isNumberByte, of_decide_eq_true hb])
        (fun b hb => decide_eq_false (point_of_isSizeLetter hb))
      exact of_decide_eq_false hpoint
  | real hsize hne hwhole hfraction =>
    refine .real hsize hne hwhole hfraction ?_ fun _ => hrest.mono fun b hb => ?_
    · rcases exists_of_realSize hsize with hnone | ⟨letter, hletter, hbytes⟩
      · rw [hnone]
        exact hrest.mono hdigit
      · rw [hbytes]
        exact isDigit_of_isRealLetter hletter
    · grind [isRealLetter, isNumberByte, isWordByte, isLetter]

end NumberRead

/-- A number begins with a digit. -/
theorem Numeral.cons {kind : TokenKind} {text : String} {slice : List UInt8}
    (h : Numeral kind text slice) : ∃ b more, slice = b :: more ∧ isDigit b := by
  cases h with
  | marked hradix hmark hne hdigits =>
    obtain ⟨letter, hbytes, -⟩ := exists_of_mark hradix hmark
    rw [hbytes]
    exact ⟨_, _, rfl, by decide⟩
  | integer hradix hsize hne hdigits =>
    obtain ⟨b, more, rfl⟩ := List.exists_cons_of_ne_nil hne
    exact ⟨_, _, rfl, hdigits b List.mem_cons_self⟩
  | real hsize hne hwhole hfraction =>
    obtain ⟨b, more, rfl⟩ := List.exists_cons_of_ne_nil hne
    exact ⟨_, _, rfl, hwhole b List.mem_cons_self⟩

/-- What is written is one number. -/
theorem Numeral.unique {kind kind' : TokenKind} {text text' : String} {slice : List UInt8}
    (h : Numeral kind text slice) (h' : Numeral kind' text' slice) :
    kind' = kind ∧ text' = text := by
  have hend : Apart isNumberByte [] := rfl
  rcases (NumberRead.of_numeral h hend).compare h' (List.prefix_append slice []) with
    hlt | ⟨hkind, htext, -⟩
  · exact absurd hlt (Nat.lt_irrefl _)
  · exact ⟨hkind, htext⟩

end ScriptFront
