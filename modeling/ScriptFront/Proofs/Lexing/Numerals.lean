import ScriptFront.Proofs.Lexing.Spelling
import ScriptFront.Proofs.Writing.Quotations

/-!
# How numbers are written

The numbers are a regular language. Two things are no number and no shorter number either: a radix
mark without a digit behind it, and digits that a size should follow.

- `Numeral`: how numbers are written.
- `MalformedNumber`: what is no number.
- `run_split`, `run_unique`: where runs of a class end.
- `mark_unique`, `form_of_size`, `form_of_realSize`: marks and sizes tell the form of a number.
-/

namespace ScriptFront

open Walker

/-! ## How numbers are written -/

/-- The letters that the size of an integer begins with. -/
def isSizeLetter (b : UInt8) : Bool :=
  b = byteOf 'i' || b = byteOf 'I' || b = byteOf 'u' || b = byteOf 'U'

/-- The letters that mark the size of a real. -/
def isRealLetter (b : UInt8) : Bool := b = byteOf 'f' || b = byteOf 'F'

/-- How many bits an integer may have. -/
def sizeWidths : List String := ["8", "16", "32", "64"]

/-- The numbers: digits of another radix behind its mark; decimal digits, perhaps with a size behind
them; and decimal digits with a point, perhaps with digits and a size behind it. -/
inductive Numeral : TokenKind → String → List UInt8 → Prop where
  | marked {form : IntegerForm} {mark : String} {digits : List UInt8} (hradix : form.radix ≠ 10)
    (hmark : mark ∈ form.marks) (hne : digits ≠ []) (hdigits : ∀ b ∈ digits, form.isDigit b) :
    Numeral (.integer form) (asciiText digits) (textBytes mark ++ digits)
  | integer {form : IntegerForm} {size : String} {digits : List UInt8} (hradix : form.radix = 10)
    (hsize : size ∈ form.suffixes) (hne : digits ≠ []) (hdigits : ∀ b ∈ digits, isDigit b) :
    Numeral (.integer form) (asciiText digits) (digits ++ textBytes size)
  | real {form : RealForm} {size : String} {whole fraction : List UInt8}
    (hsize : size ∈ form.suffixes) (hne : whole ≠ []) (hwhole : ∀ b ∈ whole, isDigit b)
    (hfraction : ∀ b ∈ fraction, isDigit b) :
    Numeral (.real form) (asciiText (whole ++ byteOf '.' :: fraction))
      (whole ++ byteOf '.' :: (fraction ++ textBytes size))

/-- A radix mark with no digit of the radix behind it, or digits with the letter of a size behind
them that has no width. -/
inductive MalformedNumber : List UInt8 → Prop where
  | bare {form : IntegerForm} {mark : String} {tail : List UInt8} (hradix : form.radix ≠ 10)
    (hmark : mark ∈ form.marks) (htail : Apart form.isDigit tail) :
    MalformedNumber (textBytes mark ++ tail)
  | unsized {digits tail : List UInt8} {letter : UInt8} (hne : digits ≠ [])
    (hdigits : ∀ b ∈ digits, isDigit b) (hletter : isSizeLetter letter)
    (hwidth : ∀ width ∈ sizeWidths, ¬textBytes width <+: tail) :
    MalformedNumber (digits ++ letter :: tail)

/-! ## Runs of a class -/

section Runs

variable {inClass : UInt8 → Bool} {xs ys s t : List UInt8}

theorem apart_cons {b : UInt8} (hb : inClass b = false) (tail : List UInt8) :
    Apart inClass (b :: tail) := hb

/-- A run that goes as far as it can goes at least as far as any other one. -/
theorem run_split (hxs : ∀ b ∈ xs, inClass b) (ht : Apart inClass t) (h : xs ++ s = ys ++ t) :
    ∃ zs, ys = xs ++ zs ∧ s = zs ++ t := by
  rcases List.append_eq_append_iff.1 h with ⟨zs, hys, hs⟩ | ⟨zs, hzs, hrest⟩
  · exact ⟨zs, hys, hs⟩
  · cases zs with
    | nil => exact ⟨[], by rw [hzs, List.append_nil, List.append_nil], hrest.symm⟩
    | cons b zs =>
      have hb : inClass b := hxs b (hzs ▸ List.mem_append_right ys List.mem_cons_self)
      rw [hrest] at ht
      exact absurd hb (Bool.eq_false_iff.1 ht)

/-- Two runs that go as far as they can are the same. -/
theorem run_unique (hxs : ∀ b ∈ xs, inClass b) (hys : ∀ b ∈ ys, inClass b) (hs : Apart inClass s)
    (ht : Apart inClass t) (h : xs ++ s = ys ++ t) : xs = ys ∧ s = t := by
  obtain ⟨zs, rfl, rfl⟩ := run_split hxs ht h
  cases zs with
  | nil => exact ⟨(List.append_nil xs).symm, rfl⟩
  | cons b zs =>
    have hb : inClass b := hys b (List.mem_append_right xs List.mem_cons_self)
    exact absurd hb (Bool.eq_false_iff.1 hs)

/-- A byte that is read is in front, if it is not the one that is read behind the end. -/
theorem exists_of_getD {bytes : List UInt8} {b : UInt8} (h : bytes[0]?.getD endByte = b)
    (hb : b ≠ endByte) : ∃ tail, bytes = b :: tail := by
  cases bytes with
  | nil => exact absurd h.symm hb
  | cons c tail => exact ⟨tail, congrArg (· :: tail) h⟩

end Runs

/-! ## Marks and sizes -/

section Marks

variable {form form' : IntegerForm} {mark mark' size : String} {x : List UInt8}

theorem zero_isDigit : ∀ b ∈ [byteOf '0'], isDigit b := List.forall_mem_singleton.2 (by decide)

/-- A radix mark is a zero and a letter that no decimal number goes on with. -/
theorem exists_of_mark (hradix : form.radix ≠ 10) (hmark : mark ∈ form.marks) :
    ∃ letter, textBytes mark = [byteOf '0', letter] ∧ Takes.isRadixMark letter ∧
      isDigit letter = false ∧ letter ≠ byteOf '.' ∧ isSizeLetter letter = false := by
  have hall : ∀ form : IntegerForm, form.radix ≠ 10 → ∀ mark ∈ form.marks,
      textBytes mark = [byteOf '0', (textBytes mark)[1]?.getD endByte] ∧
        Takes.isRadixMark ((textBytes mark)[1]?.getD endByte) ∧
        isDigit ((textBytes mark)[1]?.getD endByte) = false ∧
        (textBytes mark)[1]?.getD endByte ≠ byteOf '.' ∧
        isSizeLetter ((textBytes mark)[1]?.getD endByte) = false := by
    intro form
    cases form <;> decide
  exact ⟨_, hall form hradix mark hmark⟩

/-- The radix is told by its mark. -/
theorem mark_unique (hradix : form.radix ≠ 10) (hmark : mark ∈ form.marks)
    (hradix' : form'.radix ≠ 10) (hmark' : mark' ∈ form'.marks) (hx : textBytes mark <+: x)
    (hx' : textBytes mark' <+: x) : form = form' ∧ textBytes mark = textBytes mark' := by
  obtain ⟨letter, hbytes, -⟩ := exists_of_mark hradix hmark
  obtain ⟨letter', hbytes', -⟩ := exists_of_mark hradix' hmark'
  have hlength : (textBytes mark).length = (textBytes mark').length := by rw [hbytes, hbytes']; rfl
  have hsame : textBytes mark = textBytes mark' :=
    (List.prefix_of_prefix_length_le hx hx' (Nat.le_of_eq hlength)).eq_of_length hlength
  refine ⟨?_, hsame⟩
  have hall : ∀ form form' : IntegerForm, form.radix ≠ 10 → form'.radix ≠ 10 → form ≠ form' →
      ∀ mark ∈ form.marks, ∀ mark' ∈ form'.marks, textBytes mark ≠ textBytes mark' := by
    intro form form'
    cases form <;> cases form' <;> decide
  refine Decidable.byContradiction fun hne => ?_
  exact hall form form' hradix hradix' hne mark hmark mark' hmark' hsame

/-- A size is nothing, or a letter and how many bits there are. -/
theorem exists_of_size (hradix : form.radix = 10) (hsize : size ∈ form.suffixes) :
    textBytes size = [] ∨ ∃ letter, isSizeLetter letter ∧
      ∃ width ∈ sizeWidths, textBytes size = letter :: textBytes width := by
  have hall : ∀ form : IntegerForm, form.radix = 10 → ∀ size ∈ form.suffixes,
      textBytes size = [] ∨ isSizeLetter ((textBytes size)[0]?.getD endByte) ∧
        ∃ width ∈ sizeWidths,
          textBytes size = (textBytes size)[0]?.getD endByte :: textBytes width := by
    intro form
    cases form <;> decide
  exact (hall form hradix size hsize).imp_right fun ⟨hletter, hwidth⟩ => ⟨_, hletter, hwidth⟩

/-- No size begins another one. -/
theorem width_unique {width width' : String} (h : width ∈ sizeWidths) (h' : width' ∈ sizeWidths)
    (hx : textBytes width <+: x) (hx' : textBytes width' <+: x) : width = width' := by
  have hall : ∀ a ∈ sizeWidths, ∀ b ∈ sizeWidths, textBytes a <+: textBytes b → a = b := by decide
  rcases Nat.le_total (textBytes width).length (textBytes width').length with hle | hle
  · exact hall _ h _ h' (List.prefix_of_prefix_length_le hx hx' hle)
  · exact (hall _ h' _ h (List.prefix_of_prefix_length_le hx' hx hle)).symm

/-- An integer is told by its size. -/
theorem form_of_size (hradix : form.radix = 10) (hsize : size ∈ form.suffixes)
    (hradix' : form'.radix = 10) (hsize' : size ∈ form'.suffixes) : form = form' := by
  have hall : ∀ form ∈ IntegerForm.all, ∀ form' ∈ IntegerForm.all, form.radix = 10 →
      form'.radix = 10 → ∀ size ∈ form.suffixes, size ∈ form'.suffixes → form = form' := by decide
  exact hall form form.mem_all form' form'.mem_all hradix hradix' size hsize hsize'

/-- The mark of a real's size is nothing or a letter. -/
theorem exists_of_realSize {form : RealForm} (hsize : size ∈ form.suffixes) :
    textBytes size = [] ∨ ∃ letter, isRealLetter letter ∧ textBytes size = [letter] := by
  have hall : ∀ form : RealForm, ∀ size ∈ form.suffixes, textBytes size = [] ∨
      isRealLetter ((textBytes size)[0]?.getD endByte) ∧
        textBytes size = [(textBytes size)[0]?.getD endByte] := by
    intro form
    cases form <;> decide
  exact (hall form size hsize).imp_right fun ⟨hletter, hbytes⟩ => ⟨_, hletter, hbytes⟩

theorem form_of_realSize {form form' : RealForm} (hsize : size ∈ form.suffixes)
    (hsize' : size ∈ form'.suffixes) : form = form' := by
  have hall : ∀ form ∈ RealForm.all, ∀ form' ∈ RealForm.all,
      ∀ size ∈ form.suffixes, size ∈ form'.suffixes → form = form' := by decide
  exact hall form form.mem_all form' form'.mem_all size hsize hsize'

end Marks

/-- A text is told by its bytes. -/
theorem eq_of_textBytes {a b : String} (h : textBytes a = textBytes b) : a = b := by
  have hdecode := decode?_textBytes a
  rw [h, decode?_textBytes] at hdecode
  exact (Option.some.inj hdecode).symm

end ScriptFront
