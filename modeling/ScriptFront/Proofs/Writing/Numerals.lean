import ScriptFront.Proofs.Writing.Relexing
import ScriptFront.Text.Digits

/-!
# Numbers that were written

A number is written with decimal digits, and these mean the number again.

- `Digits.read?_toString`: what was written is read.
- `isInteger_toString`: it is written as an integer.
-/

namespace ScriptFront

/-- A decimal digit is worth as much as it is for the standard library. -/
theorem Digits.worth?_digit {c : Char} (h : c.isDigit) :
    Digits.worth? c = some (c.toNat - '0'.toNat) := by
  have hbounds : ('0' ≤ c && c ≤ '9') = true := by
    simpa [Char.isDigit, Char.le_def] using h
  rw [Digits.worth?, if_pos hbounds]

theorem Digits.digit_lt {c : Char} (h : c.isDigit) : c.toNat - '0'.toNat < 10 := by
  simp only [Char.isDigit, Bool.and_eq_true, decide_eq_true_eq, ge_iff_le,
    UInt32.le_iff_toNat_le] at h
  have hzero : '0'.toNat = 48 := rfl
  have hnine : ('9' : Char).val.toNat = 57 := rfl
  have hc : c.val.toNat = c.toNat := rfl
  omega

theorem Digits.ofChars?_digits {chars : List Char} (h : ∀ c ∈ chars, c.isDigit) :
    Digits.ofChars? 10 chars = some (chars.map fun c => c.toNat - '0'.toNat) := by
  induction chars with
  | nil => rfl
  | cons c chars ih =>
    have hc := h c List.mem_cons_self
    have hmore := ih fun c hc => h c (List.mem_cons_of_mem _ hc)
    rw [Digits.ofChars?, Digits.worth?_digit hc, hmore]
    exact if_pos (Digits.digit_lt hc)

/-- A written number means itself. -/
theorem Digits.read?_toString (n : Nat) : Digits.read? 10 (toString n) = some n := by
  have hdigits : ∀ c ∈ Nat.toDigits 10 n, c.isDigit := fun c hc =>
    Nat.isDigit_of_mem_toDigits (by decide) (by decide) hc
  have hvalue : Digits.value 10 ((Nat.toDigits 10 n).map fun c => c.toNat - '0'.toNat) = n := by
    rw [Digits.value, List.foldl_map]
    simp only [Nat.mul_comm _ 10]
    exact Nat.ofDigitChars_eq_foldl.symm.trans Nat.ofDigitChars_ten_toDigits
  rw [Digits.read?, Nat.toString_eq_ofList_toDigits, String.toList_ofList,
    Digits.ofChars?_digits hdigits]
  cases hchars : Nat.toDigits 10 n with
  | nil => exact absurd hchars Nat.toDigits_ne_nil
  | cons c chars =>
    rw [hchars] at hvalue
    exact congrArg some hvalue

/-- A number is written as an integer of the usual size. -/
theorem isInteger_toString (n : Nat) : IsInteger .i32 (toString n) := by
  have hdigits : ∀ c ∈ Nat.toDigits 10 n, 48 ≤ c.toNat ∧ c.toNat ≤ 57 := by
    intro c hc
    have hdigit : c.isDigit := Nat.isDigit_of_mem_toDigits (by decide) (by decide) hc
    simp only [Char.isDigit, Bool.and_eq_true, decide_eq_true_eq, ge_iff_le,
      UInt32.le_iff_toNat_le] at hdigit
    exact hdigit
  -- Each digit is an ASCII character, so its byte tells it.
  have hbyte : ∀ c ∈ Nat.toDigits 10 n, (UInt8.ofNat c.toNat).toNat = c.toNat := by
    intro c hc
    have hbound := hdigits c hc
    exact UInt8.toNat_ofNat_of_lt' (Nat.lt_of_le_of_lt hbound.2 (by decide))
  have htext : ((Nat.toDigits 10 n).map fun c => UInt8.ofNat c.toNat).map
      (fun byte => Char.ofNat byte.toNat) = Nat.toDigits 10 n := by
    rw [List.map_map, List.map_congr_left fun c hc => ?_, List.map_id]
    rw [Function.comp_apply, hbyte c hc, Char.ofNat_toNat]
    rfl
  refine ⟨(Nat.toDigits 10 n).map fun c => UInt8.ofNat c.toNat, by simp, ?_, ?_⟩
  · rw [asciiText, htext]
    exact Nat.toString_eq_ofList_toDigits
  · intro b hb
    obtain ⟨c, hc, rfl⟩ := List.mem_map.1 hb
    simp only [IntegerForm.isDigit, ScriptFront.isDigit, Bool.and_eq_true, decide_eq_true_eq,
      UInt8.le_iff_toNat_le, hbyte c hc]
    exact hdigits c hc

end ScriptFront
