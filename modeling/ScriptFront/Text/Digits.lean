/-!
# Numbers in text

- `Digits.value`: the number that a row of digits means in a radix.
- `Digits.read?`: the same of a text, if it is a row of at least one digit of the radix.
-/

namespace ScriptFront

namespace Digits

/-- What a character is worth as a digit, if it is one in some radix up to sixteen. -/
def worth? (c : Char) : Option Nat :=
  if '0' ≤ c && c ≤ '9' then some (c.toNat - '0'.toNat)
  else if 'a' ≤ c && c ≤ 'f' then some (c.toNat - 'a'.toNat + 10)
  else if 'A' ≤ c && c ≤ 'F' then some (c.toNat - 'A'.toNat + 10)
  else none

/-- The number that digits mean, the first one worth most. -/
def value (radix : Nat) (digits : List Nat) : Nat :=
  digits.foldl (fun n digit => n * radix + digit) 0

/-- The digits of a text, if it consists of digits of the radix. -/
def ofChars? (radix : Nat) : List Char → Option (List Nat)
  | [] => some []
  | c :: cs => do
    let digit ← worth? c
    if digit < radix then return digit :: (← ofChars? radix cs) else none

/-- The number that a text of at least one digit means. -/
def read? (radix : Nat) (text : String) : Option Nat :=
  match ofChars? radix text.toList with
  | some [] | none => none
  | some digits => some (value radix digits)

theorem value_concat (radix : Nat) (digits : List Nat) (digit : Nat) :
    value radix (digits ++ [digit]) = value radix digits * radix + digit := by
  simp [value]

end Digits

end ScriptFront
