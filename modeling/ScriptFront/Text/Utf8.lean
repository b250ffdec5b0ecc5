import ScriptFront.Source.Buffer

/-!
# Text in bytes

How characters lie in bytes (UTF-8), as far as the front end needs it.

- `Utf8.width`: how many bytes the first byte of a character announces.
- `Utf8.decode?`: the text of bytes that are well formed.
- `Utf8.decodeLossy`: the text of any bytes; each longest run that begins a character but does not
  finish it becomes one replacement character.
-/

namespace ScriptFront

namespace Utf8

/-- How many bytes a character takes that starts with `lead`. A byte that starts no character
counts as one. -/
def width (lead : UInt8) : Nat :=
  if 0xC0 ≤ lead && lead ≤ 0xDF then 2
  else if 0xE0 ≤ lead && lead ≤ 0xEF then 3
  else if 0xF0 ≤ lead && lead ≤ 0xF7 then 4
  else 1

theorem width_le (lead : UInt8) : width lead ≤ 4 := by
  unfold width
  split
  · decide
  · split
    · decide
    · split
      · decide
      · decide

/-- The text that the bytes encode, if they are well formed. -/
def decode? (bytes : Bytes) : Option String := String.fromUTF8? ⟨bytes⟩

/-- The ranges of the bytes behind a first byte, or none if no character starts with it. -/
def followers (lead : UInt8) : Option (List (UInt8 × UInt8)) :=
  let tail := (0x80, 0xBF)
  if lead < 0x80 then some []
  else if 0xC2 ≤ lead && lead ≤ 0xDF then some [tail]
  else if lead = 0xE0 then some [(0xA0, 0xBF), tail]
  else if lead = 0xED then some [(0x80, 0x9F), tail]
  else if 0xE1 ≤ lead && lead ≤ 0xEF then some [tail, tail]
  else if lead = 0xF0 then some [(0x90, 0xBF), tail, tail]
  else if 0xF1 ≤ lead && lead ≤ 0xF3 then some [tail, tail, tail]
  else if lead = 0xF4 then some [(0x80, 0x8F), tail, tail]
  else none

/-- The bytes in front of `bytes` that lie in the ranges, one for each range, as far as that
goes. -/
def takeInRanges : List (UInt8 × UInt8) → List UInt8 → List UInt8
  | (low, high) :: ranges, byte :: bytes =>
    if low ≤ byte && byte ≤ high then byte :: takeInRanges ranges bytes else []
  | _, _ => []

/-- The character that a first byte and the bytes behind it encode. -/
def assemble (lead : UInt8) (tail : List UInt8) : Char :=
  let mask := match tail.length with
    | 0 => 128
    | 1 => 32
    | 2 => 16
    | _ => 8
  Char.ofNat (tail.foldl (fun value byte => value * 64 + byte.toNat % 64) (lead.toNat % mask))

/-- What stands for bytes that encode no character. -/
def replacement : Char := '\uFFFD'

/-- The first character of a text and how many bytes behind the first byte belong to it. -/
def first (lead : UInt8) (rest : List UInt8) : Char × Nat :=
  match followers lead with
  | none => (replacement, 0)
  | some ranges =>
    let tail := takeInRanges ranges rest
    (if tail.length = ranges.length then assemble lead tail else replacement, tail.length)

/-- The characters of a text; bytes that encode none are replaced. -/
def decodeLossy : List UInt8 → List Char
  | [] => []
  | lead :: rest =>
    let (c, used) := first lead rest
    c :: decodeLossy (rest.drop used)
termination_by bytes => bytes.length
decreasing_by
  rw [List.length_drop, List.length_cons]
  exact Nat.lt_succ_of_le (Nat.sub_le _ _)

end Utf8

end ScriptFront
