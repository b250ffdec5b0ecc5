import ScriptFront.Text.Utf8

/-!
# Binary values

Stored files hold numbers of fixed width, lowest byte first; a text or list starts with its length
in eight bytes, a choice with its number in four, an optional part with one byte that tells whether
it is there.

- `littleEndian`: a number in bytes; `ofLittleEndian` is its inverse below `capacity`.
- `Decode α`: read an `α` from the front of some bytes, which leaves the others.
-/

namespace ScriptFront

/-- The `width` lowest bytes of a number, lowest first. -/
def littleEndian : (width : Nat) → (value : Nat) → List UInt8
  | 0, _ => []
  | width + 1, value => UInt8.ofNat value :: littleEndian width (value / 256)

/-- The number that bytes stand for, lowest first. -/
def ofLittleEndian : List UInt8 → Nat
  | [] => 0
  | byte :: rest => byte.toNat + 256 * ofLittleEndian rest

/-- How many numbers `width` bytes can stand for. -/
def capacity : (width : Nat) → Nat
  | 0 => 1
  | width + 1 => 256 * capacity width

theorem length_littleEndian (width value : Nat) : (littleEndian width value).length = width := by
  induction width generalizing value with
  | zero => rfl
  | succ width ih => simp [littleEndian, ih]

theorem ofLittleEndian_littleEndian {width value : Nat} (h : value < capacity width) :
    ofLittleEndian (littleEndian width value) = value := by
  induction width generalizing value with
  | zero => exact (Nat.lt_one_iff.mp h).symm
  | succ width ih =>
    have small : value / 256 < capacity width := Nat.div_lt_of_lt_mul h
    rw [littleEndian, ofLittleEndian, ih small]
    exact Nat.mod_add_div value 256

/-! ## Reading -/

/-- Read an `α` from the front of some bytes. -/
abbrev Decode (α : Type) := StateT (List UInt8) Option α

namespace Decode

variable {α : Type}

/-- The first `count` bytes. -/
def take : (count : Nat) → Decode (List UInt8)
  | 0, bytes => some ([], bytes)
  | _ + 1, [] => none
  | count + 1, byte :: bytes => (take count bytes).map fun (front, rest) => (byte :: front, rest)

theorem take_append (front rest : List UInt8) :
    take front.length (front ++ rest) = some (front, rest) := by
  induction front with
  | nil => rfl
  | cons byte front ih => simp [take, ih]

/-- A number in `width` bytes. -/
def number (width : Nat) : Decode Nat := return ofLittleEndian (← take width)

/-- The width of the number of a choice, and of lines and columns. -/
def shortWidth : Nat := 4

/-- The width of lengths and of numbers in trees. -/
def longWidth : Nat := 8

/-- Yes or no. -/
def flag : Decode Bool := do
  match ← number 1 with
  | 0 => return false
  | 1 => return true
  | _ => failure

/-- A text. -/
def text : Decode String := do
  let bytes ← take (← number longWidth)
  (Utf8.decode? bytes.toArray).elim failure pure

/-- Several items, one after the other. -/
def times (item : Decode α) : (count : Nat) → Decode (List α)
  | 0 => return []
  | count + 1 => do
    let first ← item
    return first :: (← times item count)

/-- A list. -/
def list (item : Decode α) : Decode (List α) := do
  times item (← number longWidth)

/-- An optional part. -/
def option (part : Decode α) : Decode (Option α) := do
  if ← flag then return some (← part) else return none

/-- A value of a finite type by its number in the list of all values. -/
def oneOf (all : List α) : Decode α := do
  all[← number shortWidth]?.elim failure pure

/-- The number of a choice, with what is to be read for it. -/
def choice (read : Nat → Decode α) : Decode α := do read (← number shortWidth)

end Decode

end ScriptFront
