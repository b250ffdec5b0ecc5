import ScriptFront.Binary.Basic
import ScriptFront.Datum.Basic

/-!
# Data in bytes

`Datum.bytesOnto d rest` puts the bytes of `d` before `rest`. Names are left out: who reads the
bytes knows which fields follow one another.
-/

namespace ScriptFront

/-- A number of four bytes before `rest`. -/
def shortOnto (value : Nat) (rest : List UInt8) : List UInt8 :=
  littleEndian Decode.shortWidth value ++ rest

/-- A number of eight bytes before `rest`. -/
def longOnto (value : Nat) (rest : List UInt8) : List UInt8 :=
  littleEndian Decode.longWidth value ++ rest

/-- A text with its length before `rest`. -/
def textOnto (text : String) (rest : List UInt8) : List UInt8 :=
  let bytes := utf8Bytes text
  longOnto bytes.size (bytes.toList ++ rest)

mutual

/-- The bytes of a datum before `rest`. -/
def Datum.bytesOnto : Datum → List UInt8 → List UInt8
  | .flag value, rest => (if value then 1 else 0) :: rest
  | .number value, rest => longOnto value rest
  | .text value, rest => textOnto value rest
  | .position pos, rest => shortOnto pos.line.toNat (shortOnto pos.column.toNat rest)
  | .list items, rest => longOnto items.length (Datum.itemsOnto items rest)
  | .absent, rest => 0 :: rest
  | .present value, rest => 1 :: value.bytesOnto rest
  | .record fields, rest => Datum.fieldsOnto fields rest
  | .choice index _, rest => shortOnto index rest
  | .choiceOf index _ payload, rest => shortOnto index (payload.bytesOnto rest)

/-- The bytes of data, one after the other, before `rest`. -/
def Datum.itemsOnto : List Datum → List UInt8 → List UInt8
  | [], rest => rest
  | item :: items, rest => item.bytesOnto (Datum.itemsOnto items rest)

/-- The bytes of the fields of a record before `rest`. -/
def Datum.fieldsOnto : List Field → List UInt8 → List UInt8
  | [], rest => rest
  | ⟨_, value⟩ :: fields, rest => value.bytesOnto (Datum.fieldsOnto fields rest)

end

/-- The bytes of a datum. -/
def Datum.bytes (d : Datum) : Bytes := (d.bytesOnto []).toArray

end ScriptFront
