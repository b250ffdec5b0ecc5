import ScriptFront.Binary.Write
import ScriptFront.Proofs.Writing.Lexemes

/-!
# What is stored can be read again

Reading the bytes of a datum gives back what the datum stands for, and leaves what is behind it,
provided that all numbers and lengths in it fit into the bytes that they are stored in. There is one
rule for each way to store something, in the order of the fields.

- `Datum.fits`: whether the numbers and lengths fit.
- `Datum.size`: how many bytes there are.
- `Decode.Recovers`: reading gives a value back. `Decode.Reads`: reading gives all values of a type
  back.
- `Decode.Lossless`: what follows for the bytes of a type: they are never the same for two values,
  and never the beginning of those of another one.
-/

namespace ScriptFront

open Decode (shortWidth longWidth)

/-! ## Sizes -/

mutual

/-- Whether all numbers and lengths in a datum fit into the bytes that they are stored in. -/
def Datum.fits : Datum → Bool
  | .flag _ => true
  | .number value => value < capacity longWidth
  | .text value => (utf8Bytes value).size < capacity longWidth
  | .position _ => true
  | .list items => items.length < capacity longWidth && Datum.itemsFit items
  | .absent => true
  | .present value => value.fits
  | .record fields => Datum.fieldsFit fields
  | .choice _ _ => true
  | .choiceOf _ _ payload => payload.fits

/-- Whether those of several data do. -/
def Datum.itemsFit : List Datum → Bool
  | [] => true
  | item :: items => item.fits && Datum.itemsFit items

/-- Whether those of the fields of a record do. -/
def Datum.fieldsFit : List Field → Bool
  | [] => true
  | ⟨_, value⟩ :: fields => value.fits && Datum.fieldsFit fields

end

mutual

/-- How many bytes a datum takes. -/
def Datum.size : Datum → Nat
  | .flag _ => 1
  | .number _ => longWidth
  | .text value => longWidth + (utf8Bytes value).size
  | .position _ => shortWidth + shortWidth
  | .list items => longWidth + Datum.itemsSize items
  | .absent => 1
  | .present value => value.size + 1
  | .record fields => Datum.fieldsSize fields
  | .choice _ _ => shortWidth
  | .choiceOf _ _ payload => shortWidth + payload.size

/-- How many bytes several data take. -/
def Datum.itemsSize : List Datum → Nat
  | [] => 0
  | item :: items => item.size + Datum.itemsSize items

/-- How many bytes the fields of a record take. -/
def Datum.fieldsSize : List Field → Nat
  | [] => 0
  | ⟨_, value⟩ :: fields => value.size + Datum.fieldsSize fields

end

theorem length_shortOnto (value : Nat) (rest : List UInt8) :
    (shortOnto value rest).length = shortWidth + rest.length := by
  rw [shortOnto, List.length_append, length_littleEndian]

theorem length_longOnto (value : Nat) (rest : List UInt8) :
    (longOnto value rest).length = longWidth + rest.length := by
  rw [longOnto, List.length_append, length_littleEndian]

theorem length_textOnto (text : String) (rest : List UInt8) :
    (textOnto text rest).length = longWidth + (utf8Bytes text).size + rest.length := by
  rw [textOnto, length_longOnto, List.length_append, Array.length_toList, Nat.add_assoc]

mutual

theorem Datum.length_bytesOnto (d : Datum) (rest : List UInt8) :
    (d.bytesOnto rest).length = d.size + rest.length := by
  cases d with
  | flag value => rw [bytesOnto, size, List.length_cons, Nat.add_comm]
  | number value => rw [bytesOnto, size, length_longOnto]
  | text value => rw [bytesOnto, size, length_textOnto]
  | position pos => rw [bytesOnto, size, length_shortOnto, length_shortOnto, Nat.add_assoc]
  | list items => rw [bytesOnto, size, length_longOnto, length_itemsOnto, Nat.add_assoc]
  | absent => rw [bytesOnto, size, List.length_cons, Nat.add_comm]
  | present value =>
    rw [bytesOnto, size, List.length_cons, length_bytesOnto value, Nat.add_right_comm]
  | record fields => rw [bytesOnto, size, length_fieldsOnto]
  | choice index name => rw [bytesOnto, size, length_shortOnto]
  | choiceOf index name payload =>
    rw [bytesOnto, size, length_shortOnto, length_bytesOnto payload, Nat.add_assoc]

theorem Datum.length_itemsOnto (items : List Datum) (rest : List UInt8) :
    (Datum.itemsOnto items rest).length = Datum.itemsSize items + rest.length := by
  cases items with
  | nil => rw [itemsOnto, itemsSize, Nat.zero_add]
  | cons item items =>
    rw [itemsOnto, itemsSize, length_bytesOnto item, length_itemsOnto items, Nat.add_assoc]

theorem Datum.length_fieldsOnto (fields : List Field) (rest : List UInt8) :
    (Datum.fieldsOnto fields rest).length = Datum.fieldsSize fields + rest.length := by
  cases fields with
  | nil => rw [fieldsOnto, fieldsSize, Nat.zero_add]
  | cons field fields =>
    obtain ⟨name, value⟩ := field
    rw [fieldsOnto, fieldsSize, length_bytesOnto value, length_fieldsOnto fields, Nat.add_assoc]

end

mutual

/-- What is behind a datum is left as it is. -/
theorem Datum.bytesOnto_append (d : Datum) (front rest : List UInt8) :
    d.bytesOnto front ++ rest = d.bytesOnto (front ++ rest) := by
  cases d with
  | flag value => rfl
  | number value => exact List.append_assoc _ _ _
  | text value =>
    rw [bytesOnto, bytesOnto, textOnto, textOnto, longOnto, longOnto, List.append_assoc,
      List.append_assoc]
  | position pos =>
    rw [bytesOnto, bytesOnto, shortOnto, shortOnto, shortOnto, shortOnto, List.append_assoc,
      List.append_assoc]
  | list items =>
    rw [bytesOnto, bytesOnto, longOnto, longOnto, List.append_assoc, itemsOnto_append]
  | absent => rfl
  | present value => rw [bytesOnto, bytesOnto, List.cons_append, bytesOnto_append value]
  | record fields => rw [bytesOnto, bytesOnto, fieldsOnto_append]
  | choice index name => exact List.append_assoc _ _ _
  | choiceOf index name payload =>
    rw [bytesOnto, bytesOnto, shortOnto, shortOnto, List.append_assoc, bytesOnto_append payload]

theorem Datum.itemsOnto_append (items : List Datum) (front rest : List UInt8) :
    Datum.itemsOnto items front ++ rest = Datum.itemsOnto items (front ++ rest) := by
  cases items with
  | nil => rfl
  | cons item items =>
    rw [itemsOnto, itemsOnto, bytesOnto_append item, itemsOnto_append items]

theorem Datum.fieldsOnto_append (fields : List Field) (front rest : List UInt8) :
    Datum.fieldsOnto fields front ++ rest = Datum.fieldsOnto fields (front ++ rest) := by
  cases fields with
  | nil => rfl
  | cons field fields =>
    obtain ⟨name, value⟩ := field
    rw [fieldsOnto, fieldsOnto, bytesOnto_append value, fieldsOnto_append fields]

end

theorem Datum.toList_bytes_append (d : Datum) (rest : List UInt8) :
    d.bytes.toList ++ rest = d.bytesOnto rest := by
  rw [Datum.bytes, bytesOnto_append]
  rfl

namespace Decode

variable {α β : Type} {bound : Nat}

/-! ## Reading, part by part -/

theorem run_bind_some {x : Decode α} {f : α → Decode β} {bytes rest : List UInt8} {a : α}
    (h : x.run bytes = some (a, rest)) : (x >>= f).run bytes = (f a).run rest := by
  rw [StateT.run_bind, h]
  rfl

theorem run_number {width value : Nat} (h : value < capacity width) (rest : List UInt8) :
    (number width).run (littleEndian width value ++ rest) = some (value, rest) := by
  have htake : (take width).run (littleEndian width value ++ rest) =
      some (littleEndian width value, rest) := by
    have happend := take_append (littleEndian width value) rest
    rw [length_littleEndian] at happend
    exact happend
  rw [number, run_bind_some htake, ofLittleEndian_littleEndian h]
  rfl

theorem run_flag (value : Bool) (rest : List UInt8) :
    flag.run ((if value then 1 else 0) :: rest) = some (value, rest) := by
  cases value <;> rfl

theorem run_text {value : String} (h : (utf8Bytes value).size < capacity longWidth)
    (rest : List UInt8) : text.run (textOnto value rest) = some (value, rest) := by
  have htake : (take (utf8Bytes value).size).run ((utf8Bytes value).toList ++ rest) =
      some ((utf8Bytes value).toList, rest) := by
    rw [← Array.length_toList]
    exact take_append _ rest
  rw [text, textOnto, longOnto, run_bind_some (run_number h _), run_bind_some htake]
  have hdecode : Utf8.decode? (utf8Bytes value).toList.toArray = some value :=
    decode?_textBytes value
  rw [hdecode]
  rfl

/-! ## Values -/

/-- If everything in the datum fits and it takes at most `bound` bytes, reading it gives the value
back and leaves what is behind it. -/
def Recovers (bound : Nat) (read : Decode α) (a : α) (d : Datum) : Prop :=
  d.fits = true → d.size ≤ bound → ∀ rest, read.run (d.bytesOnto rest) = some (a, rest)

/-- The same of the fields of a record, one after the other. -/
def RecoversFields (bound : Nat) (read : Decode α) (a : α) (fields : List Field) : Prop :=
  Datum.fieldsFit fields = true → Datum.fieldsSize fields ≤ bound →
    ∀ rest, read.run (Datum.fieldsOnto fields rest) = some (a, rest)

/-- All values of a type are given back that take at most `bound` bytes. -/
def Reads (bound : Nat) (read : Decode α) (datum : α → Datum) : Prop :=
  ∀ a, Recovers bound read a (datum a)

namespace Recovers

theorem record {read : Decode α} {a : α} {fields : List Field}
    (h : RecoversFields bound read a fields) : Recovers bound read a (.record fields) := h

/-- Where the bytes are counted before they are read, there are at least those of the datum. -/
theorem ofBytes {f : List UInt8 → Decode α} {a : α} {d : Datum}
    (h : ∀ bytes, d.size ≤ bytes.length → Recovers bound (f bytes) a d) :
    Recovers bound (get >>= f) a d := by
  intro hfits hsize rest
  have hget : (get : Decode (List UInt8)).run (d.bytesOnto rest) =
      some (d.bytesOnto rest, d.bytesOnto rest) := rfl
  rw [run_bind_some hget]
  refine h _ ?_ hfits hsize rest
  rw [d.length_bytesOnto]
  exact Nat.le_add_right _ _

theorem choice {read : Nat → Decode α} {a : α} {index : Nat} {name : String}
    (hindex : index < capacity shortWidth) (h : read index = pure a) :
    Recovers bound (Decode.choice read) a (.choice index name) := by
  intro _ _ rest
  rw [Decode.choice, Datum.bytesOnto, shortOnto, run_bind_some (run_number hindex rest), h]
  rfl

theorem choiceOf {read : Nat → Decode α} {a : α} {index : Nat} {name : String} {payload : Datum}
    (hindex : index < capacity shortWidth) (h : Recovers bound (read index) a payload) :
    Recovers bound (Decode.choice read) a (.choiceOf index name payload) := by
  intro hfits hsize rest
  rw [Datum.size] at hsize
  rw [Decode.choice, Datum.bytesOnto, shortOnto, run_bind_some (run_number hindex _)]
  exact h hfits (by omega) rest

/-- What is made of a value. -/
theorem map {read : Decode α} {a : α} {d : Datum} (h : Recovers bound read a d) (f : α → β) :
    Recovers bound (do return f (← read)) (f a) d := by
  intro hfits hsize rest
  rw [run_bind_some (h hfits hsize rest)]
  rfl

end Recovers

namespace RecoversFields

theorem done (a : α) : RecoversFields bound (pure a) a [] := fun _ _ _ => rfl

/-- A field, and the fields behind it. -/
theorem cons {x : Decode α} {f : α → Decode β} {a : α} {b : β} {name : String} {d : Datum}
    {fields : List Field} (h : Recovers bound x a d)
    (hfields : RecoversFields bound (f a) b fields) :
    RecoversFields bound (x >>= f) b (⟨name, d⟩ :: fields) := by
  intro hfits hsize rest
  rw [Datum.fieldsFit, Bool.and_eq_true] at hfits
  rw [Datum.fieldsSize] at hsize
  rw [Datum.fieldsOnto, run_bind_some (h hfits.1 (by omega) _)]
  exact hfields hfits.2 (by omega) rest

end RecoversFields

namespace Reads

theorem mono {bound' : Nat} {read : Decode α} {datum : α → Datum} (h : Reads bound read datum)
    (hle : bound' ≤ bound) : Reads bound' read datum :=
  fun a hfits hsize => h a hfits (Nat.le_trans hsize hle)

theorem flag : Reads bound Decode.flag .flag := fun value _ _ rest => run_flag value rest

theorem number : Reads bound (Decode.number longWidth) .number :=
  fun _ hfits _ rest => run_number (of_decide_eq_true hfits) rest

theorem text : Reads bound Decode.text .text :=
  fun _ hfits _ rest => run_text (of_decide_eq_true hfits) rest

/-- A value of a finite type. -/
theorem oneOf [BEq α] [LawfulBEq α] {all : List α} {name : α → String}
    (hall : ∀ a, a ∈ all) (hlength : all.length < capacity shortWidth) :
    Reads bound (Decode.oneOf all) (.ofAll all name) := by
  intro a _ _ rest
  have hlt : all.idxOf a < all.length := List.idxOf_lt_length_of_mem (hall a)
  have hindex : all.idxOf a < capacity shortWidth := Nat.lt_trans hlt hlength
  have hget : all[all.idxOf a]? = some a := by
    rw [List.getElem?_eq_getElem hlt, List.getElem_idxOf]
  rw [Decode.oneOf, Datum.ofAll, Datum.bytesOnto, shortOnto, run_bind_some (run_number hindex rest),
    hget]
  rfl

theorem option {read : Decode α} {datum : α → Datum} (h : Reads bound read datum) :
    Reads bound (Decode.option read) (.ofOption datum) := by
  intro part hfits hsize rest
  cases part with
  | none => rfl
  | some a =>
    have hopen : (Decode.option read).run (1 :: (datum a).bytesOnto rest) =
        (do return some (← read) : Decode (Option α)).run ((datum a).bytesOnto rest) := by
      have hflag : Decode.flag.run (1 :: (datum a).bytesOnto rest) =
          some (true, (datum a).bytesOnto rest) := run_flag true _
      rw [Decode.option, run_bind_some hflag]
      rfl
    rw [Datum.ofOption, Datum.size] at hsize
    rw [Datum.ofOption, Datum.bytesOnto, hopen, run_bind_some (h a hfits (by omega) rest)]
    rfl

theorem times {item : Decode α} {datum : α → Datum} (h : Reads bound item datum) (items : List α)
    (hfits : Datum.itemsFit (items.map datum) = true)
    (hsize : Datum.itemsSize (items.map datum) ≤ bound) (rest : List UInt8) :
    (Decode.times item items.length).run (Datum.itemsOnto (items.map datum) rest) =
      some (items, rest) := by
  induction items with
  | nil => rfl
  | cons a items ih =>
    rw [List.map_cons, Datum.itemsFit, Bool.and_eq_true] at hfits
    rw [List.map_cons, Datum.itemsSize] at hsize
    rw [List.length_cons, Decode.times, List.map_cons, Datum.itemsOnto,
      run_bind_some (h a hfits.1 (by omega) _), run_bind_some (ih hfits.2 (by omega))]
    rfl

theorem list {item : Decode α} {datum : α → Datum} (h : Reads bound item datum) :
    Reads bound (Decode.list item) (.ofList datum) := by
  intro items hfits hsize rest
  rw [Datum.ofList, Datum.fits, Bool.and_eq_true, List.length_map, decide_eq_true_eq] at hfits
  rw [Datum.ofList, Datum.size] at hsize
  rw [Decode.list, Datum.ofList, Datum.bytesOnto, longOnto, List.length_map,
    run_bind_some (run_number hfits.1 _)]
  exact times h items hfits.2 (by omega) rest

end Reads

/-! ## Lossless formats -/

/-- Stored values are read again, whatever is behind them. No two values are stored in the same
bytes, and those of one value are never the beginning of those of another one. -/
structure Lossless (read : Decode α) (datum : α → Datum) : Prop where
  recovers : ∀ a, (datum a).fits = true → ∀ rest,
    read.run ((datum a).bytes.toList ++ rest) = some (a, rest)
  injective : ∀ a b, (datum a).fits = true → (datum b).fits = true →
    (datum a).bytes = (datum b).bytes → a = b
  prefixFree : ∀ a b, (datum a).fits = true → (datum b).fits = true →
    (datum a).bytes.toList <+: (datum b).bytes.toList → a = b

/-- What is read again, whatever is behind it, is stored without a loss. -/
theorem Lossless.of_recovers {read : Decode α} {datum : α → Datum}
    (h : ∀ a, (datum a).fits = true → ∀ rest,
      read.run ((datum a).bytes.toList ++ rest) = some (a, rest)) : Lossless read datum := by
  have hprefix : ∀ a b, (datum a).fits = true → (datum b).fits = true →
      (datum a).bytes.toList <+: (datum b).bytes.toList → a = b := by
    rintro a b ha hb ⟨rest, hrest⟩
    have hread := h b hb []
    rw [List.append_nil, ← hrest, h a ha rest] at hread
    exact (Prod.mk.inj (Option.some.inj hread)).1
  refine ⟨h, fun a b ha hb heq => hprefix a b ha hb ?_, hprefix⟩
  exact heq ▸ List.prefix_rfl

end Decode

end ScriptFront
