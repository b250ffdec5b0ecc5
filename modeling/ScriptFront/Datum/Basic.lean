import ScriptFront.Source.Place

/-!
# Data

A `Datum` is a tree as plain data: records with named fields, choices with a number and a name,
lists, optional parts. Listings print data by its names, stored files by its numbers.

- `Datum.ofAll`: a value of a finite type as a choice.
- `Datum.ofList`, `Datum.ofOption`: lists and optional parts, given their items as data.
-/

namespace ScriptFront

mutual

/-- Plain data. -/
inductive Datum where
  | flag (value : Bool)
  | number (value : Nat)
  | text (value : String)
  | position (pos : Position)
  | list (items : List Datum)
  | absent
  | present (value : Datum)
  | record (fields : List Field)
  /-- One of several possibilities, with its number among them. -/
  | choice (index : Nat) (name : String)
  | choiceOf (index : Nat) (name : String) (payload : Datum)

/-- A named part of a record. -/
structure Field where
  name : String
  value : Datum

end

namespace Datum

/-- A value of a finite type, numbered as in the list of all its values. -/
def ofAll {α : Type} [BEq α] (all : List α) (name : α → String) (value : α) : Datum :=
  choice (all.idxOf value) (name value)

/-- A list, its items as data. -/
def ofList {α : Type} (datum : α → Datum) (items : List α) : Datum := list (items.map datum)

/-- An optional part, its value as data. -/
def ofOption {α : Type} (datum : α → Datum) : Option α → Datum
  | none => absent
  | some value => present (datum value)

end Datum

/-! ## Comparing data -/

mutual

/-- Whether two data are the same. -/
def Datum.same : Datum → Datum → Bool
  | .flag a, .flag b => a == b
  | .number a, .number b => a == b
  | .text a, .text b => a == b
  | .position a, .position b => a == b
  | .list as, .list bs => Datum.sameItems as bs
  | .absent, .absent => true
  | .present a, .present b => a.same b
  | .record as, .record bs => Datum.sameFields as bs
  | .choice i a, .choice j b => i == j && a == b
  | .choiceOf i a p, .choiceOf j b q => i == j && a == b && p.same q
  | _, _ => false

/-- Whether two lists hold the same data. -/
def Datum.sameItems : List Datum → List Datum → Bool
  | [], [] => true
  | a :: as, b :: bs => a.same b && Datum.sameItems as bs
  | _, _ => false

/-- Whether two records have the same fields. -/
def Datum.sameFields : List Field → List Field → Bool
  | [], [] => true
  | ⟨m, a⟩ :: as, ⟨n, b⟩ :: bs => m == n && a.same b && Datum.sameFields as bs
  | _, _ => false

end

end ScriptFront
