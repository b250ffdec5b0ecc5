import ScriptFront.Source.Place
import ScriptFront.Token.Primitive

/-!
# Written types

A `TypeExpr` is a type as the text writes it. `T?[]` and `T[]?` differ: the flag belongs to the
type that stands before the question mark.
-/

namespace ScriptFront

/-- One pair of brackets behind an element type. -/
inductive ArrayDim where
  | unsized
  | sized (length : Nat)
deriving DecidableEq, Repr

mutual

/-- A type with its first token's position and whether its values may be absent. -/
structure TypeExpr where
  pos : Position
  nullable : Bool
  form : TypeForm

/-- The forms of types. -/
inductive TypeForm where
  | primitive (type : PrimitiveType)
  /-- `self`, the type that a trait is for. -/
  | selfType
  /-- `T[4][]`: the dimensions stand in the order of the text. -/
  | array (element : TypeExpr) (dims : List ArrayDim)
  /-- `fn(A, B -> R)` -/
  | function (params : List TypeExpr) (result : TypeExpr)
  | tuple (members : List TypeExpr)
  | named (path : TypePath)

/-- `::Outer<T>::Inner<U>` -/
structure TypePath where
  head : PathSegment
  tail : List PathSegment

/-- One name of a path with its type arguments; `root` tells whether the path is written with a
leading `::`, and only its first name carries that. -/
structure PathSegment where
  pos : Position
  name : String
  root : Bool
  generics : List TypeExpr

end

namespace TypeExpr

/-- A type that may not be absent. -/
def plain (pos : Position) (form : TypeForm) : TypeExpr := ⟨pos, false, form⟩

/-- The type of a function that names no result, at the position where it might. -/
def voidAt (pos : Position) : TypeExpr := plain pos (.primitive .void)

/-- The same type, perhaps absent. -/
def orAbsent (t : TypeExpr) : TypeExpr := { t with nullable := true }

/-- Whether the type is `void`. -/
def isVoid (t : TypeExpr) : Bool :=
  match t.form with
  | .primitive .void => true
  | _ => false

/-- Whether the type is a path of names. -/
def isNamed (t : TypeExpr) : Bool :=
  match t.form with
  | .named _ => true
  | _ => false

end TypeExpr

/-- The names of a path with their arguments, outermost first. -/
def TypePath.segments (p : TypePath) : List PathSegment := p.head :: p.tail

end ScriptFront
