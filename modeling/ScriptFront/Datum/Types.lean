import ScriptFront.Datum.Basic
import ScriptFront.Syntax.Types

/-!
# Types as data

A path becomes a chain: every name holds the one behind it.
-/

namespace ScriptFront

/-- A primitive type as data. -/
def PrimitiveType.datum : PrimitiveType → Datum := .ofAll PrimitiveType.all PrimitiveType.name

/-- A dimension as data. -/
def ArrayDim.datum : ArrayDim → Datum
  | .unsized => .choice 0 "Unsized"
  | .sized length => .choiceOf 1 "Sized" (.number length)

/-- One name of a path with what is behind it. -/
def PathSegment.record (pos : Position) (name : String) (root : Bool) (generics : List Datum)
    (inner : Datum) : Datum :=
  .record [⟨"pos", .position pos⟩, ⟨"identifier", .text name⟩, ⟨"root", .flag root⟩,
    ⟨"generics", .list generics⟩, ⟨"inner", inner⟩]

mutual

/-- A type as data. -/
def TypeExpr.datum : TypeExpr → Datum
  | ⟨pos, nullable, form⟩ =>
    .record [⟨"pos", .position pos⟩, ⟨"nullable", .flag nullable⟩, ⟨"kind", form.datum⟩]

/-- The form of a type as data. -/
def TypeForm.datum : TypeForm → Datum
  | .primitive type => .choiceOf 0 "Primitive" type.datum
  | .selfType => .choice 1 "SelfType"
  | .array element dims =>
    .choiceOf 2 "Array"
      (.record [⟨"element", element.datum⟩, ⟨"dims", .ofList ArrayDim.datum dims⟩])
  | .function params result =>
    .choiceOf 3 "Function"
      (.record [⟨"params", .list (TypeExpr.data params)⟩, ⟨"ret", result.datum⟩])
  | .tuple members => .choiceOf 4 "Tuple" (.list (TypeExpr.data members))
  | .named path => .choiceOf 5 "Named" path.datum

/-- A path as data. -/
def TypePath.datum : TypePath → Datum
  | ⟨⟨pos, name, root, generics⟩, tail⟩ =>
    PathSegment.record pos name root (TypeExpr.data generics) (PathSegment.chain tail)

/-- The names behind the first one of a path as data. -/
def PathSegment.chain : List PathSegment → Datum
  | [] => .absent
  | ⟨pos, name, root, generics⟩ :: tail =>
    .present (PathSegment.record pos name root (TypeExpr.data generics) (PathSegment.chain tail))

/-- Each type of a list as data. -/
def TypeExpr.data : List TypeExpr → List Datum
  | [] => []
  | type :: rest => type.datum :: TypeExpr.data rest

end

end ScriptFront
