import ScriptFront.Outline.Basic

/-!
# Outlines of types
-/

namespace ScriptFront

/-- The outline of a dimension. -/
def ArrayDim.outline : ArrayDim → Outline
  | .unsized => .node .unsizedArray none "" []
  | .sized length => .node .sizedArray none (toString length) []

/-- The kind of a type. -/
def TypeForm.kind : TypeForm → NodeKind
  | .primitive type => .primitive type
  | .selfType => .selfType
  | .array .. => .arrayType
  | .function .. => .functionType
  | .tuple _ => .tupleType
  | .named _ => .namedType

/-- The names by which a type is written. -/
def TypeForm.spelling : TypeForm → String
  | .primitive type => type.spelling
  | .named path => "::".intercalate (path.segments.map PathSegment.name)
  | _ => ""

/-- What the outline says of a type: its names, and marks for `void` and absent values. -/
def TypeExpr.note (t : TypeExpr) : String :=
  t.form.spelling ++ (if t.isVoid then "!" else "") ++ (if t.form.kind.isType then "" else "#") ++
    (if t.nullable then "?" else "")

theorem TypeForm.isType_kind (form : TypeForm) : form.kind.isType = true := by
  cases form <;> rfl

mutual

/-- The outline of a type. -/
def TypeExpr.outline : TypeExpr → Outline
  | ⟨pos, nullable, form⟩ => .placed form.kind pos (TypeExpr.note ⟨pos, nullable, form⟩) form.parts

/-- The outlines of the parts of a type. -/
def TypeForm.parts : TypeForm → List Outline
  | .primitive _ => []
  | .selfType => []
  | .array element dims => element.outline :: dims.map ArrayDim.outline
  | .function params result => TypeExpr.outlines params ++ [result.outline]
  | .tuple members => TypeExpr.outlines members
  | .named path => path.parts

/-- The outlines of the type arguments of a path. -/
def TypePath.parts : TypePath → List Outline
  | ⟨⟨_, _, _, generics⟩, tail⟩ => TypeExpr.outlines generics ++ PathSegment.parts tail

/-- The outlines of the type arguments of some names. -/
def PathSegment.parts : List PathSegment → List Outline
  | [] => []
  | ⟨_, _, _, generics⟩ :: tail => TypeExpr.outlines generics ++ PathSegment.parts tail

/-- The outlines of a list of types. -/
def TypeExpr.outlines : List TypeExpr → List Outline
  | [] => []
  | type :: rest => type.outline :: TypeExpr.outlines rest

end

/-- The outline of a type that may be missing. -/
def TypeExpr.outlines? (type : Option TypeExpr) : List Outline :=
  type.toList.map TypeExpr.outline

end ScriptFront
