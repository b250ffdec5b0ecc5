import ScriptFront.Diagnostic.Code

/-!
# Diagnostics

A `Diagnostic` explains one error: what is wrong, which bytes of the text it is about, and notes
that help. Ranges count bytes of the text.
-/

namespace ScriptFront

/-- A remark on the bytes from `start` up to `stop`. -/
structure Label where
  start : Nat
  stop : Nat
  message : String
deriving DecidableEq, Repr

/-- The explanation of one error. Its first label is the place of the error. -/
structure Diagnostic where
  code : ErrorCode
  message : String := ""
  labels : List Label := []
  notes : List String := []
deriving DecidableEq, Repr

namespace Diagnostic

/-- The label at the place of the error. -/
def primary? (d : Diagnostic) : Option Label := d.labels.head?

/-- The explanation in one line. -/
def headline (d : Diagnostic) : String :=
  d.code.phase.describe ++ "[" ++ d.code.label ++ "]: " ++ d.message

end Diagnostic

end ScriptFront
