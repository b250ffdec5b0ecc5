import ScriptFront.Command.Files
import ScriptFront.Command.Outcome
import ScriptFront.Diagnostic.Report
import ScriptFront.Text.Utf8

/-!
# Texts in files

- `LoadFault`: why the text of a file cannot be had.
- `load`: the bytes of a file.
- `reportOutcome`: a diagnostic on the text of a file, printed.
-/

namespace ScriptFront

/-- Why the text of a file cannot be had. -/
structure LoadFault where
  path : String
  cause : FileFault
deriving DecidableEq, Repr

/-- The fault in words. -/
def LoadFault.message (f : LoadFault) : String :=
  if f.cause.code = FileFault.notFound.code then "File not found: '" ++ f.path ++ "'"
  else "Cannot read '" ++ f.path ++ "': " ++ f.cause.describe

/-- What the program prints about the fault. -/
def LoadFault.outcome (f : LoadFault) : Outcome :=
  .fail ("error[" ++ ErrorCode.fileNotFound.label ++ "]: " ++ f.message ++ "\n")

/-- The bytes of a file. -/
def load {m : Type → Type} [Monad m] [FileAccess m] (path : String) :
    m (Except LoadFault Bytes) := do
  match ← FileAccess.read path with
  | .ok content => return .ok content
  | .error cause => return .error ⟨path, cause⟩

/-- What the program prints about an error in the text of a file. -/
def reportOutcome (path : String) (content : Bytes) (d : Diagnostic) (colored : Bool) : Outcome :=
  .fail ((d.report path (Utf8.decodeLossy content.toList)).render colored)

end ScriptFront
