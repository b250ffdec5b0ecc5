/-!
# What a command comes to
-/

namespace ScriptFront

/-- What a command prints, and whether it succeeds. -/
structure Outcome where
  stdout : String := ""
  stderr : String := ""
  succeeds : Bool := true
deriving DecidableEq, Repr

namespace Outcome

/-- Print to the standard output. -/
def print (text : String) : Outcome := { stdout := text }

/-- Fail and say why. -/
def fail (text : String) : Outcome := { stderr := text, succeeds := false }

/-- One command after the other; both have to succeed. -/
def andThen (a b : Outcome) : Outcome :=
  ⟨a.stdout ++ b.stdout, a.stderr ++ b.stderr, a.succeeds && b.succeeds⟩

/-- Several commands, one after the other. -/
def all (outcomes : List Outcome) : Outcome := outcomes.foldr andThen {}

/-- The exit status. -/
def status (o : Outcome) : Nat := if o.succeeds then 0 else 1

end Outcome

end ScriptFront
