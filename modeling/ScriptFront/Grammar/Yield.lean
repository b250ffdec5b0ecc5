/-!
# What a production yields

A production is written once and read in two modes. Built, it yields a tree; checked, it consumes
the same tokens and yields nothing, which is enough to decide between two readings.

- `Yield mode α`: an `α`, or nothing; a lawful monad in both modes.
- `Yield.push`, `Yield.optional`: lists and optional parts under construction.
- `Yield.erase`: forget what was built.
-/

namespace ScriptFront

/-- Whether a production yields a tree or only checks that the text fits. -/
inductive Mode where
  | build
  | check
deriving DecidableEq, Repr

/-- An `α` when built, nothing when checked. -/
def Yield : Mode → Type → Type
  | .build, α => α
  | .check, _ => Unit

namespace Yield

/-- Yield a value, if values are built. -/
def of {mode : Mode} {α : Type} (value : α) : Yield mode α :=
  match mode with
  | .build => value
  | .check => ()

/-- Go on with a value, if there is one. -/
def andThen {mode : Mode} {α β : Type} (value : Yield mode α) (f : α → Yield mode β) :
    Yield mode β :=
  match mode, value, f with
  | .build, value, f => f value
  | .check, _, _ => ()

instance {mode : Mode} : Monad (Yield mode) where
  pure := of
  bind := andThen

/-- Append to a list under construction. -/
def push {mode : Mode} {α : Type} (list : Yield mode (Array α)) (item : Yield mode α) :
    Yield mode (Array α) :=
  Array.push <$> list <*> item

/-- An optional part of a tree. -/
def optional {mode : Mode} {α : Type} : Option (Yield mode α) → Yield mode (Option α)
  | none => pure none
  | some value => some <$> value

/-- Forget what was built. -/
def erase {mode : Mode} {α : Type} (_ : Yield mode α) : Yield .check α := ()

/-! ## Laws -/

instance {mode : Mode} : LawfulMonad (Yield mode) := LawfulMonad.mk' _
  (by intro α x; cases mode <;> rfl)
  (by intro α β x f; cases mode <;> rfl)
  (by intro α β γ x f g; cases mode <;> rfl)

/-- There is only one thing that a check can yield. -/
theorem check_unique {α : Type} (a b : Yield .check α) : a = b := rfl

end Yield

end ScriptFront
