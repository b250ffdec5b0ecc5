import ScriptFront.Proofs.Writing.Trees

/-!
# Legible rows

The rows of lexemes that the lexer can read at all.
-/

namespace ScriptFront

/-- All lexemes of a row can be read. -/
def Legible (row : List Lexeme) : Prop := ∀ l ∈ row, l.WellFormed

attribute [simp] Lexeme.WellFormed.mark Lexeme.WellFormed.word

namespace Legible

variable {l : Lexeme} {row more : List Lexeme} {rows : List (List Lexeme)}

@[simp] theorem nil : Legible [] := nofun

@[simp] theorem cons_iff : Legible (l :: row) ↔ l.WellFormed ∧ Legible row := List.forall_mem_cons

@[simp] theorem append_iff : Legible (row ++ more) ↔ Legible row ∧ Legible more :=
  List.forall_mem_append

@[simp] theorem inParens_iff : Legible (inParens row) ↔ Legible row := by simp [inParens]

@[simp] theorem inBrackets_iff : Legible (inBrackets row) ↔ Legible row := by simp [inBrackets]

@[simp] theorem inBraces_iff : Legible (inBraces row) ↔ Legible row := by simp [inBraces]

@[simp] theorem inAngles_iff : Legible (inAngles row) ↔ Legible row := by simp [inAngles]

@[simp] theorem commas_iff : Legible (commas rows) ↔ ∀ row ∈ rows, Legible row := by
  induction rows using commas.induct with
  | case1 => simp [commas]
  | case2 row => simp [commas]
  | case3 row rows hrows ih =>
    rw [commas, append_iff, cons_iff, ih, List.forall_mem_cons]
    · simp
    · exact hrows

@[simp] theorem flatMap_iff {α : Type} {f : α → List Lexeme} {as : List α} :
    Legible (as.flatMap f) ↔ ∀ a ∈ as, Legible (f a) := by
  simp only [Legible, List.mem_flatMap]
  constructor
  · exact fun h a ha l hl => h l ⟨a, ha, hl⟩
  · rintro h l ⟨a, ha, hl⟩
    exact h a ha l hl

end Legible

end ScriptFront
