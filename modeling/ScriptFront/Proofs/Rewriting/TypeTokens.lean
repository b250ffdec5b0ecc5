import ScriptFront.Proofs.Writing.Decls

/-!
# The tokens of types

Types are made of few kinds of tokens, so what comes first behind a type, or behind type parameters,
is told by its kind.

- `TypeExpr.isTypeToken`: no type holds a dot, a brace or a semicolon.
- `ne_dot_genericLexemes`: nor do type parameters hold a dot.
-/

namespace ScriptFront

/-- The kinds of tokens that types are made of. -/
def IsTypeToken : TokenKind → Bool
  | .identifier | .integer _ | .keyword (.primitive _) | .keyword .selfKw | .keyword .fnKw => true
  | .symbol s => [.lBracket, .rBracket, .question, .lParen, .rParen, .comma, .arrow, .colonColon,
      .lt, .gt].contains s
  | _ => false

section Rows

variable {P : Lexeme → Prop} {row : List Lexeme} {rows : List (List Lexeme)}

theorem forall_mem_inParens (hopen : P (.mark .lParen)) (hclose : P (.mark .rParen))
    (h : ∀ l ∈ row, P l) : ∀ l ∈ inParens row, P l :=
  List.forall_mem_cons.2 ⟨hopen, List.forall_mem_append.2 ⟨h, List.forall_mem_singleton.2 hclose⟩⟩

theorem forall_mem_inAngles (hopen : P (.mark .lt)) (hclose : P (.mark .gt))
    (h : ∀ l ∈ row, P l) : ∀ l ∈ inAngles row, P l :=
  List.forall_mem_cons.2 ⟨hopen, List.forall_mem_append.2 ⟨h, List.forall_mem_singleton.2 hclose⟩⟩

theorem forall_mem_commas (hcomma : P (.mark .comma))
    (h : ∀ row ∈ rows, ∀ l ∈ row, P l) : ∀ l ∈ commas rows, P l := by
  induction rows using commas.induct with
  | case1 => exact nofun
  | case2 row => exact h row List.mem_cons_self
  | case3 row rows hrows ih =>
    rw [List.forall_mem_cons] at h
    rw [commas]
    · exact List.forall_mem_append.2 ⟨h.1, List.forall_mem_cons.2 ⟨hcomma, ih h.2⟩⟩
    · exact hrows

end Rows

theorem ArrayDim.isTypeToken (d : ArrayDim) : ∀ l ∈ d.lexemes, IsTypeToken l.kind := by
  cases d <;> simp [ArrayDim.lexemes, inBrackets, Lexeme.mark, IsTypeToken]

mutual

/-- Types are made of few kinds of tokens. -/
theorem TypeExpr.isTypeToken : (t : TypeExpr) → ∀ l ∈ t.lexemes, IsTypeToken l.kind
  | ⟨_, nullable, form⟩ => by
    rw [TypeExpr.lexemes, List.forall_mem_append]
    refine ⟨form.isTypeToken, ?_⟩
    cases nullable <;> simp [Lexeme.mark, IsTypeToken]

theorem TypeForm.isTypeToken : (form : TypeForm) → ∀ l ∈ form.lexemes, IsTypeToken l.kind
  | .primitive type => by simp [TypeForm.lexemes, Lexeme.word, IsTypeToken]
  | .selfType => by simp [TypeForm.lexemes, Lexeme.word, IsTypeToken]
  | .array element dims => by
    rw [TypeForm.lexemes, List.forall_mem_append, List.forall_mem_flatMap]
    exact ⟨element.isTypeToken, fun d _ => d.isTypeToken⟩
  | .function params result => by
    have hparams := forall_mem_commas (P := fun l => IsTypeToken l.kind) rfl
      (TypeExpr.isTypeToken_rows params)
    have hresult : ∀ l ∈ (if result.isVoid then [] else .mark .arrow :: result.lexemes),
        IsTypeToken l.kind := by
      split
      · exact nofun
      · exact List.forall_mem_cons.2 ⟨rfl, result.isTypeToken⟩
    rw [TypeForm.lexemes, List.forall_mem_cons]
    exact ⟨rfl, forall_mem_inParens rfl rfl (List.forall_mem_append.2 ⟨hparams, hresult⟩)⟩
  | .tuple members => by
    have hmembers := forall_mem_commas (P := fun l => IsTypeToken l.kind) rfl
      (TypeExpr.isTypeToken_rows members)
    exact forall_mem_inParens rfl rfl hmembers
  | .named path => path.isTypeToken

theorem TypePath.isTypeToken : (path : TypePath) → ∀ l ∈ path.lexemes, IsTypeToken l.kind
  | ⟨head, tail⟩ => by
    rw [TypePath.lexemes, List.forall_mem_append, List.forall_mem_append]
    refine ⟨⟨?_, head.isTypeToken⟩, PathSegment.isTypeToken_further tail⟩
    cases head.root <;> simp [Lexeme.mark, IsTypeToken]

theorem PathSegment.isTypeToken : (s : PathSegment) → ∀ l ∈ s.lexemes, IsTypeToken l.kind
  | ⟨_, name, _, generics⟩ => by
    have hgenerics := forall_mem_commas (P := fun l => IsTypeToken l.kind) rfl
      (TypeExpr.isTypeToken_rows generics)
    rw [PathSegment.lexemes, List.forall_mem_cons]
    refine ⟨rfl, ?_⟩
    split
    · exact nofun
    · exact forall_mem_inAngles rfl rfl hgenerics

theorem PathSegment.isTypeToken_further : (segments : List PathSegment) →
    ∀ l ∈ PathSegment.furtherLexemes segments, IsTypeToken l.kind
  | [] => nofun
  | s :: segments => by
    rw [PathSegment.furtherLexemes, List.cons_append, List.forall_mem_cons, List.forall_mem_append]
    exact ⟨rfl, s.isTypeToken, PathSegment.isTypeToken_further segments⟩

theorem TypeExpr.isTypeToken_rows : (ts : List TypeExpr) →
    ∀ row ∈ TypeExpr.rows ts, ∀ l ∈ row, IsTypeToken l.kind
  | [] => nofun
  | t :: ts => by
    rw [TypeExpr.rows, List.forall_mem_cons]
    exact ⟨t.isTypeToken, TypeExpr.isTypeToken_rows ts⟩

end

theorem barred_cons (t : TypeExpr) (ts : List TypeExpr) :
    barred (t :: ts) = t.lexemes ++ ts.flatMap fun t => .mark .pipe :: t.lexemes := by
  induction ts generalizing t with
  | nil => simp [barred]
  | cons s ts ih =>
    rw [barred, ih, List.flatMap_cons, List.cons_append]
    exact nofun

/-- No dot stands in type parameters. -/
theorem ne_dot_genericLexemes (d : Option GenericDecl) :
    ∀ l ∈ genericLexemes d, l.kind ≠ Symbol.dot := by
  have htype (t : TypeExpr) (l : Lexeme) (hl : l ∈ t.lexemes) : l.kind ≠ Symbol.dot := by
    intro hk
    have htoken := t.isTypeToken l hl
    rw [hk] at htoken
    exact absurd htoken nofun
  have hitem (i : GenericItem) : ∀ l ∈ i.lexemes, l.kind ≠ Symbol.dot := by
    obtain ⟨pos, name, constraints⟩ := i
    cases constraints with
    | nil => simp [GenericItem.lexemes, Lexeme.name]
    | cons t ts =>
      simp only [GenericItem.lexemes, barred_cons, List.isEmpty_cons, Bool.false_eq_true, if_false,
        List.forall_mem_cons, List.forall_mem_append, List.forall_mem_flatMap]
      exact ⟨nofun, nofun, nofun, nofun, nofun, htype t, fun s _ => ⟨nofun, htype s⟩⟩
  cases d with
  | none => exact nofun
  | some d =>
    have hrows : ∀ row ∈ d.items.map GenericItem.lexemes, ∀ l ∈ row, l.kind ≠ Symbol.dot := by
      simpa using fun i _ => hitem i
    have hitems := forall_mem_commas nofun hrows
    exact forall_mem_inAngles nofun nofun hitems

end ScriptFront
