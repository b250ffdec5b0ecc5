import ScriptFront.Proofs.Coupling.Stmts

/-!
# Checking is building without trees

The readings of one state in the two modes are coupled by equality of states. So a check consumes
what building would consume, fails where building would fail and with the same error, and leaves
the same token, the same place and the same flags behind: what a check has decided can be relied
on when the text is read again to be built.

- `Part`: the readings that exist in both modes.
- `Part.check_eq_build_erased`: a check is the building with its tree forgotten.
-/

namespace ScriptFront

/-- What can be read in both modes. -/
inductive Part where
  | type
  | genericArgs
  | expr (level : Nat)
  | callArgs
  | pattern
  | statement
  | block
  | variableDecl (exported destructures : Bool)
deriving DecidableEq, Repr

namespace Part

/-- What is built of a part. -/
abbrev Tree : Part → Type
  | .type => TypeExpr
  | .genericArgs => List TypeExpr
  | .expr _ => Expr
  | .callArgs => List Expr
  | .pattern => Pattern
  | .statement => Stmt
  | .block => Block
  | .variableDecl _ _ => VariableDecl

variable {σ : Type} [ByteSource σ]

/-- Read a part with a grammar, in a mode. -/
def read (g : Grammar σ) (mode : Mode) : (part : Part) → Parse σ (Yield mode part.Tree)
  | .type => g.type mode
  | .genericArgs => g.genericArgs mode
  | .expr level => g.expr mode level
  | .callArgs => g.callArgs mode
  | .pattern => g.pattern mode
  | .statement => g.statement mode
  | .block => g.block mode
  | .variableDecl exported destructures => g.variableDecl mode exported destructures

/-- Each part of two coupled grammars is coupled, whatever the modes. -/
theorem coupled {τ : Type} [ByteSource τ] {S : Simulation σ τ} {g : Grammar σ} {g' : Grammar τ}
    (hg : S.Grammars g g') (m n : Mode) (part : Part) :
    S.Coupled Yield.Agree (part.read g m) (part.read g' n) := by
  cases part with
  | type => exact hg m n .type
  | genericArgs => exact hg.genericArgs m n
  | expr level => exact hg m n (.expr level)
  | callArgs => exact hg.callArgs m n
  | pattern => exact hg m n .pattern
  | statement => exact hg m n .statement
  | block => exact hg.block m n
  | variableDecl exported destructures => exact hg.variableDecl m n exported destructures

end Part

/-! ## One state, two modes -/

/-- A reading coupled with itself by equality of states. -/
theorem Coupled.self {ε s α : Type} (x : ExceptT ε (StateM s) α) : Coupled Eq Eq x x := by
  rintro p _ rfl
  rcases h : (x.run p).1 with e | a
  · exact ⟨.error e, rfl⟩
  · exact ⟨.ok rfl, rfl⟩

/-- Equality of states is a simulation of every source by itself. -/
def Simulation.refl (σ : Type) [ByteSource σ] : Simulation σ σ where
  state := Eq
  fresh := Eq
  adrift := Eq
  known _ := True
  told _ := True
  state_of_fresh h := h
  fresh_of_kind h _ _ := h
  adrift_of_state h := h
  current_eq h := congrArg Parser.current h
  start_eq h := congrArg Parser.start h
  known_start _ := trivial
  inTrait_eq h := congrArg Parser.inTrait h
  extent_eq h := congrArg (fun p => p.lexer.extent) h
  name_eq h := congrArg Parser.sourceName h
  state_withTrait _ h := h ▸ rfl
  adrift_withTrait _ h := h ▸ rfl
  told_here _ _ _ := trivial
  told_at _ _ _ := trivial
  told_within _ _ := trivial
  advance_fresh h := (Coupled.self _).arrival h inTrait_advance
  peek_state h := (Coupled.self _).arrival h inTrait_peek
  goBack_fresh _ h := (Coupled.self _).arrival h (inTrait_goBack _)
  narrow_state h _ _ := h ▸ rfl

/-- A result of a check corresponds only to itself with the tree forgotten. -/
theorem Matching.eq_erase {ε α : Type} {a : Except ε (Yield .check α)}
    {b : Except ε (Yield .build α)} (h : Matching Yield.Agree a b) : a = b.map Yield.erase := by
  cases h with
  | ok _ => rfl
  | error e => rfl

/-- From every state, whatever the text may nest, a check of a part comes to what building the
part comes to, less the tree: it succeeds exactly when building does, or else it stops at the same
error, and it leaves the same state. -/
theorem Part.check_eq_build_erased {σ : Type} [ByteSource σ] (depth : Nat) (part : Part)
    (p : Parser σ) :
    (part.read (Grammar.upTo depth) .check).run p =
      (((part.read (Grammar.upTo depth) .build).run p).1.map Yield.erase,
        ((part.read (Grammar.upTo depth) .build).run p).2) := by
  have hg := (Simulation.refl σ).upTo depth
  have hpart := part.coupled hg .check .build (rfl : p = p)
  exact Prod.ext hpart.matching.eq_erase
    (hpart.states (fun _ _ h => h.states) fun _ _ h => h.states)

end ScriptFront
