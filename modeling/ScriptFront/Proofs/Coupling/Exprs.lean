import ScriptFront.Grammar.Exprs
import ScriptFront.Proofs.Coupling.Types

/-!
# Coupled readings of expressions

Expressions read with coupled grammars are coupled, at every level. What stands behind an operand
is decided by the current token alone, but for `<`: there both readings first check for type
arguments, go back, and take the same side.
-/

namespace ScriptFront

open ScriptFront.Parser

namespace Simulation

variable {σ τ : Type} [ByteSource σ] [ByteSource τ] {S : Simulation σ τ}
  {g : Grammar σ} {g' : Grammar τ}

/-! ## Looking further -/

/-- Both readings find a dot ahead, or neither does. -/
theorem dotAhead (S : Simulation σ τ) (steps : Nat) :
    S.Coupled Eq (Grammar.dotAhead steps : Parse σ Bool) (Grammar.dotAhead steps) := by
  induction steps with
  | zero => exact S.failAtStart nofun rfl
  | succ steps ih =>
    exact S.kind.bindEq fun _ =>
      .ite _ (.pure rfl) (.ite _ (.pure rfl) (S.drop.bindEq fun _ => ih))

theorem namesSourceType (S : Simulation σ τ) :
    S.Coupled Eq (Grammar.namesSourceType : Parse σ Bool) Grammar.namesSourceType :=
  S.listBound.bindEq fun _ _ _ hs => S.lookAhead hs (S.dotAhead _ hs)

namespace Grammars

variable {p : Parser σ} {q : Parser τ} (hg : S.Grammars g g') (hs : S.state p q)

include hg hs

/-- Both readings find type arguments behind an operand, or neither does. -/
theorem genericCallArgs (m n : Mode) :
    S.CoupledAt p q (Option.Rel Yield.Agree) (g.genericCallArgs m) (g'.genericCallArgs n) := by
  refine S.saveThen hs fun hknown => ?_
  have hrest (isCall : Bool) {p' : Parser σ} {q' : Parser τ} (hs' : S.adrift p' q') :
      S.CoupledAt p' q' (Option.Rel Yield.Agree)
        (do
          Parser.goBack ⟨p.start⟩
          if isCall then return some (← g.genericArgs m) else return none)
        (do
          Parser.goBack ⟨p.start⟩
          if isCall then return some (← g'.genericArgs n) else return none) := by
    refine S.goBackThen hknown hs' (.ite _ ?_ (.pure .none))
    exact (hg.genericArgs m n).bind fun _ _ h => .pure (.some h)
  refine S.attemptThen (hg.genericArgs .check .check hs) ?_ ?_
  · intro a b p' q' hV hs'
    exact (S.check _ hs'.states).bind fun isCall _ h => h ▸ fun _ _ hs =>
      hrest isCall (S.adrift_of_state hs)
  · intro e p' q' he hs'
    dsimp only
    split
    · exact .error he ⟨hs'.states, rfl⟩
    · exact hrest false hs'.states

/-- Both readings find a `(` behind the path, or neither does. -/
theorem pathOpensParen : S.CoupledAt p q Eq g.pathOpensParen g'.pathOpensParen := by
  refine S.saveThen hs fun hknown => ?_
  have hrest (opens : Bool) {p' : Parser σ} {q' : Parser τ} (hs' : S.adrift p' q') :
      S.CoupledAt p' q' Eq
        (do
          Parser.goBack ⟨p.start⟩
          return opens)
        (do
          Parser.goBack ⟨p.start⟩
          return opens) :=
    S.goBackThen hknown hs' (.pure rfl)
  refine S.attemptThen (hg .check .check (.expr _) hs) ?_ ?_
  · intro a b p' q' hV hs'
    exact (S.check _ hs'.states).bind fun opens _ h => h ▸ fun _ _ hs =>
      hrest opens (S.adrift_of_state hs)
  · intro e p' q' he hs'
    exact hrest false hs'.states

end Grammars

/-- The lookaheads `L` see with `g` what those of the grammar see with `g'`. -/
structure Follows (S : Simulation σ τ) (L : Lookaheads σ) (g : Grammar σ) (g' : Grammar τ) :
    Prop where
  callGenerics : ∀ (m n : Mode) {p : Parser σ} {q : Parser τ}, S.fresh p q →
    S.CoupledAt p q (Option.Rel Yield.Agree) (L.callGenerics g m) (g'.genericCallArgs n)
  parenBehind : ∀ {p : Parser σ} {q : Parser τ}, S.fresh p q →
    S.CoupledAt p q Eq (L.parenBehind g) g'.pathOpensParen
  dotBefore : ∀ {p : Parser σ} {q : Parser τ}, S.fresh p q →
    S.CoupledAt p q Eq L.dotBefore Grammar.namesSourceType
  second : S.Coupled Eq L.second Parser.peek

/-- The lookaheads of the grammar see the same in both readings. -/
theorem Grammars.follows (hg : S.Grammars g g') : S.Follows .plain g g' where
  callGenerics m n _ _ hs := hg.genericCallArgs (S.state_of_fresh hs) m n
  parenBehind hs := hg.pathOpensParen (S.state_of_fresh hs)
  dotBefore hs := S.namesSourceType (S.state_of_fresh hs)
  second := S.peek

/-! ## Without lookaheads -/

/-- The bars around no parameters are cut apart in both readings. -/
theorem splitBars (S : Simulation σ τ) :
    S.Coupled Eq (Grammar.splitBars : Parse σ Unit) Grammar.splitBars := by
  intro p q hs
  have hp : (Parser.check Symbol.pipePipe : Parse σ Bool).run p =
      (.ok (decide (p.current.kind = Symbol.pipePipe)), p) := rfl
  have hq : (Parser.check Symbol.pipePipe : Parse τ Bool).run q =
      (.ok (decide (p.current.kind = Symbol.pipePipe)), q) := by
    rw [S.current_eq hs]
    rfl
  unfold CoupledAt Grammar.splitBars
  rw [run_bind_ok hp, run_bind_ok hq]
  split
  · next h => exact S.narrow hs (of_decide_eq_true h) rfl
  · exact Coupled.pure rfl hs

theorem rootIdentifier (S : Simulation σ τ) (m n : Mode) :
    S.Coupled Yield.Agree (Grammar.rootIdentifier m : Parse σ _)
      (Grammar.rootIdentifier n) :=
  S.drop.bindEq fun _ => S.expectIdentifier.bindEq fun _ => .pure (Yield.agree_pure _)

namespace Grammars

variable (hg : S.Grammars g g') (m n : Mode)

include hg

theorem block : S.Coupled Yield.Agree (g.block m) (g'.block n) := by
  refine S.position.bindEq fun pos => (S.mark _).bindEq fun _ => ?_
  refine (S.listWhile (S.checkNot _) (hg m n .statement)).bind fun _ _ h => ?_
  exact S.drop.bindEq fun _ => .pure (h.map _)

theorem callArgs : S.Coupled Yield.Agree (g.callArgs m) (g'.callArgs n) := by
  refine (S.eat _).bindEq fun _ => .ite _ (.pure (Yield.agree_pure _)) ?_
  exact (hg m n (.expr _)).bind fun _ _ h => (S.mark _).bindEq fun _ => .pure (h.map _)

theorem parameterType (name : String) :
    S.Coupled Yield.Agree (g.parameterType m name) (g'.parameterType n name) :=
  (S.rejectVoid _).bindEq fun _ => hg m n .type

theorem resultType : S.Coupled Yield.Agree (g.resultType m) (g'.resultType n) :=
  (S.eat _).bindEq fun _ =>
    .ite _ (hg m n .type) (S.position.bindEq fun _ => .pure (Yield.agree_pure _))

/-! ## Atoms -/

theorem parenthesized :
    S.Coupled Yield.Agree (g.parenthesized m) (g'.parenthesized n) := by
  refine S.position.bindEq fun pos => S.drop.bindEq fun _ => ?_
  exact (hg m n (.expr _)).bind fun _ _ h => (S.mark _).bindEq fun _ => .pure (h.map _)

theorem arrayLiteral : S.Coupled Yield.Agree (g.arrayLiteral m) (g'.arrayLiteral n) :=
  (S.mark _).bindEq fun _ =>
    (S.openListOrEmpty _ (hg m n (.expr _))).yieldMap _

theorem lambdaParamsOnto {m n : Mode} (typed : Bool) (steps : Nat)
    {a : Yield m (Array LambdaParam)} {b : Yield n (Array LambdaParam)} (h : Yield.Agree a b) :
    S.Coupled Yield.Agree (g.lambdaParamsOnto m typed steps a)
      (g'.lambdaParamsOnto n typed steps b) := by
  induction steps generalizing a b with
  | zero => exact S.failAtStart nofun rfl
  | succ steps ih =>
    refine S.position.bindEq fun pos => S.expectIdentifier.bindEq fun name => ?_
    refine (S.eat _).bindEq fun variadic => .ite _ (.pure (h.push (Yield.agree_pure _))) ?_
    have htype := (S.mark Symbol.colon).bindEq fun _ => hg.parameterType m n name
    refine (S.optionally (.pure rfl) htype).bind fun _ _ ht => ?_
    have hpush := h.push (ht.map fun type => LambdaParam.mk pos name type false)
    refine (S.eat _).bindEq fun _ => .ite _ (ih hpush) ?_
    exact (S.check _).bindEq fun _ => .ite _ (.pure hpush) (S.expectedOneOf _)

theorem newItem : S.Coupled Yield.Agree (g.newItem m) (g'.newItem n) := by
  refine S.position.bindEq fun pos => S.expectIdentifier.bindEq fun name => ?_
  exact (S.optionally (S.eat _) (hg m n (.expr _))).yieldMap _

theorem newObject : S.Coupled Yield.Agree (g.newObject m) (g'.newObject n) := by
  refine (S.mark _).bindEq fun _ => (hg m n .type).bind fun _ _ ht => ?_
  refine (S.mark _).bindEq fun _ => (hg.callArgs m n).bind fun _ _ ha => ?_
  refine (S.optionally (S.eat _) (S.openListOrEmpty _ (hg.newItem m n))).bind fun _ _ hi => ?_
  exact .pure (((ht.map _).seq ha).seq hi)

/-! ## Match expressions -/

theorem armBody : S.Coupled Yield.Agree (g.armBody m) (g'.armBody n) :=
  (S.check _).bindEq fun _ =>
    .ite _ ((hg.block m n).yieldMap _)
      ((hg m n (.expr _)).yieldMap _)

theorem exprArm : S.Coupled Yield.Agree (g.exprArm m) (g'.exprArm n) := by
  refine S.position.bindEq fun pos => (S.mark _).bindEq fun _ => ?_
  refine (hg m n .pattern).bind fun _ _ hp => (S.mark _).bindEq fun _ => ?_
  refine (hg.armBody m n).bind fun _ _ hb => (S.eat _).bindEq fun _ => ?_
  exact .pure ((hp.map _).seq hb)

theorem selectExpr : S.Coupled Yield.Agree (g.selectExpr m) (g'.selectExpr n) := by
  refine (S.mark _).bindEq fun _ => (hg m n (.expr _)).bind fun _ _ hs => ?_
  refine (S.mark _).bindEq fun _ => ?_
  refine (S.listOnceAndWhile (S.checkNot _) (hg.exprArm m n)).bind fun _ _ ha => ?_
  exact (S.mark _).bindEq fun _ => .pure ((hs.map _).seq ha)

/-! ## Behind an operand -/

theorem genericCall {m n : Mode} {callee : Yield m Expr} {callee' : Yield n Expr}
    {generics : Yield m (List TypeExpr)} {generics' : Yield n (List TypeExpr)}
    (hc : Yield.Agree callee callee') (ht : Yield.Agree generics generics') :
    S.Coupled Yield.Agree (g.genericCall m callee generics)
      (g'.genericCall n callee' generics') :=
  (S.mark _).bindEq fun _ =>
    (hg.callArgs m n).bind fun _ _ ha => .pure (((hc.map _).seq ht).seq ha)

theorem ternary {m n : Mode} {a : Yield m Expr} {b : Yield n Expr} (h : Yield.Agree a b) :
    S.Coupled Yield.Agree (g.ternary m a) (g'.ternary n b) := by
  refine S.drop.bindEq fun _ => (hg m n (.expr _)).bind fun _ _ hc => ?_
  refine (S.mark _).bindEq fun _ => (hg m n (.expr _)).bind fun _ _ ha => ?_
  exact .pure (((h.map _).seq hc).seq ha)

theorem continuation {m n : Mode} {a : Yield m Expr} {b : Yield n Expr} (h : Yield.Agree a b)
    (c : Continuation) :
    S.Coupled Yield.Agree (g.continuation m a c) (g'.continuation n b c) := by
  cases c with
  | ternary => exact hg.ternary h
  | binary op =>
    exact S.drop.bindEq fun _ => (hg m n (.expr _)).bind fun _ _ hr => .pure ((h.map _).seq hr)
  | count op => exact S.drop.bindEq fun _ => .pure (h.map _)
  | call =>
    exact S.drop.bindEq fun _ => (hg.callArgs m n).bind fun _ _ ha => .pure ((h.map _).seq ha)
  | index =>
    exact S.drop.bindEq fun _ => (hg m n (.expr _)).bind fun _ _ hi =>
      (S.mark _).bindEq fun _ => .pure ((h.map _).seq hi)
  | cast => exact S.drop.bindEq fun _ => (hg m n .type).bind fun _ _ ht => .pure ((h.map _).seq ht)
  | typeTest =>
    exact S.drop.bindEq fun _ => (hg m n .type).bind fun _ _ ht => .pure ((h.map _).seq ht)

theorem unary (op : UnaryOp) : S.Coupled Yield.Agree (g.unary m op) (g'.unary n op) :=
  S.drop.bindEq fun _ => (hg m n (.expr _)).yieldMap _

end Grammars

/-! ## With lookaheads -/

namespace Follows

variable {L : Lookaheads σ} (hL : S.Follows L g g') (hg : S.Grammars g g') (m n : Mode)

include hL hg

theorem lambdaParams :
    S.Coupled (fun x y => Yield.Agree x.1 y.1 ∧ x.2 = y.2) (L.lambdaParams g m)
      (g'.lambdaParams n) := by
  refine (S.check _).bindEq fun _ => .ite _ ?_ (.pure ⟨Yield.agree_pure _, rfl⟩)
  refine hL.second.bindEq fun next => S.listBound.bindEq fun steps => ?_
  exact (hg.lambdaParamsOnto _ steps (Yield.agree_pure _)).bind fun _ _ h =>
    .pure ⟨h.map _, rfl⟩

theorem lambda : S.Coupled Yield.Agree (L.lambda g m) (g'.lambda n) := by
  refine S.splitBars.bindEq fun _ => (S.mark _).bindEq fun _ => ?_
  refine (hL.lambdaParams hg m n).bind ?_
  rintro ⟨params, untyped⟩ ⟨params', untyped'⟩ ⟨hp, rfl : untyped = untyped'⟩
  refine (S.mark _).bindEq fun _ => (S.check _).bindEq fun explicitResult => ?_
  refine (hg.resultType m n).bind fun _ _ hr => (hg.block m n).bind fun _ _ hb => ?_
  exact .pure (((hp.map _).seq hr).seq hb)

theorem atomForm : S.Coupled Yield.Agree (L.atomForm g m) (g'.atomForm n) := by
  have hlambda := hL.lambda hg m n
  rw [← Lookaheads.lambda_plain] at hlambda
  rw [← Lookaheads.atomForm_plain]
  refine S.kind.bindEq fun k => ?_
  split
  · exact hg.arrayLiteral m n
  · exact S.inContext _ hlambda
  · exact S.inContext _ hlambda
  · exact S.inContext _ (hg.newObject m n)
  · exact S.rootIdentifier m n
  · exact (hg m n .type).yieldMap _
  · split
    · exact S.advance.bindEq fun _ => .pure (Yield.agree_pure _)
    · exact S.unexpected

theorem atom : S.Coupled Yield.Agree (L.atom g m) (g'.atom n) := by
  refine (S.check _).bindEq fun _ => .ite _ (hg.parenthesized m n) ?_
  exact S.position.bindEq fun pos => (hL.atomForm hg m n).yieldMap _

theorem climb {m n : Mode} (pos : Position) (level steps : Nat) {a : Yield m Expr}
    {b : Yield n Expr} (h : Yield.Agree a b) :
    S.Coupled Yield.Agree (L.climb g m pos level steps a) (g'.climb n pos level steps b) := by
  rw [← Lookaheads.climb_plain]
  induction steps generalizing a b with
  | zero => exact S.failAtStart nofun rfl
  | succ steps ih =>
    refine S.kindAt fun p q hs => ?_
    by_cases hlt : (decide (p.current.kind = Symbol.lt) && decide (level = Level.access)) = true
    · rw [if_pos hlt, if_pos hlt]
      simp only [Bool.and_eq_true, decide_eq_true_eq] at hlt
      have hfresh : S.fresh p q :=
        S.fresh_of_kind hs (by rw [hlt.1]; nofun) (by rw [hlt.1]; nofun)
      refine (hL.callGenerics m n hfresh).bind fun r r' hr => ?_
      cases hr with
      | none => exact .pure h
      | some ht => exact (hg.genericCall h ht).bind fun _ _ hf => ih (hf.map _)
    · rw [if_neg hlt, if_neg hlt]
      split
      · exact Coupled.pure h hs
      · refine Coupled.ite _ (.pure h) ?_ hs
        exact (hg.continuation h _).bind fun _ _ hw => .ite _ (.pure (hw.map _)) (ih (hw.map _))

theorem descend {m n : Mode} (pos : Position) (level top : Nat) {a : Yield m Expr}
    {b : Yield n Expr} (h : Yield.Agree a b) :
    S.Coupled Yield.Agree (L.descend g m pos level top a) (g'.descend n pos level top b) := by
  induction top generalizing a b with
  | zero => exact .pure h
  | succ top ih =>
    refine .ite _ (.pure h) (S.listBound.bindEq fun steps => ?_)
    exact (hL.climb hg pos (top + 1) steps h).bind fun _ _ h => ih h

theorem exprStep (level : Nat) :
    S.Coupled Yield.Agree (L.exprStep g m level) (g'.exprStep n level) := by
  have hdescend (pos : Position) (top : Nat) (a : Yield m Expr) (b : Yield n Expr)
      (h : Yield.Agree a b) : S.Coupled Yield.Agree (L.descend g m pos level top a)
        (Lookaheads.plain.descend g' n pos level top b) := by
    rw [Lookaheads.descend_plain]
    exact hL.descend hg pos level top h
  have hatom := hL.atom hg m n
  rw [← Lookaheads.atom_plain] at hatom
  rw [← Lookaheads.exprStep_plain]
  refine S.position.bindEq fun pos => S.kind.bindEq fun k => ?_
  split
  · exact (hg.unary m n _).bind fun _ _ h => hdescend pos _ _ _ (h.map _)
  · refine .ite _ ?_ ?_
    · exact (S.inContext _ (hg.selectExpr m n)).bind fun _ _ h => hdescend pos _ _ _ (h.map _)
    · exact hatom.bind fun _ _ h => hdescend pos _ _ _ h

end Follows

end Simulation

end ScriptFront
