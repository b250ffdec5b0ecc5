import ScriptFront.Grammar.Stmts
import ScriptFront.Proofs.Coupling.Exprs

/-!
# Coupled readings of patterns and statements

With statements the productions below declarations are complete, and `Simulation.upTo` closes the
circle: the grammars for texts that nest equally deep are coupled.
-/

namespace ScriptFront

open ScriptFront.Parser

namespace Simulation

variable {σ τ : Type} [ByteSource σ] [ByteSource τ] {S : Simulation σ τ}
  {g : Grammar σ} {g' : Grammar τ}

theorem ownership (S : Simulation σ τ) :
    S.Coupled Eq (Grammar.ownership : Parse σ Ownership) Grammar.ownership := by
  refine S.kind.bindEq fun k => ?_
  split
  · exact S.drop.bindEq fun _ => .pure rfl
  · exact S.drop.bindEq fun _ => .pure rfl
  · exact .pure rfl

namespace Grammars

variable (hg : S.Grammars g g') (m n : Mode)

include hg

/-! ## Patterns -/

theorem patternItems : S.Coupled Yield.Agree (g.patternItems m) (g'.patternItems n) :=
  S.closedList _ (hg m n (.expr _))

theorem variantPattern :
    S.Coupled Yield.Agree (g.variantPattern m) (g'.variantPattern n) := by
  refine (hg m n (.expr _)).bind fun _ _ hp => (S.mark _).bindEq fun _ => ?_
  refine (S.eat _).bindEq fun _ => .ite _ (.pure (hp.map _)) ?_
  exact (hg.patternItems m n).bind fun _ _ hi => .pure ((hp.map _).seq hi)

theorem literalPattern :
    S.Coupled Yield.Agree (g.literalPattern m) (g'.literalPattern n) :=
  (hg m n (.expr _)).yieldMap _

theorem fieldTarget : S.Coupled Yield.Agree (g.fieldTarget m) (g'.fieldTarget n) := by
  refine S.kind.bindEq fun k => .ite _ ?_ ?_
  · exact (hg m n .pattern).yieldMap _
  · exact (hg m n (.expr _)).yieldMap _

theorem fieldPattern : S.Coupled Yield.Agree (g.fieldPattern m) (g'.fieldPattern n) := by
  refine S.position.bindEq fun pos => S.expectIdentifier.bindEq fun field => ?_
  refine (S.eat _).bindEq fun _ => .ite _ ?_ (.pure (Yield.agree_pure _))
  exact (hg.fieldTarget m n).yieldMap _

/-! ## Variables -/

theorem variableBinding (destructures : Bool) :
    S.Coupled Yield.Agree (g.variableBinding m destructures)
      (g'.variableBinding n destructures) := by
  refine S.kind.bindEq fun k =>
    .ite _ ?_ (.ite _ (S.failHere nofun fun _ => rfl) (.ite _ ?_ (S.expectedOneOf _)))
  · exact S.expectIdentifier.bindEq fun _ => .pure (Yield.agree_pure _)
  · exact (hg m n .pattern).yieldMap _

theorem variableType : S.Coupled Yield.Agree (g.variableType m) (g'.variableType n) :=
  (S.rejectVoid _).bindEq fun _ => hg m n .type

theorem initialValue : S.Coupled Yield.Agree (g.initialValue m) (g'.initialValue n) :=
  (S.mark _).bindEq fun _ => hg m n (.expr _)

theorem variableDecl (exported destructures : Bool) :
    S.Coupled Yield.Agree (g.variableDecl m exported destructures)
      (g'.variableDecl n exported destructures) := by
  refine S.position.bindEq fun pos => (S.expectOneOf _).bindEq fun t => ?_
  refine S.ownership.bindEq fun ownership => ?_
  refine (hg.variableBinding m n destructures).bind fun _ _ hb => (S.eat _).bindEq fun typed => ?_
  refine (S.optionally (.pure rfl) (hg.variableType m n)).bind fun _ _ ht => ?_
  refine (S.check _).bindEq fun assigned => ?_
  refine (S.optionally (.pure rfl) (hg.initialValue m n)).bind fun _ _ hi => ?_
  exact (S.mark _).bindEq fun _ => .pure (((hb.map _).seq ht).seq hi)

/-! ## Statements -/

theorem elseBlock : S.Coupled Yield.Agree (g.elseBlock m) (g'.elseBlock n) :=
  S.optionally (S.eat _) (hg.block m n)

theorem branch : S.Coupled Yield.Agree (g.branch m) (g'.branch n) := by
  refine (S.mark _).bindEq fun _ => (hg m n (.expr _)).bind fun _ _ hc => ?_
  refine (hg.block m n).bind fun _ _ hb => (hg.elseBlock m n).bind fun _ _ ha => ?_
  exact .pure (((hc.map _).seq hb).seq ha)

theorem branchOn : S.Coupled Yield.Agree (g.branchOn m) (g'.branchOn n) := by
  refine (S.mark _).bindEq fun _ => (S.mark _).bindEq fun _ => ?_
  refine (hg m n .pattern).bind fun _ _ hp => (S.mark _).bindEq fun _ => ?_
  refine (hg m n (.expr _)).bind fun _ _ hv => (hg.block m n).bind fun _ _ hb => ?_
  exact (hg.elseBlock m n).bind fun _ _ ha => .pure ((((hp.map _).seq hv).seq hb).seq ha)

theorem forInit : S.Coupled Yield.Agree (g.forInit m) (g'.forInit n) := by
  refine S.kind.bindEq fun k => .ite _ (.pure (Yield.agree_pure _)) (.ite _ ?_ ?_)
  · refine S.position.bindEq fun pos => S.drop.bindEq fun _ => ?_
    refine S.expectIdentifier.bindEq fun name => (S.mark _).bindEq fun _ => ?_
    exact (hg m n (.expr _)).yieldMap _
  · exact (hg m n (.expr _)).yieldMap _

theorem forLoop : S.Coupled Yield.Agree (g.forLoop m) (g'.forLoop n) := by
  refine (S.mark _).bindEq fun _ => (hg.forInit m n).bind fun _ _ hi => ?_
  refine (S.mark _).bindEq fun _ => ?_
  refine (S.optionally (S.checkNot _) (hg m n (.expr _))).bind fun _ _ hc => ?_
  refine (S.mark _).bindEq fun _ => ?_
  refine (S.optionally (S.checkNot _) (hg m n (.expr _))).bind fun _ _ hu => ?_
  exact (hg.block m n).bind fun _ _ hb => .pure ((((hi.map _).seq hc).seq hu).seq hb)

theorem whileLoop : S.Coupled Yield.Agree (g.whileLoop m) (g'.whileLoop n) :=
  S.drop.bindEq fun _ => (hg m n (.expr _)).bind fun _ _ hc =>
    (hg.block m n).bind fun _ _ hb => .pure ((hc.map _).seq hb)

theorem doWhile : S.Coupled Yield.Agree (g.doWhile m) (g'.doWhile n) := by
  refine S.drop.bindEq fun _ => (hg.block m n).bind fun _ _ hb => (S.mark _).bindEq fun _ => ?_
  exact (hg m n (.expr _)).bind fun _ _ hc => (S.mark _).bindEq fun _ =>
    .pure ((hb.map _).seq hc)

theorem stmtArm : S.Coupled Yield.Agree (g.stmtArm m) (g'.stmtArm n) := by
  refine S.position.bindEq fun pos => (S.mark _).bindEq fun _ => ?_
  refine (hg m n .pattern).bind fun _ _ hp => (S.mark _).bindEq fun _ => ?_
  exact (hg.block m n).bind fun _ _ hb => .pure ((hp.map _).seq hb)

theorem selectStmt : S.Coupled Yield.Agree (g.selectStmt m) (g'.selectStmt n) := by
  refine (S.mark _).bindEq fun _ => (hg m n (.expr _)).bind fun _ _ hs => ?_
  refine (S.mark _).bindEq fun _ => ?_
  exact (S.openList _ (hg.stmtArm m n)).bind fun _ _ ha => .pure ((hs.map _).seq ha)

theorem catchClause : S.Coupled Yield.Agree (g.catchClause m) (g'.catchClause n) := by
  refine S.position.bindEq fun pos => (S.mark _).bindEq fun _ => (S.mark _).bindEq fun _ => ?_
  refine (hg.valueType m n).bind fun _ _ ht => S.expectIdentifier.bindEq fun name => ?_
  exact (S.mark _).bindEq fun _ => (hg.block m n).bind fun _ _ hb => .pure ((ht.map _).seq hb)

theorem attemptStmt : S.Coupled Yield.Agree (g.attemptStmt m) (g'.attemptStmt n) := by
  refine (S.mark _).bindEq fun _ => (hg.block m n).bind fun _ _ hb => ?_
  exact (S.listOnceAndWhile (S.check _) (hg.catchClause m n)).bind fun _ _ hh =>
    .pure ((hb.map _).seq hh)

theorem giveBack : S.Coupled Yield.Agree (g.giveBack m) (g'.giveBack n) :=
  S.drop.bindEq fun _ => (S.optionally (S.checkNot _) (hg m n (.expr _))).bind fun _ _ hv =>
    (S.mark _).bindEq fun _ => .pure (hv.map _)

theorem panicStmt : S.Coupled Yield.Agree (g.panicStmt m) (g'.panicStmt n) := by
  refine S.drop.bindEq fun _ => (S.mark _).bindEq fun _ => ?_
  exact (hg m n (.expr _)).bind fun _ _ hv => (S.mark _).bindEq fun _ =>
    (S.mark _).bindEq fun _ => .pure (hv.map _)

theorem exprStmt : S.Coupled Yield.Agree (g.exprStmt m) (g'.exprStmt n) :=
  (hg m n (.expr _)).bind fun _ _ hv => (S.mark _).bindEq fun _ => .pure (hv.map _)

omit hg in
theorem bareStmt (form : StmtForm) :
    S.Coupled Yield.Agree (Grammar.bareStmt m form : Parse σ _)
      (Grammar.bareStmt n form) :=
  S.drop.bindEq fun _ => (S.mark _).bindEq fun _ => .pure (Yield.agree_pure _)

omit hg in
theorem gotoStmt :
    S.Coupled Yield.Agree (Grammar.gotoStmt m : Parse σ _) (Grammar.gotoStmt n) :=
  S.drop.bindEq fun _ => S.expectIdentifier.bindEq fun _ => (S.mark _).bindEq fun _ =>
    .pure (Yield.agree_pure _)

omit hg in
theorem labelStmt :
    S.Coupled Yield.Agree (Grammar.labelStmt m : Parse σ _) (Grammar.labelStmt n) :=
  S.expectIdentifier.bindEq fun _ => S.drop.bindEq fun _ => .pure (Yield.agree_pure _)

end Grammars

/-! ## With lookaheads -/

namespace Follows

variable {L : Lookaheads σ} (hL : S.Follows L g g') (hg : S.Grammars g g') (m n : Mode)

include hL hg

theorem patternForm : S.Coupled Yield.Agree (L.patternForm g m) (g'.patternForm n) := by
  -- Neither token that a path begins with can be what is left of a longer one.
  have hpath {p : Parser σ} {q : Parser τ} (hfresh : S.fresh p q) :
      S.CoupledAt p q Yield.Agree
        (do if ← L.parenBehind g then g.variantPattern m else g.literalPattern m)
        (do if ← g'.pathOpensParen then g'.variantPattern n else g'.literalPattern n) :=
    (hL.parenBehind hfresh).bind fun opens _ h => h ▸
      Coupled.ite (opens = true) (hg.variantPattern m n) (hg.literalPattern m n)
  rw [← Lookaheads.patternForm_plain]
  refine S.kindAt fun p q hs => ?_
  split
  · next hk => exact hpath (S.fresh_of_kind hs (by rw [hk]; nofun) (by rw [hk]; nofun))
  · next hk => exact hpath (S.fresh_of_kind hs (by rw [hk]; nofun) (by rw [hk]; nofun))
  · exact S.drop.bindEq (fun _ => (hg.patternItems m n).yieldMap _) hs
  · exact S.drop.bindEq (fun _ =>
      (S.openListOrEmpty _ (hg.fieldPattern m n)).yieldMap _) hs
  · exact Coupled.ite _ (hg.literalPattern m n) S.unexpected hs

theorem patternStep : S.Coupled Yield.Agree (L.patternStep g m) (g'.patternStep n) :=
  S.position.bindEq fun _ => (hL.patternForm hg m n).yieldMap _

theorem stmtForm : S.Coupled Yield.Agree (L.stmtForm g m) (g'.stmtForm n) := by
  have hvariable := (hg.variableDecl m n false true).yieldMap StmtForm.variable
  rw [← Lookaheads.stmtForm_plain]
  refine S.kind.bindEq fun k => ?_
  split
  · exact hL.second.bindEq fun _ => .ite _ (hg.branchOn m n) (hg.branch m n)
  · exact hg.forLoop m n
  · exact hg.whileLoop m n
  · exact hg.doWhile m n
  · exact S.inContext _ (hg.selectStmt m n)
  · exact hg.giveBack m n
  · exact Grammars.bareStmt m n .next
  · exact Grammars.bareStmt m n .leave
  · exact Grammars.gotoStmt m n
  · exact hg.attemptStmt m n
  · exact hg.panicStmt m n
  · exact hvariable
  · exact hvariable
  · exact hL.second.bindEq fun _ => .ite _ (Grammars.labelStmt m n) (hg.exprStmt m n)
  · exact hg.exprStmt m n

theorem statementStep :
    S.Coupled Yield.Agree (L.statementStep g m) (g'.statementStep n) :=
  S.position.bindEq fun _ => (hL.stmtForm hg m n).yieldMap _

/-- One step of the grammar keeps grammars coupled. -/
theorem step : S.Grammars (L.step g) (Grammar.step g') := by
  intro m n production
  cases production with
  | type => exact hg.typeStep m n
  | expr level => exact hL.exprStep hg m n level
  | pattern => exact hL.patternStep hg m n
  | statement => exact hL.statementStep hg m n

end Follows

/-- The lookaheads `L` see what those of the grammar see, however deep a text may nest. -/
structure FollowsAll (S : Simulation σ τ) (L : Lookaheads σ) : Prop where
  follows : ∀ {depth : Nat} {g : Grammar σ}, S.Grammars g (Grammar.upTo depth) →
    S.Follows L g (Grammar.upTo depth)

/-- The grammars of equally many steps are coupled, with the lookaheads that are left open. -/
theorem FollowsAll.upTo {L : Lookaheads σ} (hL : S.FollowsAll L) (depth : Nat) :
    S.Grammars (L.upTo depth) (Grammar.upTo depth) := by
  induction depth with
  | zero => exact fun _ _ _ => S.failAtStart nofun rfl
  | succ depth ih => exact (hL.follows ih).step ih

/-- The lookaheads of the grammar see the same with all grammars. -/
theorem followsAll_plain (S : Simulation σ τ) : S.FollowsAll .plain :=
  ⟨fun hg => hg.follows⟩

/-- The grammars of equally many steps are coupled. -/
theorem upTo (S : Simulation σ τ) (depth : Nat) :
    S.Grammars (Grammar.upTo depth) (Grammar.upTo depth) := by
  have hg := S.followsAll_plain.upTo depth
  rw [Lookaheads.upTo_plain] at hg
  exact hg

end Simulation

end ScriptFront
