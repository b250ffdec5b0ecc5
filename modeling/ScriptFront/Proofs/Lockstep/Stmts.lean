import ScriptFront.Grammar.Stmts
import ScriptFront.Proofs.Lockstep.Exprs

/-!
# Patterns and statements in lockstep

A pattern and a statement may begin with an expression, which may begin with a type. So three steps
of the grammars are enough for one more token that is left, and grammars of as many steps as a text
can nest go together from every state (`Lockstep.upTo`).
-/

namespace ScriptFront

open ScriptFront.Parser

namespace Lockstep

variable {L : Lockstep} {n i : Nat} {p q : Parser Buffer} {m : Mode} {g g' : Grammar Buffer}

theorem ownership :
    L.Below n 0 Eq (Grammar.ownership : Parse Buffer Ownership) Grammar.ownership := by
  intro i p q hi hs
  refine .kind hs ?_
  split
  · next hkind => exact (At.dropWord hs hkind (by nofun)).weaken.bind hi fun _ _ _ => .pure rfl
  · next hkind => exact (At.dropWord hs hkind (by nofun)).weaken.bind hi fun _ _ _ => .pure rfl
  · exact .pure hs rfl

/-- Both readings find a `(` behind the path, or neither does. -/
theorem Exprs.pathOpensParen (he : L.Exprs n g g') (hi : i < n) (hfresh : L.fresh i p q) :
    L.At i 0 p q Eq g.pathOpensParen g'.pathOpensParen := by
  have hs := L.state_of_fresh hfresh
  have hrest (opens : Bool) {p' q' : Parser Buffer} (hlost : L.Lost p p' q') :
      L.From i 0 p p' q' Eq
        (do
          Parser.goBack ⟨p.start⟩
          return opens)
        (do
          Parser.goBack ⟨q.start⟩
          return opens) :=
    At.goBackThen hfresh hlost fun _ _ hfresh' => .pure (L.state_of_fresh hfresh') rfl
  refine .save hs fun _ => ?_
  refine .attemptThen (he .check _ hi hs).weaken (fun a b j p' q' _ hbehind => ?_) ?_
  · have hkind := L.kind_eq hbehind.state
    unfold From at hrest ⊢
    rw [run_bind_ok (run_check _ p'), run_bind_ok (run_check _ q'), ← hkind]
    exact hrest _ (lost_of_state hbehind.state hbehind.inTrait_eq)
  · intro e e' p' q' _ hlost
    exact hrest false hlost

/-- A token that ends what is written before a label's colon. -/
theorem labelStmt (hs : L.state i p q)
    (hnext : ∀ t p', (Parser.advance : Parse Buffer Token).run p = (.ok t, p') →
      p'.current.kind = Symbol.colon) :
    L.At i 1 p q (Yield.Like StmtForm.unplaced) (Grammar.labelStmt m : Parse Buffer _)
      (Grammar.labelStmt m) := by
  refine .expectIdentifierThen hs fun j p' q' t name hj _ hrun hfresh => ?_
  have hdrop := At.drop (L.state_of_fresh hfresh) (hnext t p' hrun)
  exact hdrop.weaken.bind (Nat.lt_succ_self j) fun _ _ _ => .pure (Yield.rel_pure rfl)

theorem bareStmt (hs : L.state i p q) (heof : p.current.kind ≠ .eof)
    (hself : p.current.kind ≠ Keyword.selfKw) (form : StmtForm) :
    L.At i 1 p q (Yield.Like StmtForm.unplaced) (Grammar.bareStmt m form : Parse Buffer _)
      (Grammar.bareStmt m form) := by
  refine (At.dropAny hs heof hself).after (Nat.le_refl i) fun _ _ _ => ?_
  exact (Below.mark _).weaken.bindEq fun _ => .pure (Yield.rel_pure rfl)

theorem gotoStmt (hs : L.state i p q) (hkind : p.current.kind = Keyword.gotoKw) :
    L.At i 1 p q (Yield.Like StmtForm.unplaced) (Grammar.gotoStmt m : Parse Buffer _)
      (Grammar.gotoStmt m) := by
  refine (At.dropWord hs hkind (by nofun)).after (Nat.le_refl i) fun _ _ _ => ?_
  refine Below.expectIdentifier.weaken.bindEq fun label => (Below.mark _).weaken.bindEq fun _ => ?_
  exact .pure (Yield.rel_pure rfl)

namespace Grammars

variable (hg : L.Grammars n g g')

include hg

/-! ## Patterns -/

theorem patternItems :
    L.Below n 1 (Yield.Like (List.map Expr.unplaced)) (g.patternItems m) (g'.patternItems m) :=
  Below.closedList _ (hg.exprs m _)

theorem variantPattern (he : L.Exprs (n + 1) g g') :
    L.Below (n + 1) 1 (Yield.Like PatternForm.unplaced) (g.variantPattern m)
      (g'.variantPattern m) := by
  refine (he m _).after fun _ _ hp => (Below.mark _).weaken.bindEq fun _ => ?_
  refine (Below.eat _).bindEq fun _ => .ite _ (.pure (hp.map fun a b hab => ?_)) ?_
  · simp only [PatternForm.unplaced, hab]
  · refine hg.patternItems.weaken.bind fun _ _ hitems => ?_
    refine .pure (hp.map₂ hitems fun a b c d hab hcd => ?_)
    simp only [PatternForm.unplaced, Expr.unplacedAll_eq_map, hab, hcd]

omit hg in
theorem literalPattern (he : L.Exprs n g g') :
    L.Below n 1 (Yield.Like PatternForm.unplaced) (g.literalPattern m) (g'.literalPattern m) :=
  (he m _).yieldMap fun a b hab => by simp only [PatternForm.unplaced, hab]

theorem fieldTarget :
    L.Below n 1 (Yield.Like FieldBinding.unplaced) (g.fieldTarget m) (g'.fieldTarget m) := by
  refine Below.kind.bindEq fun k => .ite _ ?_ ?_
  · exact (hg.patterns m).yieldMap fun a b hab => by simp only [FieldBinding.unplaced, hab]
  · exact (hg.exprs m _).yieldMap fun a b hab => by simp only [FieldBinding.unplaced, hab]

theorem fieldPattern :
    L.Below n 1 (Yield.Like FieldPattern.unplaced) (g.fieldPattern m) (g'.fieldPattern m) := by
  refine Below.position.bind fun pos pos' _ => Below.expectIdentifier.andThenEq fun field => ?_
  refine (Below.eat _).bindEq fun _ => .ite _ ?_ (.pure (Yield.rel_pure rfl))
  refine hg.fieldTarget.weaken.yieldMap fun a b hab => ?_
  simp only [FieldPattern.unplaced, hab]

theorem patternForm (he : L.Exprs (n + 1) g g') :
    L.Below (n + 1) 1 (Yield.Like PatternForm.unplaced) (g.patternForm m) (g'.patternForm m) := by
  intro i p q hi hs
  -- Neither token that a path begins with can be what is left of a longer one.
  have hpath (hfresh : L.fresh i p q) : L.At i 1 p q (Yield.Like PatternForm.unplaced)
      (do if ← g.pathOpensParen then g.variantPattern m else g.literalPattern m)
      (do if ← g'.pathOpensParen then g'.variantPattern m else g'.literalPattern m) := by
    refine (he.pathOpensParen hi hfresh).bind hi ?_
    rintro opens _ rfl
    exact .ite _ (hg.variantPattern he) (literalPattern he)
  refine .kind hs ?_
  split
  · next hkind => exact hpath (L.fresh_of_kind hs (by rw [hkind]; nofun) (by rw [hkind]; nofun))
  · next hkind => exact hpath (L.fresh_of_kind hs (by rw [hkind]; nofun) (by rw [hkind]; nofun))
  · next hkind =>
    refine (At.drop hs hkind).after (Nat.le_of_lt_succ hi) fun _ _ _ => ?_
    refine hg.patternItems.weaken.yieldMap fun a b hab => ?_
    simp only [PatternForm.unplaced, Expr.unplacedAll_eq_map, hab]
  · next hkind =>
    refine (At.drop hs hkind).after (Nat.le_of_lt_succ hi) fun _ _ _ => ?_
    refine (Below.openListOrEmpty _ hg.fieldPattern).weaken.yieldMap fun a b hab => ?_
    simp only [PatternForm.unplaced, FieldPattern.unplacedAll_eq_map, hab]
  · exact .ite (fun _ => literalPattern he hi hs) fun _ => .unexpected hs

theorem patternStep (he : L.Exprs (n + 1) g g') :
    L.Below (n + 1) 1 (Yield.Like Pattern.unplaced) (g.patternStep m) (g'.patternStep m) := by
  refine Below.position.bind fun pos pos' _ => (hg.patternForm he).yieldMap fun a b hab => ?_
  simp only [Pattern.unplaced, hab]

/-! ## Variables -/

theorem variableBinding (destructures : Bool) :
    L.Below n 1 (Yield.Like Binding.unplaced) (g.variableBinding m destructures)
      (g'.variableBinding m destructures) := by
  refine Below.kind.bindEq fun k =>
    .ite _ ?_ (.ite _ (.failHere nofun) (.ite _ ?_ (.expectedOneOf _)))
  · exact Below.expectIdentifier.map fun a b hab => by rw [hab]; exact Yield.rel_pure rfl
  · exact (hg.patterns m).yieldMap fun a b hab => by simp only [Binding.unplaced, hab]

theorem variableType :
    L.Below n 1 (Yield.Like TypeExpr.unplaced) (g.variableType m) (g'.variableType m) :=
  (rejectVoid _).bindEq fun _ => hg.types m

theorem initialValue :
    L.Below n 1 (Yield.Like Expr.unplaced) (g.initialValue m) (g'.initialValue m) :=
  (Below.mark _).andThenEq fun _ => (hg.exprs m _).weaken

theorem variableDecl (exported destructures : Bool) :
    L.Below (n + 1) 1 (Yield.Like VariableDecl.unplaced) (g.variableDecl m exported destructures)
      (g'.variableDecl m exported destructures) := by
  refine Below.position.bind fun pos pos' _ =>
    (Below.expectOneOf _ (by decide) (by decide)).after fun t t' ht => ?_
  refine ownership.bindEq fun ownership => ?_
  refine (hg.variableBinding destructures).weaken.bind fun _ _ hb => ?_
  refine (Below.eat _).bindEq fun typed => ?_
  refine (Below.optionally (.pure rfl) hg.variableType).bind fun _ _ htype => ?_
  refine (Below.check _).bindEq fun assigned => ?_
  rw [ht.1]
  refine (Below.optionally (.pure rfl) hg.initialValue).bind fun _ _ hinit => ?_
  refine (Below.mark _).weaken.bindEq fun _ => ?_
  refine .pure (hb.map₃ htype hinit fun a b c d e f hab hcd hef => ?_)
  simp only [VariableDecl.unplaced, Expr.unplaced?_eq_map, hab, hcd, hef]

/-! ## Statements -/

theorem elseBlock :
    L.Below n 0 (Yield.Like (Option.map Block.unplaced)) (g.elseBlock m) (g'.elseBlock m) :=
  Below.optionally (Below.eatWord _ (by nofun)) hg.block.less

theorem branch :
    L.Below (n + 1) 1 (Yield.Like StmtForm.unplaced) (g.branch m) (g'.branch m) := by
  refine (Below.markWord _ (by nofun)).afterEq fun _ => (hg.exprs m _).weaken.bind fun _ _ hc => ?_
  refine hg.block.less.weaken.bind fun _ _ hb => hg.elseBlock.bind fun _ _ ha => ?_
  refine .pure (hc.map₃ hb ha fun a b c d e f hab hcd hef => ?_)
  simp only [StmtForm.unplaced, Block.unplaced?_eq_map, hab, hcd, hef]

theorem branchOn :
    L.Below (n + 1) 1 (Yield.Like StmtForm.unplaced) (g.branchOn m) (g'.branchOn m) := by
  refine (Below.markWord _ (by nofun)).afterEq fun _ =>
    (Below.markWord _ (by nofun)).weaken.bindEq fun _ => ?_
  refine (hg.patterns m).weaken.bind fun _ _ hp => (Below.mark _).weaken.bindEq fun _ => ?_
  refine (hg.exprs m _).weaken.bind fun _ _ hv => hg.block.less.weaken.bind fun _ _ hb => ?_
  refine hg.elseBlock.bind fun _ _ ha => ?_
  refine .pure (hp.map₄ hv hb ha fun a b c d e f k l hab hcd hef hkl => ?_)
  simp only [StmtForm.unplaced, Block.unplaced?_eq_map, hab, hcd, hef, hkl]

theorem forInit :
    L.Below n 0 (Yield.Like (Option.map ForInit.unplaced)) (g.forInit m) (g'.forInit m) := by
  intro i p q hi hs
  refine .kind hs (.ite (fun _ => .pure hs (Yield.rel_pure rfl)) fun _ => .ite (fun hlet => ?_)
    fun _ => ?_)
  · refine .getThen ((At.dropWord hs hlet (by nofun)).weaken.bind hi fun _ _ _ => ?_)
    refine Below.expectIdentifier.weaken.bindEq fun name => (Below.mark _).weaken.bindEq fun _ => ?_
    refine (hg.exprs m _).weaken.yieldMap fun a b hab => ?_
    simp only [Option.map_some, ForInit.unplaced, hab]
  · refine ((hg.exprs m _).weaken.yieldMap fun a b hab => ?_) hi hs
    simp only [Option.map_some, ForInit.unplaced, hab]

theorem forLoop :
    L.Below (n + 1) 1 (Yield.Like StmtForm.unplaced) (g.forLoop m) (g'.forLoop m) := by
  refine (Below.markWord _ (by nofun)).afterEq fun _ => hg.forInit.bind fun _ _ hi => ?_
  refine (Below.mark _).weaken.bindEq fun _ => ?_
  refine (Below.optionally (Below.checkNot _) (hg.exprs m _)).bind fun _ _ hc => ?_
  refine (Below.mark _).weaken.bindEq fun _ => ?_
  refine (Below.optionally (Below.checkNot _) (hg.exprs m _)).bind fun _ _ hu => ?_
  refine hg.block.less.weaken.bind fun _ _ hb => ?_
  refine .pure (hi.map₄ hc hu hb fun a b c d e f k l hab hcd hef hkl => ?_)
  simp only [StmtForm.unplaced, ForInit.unplaced?_eq_map, Expr.unplaced?_eq_map, hab, hcd, hef, hkl]

theorem whileLoop (hi : i < n + 1) (hs : L.state i p q)
    (hkind : p.current.kind = Keyword.whileKw) :
    L.At i 1 p q (Yield.Like StmtForm.unplaced) (g.whileLoop m) (g'.whileLoop m) := by
  refine (At.dropWord hs hkind (by nofun)).after (Nat.le_of_lt_succ hi) fun _ _ _ => ?_
  refine (hg.exprs m _).weaken.bind fun _ _ hc => hg.block.less.weaken.bind fun _ _ hb => ?_
  refine .pure (hc.map₂ hb fun a b c d hab hcd => ?_)
  simp only [StmtForm.unplaced, hab, hcd]

theorem doWhile (hi : i < n + 1) (hs : L.state i p q) (hkind : p.current.kind = Keyword.doKw) :
    L.At i 1 p q (Yield.Like StmtForm.unplaced) (g.doWhile m) (g'.doWhile m) := by
  refine (At.dropWord hs hkind (by nofun)).after (Nat.le_of_lt_succ hi) fun _ _ _ => ?_
  refine hg.block.less.weaken.bind fun _ _ hb =>
    (Below.markWord _ (by nofun)).weaken.bindEq fun _ => ?_
  refine (hg.exprs m _).weaken.bind fun _ _ hc => (Below.mark _).weaken.bindEq fun _ => ?_
  refine .pure (hb.map₂ hc fun a b c d hab hcd => ?_)
  simp only [StmtForm.unplaced, hab, hcd]

theorem stmtArm :
    L.Below n 1 (Yield.Like StmtArm.unplaced) (g.stmtArm m) (g'.stmtArm m) := by
  refine Below.position.bind fun pos pos' _ => (Below.markWord _ (by nofun)).andThenEq fun _ => ?_
  refine (hg.patterns m).weaken.bind fun _ _ hp => (Below.mark _).weaken.bindEq fun _ => ?_
  refine hg.block.less.weaken.bind fun _ _ hb => .pure (hp.map₂ hb fun a b c d hab hcd => ?_)
  simp only [StmtArm.unplaced, hab, hcd]

theorem selectStmt :
    L.Below (n + 1) 1 (Yield.Like StmtForm.unplaced) (g.selectStmt m) (g'.selectStmt m) := by
  refine (Below.markWord _ (by nofun)).afterEq fun _ =>
    (hg.exprs m _).weaken.bind fun _ _ hsubject => ?_
  refine (Below.mark _).weaken.bindEq fun _ => ?_
  refine (Below.openList _ hg.stmtArm).weaken.bind fun _ _ ha => ?_
  refine .pure (hsubject.map₂ ha fun a b c d hab hcd => ?_)
  simp only [StmtForm.unplaced, StmtArm.unplacedAll_eq_map, hab, hcd]

theorem catchClause :
    L.Below n 1 (Yield.Like CatchClause.unplaced) (g.catchClause m) (g'.catchClause m) := by
  refine Below.position.bind fun pos pos' _ => (Below.markWord _ (by nofun)).andThenEq fun _ => ?_
  refine (Below.mark _).weaken.bindEq fun _ => hg.types.valueType.weaken.bind fun _ _ ht => ?_
  refine Below.expectIdentifier.weaken.bindEq fun name => (Below.mark _).weaken.bindEq fun _ => ?_
  refine hg.block.less.weaken.bind fun _ _ hb => .pure (ht.map₂ hb fun a b c d hab hcd => ?_)
  simp only [CatchClause.unplaced, hab, hcd]

theorem attemptStmt :
    L.Below (n + 1) 1 (Yield.Like StmtForm.unplaced) (g.attemptStmt m) (g'.attemptStmt m) := by
  refine (Below.markWord _ (by nofun)).afterEq fun _ => hg.block.less.weaken.bind fun _ _ hb => ?_
  refine (Below.listOnceAndWhile (Below.check _) hg.catchClause).weaken.bind fun _ _ hh => ?_
  refine .pure (hb.map₂ hh fun a b c d hab hcd => ?_)
  simp only [StmtForm.unplaced, CatchClause.unplacedAll_eq_map, hab, hcd]

theorem giveBack (hi : i < n + 1) (hs : L.state i p q)
    (hkind : p.current.kind = Keyword.returnKw) :
    L.At i 1 p q (Yield.Like StmtForm.unplaced) (g.giveBack m) (g'.giveBack m) := by
  refine (At.dropWord hs hkind (by nofun)).after (Nat.le_of_lt_succ hi) fun _ _ _ => ?_
  refine (Below.optionally (Below.checkNot _) (hg.exprs m _)).bind fun _ _ hv => ?_
  refine (Below.mark _).weaken.bindEq fun _ => .pure (hv.map fun a b hab => ?_)
  simp only [StmtForm.unplaced, Expr.unplaced?_eq_map, hab]

theorem panicStmt (hi : i < n + 1) (hs : L.state i p q)
    (hkind : p.current.kind = Keyword.panicKw) :
    L.At i 1 p q (Yield.Like StmtForm.unplaced) (g.panicStmt m) (g'.panicStmt m) := by
  refine (At.dropWord hs hkind (by nofun)).after (Nat.le_of_lt_succ hi) fun _ _ _ => ?_
  refine (Below.mark _).weaken.bindEq fun _ => (hg.exprs m _).weaken.bind fun _ _ hv => ?_
  refine (Below.mark _).weaken.bindEq fun _ => (Below.mark _).weaken.bindEq fun _ => ?_
  refine .pure (hv.map fun a b hab => ?_)
  simp only [StmtForm.unplaced, hab]

omit hg in
theorem exprStmt (he : L.Exprs n g g') :
    L.Below n 1 (Yield.Like StmtForm.unplaced) (g.exprStmt m) (g'.exprStmt m) := by
  refine (he m _).andThen fun _ _ hv => (Below.mark _).weaken.bindEq fun _ => ?_
  refine .pure (hv.map fun a b hab => ?_)
  simp only [StmtForm.unplaced, hab]

theorem stmtForm (he : L.Exprs (n + 1) g g') :
    L.Below (n + 1) 1 (Yield.Like StmtForm.unplaced) (g.stmtForm m) (g'.stmtForm m) := by
  intro i p q hi hs
  have hvariable : L.Below (n + 1) 1 (Yield.Like StmtForm.unplaced)
      (do return StmtForm.variable <$> (← g.variableDecl m false true))
      (do return StmtForm.variable <$> (← g'.variableDecl m false true)) :=
    (hg.variableDecl false true).yieldMap fun a b hab => by simp only [StmtForm.unplaced, hab]
  refine .kind hs ?_
  split
  · refine .peekThen hs fun t t' ht _ => ?_
    rw [ht.1]
    exact .ite (fun _ => hg.branchOn hi hs) fun _ => hg.branch hi hs
  · exact hg.forLoop hi hs
  · next hkind => exact hg.whileLoop hi hs hkind
  · next hkind => exact hg.doWhile hi hs hkind
  · exact (hg.selectStmt hi hs).inContext _
  · next hkind => exact hg.giveBack hi hs hkind
  · next hkind => exact bareStmt hs (by rw [hkind]; nofun) (by rw [hkind]; nofun) .next
  · next hkind => exact bareStmt hs (by rw [hkind]; nofun) (by rw [hkind]; nofun) .leave
  · next hkind => exact gotoStmt hs hkind
  · exact hg.attemptStmt hi hs
  · next hkind => exact hg.panicStmt hi hs hkind
  · exact hvariable hi hs
  · exact hvariable hi hs
  · refine .peekThen hs fun t t' ht hnext => ?_
    rw [← ht.1]
    refine .ite (fun hcolon => ?_) fun _ => exprStmt he hi hs
    exact labelStmt hs fun s p' hrun => by rw [hnext s p' hrun, hcolon]
  · exact exprStmt he hi hs

theorem statementStep (he : L.Exprs (n + 1) g g') :
    L.Below (n + 1) 1 (Yield.Like Stmt.unplaced) (g.statementStep m) (g'.statementStep m) := by
  refine Below.position.bind fun pos pos' _ => (hg.stmtForm he).yieldMap fun a b hab => ?_
  simp only [Stmt.unplaced, hab]

end Grammars

/-! ## The whole -/

/-- One step takes a type first, two an expression, three whatever there is. -/
theorem upTo (L : Lockstep) {n depth depth' : Nat} (h : 3 * n ≤ depth) (h' : 3 * n ≤ depth') :
    L.Grammars n (Grammar.upTo depth) (Grammar.upTo depth') := by
  induction n generalizing depth depth' with
  | zero => exact ⟨fun _ => .zero, fun _ _ => .zero, fun _ => .zero, fun _ => .zero⟩
  | succ n ih =>
    have htypes {depth depth' : Nat} (h : 3 * n < depth) (h' : 3 * n < depth') :
        L.Types (n + 1) (Grammar.upTo depth) (Grammar.upTo depth') := by
      obtain _ | depth := depth
      · omega
      obtain _ | depth' := depth'
      · omega
      exact fun _ => (ih (by omega) (by omega)).types.typeStep
    have hexprs {depth depth' : Nat} (h : 3 * n + 1 < depth) (h' : 3 * n + 1 < depth') :
        L.Exprs (n + 1) (Grammar.upTo depth) (Grammar.upTo depth') := by
      obtain _ | depth := depth
      · omega
      obtain _ | depth' := depth'
      · omega
      exact fun _ level => (ih (by omega) (by omega)).exprStep
        (htypes (by omega) (by omega)) level
    obtain _ | depth := depth
    · omega
    obtain _ | depth' := depth'
    · omega
    have hg : L.Grammars n (Grammar.upTo depth) (Grammar.upTo depth') := ih (by omega) (by omega)
    have he : L.Exprs (n + 1) (Grammar.upTo depth) (Grammar.upTo depth') :=
      hexprs (by omega) (by omega)
    exact ⟨htypes (by omega) (by omega), hexprs (by omega) (by omega),
      fun _ => hg.patternStep he, fun _ => hg.statementStep he⟩

/-- Grammars of one depth go together even where this is not enough, if errors because of that
do. -/
theorem upTo_same (L : Lockstep) (htold : ∀ {i : Nat} {p q : Parser Buffer}, L.state i p q →
      L.told ⟨.tooDeep, p.start.stored, none⟩ ⟨.tooDeep, q.start.stored, none⟩) (depth n : Nat) :
    L.Grammars n (Grammar.upTo depth) (Grammar.upTo depth) := by
  induction depth generalizing n with
  | zero =>
    have hfails {α β : Type} {V : α → β → Prop} :
        L.Below n 1 V (failAtStart .tooDeep) (failAtStart .tooDeep) :=
      fun _ _ _ _ hs => .throw hs (htold hs)
    exact ⟨fun _ => hfails, fun _ _ => hfails, fun _ => hfails, fun _ => hfails⟩
  | succ depth ih =>
    have hg := ih n
    have hmore := ih (n + 1)
    have hle := Nat.le_succ n
    exact ⟨fun _ => hg.types.typeStep.le hle, fun _ level => (hg.exprStep hmore.types level).le hle,
      fun _ => (hg.patternStep hmore.exprs).le hle, fun _ => (hg.statementStep hmore.exprs).le hle⟩

end Lockstep

end ScriptFront
