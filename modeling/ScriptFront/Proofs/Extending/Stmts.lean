import ScriptFront.Proofs.Extending.Exprs

/-!
# Statements in front of a block

Patterns and statements are a part of expressions, which have blocks inside. With them the grammar
is closed: it reads the same over the second text however deep it nests.

- `Extension.Grammars.pattern`, `Extension.Grammars.statement`: a step more of patterns and
  statements.
- `Extension.grammars_upTo`: the grammar of every depth.
-/

namespace ScriptFront

open ScriptFront.Parser

namespace Extension

variable {E : Extension} {p q : Parser Buffer} {m : Mode}

namespace Grammars

variable {g : Grammar Buffer} (hg : E.Grammars g)

include hg

/-! ## Patterns -/

theorem patternItems : E.Keeps False (g.patternItems m) :=
  .closedList _ (by decide) (hg.exprs m _)

theorem variantPattern : E.Keeps False (g.variantPattern m) := by
  refine (hg.exprs m _).bind fun _ => (Keeps.mark (by decide)).bind fun _ => ?_
  exact (Keeps.eat (by decide)).bind fun _ => .ite (.pure _) (hg.patternItems.bind fun _ => .pure _)

theorem literalPattern : E.Keeps False (g.literalPattern m) := (hg.exprs m _).bind fun _ => .pure _

/-- What is a path over the first text is one over the second. What is none there is read as a
constant, to no end. -/
theorem pathPattern (hs : E.Twin p q) (hgt : p.current.kind ≠ Symbol.gt)
    (hpipe : p.current.kind ≠ Symbol.pipe) :
    E.At False p q (do if ← g.pathOpensParen then g.variantPattern m else g.literalPattern m)
      (do if ← g.pathOpensParen then g.variantPattern m else g.literalPattern m) := by
  obtain ⟨hfresh, hfresh'⟩ := hs.fresh hgt hpipe
  have hscan := hg.exprs .check Level.path (.inl hs)
  have hback := Course.run_goBack_of_coupled hfresh
    (hg.left .check .check (.expr Level.path) ⟨rfl, hs.left⟩)
  have hback' := Course.run_goBack_of_coupled hfresh'
    (hg.right .check .check (.expr Level.path) ⟨rfl, hs.right⟩)
  have hfails {e : SyntaxError} {p' : Parser Buffer}
      (hp : (g.expr .check Level.path).run p = (.error e, p')) :
      ∃ q', (g.literalPattern m).run p = (.error e, q') := by
    have hmodes := hg.modes .check m (.expr Level.path) (rfl : p = p)
    unfold Simulation.CoupledAt at hmodes
    rw [hp] at hmodes
    generalize hrun : (g m (.expr Level.path)).run p = r at hmodes
    cases hmodes with
    | error => exact ⟨_, run_bind_error hrun⟩
  unfold At at hscan ⊢
  rcases hp : (g.expr .check Level.path).run p with ⟨r, p'⟩
  rcases hq : (g.expr .check Level.path).run q with ⟨r', q'⟩
  rw [hp] at hback
  rw [hq] at hback'
  rw [hp, hq] at hscan
  rw [run_bind_ok (run_pathOpensParen hp hback), run_bind_ok (run_pathOpensParen hq hback')]
  cases hscan with
  | ok state =>
    have hopens : decide (p'.current.kind = Symbol.lParen) =
        decide (q'.current.kind = Symbol.lParen) := by
      rcases state with htwin | hparted
      · rw [htwin.current_eq]
      · obtain ⟨hleft, hright⟩ := hparted.kind_ne (c := Symbol.lParen) (by decide)
        rw [decide_eq_false hleft, decide_eq_false hright]
    rw [hopens]
    exact Keeps.ite hg.variantPattern hg.literalPattern (.inl hs)
  | error =>
    obtain ⟨q', hrun⟩ := hfails hp
    exact At.of_error hrun not_false
  | unmirrored h =>
    obtain ⟨q', hrun⟩ := hfails hp
    exact At.of_error hrun not_false

theorem fieldTarget : E.Keeps False (g.fieldTarget m) := by
  refine .of_twin (fun hs => .kind (.inl hs) (fun _ => ?_) fun hparted =>
    absurd hparted.kind_eq hs.kind_ne) (.of_eof (.kind (hg.stalls m _).bind))
  exact Keeps.ite ((hg.patterns m).bind fun _ => .pure _) ((hg.exprs m _).bind fun _ => .pure _)
    (.inl hs)

theorem fieldPattern : E.Keeps False (g.fieldPattern m) := by
  refine .position (fun _ => Keeps.expectIdentifier.bind fun _ => ?_)
    fun _ => Stuck.expectIdentifier.bind
  exact (Keeps.eat (by decide)).bind fun _ => .ite (hg.fieldTarget.bind fun _ => .pure _) (.pure _)

theorem patternForm (hs : E.Twin p q) : E.At False p q (g.patternForm m) (g.patternForm m) := by
  refine .kind (.inl hs) (fun _ => ?_) fun hparted => absurd hparted.kind_eq hs.kind_ne
  split
  · next hkind => exact hg.pathPattern hs (by rw [hkind]; rintro ⟨⟩) (by rw [hkind]; rintro ⟨⟩)
  · next hkind => exact hg.pathPattern hs (by rw [hkind]; rintro ⟨⟩) (by rw [hkind]; rintro ⟨⟩)
  · exact (At.drop hs).bind fun _ _ _ _ hs' => (hg.patternItems.bind fun _ => .pure _) hs'
  · refine (At.drop hs).bind fun _ _ _ _ hs' => ?_
    exact ((Keeps.openListOrEmpty _ (by decide) hg.fieldPattern).bind fun _ => .pure _) hs'
  · exact .ite (fun _ => hg.literalPattern (.inl hs)) fun _ => .unexpected

theorem patternStep : E.Keeps False (g.patternStep m) := by
  refine .of_twin (fun hs => .position hs fun _ => ?_)
    (.of_eof (.position fun _ => (Stalls.kind .unexpected).bind))
  exact (hg.patternForm hs).bind fun _ _ _ _ hs' => .pure hs' _

/-! ## Variables -/

omit hg in
theorem ownership : E.Keeps False (Grammar.ownership : Parse Buffer Ownership) := by
  intro p q hs
  refine .kind hs (fun htwin => ?_) fun _ => ?_
  · split
    · exact (At.drop htwin).bind fun _ _ _ _ hs' => .pure hs' _
    · exact (At.drop htwin).bind fun _ _ _ _ hs' => .pure hs' _
    · exact .pure hs _
  · exact .pure hs _

theorem variableBinding (destructures : Bool) :
    E.Keeps False (g.variableBinding m destructures) := by
  refine .of_twin (fun hs => .kind (.inl hs) (fun _ => ?_) fun hparted =>
    absurd hparted.kind_eq hs.kind_ne) (.of_eof (.kind ?_))
  · refine .ite (fun _ => (At.expectIdentifier hs).bind fun _ _ _ _ hs' => .pure hs' _) fun _ => ?_
    refine .ite (fun _ => .failHere nofun) fun _ => .ite (fun _ => ?_) fun _ => .expectedOneOf _
    exact ((hg.patterns m).bind fun _ => .pure _) (.inl hs)
  · cases destructures with
    | false => exact .failHere nofun
    | true => exact .expectedOneOf _

theorem variableType : E.Keeps False (g.variableType m) :=
  (rejectVoid _).weaken.bind fun _ => (hg.types m).weaken

theorem initialValue : E.Keeps False (g.initialValue m) :=
  (Keeps.mark (by decide)).bind fun _ => hg.exprs m _

theorem variableDecl (exported destructures : Bool) :
    E.Keeps False (g.variableDecl m exported destructures) := by
  refine .of_twin (fun hs => .position hs fun _ => ?_)
    (.of_eof (.position fun _ => (Stalls.kind (.expectedOneOf _)).bind))
  have hfirst : E.At False _ _ (expectOneOf [Keyword.letKw, Keyword.constKw]) _ :=
    .kind (.inl hs) (fun _ => .ite (fun _ => .advance hs) fun _ => .expectedOneOf _) fun hparted =>
      absurd hparted.kind_eq hs.kind_ne
  refine hfirst.bind fun first _ _ _ hs' => (ownership.bind fun _ => ?_) hs'
  refine (hg.variableBinding _).bind fun _ => (Keeps.eat (by decide)).bind fun typed => ?_
  refine (Keeps.optionally (.pure _) hg.variableType).bind fun _ => ?_
  refine (Keeps.check (by decide)).bind fun _ => ?_
  refine (Keeps.optionally (.pure _) hg.initialValue).bind fun _ => ?_
  exact (Keeps.mark (by decide)).bind fun _ => .pure _

/-! ## Statements with blocks -/

theorem elseBlock : E.Keeps False (g.elseBlock m) := .optionally (.eat (by decide)) hg.block

theorem branch : E.Keeps False (g.branch m) := by
  refine (Keeps.mark (by decide)).bind fun _ => (hg.exprs m _).bind fun _ => ?_
  exact hg.block.bind fun _ => hg.elseBlock.bind fun _ => .pure _

theorem branchOn : E.Keeps False (g.branchOn m) := by
  refine (Keeps.mark (by decide)).bind fun _ => (Keeps.mark (by decide)).bind fun _ => ?_
  refine (hg.patterns m).bind fun _ => (Keeps.mark (by decide)).bind fun _ => ?_
  refine (hg.exprs m _).bind fun _ => hg.block.bind fun _ => hg.elseBlock.bind fun _ => .pure _

theorem forInit : E.Keeps False (g.forInit m) := by
  refine .of_twin (fun hs => .kind (.inl hs) (fun _ => ?_) fun hparted =>
    absurd hparted.kind_eq hs.kind_ne) (.of_eof (.kind (hg.stalls m _).bind))
  refine .ite (fun _ => .pure (.inl hs) _) fun _ => .ite (fun _ => ?_) fun _ => ?_
  · refine .position hs fun _ => (At.drop hs).bind fun _ _ _ _ hs' => ?_
    refine (Keeps.expectIdentifier.bind fun _ => (Keeps.mark (by decide)).bind fun _ => ?_) hs'
    exact (hg.exprs m _).bind fun _ => .pure _
  · exact ((hg.exprs m _).bind fun _ => .pure _) (.inl hs)

theorem forLoop : E.Keeps False (g.forLoop m) := by
  refine (Keeps.mark (by decide)).bind fun _ => hg.forInit.bind fun _ => ?_
  refine (Keeps.mark (by decide)).bind fun _ => ?_
  refine (Keeps.optionally (.checkNot (by decide)) (hg.exprs m _)).bind fun _ => ?_
  refine (Keeps.mark (by decide)).bind fun _ => ?_
  unfold Parser.optionally Parser.checkNot
  simp only [bind_assoc, pure_bind]
  refine .of_twin (fun hs => ?_) (.of_eof (.check (by nofun) ?_))
  · refine .checkTwin hs (fun _ => ?_) ?_
    · simp only [Bool.not_true, Bool.false_eq_true, if_false, pure_bind]
      exact (hg.block.bind fun _ => .pure _) (.inl hs)
    · simp only [Bool.not_false, if_true, bind_assoc, pure_bind]
      exact ((hg.exprs m _).bind fun _ => hg.block.bind fun _ => .pure _) (.inl hs)
  · simp only [Bool.not_false, if_true, bind_assoc]
    exact (hg.stalls m _).bind

theorem whileLoop (hs : E.Twin p q) : E.At False p q (g.whileLoop m) (g.whileLoop m) := by
  refine (At.drop hs).bind fun _ _ _ _ hs' => ?_
  exact ((hg.exprs m _).bind fun _ => hg.block.bind fun _ => .pure _) hs'

theorem doWhile (hs : E.Twin p q) : E.At False p q (g.doWhile m) (g.doWhile m) := by
  refine (At.drop hs).bind fun _ _ _ _ hs' => (hg.block.bind fun _ => ?_) hs'
  refine (Keeps.mark (by decide)).bind fun _ => (hg.exprs m _).bind fun _ => ?_
  exact (Keeps.mark (by decide)).bind fun _ => .pure _

theorem stmtArm : E.Keeps False (g.stmtArm m) := by
  refine .position (fun _ => (Keeps.mark (by decide)).bind fun _ => ?_)
    fun _ => (Stuck.mark (by decide)).bind
  refine (hg.patterns m).bind fun _ => (Keeps.mark (by decide)).bind fun _ => ?_
  exact hg.block.bind fun _ => .pure _

theorem selectStmt (hs : E.Twin p q) : E.At False p q (g.selectStmt m) (g.selectStmt m) := by
  refine (At.mark hs).bind fun _ _ _ _ hs' => ((hg.exprs m _).bind fun subject => ?_) hs'
  refine .of_twin (fun htwin => (At.mark htwin).bind fun _ _ _ _ hs'' => ?_)
    (.of_eof (Stalls.mark (by nofun)).bind)
  exact ((Keeps.openList _ (by decide) hg.stmtArm).bind fun _ => .pure _) hs''

theorem catchClause : E.Keeps False (g.catchClause m) := by
  refine .position (fun _ => (Keeps.mark (by decide)).bind fun _ => ?_)
    fun _ => (Stuck.mark (by decide)).bind
  refine (Keeps.mark (by decide)).bind fun _ => hg.types.valueType.weaken.bind fun _ => ?_
  refine Keeps.expectIdentifier.bind fun _ => (Keeps.mark (by decide)).bind fun _ => ?_
  exact hg.block.bind fun _ => .pure _

theorem attemptStmt : E.Keeps False (g.attemptStmt m) := by
  refine (Keeps.mark (by decide)).bind fun _ => hg.block.bind fun _ => ?_
  exact (Keeps.listOnceAndWhile (.check (by decide)) hg.catchClause).bind fun _ => .pure _

/-! ## Other statements -/

theorem giveBack (hs : E.Twin p q) : E.At False p q (g.giveBack m) (g.giveBack m) := by
  refine (At.drop hs).bind fun _ _ _ _ hs' => ?_
  refine ((Keeps.optionally (.checkNot (by decide)) (hg.exprs m _)).bind fun _ => ?_) hs'
  exact (Keeps.mark (by decide)).bind fun _ => .pure _

omit hg in
theorem bareStmt (hs : E.Twin p q) (form : StmtForm) :
    E.At False p q (Grammar.bareStmt m form : Parse Buffer _) (Grammar.bareStmt m form) :=
  (At.drop hs).bind fun _ _ _ _ hs' => ((Keeps.mark (by decide)).bind fun _ => .pure _) hs'

omit hg in
theorem gotoStmt (hs : E.Twin p q) :
    E.At False p q (Grammar.gotoStmt m : Parse Buffer _) (Grammar.gotoStmt m) := by
  refine (At.drop hs).bind fun _ _ _ _ hs' => (Keeps.expectIdentifier.bind fun _ => ?_) hs'
  exact (Keeps.mark (by decide)).bind fun _ => .pure _

theorem panicStmt (hs : E.Twin p q) : E.At False p q (g.panicStmt m) (g.panicStmt m) := by
  refine (At.drop hs).bind fun _ _ _ _ hs' => ((Keeps.mark (by decide)).bind fun _ => ?_) hs'
  refine (hg.exprs m _).bind fun _ => (Keeps.mark (by decide)).bind fun _ => ?_
  exact (Keeps.mark (by decide)).bind fun _ => .pure _

omit hg in
/-- Behind the name there is a colon in both texts. -/
theorem labelStmt (hs : E.Twin p q) (hsecond : ∀ t p',
    (advance : Parse Buffer Token).run p = (.ok t, p') → p'.current.kind = Symbol.colon) :
    E.At False p q (Grammar.labelStmt m : Parse Buffer _) (Grammar.labelStmt m) := by
  unfold Grammar.labelStmt Parser.expectIdentifier
  rw [bind_assoc]
  refine .checkTwin hs (fun _ => ?_) (.of_error (run_bind_error rfl) not_false)
  simp only [if_true, bind_assoc, pure_bind]
  refine (At.advance hs).bind fun t p' q' hrun hs' => ?_
  have htwin := hs'.twin (by rw [hsecond t p' hrun]; nofun)
  exact (At.drop htwin).bind fun _ _ _ _ hs'' => .pure hs'' _

theorem exprStmt : E.Keeps False (g.exprStmt m) :=
  (hg.exprs m _).bind fun _ => (Keeps.mark (by decide)).bind fun _ => .pure _

theorem stmtForm (hs : E.Twin p q) : E.At False p q (g.stmtForm m) (g.stmtForm m) := by
  refine .kind (.inl hs) (fun _ => ?_) fun hparted => absurd hparted.kind_eq hs.kind_ne
  split
  · refine .peek hs fun t t' ht _ => ?_
    simp only [second_iff ht (c := Keyword.letKw) (by decide)]
    exact .ite (fun _ => hg.branchOn (.inl hs)) fun _ => hg.branch (.inl hs)
  · exact hg.forLoop (.inl hs)
  · exact hg.whileLoop hs
  · exact hg.doWhile hs
  · exact (hg.selectStmt hs).inContext _
  · exact hg.giveBack hs
  · exact bareStmt hs _
  · exact bareStmt hs _
  · exact gotoStmt hs
  · exact hg.attemptStmt (.inl hs)
  · exact hg.panicStmt hs
  · exact ((hg.variableDecl false true).bind fun _ => .pure _) (.inl hs)
  · exact ((hg.variableDecl false true).bind fun _ => .pure _) (.inl hs)
  · refine .peek hs fun t t' ht hbehind => ?_
    have hiff := second_iff ht (c := Symbol.colon) (by decide)
    simp only [hiff]
    refine .ite (fun hcolon => labelStmt hs fun s r hrun => ?_) fun _ => hg.exprStmt (.inl hs)
    rw [hbehind s r hrun]
    exact hiff.2 hcolon
  · exact hg.exprStmt (.inl hs)

theorem statementStep : E.Keeps False (g.statementStep m) := by
  refine .of_twin (fun hs => .position hs fun _ => ?_)
    (.of_eof (.position fun _ => (Stalls.kind (hg.stalls m _).bind).bind))
  exact (hg.stmtForm hs).bind fun _ _ _ _ hs' => .pure hs' _

end Grammars

/-- The grammar reads the same over the second text, however deep it nests. -/
theorem grammars_upTo (hnext : E.next = .lBrace)
    (hclosed : ∀ {depth : Nat} {m : Mode} {p p' : Parser Buffer} {head}, E.region p →
      p.current.kind = Keyword.newKw → ((Grammar.upTo depth).newHead m).run p = (.ok head, p') →
      p'.current.kind ≠ .eof) (depth : Nat) : E.Grammars (Grammar.upTo depth) := by
  induction depth with
  | zero =>
    exact ⟨hnext, fun _ _ _ _ => .failAtStart _, fun _ _ _ _ _ => .failAtStart _,
      fun _ _ _ _ => .failAtStart _, fun _ _ _ _ => .failAtStart _,
      fun _ => Grammars.stalls_upTo (.inl rfl) 0,
      E.left.places.upTo 0, E.right.places.upTo 0, (Simulation.refl Buffer).upTo 0, hclosed⟩
  | succ depth ih =>
    exact ⟨hnext, fun _ => ih.types.typeStep, fun _ level => ih.exprStep level,
      fun _ => ih.patternStep, fun _ => ih.statementStep,
      fun _ => Grammars.stalls_upTo (.inl rfl) (depth + 1),
      E.left.places.upTo (depth + 1), E.right.places.upTo (depth + 1),
      (Simulation.refl Buffer).upTo (depth + 1), hclosed⟩

end Extension

end ScriptFront
