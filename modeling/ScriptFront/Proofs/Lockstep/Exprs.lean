import ScriptFront.Grammar.Exprs
import ScriptFront.Proofs.Lockstep.Types
import ScriptFront.Proofs.Writing.Operands

/-!
# Expressions in lockstep

Expressions read with two grammars go together at every level. An expression may begin with a type,
so that types have to go together with as much left as the expression has.
-/

namespace ScriptFront

open ScriptFront.Parser

theorem Expr.unplaced_commaListOnto (e : Expr) (rest : List Expr) :
    (e.commaListOnto rest).map Expr.unplaced =
    e.unplaced.commaListOnto (rest.map Expr.unplaced) := by
  induction e, rest using Expr.commaListOnto.induct with
  | case1 rest pos left right ihRight ihLeft =>
    rw [Expr.commaListOnto, ihLeft, ihRight]
    rfl
  | case2 rest e hcomma =>
    have hsingle : e.commaListOnto rest = e :: rest := by
      rw [Expr.commaListOnto]
      exact hcomma
    rw [hsingle]
    obtain ⟨pos, form⟩ := e
    cases form with
    | binary op left right =>
      cases op with
      | comma => exact absurd rfl (hcomma pos left right)
      | _ => rfl
    | _ => rfl

/-- The parts of two chains of commas differ in places only if the chains do. -/
theorem Expr.commaList_congr {e e' : Expr} (h : e.unplaced = e'.unplaced) :
    e.commaList.map Expr.unplaced = e'.commaList.map Expr.unplaced := by
  rw [commaList, commaList, unplaced_commaListOnto, unplaced_commaListOnto, h]

namespace Lockstep

/-- Expressions that are read with two grammars go together, and differ in places only. -/
def Exprs (L : Lockstep) (n : Nat) (g g' : Grammar Buffer) : Prop :=
  ∀ m level, L.Below n 1 (Yield.Like Expr.unplaced) (g.expr m level) (g'.expr m level)

/-- Productions that are read with two grammars go together, and yield trees that differ in places
only. -/
structure Grammars (L : Lockstep) (n : Nat) (g g' : Grammar Buffer) : Prop where
  types : L.Types n g g'
  exprs : L.Exprs n g g'
  patterns : ∀ m, L.Below n 1 (Yield.Like Pattern.unplaced) (g.pattern m) (g'.pattern m)
  statements : ∀ m, L.Below n 1 (Yield.Like Stmt.unplaced) (g.statement m) (g'.statement m)

variable {L : Lockstep} {n i : Nat} {p q : Parser Buffer} {m : Mode}

theorem splitBars :
    L.Below n 0 Eq (Grammar.splitBars : Parse Buffer Unit) Grammar.splitBars := by
  intro i p q hi hs
  exact .check hs (fun hkind => .narrow hs hkind rfl) fun _ => .pure hs rfl

theorem rootIdentifier (hs : L.state i p q) (hkind : p.current.kind = Symbol.colonColon) :
    L.At i 1 p q (Yield.Like ExprForm.unplaced) (Grammar.rootIdentifier m : Parse Buffer _)
      (Grammar.rootIdentifier m) := by
  refine (At.drop hs hkind).after (Nat.le_refl i) fun _ _ _ => ?_
  exact Below.expectIdentifier.weaken.bindEq fun name => .pure (Yield.rel_pure rfl)

namespace Grammars

variable {g g' : Grammar Buffer}

theorem le {n' : Nat} (hg : L.Grammars n g g') (hn : n' ≤ n) : L.Grammars n' g g' where
  types m := (hg.types m).le hn
  exprs m level := (hg.exprs m level).le hn
  patterns m := (hg.patterns m).le hn
  statements m := (hg.statements m).le hn

theorem less (hg : L.Grammars (n + 1) g g') : L.Grammars n g g' := hg.le (Nat.le_succ n)

variable (hg : L.Grammars n g g')

include hg

theorem block :
    L.Below (n + 1) 1 (Yield.Like Block.unplaced) (g.block m) (g'.block m) := by
  refine Below.position.bind fun pos pos' _ => (Below.mark _).afterEq fun _ => ?_
  refine (Below.untilThen _ (hg.statements m) fun l l' hl => ?_).weaken
  refine .pure (hl.map fun a b hab => ?_)
  simp only [Block.unplaced, Stmt.unplacedAll_eq_map, hab]

theorem callArgs :
    L.Below n 0 (Yield.Like (List.map Expr.unplaced)) (g.callArgs m) (g'.callArgs m) := by
  refine (Below.eat _).bindEq fun _ => .ite _ (.pure (Yield.rel_pure rfl)) ?_
  refine (hg.exprs m _).weaken.bind fun args args' hargs => (Below.mark _).weaken.bindEq fun _ => ?_
  exact .pure (hargs.map fun _ _ => Expr.commaList_congr)

theorem parameterType (name : String) :
    L.Below n 1 (Yield.Like TypeExpr.unplaced) (g.parameterType m name)
      (g'.parameterType m name) :=
  (rejectVoid _).bindEq fun _ => hg.types m

theorem resultType :
    L.Below n 0 (Yield.Like TypeExpr.unplaced) (g.resultType m) (g'.resultType m) :=
  (Below.eat _).bindEq fun _ => .ite _ (hg.types m).weaken
    (Below.position.bind fun _ _ _ => .pure (Yield.rel_pure rfl))

/-! ## Atoms -/

theorem parenthesized (hi : i < n + 1) (hs : L.state i p q)
    (hkind : p.current.kind = Symbol.lParen) :
    L.At i 1 p q (Yield.Like Expr.unplaced) (g.parenthesized m) (g'.parenthesized m) := by
  refine .getThen ((At.drop hs hkind).after (Nat.le_of_lt_succ hi) fun _ _ _ => ?_)
  refine (hg.exprs m _).weaken.bind fun e e' he => (Below.mark _).weaken.bindEq fun _ => ?_
  refine .pure (he.map fun a b hab => ?_)
  obtain ⟨pos, form⟩ := a
  obtain ⟨pos', form'⟩ := b
  exact hab

theorem arrayLiteral :
    L.Below (n + 1) 1 (Yield.Like ExprForm.unplaced) (g.arrayLiteral m) (g'.arrayLiteral m) := by
  refine (Below.mark _).afterEq fun _ => ?_
  refine (Below.openListOrEmpty _ (hg.exprs m _)).weaken.yieldMap fun a b hab => ?_
  simp only [ExprForm.unplaced, Expr.unplacedAll_eq_map, hab]

include hg

theorem lambdaParamsOnto (typed : Bool) (steps steps' : Nat) (hsteps : n ≤ steps)
    (hsteps' : n ≤ steps') {taken taken' : Yield m (Array LambdaParam)}
    (ht : Below.Taken LambdaParam.unplaced taken taken') :
    L.Below n 1 (Below.Taken LambdaParam.unplaced) (g.lambdaParamsOnto m typed steps taken)
      (g'.lambdaParamsOnto m typed steps' taken') := by
  induction n generalizing steps steps' taken taken' with
  | zero => exact .zero
  | succ n ih =>
    obtain _ | steps := steps
    · omega
    obtain _ | steps' := steps'
    · omega
    refine Below.position.bind fun pos pos' _ => Below.expectIdentifier.afterEq fun name => ?_
    refine (Below.eat _).bindEq fun variadic => .ite _ ?_ ?_
    · exact .pure (ht.push (Yield.rel_pure rfl))
    · have htype := (Below.mark (L := L) (n := n) Symbol.colon).weaken.bindEq fun _ =>
        hg.less.parameterType (m := m) name
      refine (Below.optionally (.pure rfl) htype).bind fun type type' htype => ?_
      have hpush := ht.push (htype.map (S := fun a b => a.unplaced = b.unplaced)
        (f := fun type => LambdaParam.mk pos name type false)
        (g := fun type => LambdaParam.mk pos' name type false) fun a b hab => by
          simp only [LambdaParam.unplaced, hab])
      refine (Below.eat _).bindEq fun _ => .ite _ ?_ ?_
      · exact (ih hg.less steps steps' (by omega) (by omega) hpush).weaken
      · exact (Below.check _).bindEq fun _ => .ite _ (.pure hpush) (.expectedOneOf _)

theorem lambdaParams :
    L.Below n 0 (fun x y => Yield.Like (List.map LambdaParam.unplaced) x.1 y.1 ∧ x.2 = y.2)
      (g.lambdaParams m) (g'.lambdaParams m) := by
  refine (Below.check _).bindEq fun _ => .ite _ ?_ (.pure ⟨Yield.rel_pure rfl, rfl⟩)
  refine Below.peek.bind fun t t' ht => ?_
  intro i p q hi hs
  refine .listBound hs fun steps steps' hsteps hsteps' => ?_
  rw [ht.1]
  have hparams (typed : Bool) := (hg.le hi).lambdaParamsOnto (m := m) typed steps steps' hsteps
    hsteps' Yield.like_empty
  exact (hparams _ (Nat.lt_succ_self i) hs).weaken.bind hi fun _ _ h => .pure ⟨h.toList, rfl⟩

theorem lambda :
    L.Below (n + 1) 1 (Yield.Like ExprForm.unplaced) (g.lambda m) (g'.lambda m) := by
  refine splitBars.bindEq fun _ => (Below.mark _).afterEq fun _ => hg.lambdaParams.bind ?_
  rintro ⟨params, untyped⟩ ⟨params', untyped'⟩ ⟨hp, rfl : untyped = untyped'⟩
  refine (Below.mark _).weaken.bindEq fun _ => (Below.check _).bindEq fun explicitResult => ?_
  refine hg.resultType.bind fun _ _ hr => hg.block.less.weaken.bind fun _ _ hb => ?_
  refine .pure (hp.map₃ hr hb fun a b c d e f hab hcd hef => ?_)
  simp only [ExprForm.unplaced, hab, hcd, hef]

theorem newItem :
    L.Below n 1 (Yield.Like NewItem.unplaced) (g.newItem m) (g'.newItem m) := by
  refine Below.position.bind fun pos pos' _ => Below.expectIdentifier.andThenEq fun name => ?_
  refine (Below.optionally (Below.eat _) (hg.exprs m _)).yieldMap fun a b hab => ?_
  have hunplaced (pos : Position) (value : Option Expr) :
      (NewItem.mk pos name value).unplaced = ⟨.start, name, value.map Expr.unplaced⟩ := by
    cases value <;> rfl
  rw [hunplaced, hunplaced, hab]

theorem newObject :
    L.Below (n + 1) 1 (Yield.Like ExprForm.unplaced) (g.newObject m) (g'.newObject m) := by
  refine (Below.markWord _ (by nofun)).afterEq fun _ => (hg.types m).weaken.bind fun _ _ ht => ?_
  refine (Below.mark _).weaken.bindEq fun _ => hg.callArgs.bind fun _ _ ha => ?_
  refine (Below.optionally (Below.eat _) (Below.openListOrEmpty _ hg.newItem)).bind fun _ _ hi => ?_
  refine .pure (ht.map₃ ha hi fun a b c d e f hab hcd hef => ?_)
  simp only [ExprForm.unplaced, Expr.unplacedAll_eq_map, NewItem.unplaced?_eq_map, hab, hcd, hef]

theorem atomForm (ht : L.Types (n + 1) g g') :
    L.Below (n + 1) 1 (Yield.Like ExprForm.unplaced) (g.atomForm m) (g'.atomForm m) := by
  intro i p q hi hs
  have htype : L.Below (n + 1) 1 (Yield.Like ExprForm.unplaced)
      (do return ExprForm.primitive <$> (← g.type m))
      (do return ExprForm.primitive <$> (← g'.type m)) :=
    (ht m).yieldMap fun a b hab => by simp only [ExprForm.unplaced, hab]
  refine .kind hs ?_
  split
  · exact hg.arrayLiteral hi hs
  · exact (hg.lambda hi hs).inContext _
  · exact (hg.lambda hi hs).inContext _
  · exact (hg.newObject hi hs).inContext _
  · next hkind => exact rootIdentifier hs hkind
  · exact htype hi hs
  · split
    · next form hform =>
      have heof : p.current.kind ≠ .eof := fun h => by rw [h] at hform; cases hform
      have hself : p.current.kind ≠ Keyword.selfKw := fun h => by rw [h] at hform; cases hform
      refine (At.advance hs heof fun h => absurd h hself).after (Nat.le_of_lt_succ hi) ?_
      rintro t t' ⟨⟨-, htext⟩, -⟩
      dsimp only
      rw [← htext]
      exact .pure (Yield.rel_pure rfl)
    · exact .unexpected hs

theorem atom (ht : L.Types (n + 1) g g') :
    L.Below (n + 1) 1 (Yield.Like Expr.unplaced) (g.atom m) (g'.atom m) := by
  intro i p q hi hs
  refine .check hs (fun hkind => hg.parenthesized hi hs hkind) fun _ => ?_
  refine (Below.position.bind fun pos pos' _ => ?_) hi hs
  exact (hg.atomForm ht).yieldMap fun a b hab => by simp only [Expr.unplaced, hab]

/-! ## Match expressions -/

theorem armBody :
    L.Below n 1 (Yield.Like ArmBody.unplaced) (g.armBody m) (g'.armBody m) := by
  refine (Below.check _).bindEq fun _ => .ite _ ?_ ?_
  · exact hg.block.less.yieldMap fun a b hab => by simp only [ArmBody.unplaced, hab]
  · exact (hg.exprs m _).yieldMap fun a b hab => by simp only [ArmBody.unplaced, hab]

theorem exprArm :
    L.Below n 1 (Yield.Like ExprArm.unplaced) (g.exprArm m) (g'.exprArm m) := by
  refine Below.position.bind fun pos pos' _ => (Below.markWord _ (by nofun)).andThenEq fun _ => ?_
  refine (hg.patterns m).weaken.bind fun _ _ hp => (Below.mark _).weaken.bindEq fun _ => ?_
  refine hg.armBody.weaken.bind fun _ _ hb => (Below.eat _).bindEq fun _ => ?_
  refine .pure (hp.map₂ hb fun a b c d hab hcd => ?_)
  simp only [ExprArm.unplaced, hab, hcd]

theorem selectExpr :
    L.Below (n + 1) 1 (Yield.Like ExprForm.unplaced) (g.selectExpr m) (g'.selectExpr m) := by
  refine (Below.markWord _ (by nofun)).afterEq fun _ =>
    (hg.exprs m _).weaken.bind fun _ _ hsubject => ?_
  refine (Below.mark _).weaken.bindEq fun _ => ?_
  refine (Below.listOnceAndWhile (Below.checkNot _) hg.exprArm).weaken.bind fun _ _ ha => ?_
  refine (Below.mark _).weaken.bindEq fun _ => .pure (hsubject.map₂ ha fun a b c d hab hcd => ?_)
  simp only [ExprForm.unplaced, ExprArm.unplacedAll_eq_map, hab, hcd]

/-! ## Behind an operand -/

/-- Both readings find type arguments behind an operand, or neither does. -/
theorem genericCallArgs (hi : i < n + 1) (hfresh : L.fresh i p q) :
    L.At i 0 p q (Option.Rel (Yield.Like (List.map TypeExpr.unplaced))) (g.genericCallArgs m)
      (g'.genericCallArgs m) := by
  have hs := L.state_of_fresh hfresh
  have hrest (isCall : Bool) {p' q' : Parser Buffer} (hlost : L.Lost p p' q') :
      L.From i 0 p p' q' (Option.Rel (Yield.Like (List.map TypeExpr.unplaced)))
        (do
          Parser.goBack ⟨p.start⟩
          if isCall then return some (← g.genericArgs m) else return none)
        (do
          Parser.goBack ⟨q.start⟩
          if isCall then return some (← g'.genericArgs m) else return none) := by
    refine At.goBackThen hfresh hlost fun p'' q'' hfresh' => ?_
    have hs'' := L.state_of_fresh hfresh'
    refine .ite (fun _ => ?_) fun _ => .pure hs'' .none
    exact (hg.types.genericArgs.weaken.bind fun _ _ h => .pure (.some h)) hi hs''
  refine .save hs fun _ => ?_
  refine .attemptThen (hg.types.genericArgs hi hs).weaken (fun a b j p' q' _ hbehind => ?_) ?_
  · have hkind := L.kind_eq hbehind.state
    unfold From at hrest ⊢
    rw [run_bind_ok (run_check _ p'), run_bind_ok (run_check _ q'), ← hkind]
    exact hrest _ (lost_of_state hbehind.state hbehind.inTrait_eq)
  · intro e e' p' q' htold hlost
    dsimp only
    rw [L.code_eq htold]
    split
    · exact .error htold hlost
    · exact hrest false hlost

theorem genericCall {callee callee' : Yield m Expr} {generics generics' : Yield m (List TypeExpr)}
    (hc : Yield.Like Expr.unplaced callee callee')
    (ht : Yield.Like (List.map TypeExpr.unplaced) generics generics') :
    L.Below (n + 1) 1 (Yield.Like ExprForm.unplaced) (g.genericCall m callee generics)
      (g'.genericCall m callee' generics') := by
  refine (Below.mark _).afterEq fun _ => hg.callArgs.bind fun _ _ ha => ?_
  refine .pure (hc.map₃ ht ha fun a b c d e f hab hcd hef => ?_)
  simp only [ExprForm.unplaced, Expr.unplacedAll_eq_map, TypeExpr.unplacedAll_eq_map, hab, hcd, hef]

variable {left left' : Yield m Expr} (hleft : Yield.Like Expr.unplaced left left')

include hleft

theorem ternary (hi : i < n + 1) (hs : L.state i p q) (heof : p.current.kind ≠ .eof)
    (hself : p.current.kind ≠ Keyword.selfKw) :
    L.At i 1 p q (Yield.Like ExprForm.unplaced) (g.ternary m left) (g'.ternary m left') := by
  refine (At.dropAny hs heof hself).after (Nat.le_of_lt_succ hi) fun _ _ _ => ?_
  refine (hg.exprs m _).weaken.bind fun _ _ hc => (Below.mark _).weaken.bindEq fun _ => ?_
  refine (hg.exprs m _).weaken.bind fun _ _ ha => ?_
  refine .pure (hleft.map₃ hc ha fun a b c d e f hab hcd hef => ?_)
  simp only [ExprForm.unplaced, hab, hcd, hef]

theorem continuation (hi : i < n + 1) (hs : L.state i p q) (heof : p.current.kind ≠ .eof)
    (hself : p.current.kind ≠ Keyword.selfKw) (c : Continuation) :
    L.At i 1 p q (Yield.Like ExprForm.unplaced) (g.continuation m left c)
      (g'.continuation m left' c) := by
  have hdrop := At.dropAny hs heof hself
  have hi' := Nat.le_of_lt_succ hi
  cases c with
  | ternary => exact hg.ternary hleft hi hs heof hself
  | binary op =>
    refine hdrop.after hi' fun _ _ _ => (hg.exprs m _).weaken.bind fun _ _ hr => ?_
    refine .pure (hleft.map₂ hr fun a b c d hab hcd => ?_)
    simp only [ExprForm.unplaced, hab, hcd]
  | count op =>
    refine hdrop.after hi' fun _ _ _ => .pure (hleft.map fun a b hab => ?_)
    simp only [ExprForm.unplaced, hab]
  | call =>
    refine hdrop.after hi' fun _ _ _ => hg.callArgs.bind fun _ _ ha => ?_
    refine .pure (hleft.map₂ ha fun a b c d hab hcd => ?_)
    simp only [ExprForm.unplaced, Expr.unplacedAll_eq_map, hab, hcd]
  | index =>
    refine hdrop.after hi' fun _ _ _ => (hg.exprs m _).weaken.bind fun _ _ ha => ?_
    refine (Below.mark _).weaken.bindEq fun _ => .pure (hleft.map₂ ha fun a b c d hab hcd => ?_)
    simp only [ExprForm.unplaced, hab, hcd]
  | cast =>
    refine hdrop.after hi' fun _ _ _ => (hg.types m).weaken.bind fun _ _ ht => ?_
    refine .pure (hleft.map₂ ht fun a b c d hab hcd => ?_)
    simp only [ExprForm.unplaced, hab, hcd]
  | typeTest =>
    refine hdrop.after hi' fun _ _ _ => (hg.types m).weaken.bind fun _ _ ht => ?_
    refine .pure (hleft.map₂ ht fun a b c d hab hcd => ?_)
    simp only [ExprForm.unplaced, hab, hcd]

theorem climb (pos pos' : Position) (level steps steps' : Nat) (hi : i < n + 1)
    (hsteps : i < steps) (hsteps' : i < steps') (hs : L.state i p q) :
    L.At i 0 p q (Yield.Like Expr.unplaced) (g.climb m pos level steps left)
      (g'.climb m pos' level steps' left') := by
  induction steps generalizing steps' left left' i p q with
  | zero => omega
  | succ steps ih =>
    obtain _ | steps' := steps'
    · omega
    have hmk {a b : Yield m ExprForm} (h : Yield.Like ExprForm.unplaced a b) :
        Yield.Like Expr.unplaced (Expr.mk pos <$> a) (Expr.mk pos' <$> b) :=
      h.map fun a b hab => by simp only [Expr.unplaced, hab]
    refine .kind hs (.ite (fun hlt => ?_) fun _ => ?_)
    · simp only [Bool.and_eq_true, decide_eq_true_eq] at hlt
      have hfresh : L.fresh i p q :=
        L.fresh_of_kind hs (by rw [hlt.1]; nofun) (by rw [hlt.1]; nofun)
      refine (hg.genericCallArgs hi hfresh).bindRun (m := 0) ?_ (Nat.le_refl 0)
      intro generics generics' j p' q' _ hgenerics hj hbehind
      cases hgenerics with
      | none => exact .pure hbehind.state hleft
      | some ht =>
        refine (hg.genericCall hleft ht (by omega) hbehind.state).bindRun (m := 0) ?_
          (Nat.zero_le _)
        intro form form' j' p'' q'' _ hform hj' hbehind'
        exact ih (hmk hform) steps' (by omega) (by omega) (by omega) hbehind'.state
    · split
      · exact .pure hs hleft
      · next c hc =>
        have heof : p.current.kind ≠ .eof := fun h => by rw [h] at hc; cases hc
        have hself : p.current.kind ≠ Keyword.selfKw := fun h => by rw [h] at hc; cases hc
        refine .ite (fun _ => .pure hs hleft) fun _ => ?_
        refine (hg.continuation hleft hi hs heof hself c).bindRun (m := 0) ?_ (Nat.zero_le _)
        intro form form' j p' q' _ hform hj hbehind
        refine .ite (fun _ => .pure hbehind.state (hmk hform)) fun _ => ?_
        exact ih (hmk hform) steps' (by omega) (by omega) (by omega) hbehind.state

theorem descend (pos pos' : Position) (level top : Nat) :
    L.Below (n + 1) 0 (Yield.Like Expr.unplaced) (g.descend m pos level top left)
      (g'.descend m pos' level top left') := by
  induction top generalizing left left' with
  | zero => exact .pure hleft
  | succ top ih =>
    refine .ite _ (.pure hleft) fun i p q hi hs => ?_
    refine .listBound hs fun steps steps' hsteps hsteps' => ?_
    exact (hg.climb hleft pos pos' (top + 1) steps steps' hi hsteps hsteps' hs).bind hi
      fun _ _ h => ih h

omit hleft in
theorem unary (hi : i < n + 1) (hs : L.state i p q) {op : UnaryOp}
    (hop : UnaryOp.ofKind? p.current.kind = some op) :
    L.At i 1 p q (Yield.Like ExprForm.unplaced) (g.unary m op) (g'.unary m op) := by
  have hkind : p.current.kind = op.token := by
    unfold UnaryOp.ofKind? at hop
    have hfound := List.find?_some hop
    exact (of_decide_eq_true hfound).symm
  have hdrop : L.At i 1 p q Eq Parser.drop Parser.drop :=
    At.dropAny hs (by rw [hkind]; cases op <;> decide) (by rw [hkind]; cases op <;> decide)
  refine hdrop.after (Nat.le_of_lt_succ hi) fun _ _ _ => ?_
  refine (hg.exprs m _).weaken.yieldMap fun a b hab => ?_
  simp only [ExprForm.unplaced, hab]

omit hleft in
theorem exprStep (ht : L.Types (n + 1) g g') (level : Nat) :
    L.Below (n + 1) 1 (Yield.Like Expr.unplaced) (g.exprStep m level) (g'.exprStep m level) := by
  refine Below.position.bind fun pos pos' _ => ?_
  intro i p q hi hs
  have hmk {a b : Yield m ExprForm} (h : Yield.Like ExprForm.unplaced a b) :
      Yield.Like Expr.unplaced (Expr.mk pos <$> a) (Expr.mk pos' <$> b) :=
    h.map fun a b hab => by simp only [Expr.unplaced, hab]
  refine .kind hs ?_
  split
  · next op hop =>
    exact (hg.unary hi hs hop).after (Nat.le_of_lt hi) fun _ _ h =>
      (hg.descend (hmk h) pos pos' level _)
  · refine .ite (fun _ => ?_) fun _ => ?_
    · exact ((hg.selectExpr hi hs).inContext _).after (Nat.le_of_lt hi) fun _ _ h =>
        hg.descend (hmk h) pos pos' level _
    · exact (hg.atom ht hi hs).after (Nat.le_of_lt hi) fun _ _ h => hg.descend h pos pos' level _

end Grammars

end Lockstep

end ScriptFront
