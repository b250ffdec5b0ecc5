import ScriptFront.Grammar.Stmts
import ScriptFront.Proofs.Coupling.Modes
import ScriptFront.Proofs.Extending.Types

/-!
# Expressions in front of a block

An expression at the end of a text is the same in front of `{`, unless a `new` without fields is the
last thing in it: this is the one place where an expression that could end takes a brace.

- `Grammar.newHead`: `new` up to where its fields may stand.
- `Extension.Grammars`: a grammar that reads the same over the second text.
- `Extension.Grammars.exprStep`: a step more of it.
-/

namespace ScriptFront

open ScriptFront.Parser

/-- `new T(args)`, up to where fields may stand. -/
def Grammar.newHead {σ : Type} [ByteSource σ] (g : Grammar σ) (mode : Mode) :
    Parse σ (Yield mode TypeExpr × Yield mode (List Expr)) := do
  mark Keyword.newKw
  let type ← g.type mode
  mark Symbol.lParen
  let args ← g.callArgs mode
  return (type, args)

theorem Grammar.newObject_eq {σ : Type} [ByteSource σ] (g : Grammar σ) (mode : Mode) :
    g.newObject mode = (do
      let head ← g.newHead mode
      let init ← optionally (eat Symbol.lBrace) (openListOrEmpty .rBrace (g.newItem mode))
      return ExprForm.new <$> head.1 <*> head.2 <*> init) := by
  unfold newObject newHead
  simp only [bind_assoc, pure_bind]

/-- From wherever a reading ended, the way back to a fresh token leads to where it was current. -/
theorem Course.run_goBack_of_coupled {C : Course} {p : Parser Buffer} {α β : Type}
    {V : α → β → Prop} {x : Parse Buffer α} {y : Parse Buffer β} (hfresh : C.Fresh p)
    (h : C.places.CoupledAt p p V x y) :
    (Parser.goBack ⟨p.start⟩).run (x.run p).2 = (.ok (), p) := by
  have hends : C.Adrift (x.run p).2 ∧ (x.run p).2.inTrait = p.inTrait := by
    unfold Simulation.CoupledAt at h
    revert h
    generalize x.run p = r
    generalize y.run p = r'
    rintro (⟨-, hs⟩ | ⟨-, hs⟩)
    · exact ⟨hs.states.2.steady.sameText, hs.inTrait_eq⟩
    · exact ⟨hs.states.2, hs.inTrait_eq⟩
  exact goBack_fresh hfresh hends.1 hends.2

namespace Extension

variable {E : Extension} {p q : Parser Buffer} {m : Mode}

theorem splitBars : E.Keeps False (Grammar.splitBars : Parse Buffer Unit) :=
  fun _ _ hs => .check hs (by decide) (fun htwin hkind => .narrow htwin hkind rfl) (.pure hs _)

theorem rootIdentifier (hs : E.Twin p q) :
    E.At False p q (Grammar.rootIdentifier m : Parse Buffer _) (Grammar.rootIdentifier m) :=
  (At.drop hs).bind fun _ _ _ _ hs' => (Keeps.expectIdentifier.bind fun _ => .pure _) hs'

/-- Whether the token behind the current one is of a kind. -/
theorem second_iff {t t' : Token} {c : TokenKind}
    (h : t = t' ∨ (t.kind = .eof ∧ t'.kind = .symbol E.next)) (hc : c ∉ partings) :
    t.kind = c ↔ t'.kind = c := by
  rcases h with rfl | ⟨hp, hq⟩
  · rfl
  · rw [hp, hq]
    exact iff_of_false (eof_ne hc) (next_ne hc)

variable (E) in
/-- The grammar reads the same over the second text. -/
structure Grammars (g : Grammar Buffer) : Prop where
  next_eq : E.next = .lBrace
  types : E.Types g
  exprs : ∀ m level, E.Keeps False (g.expr m level)
  patterns : ∀ m, E.Keeps False (g.pattern m)
  statements : ∀ m, E.Keeps False (g.statement m)
  /-- No expression begins at the end of a text. -/
  stalls : ∀ m level, Stalls .eof (g.expr m level)
  left : E.left.places.Grammars g g
  right : E.right.places.Grammars g g
  modes : (Simulation.refl Buffer).Grammars g g
  /-- In the first text, something stands behind `new T(args)`. -/
  closed : ∀ {m : Mode} {p p' : Parser Buffer} {head}, E.region p → p.current.kind = Keyword.newKw →
    (g.newHead m).run p = (.ok head, p') → p'.current.kind ≠ .eof

namespace Grammars

variable {g : Grammar Buffer} (hg : E.Grammars g)

include hg

theorem block : E.Keeps False (g.block m) := by
  refine .of_twin (fun hs => .position hs fun _ => (At.mark hs).bind fun _ _ _ _ hs' => ?_)
    (.of_eof (.position fun _ => (Stalls.mark (by nofun)).bind))
  exact Keeps.untilThen _ (by decide) (hg.statements m) (fun _ => .pure _) hs'

theorem callArgs : E.Keeps False (g.callArgs m) := by
  refine (Keeps.eat (by decide)).bind fun _ => .ite (.pure _) ?_
  exact (hg.exprs m _).bind fun _ => (Keeps.mark (by decide)).bind fun _ => .pure _

theorem parameterType (name : String) : E.Keeps False (g.parameterType m name) :=
  (rejectVoid _).weaken.bind fun _ => (hg.types m).weaken

/-- Where no result type is written, the place of one is told by the token in front of which it
might stand. -/
theorem resultType (hs : E.Twin p q) :
    E.At False p q (g.resultType m) (g.resultType m) := by
  unfold Grammar.resultType Parser.eat
  rw [bind_assoc]
  refine .checkTwin hs (fun _ => ?_) ?_
  · simp only [if_true, bind_assoc, pure_bind]
    exact (At.advance hs).bind fun _ _ _ _ hs' => (hg.types m).weaken hs'
  · simp only [Bool.false_eq_true, if_false, pure_bind]
    exact .position hs fun _ => .pure (.inl hs) _

/-! ## Atoms -/

theorem parenthesized (hs : E.Twin p q) :
    E.At False p q (g.parenthesized m) (g.parenthesized m) := by
  refine .position hs fun _ => (At.drop hs).bind fun _ _ _ _ hs' => ?_
  exact ((hg.exprs m _).bind fun _ => (Keeps.mark (by decide)).bind fun _ => .pure _) hs'

theorem arrayLiteral : E.Keeps False (g.arrayLiteral m) :=
  (Keeps.mark (by decide)).bind fun _ =>
    (Keeps.openListOrEmpty _ (by decide) (hg.exprs m _)).bind fun _ => .pure _

theorem lambdaParamsOnto (typed : Bool) (steps : Nat) (taken : Yield m (Array LambdaParam)) :
    E.Keeps False (g.lambdaParamsOnto m typed steps taken) := by
  induction steps generalizing taken with
  | zero => exact fun _ _ _ => .failAtStart _
  | succ steps ih =>
    refine .position (fun _ => Keeps.expectIdentifier.bind fun name => ?_)
      fun _ => Stuck.expectIdentifier.bind
    refine (Keeps.eat (by decide)).bind fun _ => .ite (.pure _) ?_
    have hcolon : E.Keeps False (Parser.mark Symbol.colon : Parse Buffer Unit) := .mark (by decide)
    have htype := hcolon.bind fun _ => hg.parameterType (m := m) name
    refine (Keeps.optionally (.pure _) htype).bind fun _ => ?_
    refine (Keeps.eat (by decide)).bind fun _ => .ite (ih _) ?_
    exact (Keeps.check (by decide)).bind fun _ => .ite (.pure _) fun _ _ _ => .expectedOneOf _

theorem lambdaParams : E.Keeps False (g.lambdaParams m) := by
  intro p q hs
  refine .check hs (by decide) (fun htwin _ => .peek htwin fun t t' ht _ => ?_) (.pure hs _)
  dsimp only
  rw [decide_eq_decide.2 (second_iff ht (by decide))]
  refine .listBound hs fun steps => ?_
  exact ((hg.lambdaParamsOnto _ steps _).bind fun _ => .pure _) hs

theorem lambda : E.Keeps False (g.lambda m) := by
  refine splitBars.bind fun _ => (Keeps.mark (by decide)).bind fun _ => hg.lambdaParams.bind ?_
  rintro ⟨params, untyped⟩
  refine (Keeps.mark (by decide)).bind fun _ => .of_twin (fun hs => ?_) (.of_eof ?_)
  · have hbody (explicitResult : Bool) : E.At False _ _ (do
        let result ← g.resultType m
        let body ← g.block m
        let inference := Grammar.inferenceOf untyped explicitResult
        return (fun params result body => ExprForm.lambda params result inference body) <$>
          params <*> result <*> body) _ :=
      (hg.resultType hs).bind fun _ _ _ _ hs' => (hg.block.bind fun _ => .pure _) hs'
    exact .checkTwin hs (fun _ => hbody true) (hbody false)
  · refine .check (by nofun) ?_
    unfold Grammar.resultType
    rw [bind_assoc]
    refine .eat (by nofun) ?_
    simp only [Bool.false_eq_true, if_false, bind_assoc, pure_bind]
    exact .position fun _ => (Stalls.position fun _ => (Stalls.mark (by nofun)).bind).bind

theorem newItem : E.Keeps False (g.newItem m) := by
  refine .position (fun _ => Keeps.expectIdentifier.bind fun _ => ?_)
    fun _ => Stuck.expectIdentifier.bind
  exact (Keeps.optionally (.eat (by decide)) (hg.exprs m _)).bind fun _ => .pure _

theorem newHead : E.Keeps False (g.newHead m) :=
  (Keeps.mark (by decide)).bind fun _ => (hg.types m).weaken.bind fun _ =>
    (Keeps.mark (by decide)).bind fun _ => hg.callArgs.bind fun _ => .pure _

/-- The texts do not part behind the arguments, so that the fields are the same, if there are
any. -/
theorem newObject (hs : E.Twin p q) (hkind : p.current.kind = Keyword.newKw) :
    E.At False p q (g.newObject m) (g.newObject m) := by
  rw [Grammar.newObject_eq]
  refine (hg.newHead (.inl hs)).bind fun head p' q' hrun hs' => ?_
  have htwin := hs'.twin (hg.closed hs.region hkind hrun)
  have hitems := (Keeps.openListOrEmpty (E := E) .rBrace (by decide) (hg.newItem (m := m))).bind
    fun init => Keeps.pure (some <$> init)
  have hfields : E.At False p' q'
      (optionally (eat Symbol.lBrace) (openListOrEmpty .rBrace (g.newItem m)))
      (optionally (eat Symbol.lBrace) (openListOrEmpty .rBrace (g.newItem m))) := by
    unfold Parser.optionally Parser.eat
    rw [bind_assoc]
    refine .checkTwin htwin (fun _ => ?_) (.pure hs' _)
    simp only [if_true, bind_assoc, pure_bind]
    exact (At.advance htwin).bind fun _ _ _ _ hs'' => hitems hs''
  exact hfields.bind fun _ _ _ _ hs'' => .pure hs'' _

omit hg in
theorem stalls_atomForm {k : TokenKind} (hk : k = .eof ∨ k = Keyword.letKw) :
    Stalls k (g.atomForm m) := by
  rcases hk with rfl | rfl
  · exact .kind .unexpected
  · exact .kind .unexpected

theorem atomForm (hs : E.Twin p q) : E.At False p q (g.atomForm m) (g.atomForm m) := by
  refine .kind (.inl hs) (fun _ => ?_) fun hparted => absurd hparted.kind_eq hs.kind_ne
  split
  · exact hg.arrayLiteral (.inl hs)
  · exact (hg.lambda (.inl hs)).inContext _
  · exact (hg.lambda (.inl hs)).inContext _
  · next hkind => exact (hg.newObject hs hkind).inContext _
  · exact rootIdentifier hs
  · exact ((hg.types m).weaken.bind fun _ => .pure _) (.inl hs)
  · split
    · exact (At.advance hs).bind fun _ _ _ _ hs' => .pure hs' _
    · exact .unexpected

theorem atom (hs : E.Twin p q) : E.At False p q (g.atom m) (g.atom m) := by
  refine .checkTwin hs (fun _ => hg.parenthesized hs) (.position hs fun _ => ?_)
  exact (hg.atomForm hs).bind fun _ _ _ _ hs' => .pure hs' _

/-! ## Match expressions -/

theorem armBody : E.Keeps False (g.armBody m) := by
  have hblock := (hg.block (m := m)).bind fun b => Keeps.pure (ArmBody.block <$> b)
  have hexpr := (hg.exprs m Level.single).bind fun e => Keeps.pure (ArmBody.expr <$> e)
  refine .of_twin (fun hs => .checkTwin hs (fun _ => hblock (.inl hs)) (hexpr (.inl hs)))
    (.of_eof (.check (by nofun) (hg.stalls m _).bind))

theorem exprArm : E.Keeps False (g.exprArm m) := by
  refine .position (fun _ => (Keeps.mark (by decide)).bind fun _ => ?_)
    fun _ => (Stuck.mark (by decide)).bind
  refine (hg.patterns m).bind fun _ => (Keeps.mark (by decide)).bind fun _ => ?_
  exact hg.armBody.bind fun _ => (Keeps.eat (by decide)).bind fun _ => .pure _

theorem selectExpr (hs : E.Twin p q) : E.At False p q (g.selectExpr m) (g.selectExpr m) := by
  refine (At.mark hs).bind fun _ _ _ _ hs' => ((hg.exprs m _).bind fun subject => ?_) hs'
  refine .of_twin (fun htwin => (At.mark htwin).bind fun _ _ _ _ hs'' => ?_)
    (.of_eof (Stalls.mark (by nofun)).bind)
  refine ((Keeps.listOnceAndWhile (.checkNot (by decide)) hg.exprArm).bind fun arms => ?_) hs''
  exact (Keeps.mark (by decide)).bind fun _ => .pure _

/-! ## Behind an operand -/

/-- Both readings find type arguments behind an operand, or neither does. -/
theorem genericCallArgs (hs : E.Twin p q) (hkind : p.current.kind = Symbol.lt) :
    E.At False p q (g.genericCallArgs m) (g.genericCallArgs m) := by
  obtain ⟨hfresh, hfresh'⟩ := hs.fresh (by rw [hkind]; rintro ⟨⟩) (by rw [hkind]; rintro ⟨⟩)
  have hscan := hg.types.genericArgs (m := .check) (.inl hs)
  have hback := Course.run_goBack_of_coupled hfresh
    (hg.left.genericArgs .check .check ⟨rfl, hs.left⟩)
  have hback' := Course.run_goBack_of_coupled hfresh'
    (hg.right.genericArgs .check .check ⟨rfl, hs.right⟩)
  unfold At at hscan ⊢
  rcases hp : (g.genericArgs .check).run p with ⟨r, p'⟩
  rcases hq : (g.genericArgs .check).run q with ⟨r', q'⟩
  rw [hp] at hback
  rw [hq] at hback'
  rw [hp, hq] at hscan
  cases hscan with
  | ok state =>
    rw [run_genericCallArgs_ok m hp hback, run_genericCallArgs_ok m hq hback']
    rcases state with htwin | hparted
    · rw [← htwin.current_eq]
      split
      · exact (hg.types.genericArgs.weaken.bind fun _ => .pure _) (.inl hs)
      · exact .ok (.inl hs)
    · obtain ⟨hleft, hright⟩ := hparted.kind_ne (c := Symbol.lParen) (by decide)
      rw [if_neg hleft, if_neg hright]
      exact .ok (.inl hs)
  | error void_iff =>
    rw [run_genericCallArgs_error m hp hback, run_genericCallArgs_error m hq hback']
    split
    · exact .unmirrored not_false
    · next hvoid =>
      rw [if_neg (void_iff.not.1 hvoid)]
      exact .ok (.inl hs)
  | unmirrored h => exact absurd trivial h

theorem genericCall (callee : Yield m Expr) (generics : Yield m (List TypeExpr)) :
    E.Keeps False (g.genericCall m callee generics) :=
  (Keeps.mark (by decide)).bind fun _ => hg.callArgs.bind fun _ => .pure _

theorem continuation (left : Yield m Expr) (hs : E.Twin p q) (c : Continuation) :
    E.At False p q (g.continuation m left c) (g.continuation m left c) := by
  have hdrop {α : Type} {x : Parse Buffer α} (hx : E.Keeps False x) :
      E.At False p q (do
        drop
        x) (do
        drop
        x) := (At.drop hs).bind fun _ _ _ _ hs' => hx hs'
  cases c with
  | binary op => exact hdrop ((hg.exprs m _).bind fun _ => .pure _)
  | ternary =>
    exact hdrop ((hg.exprs m _).bind fun _ => (Keeps.mark (by decide)).bind fun _ =>
      (hg.exprs m _).bind fun _ => .pure _)
  | count op => exact hdrop (.pure _)
  | call => exact hdrop (hg.callArgs.bind fun _ => .pure _)
  | index =>
    exact hdrop ((hg.exprs m _).bind fun _ => (Keeps.mark (by decide)).bind fun _ => .pure _)
  | cast => exact hdrop ((hg.types m).weaken.bind fun _ => .pure _)
  | typeTest => exact hdrop ((hg.types m).weaken.bind fun _ => .pure _)

theorem climb (pos : Position) (level steps : Nat) (left : Yield m Expr) :
    E.Keeps False (g.climb m pos level steps left) := by
  induction steps generalizing left with
  | zero => exact fun _ _ _ => .failAtStart _
  | succ steps ih =>
    intro p q hs
    refine .kind hs (fun htwin => ?_) fun _ => ?_
    · split
      · next hlt =>
        have hkind : p.current.kind = Symbol.lt := of_decide_eq_true (Bool.and_eq_true_iff.1 hlt).1
        refine (hg.genericCallArgs htwin hkind).bind fun found _ _ _ hs' => ?_
        cases found with
        | none => exact .pure hs' _
        | some generics => exact ((hg.genericCall left generics).bind fun _ => ih _) hs'
      · split
        · exact .pure hs _
        · next c _ =>
          refine .ite (fun _ => .pure hs _) fun _ => ?_
          refine (hg.continuation left htwin c).bind fun _ _ _ _ hs' => ?_
          exact .ite (fun _ => .pure hs' _) fun _ => ih _ hs'
    · -- Neither the end of a text nor an opening brace goes on with an expression.
      rw [hg.next_eq]
      exact .pure hs _

theorem descend (pos : Position) (level top : Nat) (left : Yield m Expr) :
    E.Keeps False (g.descend m pos level top left) := by
  induction top generalizing left with
  | zero => exact .pure _
  | succ top ih =>
    refine .ite (.pure _) fun _ _ hs => .listBound hs fun steps => ?_
    exact ((hg.climb pos _ steps left).bind fun _ => ih _) hs

omit hg in
/-- No expression begins at the end of a text, and none with `let`. -/
theorem stalls_exprStep {k : TokenKind} (hk : k = .eof ∨ k = Keyword.letKw) (level : Nat) :
    Stalls k (g.exprStep m level) := by
  have hatom := stalls_atomForm (g := g) (m := m) hk
  rcases hk with rfl | rfl
  · refine .position fun _ => .kind (Stalls.bind ?_)
    exact .check (by nofun) (.position fun _ => hatom.bind)
  · refine .position fun _ => .kind (Stalls.bind ?_)
    exact .check (by nofun) (.position fun _ => hatom.bind)

omit hg in
theorem stalls_upTo {k : TokenKind} (hk : k = .eof ∨ k = Keyword.letKw) (depth level : Nat) :
    Stalls k ((Grammar.upTo depth).expr m level) := by
  cases depth with
  | zero => exact .failAtStart nofun
  | succ depth => exact stalls_exprStep hk level

theorem exprStep (level : Nat) : E.Keeps False (g.exprStep m level) := by
  refine .of_twin (fun hs => .position hs fun pos => .kind (.inl hs) (fun _ => ?_) fun hparted =>
    absurd hparted.kind_eq hs.kind_ne) (.of_eof (stalls_exprStep (.inl rfl) level))
  split
  · refine ((At.drop hs).bind fun _ _ _ _ hs' => ?_ : E.At False _ _ (g.unary m _) _).bind
      fun _ _ _ _ hs' => hg.descend pos level _ _ hs'
    exact ((hg.exprs m _).bind fun _ => .pure _) hs'
  · refine .ite (fun _ => ?_) fun _ => ?_
    · exact ((hg.selectExpr hs).inContext _).bind fun _ _ _ _ hs' => hg.descend pos level _ _ hs'
    · exact (hg.atom hs).bind fun _ _ _ _ hs' => hg.descend pos level _ _ hs'

end Grammars

end Extension

end ScriptFront
