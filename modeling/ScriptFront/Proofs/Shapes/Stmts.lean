import ScriptFront.Grammar.Stmts
import ScriptFront.Proofs.Coupling.Stmts
import ScriptFront.Proofs.Shapes.Exprs

/-!
# What patterns and statements are delivered

With statements the productions below declarations are complete: `Supply.sound` says that the
grammar reads all of them as they are to be read, however deep the text nests.
-/

namespace ScriptFront

open ScriptFront.Parser

-- What a reading comes to is told by the rules; nothing is to be run to find out.
attribute [local irreducible] Ends

namespace Supply

variable {σ : Type} [ByteSource σ] {S : Supply σ} {inTrait : Bool} {p : Parser σ}

/-! ## Trees of patterns and statements -/

theorem forall_mem_optional {α : Type} {o : Option α} {node : α → Node}
    (h : ∀ a ∈ o, S.Tree inTrait (node a)) : ∀ n ∈ o.toList.map node, S.Tree inTrait n :=
  List.forall_mem_map.2 fun a ha => h a (Option.mem_toList.1 ha)

theorem tree_pattern {q : Pattern} (hform : q.form.WellFormed)
    (hwords : S.vocabulary.OfPattern q.form) (hparts : ∀ n ∈ q.form.nodes, S.Tree inTrait n) :
    S.Tree inTrait (.pattern q) :=
  .of_parts rfl ⟨fun _ => hform, trivial, hwords⟩ hparts

theorem tree_fieldPattern {f : FieldPattern} (hname : S.vocabulary.Name f.field)
    (htold : f.binding.IsTold) (hparts : ∀ n ∈ f.binding.nodes, S.Tree inTrait n) :
    S.Tree inTrait (.fieldPattern f) :=
  .of_parts rfl ⟨fun _ => trivial, trivial, hname, htold⟩ hparts

theorem tree_stmt {s : Stmt} (hform : s.form.WellFormed) (hwords : S.vocabulary.OfStmt s.form)
    (hparts : ∀ n ∈ s.form.nodes, S.Tree inTrait n) : S.Tree inTrait (.stmt s) :=
  .of_parts rfl ⟨fun _ => hform, trivial, hwords⟩ hparts

theorem tree_stmtArm {arm : StmtArm} (hpattern : S.Tree inTrait (.pattern arm.pattern))
    (hbody : S.Tree inTrait (.block arm.body)) : S.Tree inTrait (.stmtArm arm) :=
  .of_parts rfl ⟨fun _ => trivial, trivial, trivial⟩
    (List.forall_mem_cons.2 ⟨hpattern, List.forall_mem_singleton.2 hbody⟩)

theorem tree_handler {clause : CatchClause} (htype : S.IsValueType inTrait clause.type)
    (hname : S.vocabulary.Name clause.name) (hbody : S.Tree inTrait (.block clause.body)) :
    S.Tree inTrait (.handler clause) :=
  .of_parts rfl ⟨fun _ => trivial, htype.value, hname⟩
    (List.forall_mem_cons.2 ⟨htype.tree, List.forall_mem_singleton.2 hbody⟩)

/-- A name that is declared, or the values that are taken apart. -/
structure IsBinding (S : Supply σ) (inTrait : Bool) (b : Binding) : Prop where
  declared : S.vocabulary.Declared b
  parts : ∀ n ∈ b.nodes, S.Tree inTrait n

theorem IsBinding.destructured {pattern : Pattern} (h : S.Tree inTrait (.pattern pattern))
    (hbracketed : pattern.IsBracketed) : S.IsBinding inTrait (.destructured pattern) :=
  ⟨hbracketed, List.forall_mem_singleton.2 h⟩

theorem IsBinding.named {name : String} (h : S.vocabulary.Name name) :
    S.IsBinding inTrait (.named name) := ⟨h, fun _ hn => nomatch hn⟩

theorem tree_variable {d : VariableDecl} (hform : d.WellFormed)
    (hbinding : S.IsBinding inTrait d.binding) (htype : ∀ t ∈ d.type, S.IsValueType inTrait t)
    (hinit : ∀ e ∈ d.init, S.Tree inTrait (.expr e)) : S.Tree inTrait (.variable d) := by
  refine .of_parts rfl ⟨fun _ => hform, fun t ht => (htype t ht).value, hbinding.declared⟩ ?_
  refine List.forall_mem_append.2 ⟨List.forall_mem_append.2 ⟨hbinding.parts, ?_⟩, ?_⟩
  · exact forall_mem_types htype
  · exact forall_mem_optional hinit

/-- A form of statements. -/
def IsStmt (S : Supply σ) (inTrait : Bool) (form : StmtForm) : Prop :=
  ∀ pos, S.Tree inTrait (.stmt ⟨pos, form⟩)

theorem ownership (hfree : S.free) : S.Delivers inTrait Grammar.ownership fun _ => True := by
  refine fun p hp => .kind ?_
  split
  · exact (DeliversAt.drop hp rfl fun _ => hfree).bind fun _ _ => .pure trivial
  · exact (DeliversAt.drop hp rfl fun _ => hfree).bind fun _ _ => .pure trivial
  · exact Delivers.pure trivial p hp

namespace Sound

variable {g : Grammar σ} (hg : S.Sound g)

include hg

/-! ## Patterns -/

theorem patternItems : S.Delivers inTrait (g.patternItems .build)
    fun items : List Expr => items ≠ [] ∧ ∀ e ∈ items, S.Tree inTrait (.expr e) :=
  Delivers.closedList (by nofun) (hg.exprAt _)

/-- What follows the look behind a path sees the path, where that can be relied on. -/
theorem pathOpensParenThen {β : Type} {f : Bool → Parse σ β} {U : β → Prop}
    (hp : S.Stays inTrait p) (hgt : p.current.kind ≠ Symbol.gt)
    (hpipe : p.current.kind ≠ Symbol.pipe)
    (hf : ∀ opens q, S.Stays inTrait q → (S.vocabulary.firm → q.current.kind = p.current.kind) →
      S.DeliversAt inTrait q (f opens) U) :
    S.DeliversAt inTrait p (g.pathOpensParen >>= f) U := by
  unfold Grammar.pathOpensParen
  rw [bind_assoc]
  have hback (opens : Bool) {q : Parser σ} (hq : S.adrift q) (hinTrait : q.inTrait = inTrait) :
      S.DeliversAt inTrait q (Parser.goBack ⟨p.start⟩ >>= fun _ => f opens) U :=
    .goBackThen hp hgt hpipe hq hinTrait (hf opens)
  refine .save ?_
  rw [bind_assoc]
  refine .attemptChecked (hg.checks .check .build (.expr _)) (hg.expr Level.path hp) ?_ ?_
  · intro _ q hq
    simp only [bind_assoc, pure_bind]
    exact .check (hback _ (S.adrift_of_holds hq.holds) hq.inTrait_eq)
  · intro e q hq
    simp only [bind_assoc, pure_bind]
    exact hback false hq.adrift hq.inTrait_eq

theorem variantPattern (hp : S.Stays inTrait p) (hname : S.vocabulary.firm →
      p.current.kind = .identifier ∨ p.current.kind = Symbol.colonColon) :
    S.DeliversAt inTrait p (g.variantPattern .build)
      fun form : PatternForm => ∀ pos, S.Tree inTrait (.pattern ⟨pos, form⟩) := by
  refine (hg.expr Level.path hp).bind fun path hpath => (hg.mark _).bind fun _ _ => ?_
  have hwords (items : List Expr) : S.vocabulary.OfPattern (.variant path items) :=
    fun hfirm => (hpath.headed rfl).name (hname hfirm)
  refine (hg.eat _).bind fun _ _ => .ite (fun _ => .pure fun pos => ?_) fun _ => ?_
  · exact tree_pattern (q := ⟨pos, .variant path []⟩) trivial (hwords [])
      (List.forall_mem_singleton.2 hpath.tree)
  · refine hg.patternItems.bind fun items hitems => .pure fun pos => ?_
    exact tree_pattern (q := ⟨pos, .variant path items⟩) trivial (hwords items)
      (List.forall_mem_cons.2 ⟨hpath.tree, List.forall_mem_map.2 hitems.2⟩)

theorem literalPattern (hp : S.Stays inTrait p) (hk : S.vocabulary.firm →
      (p.current.kind = .identifier ∨ p.current.kind = Symbol.colonColon) ∨
        Grammar.startsLiteral p.current.kind) :
    S.DeliversAt inTrait p (g.literalPattern .build)
      fun form : PatternForm => ∀ pos, S.Tree inTrait (.pattern ⟨pos, form⟩) := by
  refine (hg.expr Level.path hp).bind fun value hvalue => .pure fun pos => ?_
  refine tree_pattern (q := ⟨pos, .literal value⟩) trivial (fun hfirm => ?_)
    (List.forall_mem_singleton.2 hvalue.tree)
  rcases hk hfirm with h | h
  · exact .inl ((hvalue.headed rfl).name h)
  · exact .inr ((hvalue.headed rfl).constant h)

theorem fieldTarget : S.Delivers inTrait (g.fieldTarget .build)
    fun b : FieldBinding => b.IsTold ∧ ∀ n ∈ b.nodes, S.Tree inTrait n := by
  refine fun p hp => .kind (.ite (fun hkind => ?_) fun hkind => ?_)
  · refine (hg.pattern hp).bind fun pattern hpattern => .pure ⟨?_, ?_⟩
    · simp only [Bool.or_eq_true, decide_eq_true_eq] at hkind
      exact hkind.imp hpattern.fields hpattern.tuple
    · exact List.forall_mem_singleton.2 hpattern.tree
  · refine (hg.expr Level.path hp).bind fun e he => .pure ⟨(he.headed rfl).path ?_, ?_⟩
    · rintro h
      simp [h] at hkind
    · exact List.forall_mem_singleton.2 he.tree

theorem fieldPattern : S.Delivers inTrait (g.fieldPattern .build)
    fun field : FieldPattern => S.Tree inTrait (.fieldPattern field) := by
  refine Delivers.position.bind fun pos _ => Delivers.expectIdentifier.bind fun name hname => ?_
  refine (hg.eat _).bind fun _ _ => .ite (fun _ => ?_) fun _ => .pure ?_
  · exact hg.fieldTarget.bind fun b hb => .pure (tree_fieldPattern hname hb.1 hb.2)
  · exact tree_fieldPattern (f := ⟨pos, name, .direct⟩) hname trivial fun _ hn => nomatch hn

theorem patternForm (hp : S.Stays inTrait p) : S.DeliversAt inTrait p (g.patternForm .build)
    fun form : PatternForm => (∀ pos, S.Tree inTrait (.pattern ⟨pos, form⟩)) ∧
      (p.current.kind = Symbol.lBrace → ∃ items, form = .fields items) ∧
      (p.current.kind = Symbol.lParen → ∃ items, form = .tuple items) := by
  have hpath (hk : p.current.kind = .identifier ∨ p.current.kind = Symbol.colonColon) :
      S.DeliversAt inTrait p
        (g.pathOpensParen >>= fun opens =>
          if opens = true then g.variantPattern .build else g.literalPattern .build)
        fun form : PatternForm => ∀ pos, S.Tree inTrait (.pattern ⟨pos, form⟩) := by
    refine hg.pathOpensParenThen hp ?_ ?_ fun opens q hq hkind => ?_
    · rcases hk with h | h <;> rw [h] <;> rintro ⟨⟩
    · rcases hk with h | h <;> rw [h] <;> rintro ⟨⟩
    · refine .ite (fun _ => hg.variantPattern hq fun hfirm => ?_) fun _ =>
        hg.literalPattern hq fun hfirm => .inl ?_
      · rwa [hkind hfirm]
      · rwa [hkind hfirm]
  refine .kind ?_
  split
  · next hkind =>
    rw [hkind]
    exact (hpath (.inl hkind)).mono fun _ h => ⟨h, by rintro ⟨⟩, by rintro ⟨⟩⟩
  · next hkind =>
    rw [hkind]
    exact (hpath (.inr hkind)).mono fun _ h => ⟨h, by rintro ⟨⟩, by rintro ⟨⟩⟩
  · next hkind =>
    rw [hkind]
    refine (hg.drop _ hp).bind fun _ _ => hg.patternItems.bind fun items hitems => ?_
    refine .pure ⟨fun pos => ?_, by rintro ⟨⟩, fun _ => ⟨items, rfl⟩⟩
    exact tree_pattern (q := ⟨pos, .tuple items⟩) hitems.1 trivial
      (List.forall_mem_map.2 hitems.2)
  · next hkind =>
    rw [hkind]
    refine (hg.drop _ hp).bind fun _ _ => ?_
    refine (Delivers.openListOrEmpty (by rintro ⟨⟩) hg.fieldPattern).bind fun items hitems => ?_
    refine .pure ⟨fun pos => ?_, fun _ => ⟨items, rfl⟩, by rintro ⟨⟩⟩
    exact tree_pattern (q := ⟨pos, .fields items⟩) trivial trivial
      (List.forall_mem_map.2 hitems)
  · next hbrace =>
    refine .ite (fun hk => ?_) fun _ => Delivers.unexpected p hp
    refine (hg.literalPattern hp fun _ => .inr hk).mono fun _ h => ⟨h, fun h => ?_, fun h => ?_⟩
    · exact absurd h hbrace
    · rw [h] at hk
      cases hk

/-- A step of the grammar reads patterns as they are to be read. -/
theorem patternStep (hp : S.Stays inTrait p) :
    S.DeliversAt inTrait p (g.patternStep .build) (S.IsPattern inTrait p.current.kind) := by
  refine .position ((hg.patternForm hp).bind fun form hform => .pure ?_)
  exact ⟨hform.1 _, hform.2.1, hform.2.2⟩

/-! ## Variables -/

theorem variableBinding (destructures : Bool) :
    S.Delivers inTrait (g.variableBinding .build destructures)
      fun b : Binding => S.IsBinding inTrait b ∧ (destructures = false → b.IsNamed) := by
  refine fun p hp =>
    .kind (.ite (fun _ => ?_) fun _ => .ite (fun _ => .failHere hp (by nofun) (by nofun)) fun hd =>
    .ite (fun hkind => ?_) fun _ => Delivers.expectedOneOf _ p hp)
  · refine (Delivers.expectIdentifier p hp).bind fun name hname =>
      .pure ⟨.named hname, fun _ => rfl⟩
  · refine (hg.pattern hp).bind fun pattern hpattern => .pure ⟨.destructured hpattern.tree ?_, ?_⟩
    · simp only [Bool.or_eq_true, decide_eq_true_eq] at hkind
      exact hkind.imp hpattern.fields hpattern.tuple
    · intro h
      rw [h] at hd
      exact absurd rfl hd

theorem variableType :
    S.Delivers inTrait (g.variableType .build) (S.IsValueType inTrait) := hg.types.typeBehind _

theorem initialValue : S.Delivers inTrait (g.initialValue .build)
    fun e : Expr => S.Tree inTrait (.expr e) :=
  (hg.mark _).bind fun _ _ => hg.exprAt _

theorem variableDecl (exported destructures : Bool) :
    S.Delivers inTrait (g.variableDecl .build exported destructures) fun d : VariableDecl =>
      S.Tree inTrait (.variable d) ∧ d.exported = exported ∧
        (destructures = false → d.binding.IsNamed) := by
  refine Delivers.position.bind fun pos _ => ?_
  refine (Delivers.expectOneOf _ fun _ => hg.free).bind fun t _ => ?_
  refine (ownership hg.free).bind fun ownership _ => ?_
  refine (hg.variableBinding destructures).bind fun binding hbinding => ?_
  refine (hg.eat _).bind fun typed _ => ?_
  refine (Delivers.optionallyIf fun _ => hg.variableType).bind fun type htype => ?_
  refine (Delivers.check _).bind fun assigned _ => ?_
  refine (Delivers.optionallyIf fun _ => hg.initialValue).bind fun init hinit => ?_
  refine (hg.mark _).bind fun _ _ => .pure ⟨?_, rfl, hbinding.2⟩
  refine tree_variable (d := ⟨pos, exported, _, ownership, binding, type, init⟩) ?_ hbinding.1
    htype.2 hinit.2
  intro hneeded
  rw [hinit.1]
  simp only [Bool.or_eq_true, Bool.not_eq_true', ← htype.1]
  rcases hneeded with h | h
  · exact .inl (.inl h)
  · exact .inl (.inr (Option.isSome_eq_false_iff.2 (Option.isNone_iff_eq_none.2 h)))

/-! ## Statements with blocks -/

theorem elseBlock : S.Delivers inTrait (g.elseBlock .build)
    fun b : Option Block => ∀ n ∈ b.toList.map Node.block, S.Tree inTrait n :=
  (Delivers.optionally (hg.eat _) hg.block).mono fun _ h => forall_mem_optional h

theorem branch : S.Delivers inTrait (g.branch .build) (S.IsStmt inTrait) := by
  refine (hg.mark _).bind fun _ _ => (hg.exprAt _).bind fun condition hcondition => ?_
  refine hg.block.bind fun body hbody => hg.elseBlock.bind fun alternative halternative => ?_
  refine .pure fun pos => tree_stmt (s := ⟨pos, .branch condition body alternative⟩)
    trivial trivial ?_
  exact List.forall_mem_cons.2 ⟨hcondition, List.forall_mem_cons.2 ⟨hbody, halternative⟩⟩

theorem branchOn : S.Delivers inTrait (g.branchOn .build) (S.IsStmt inTrait) := by
  refine (hg.mark _).bind fun _ _ => (hg.mark _).bind fun _ _ => ?_
  refine hg.patternAt.bind fun pattern hpattern => (hg.mark _).bind fun _ _ => ?_
  refine (hg.exprAt _).bind fun value hvalue => hg.block.bind fun body hbody => ?_
  refine hg.elseBlock.bind fun alternative halternative => .pure fun pos => ?_
  refine tree_stmt (s := ⟨pos, .branchOn pattern value body alternative⟩) trivial trivial ?_
  exact List.forall_mem_cons.2 ⟨hpattern, List.forall_mem_cons.2 ⟨hvalue,
    List.forall_mem_cons.2 ⟨hbody, halternative⟩⟩⟩

theorem forInit : S.Delivers inTrait (g.forInit .build) fun init : Option ForInit =>
    ∀ i ∈ init, S.vocabulary.OfInit i ∧ S.Tree inTrait (.expr i.value) := by
  refine fun p hp => .kind (.ite (fun _ => Delivers.pure nofun p hp) fun _ =>
    .ite (fun hkind => ?_) fun _ => ?_)
  · refine .position ((hg.drop _ hp).bind fun _ _ => ?_)
    refine Delivers.expectIdentifier.bind fun name hname => (hg.mark _).bind fun _ _ => ?_
    refine (hg.exprAt _).bind fun value hvalue => .pure ?_
    rintro _ ⟨⟩
    exact ⟨hname, hvalue⟩
  · refine (hg.exprAt _ p hp).bind fun value hvalue => .pure ?_
    rintro _ ⟨⟩
    exact ⟨trivial, hvalue⟩

theorem forLoop : S.Delivers inTrait (g.forLoop .build) (S.IsStmt inTrait) := by
  refine (hg.mark _).bind fun _ _ => hg.forInit.bind fun init hinit => ?_
  refine (hg.mark _).bind fun _ _ => ?_
  refine (Delivers.optionally (Delivers.checkNot _) (hg.exprAt _)).bind
    fun condition hcondition => ?_
  refine (hg.mark _).bind fun _ _ => ?_
  refine (Delivers.optionally (Delivers.checkNot _) (hg.exprAt _)).bind fun update hupdate => ?_
  refine hg.block.bind fun body hbody => .pure fun pos => ?_
  refine tree_stmt (s := ⟨pos, .forLoop init condition update body⟩) trivial
    (fun i hi => (hinit i hi).1) ?_
  refine List.forall_mem_append.2
    ⟨List.forall_mem_append.2 ⟨List.forall_mem_cons.2 ⟨hbody, ?_⟩, ?_⟩, ?_⟩
  · exact forall_mem_optional fun i hi => (hinit i hi).2
  · exact forall_mem_optional hcondition
  · exact forall_mem_optional hupdate

theorem whileLoop : S.Delivers inTrait (g.whileLoop .build) (S.IsStmt inTrait) := by
  refine hg.drop.bind fun _ _ => (hg.exprAt _).bind fun condition hcondition => ?_
  refine hg.block.bind fun body hbody => .pure fun pos => ?_
  refine tree_stmt (s := ⟨pos, .whileLoop condition body⟩) trivial trivial ?_
  exact List.forall_mem_cons.2 ⟨hcondition, List.forall_mem_singleton.2 hbody⟩

theorem doWhile : S.Delivers inTrait (g.doWhile .build) (S.IsStmt inTrait) := by
  refine hg.drop.bind fun _ _ => hg.block.bind fun body hbody => (hg.mark _).bind fun _ _ => ?_
  refine (hg.exprAt _).bind fun condition hcondition => (hg.mark _).bind fun _ _ => ?_
  refine .pure fun pos => tree_stmt (s := ⟨pos, .doWhile body condition⟩) trivial trivial ?_
  exact List.forall_mem_cons.2 ⟨hbody, List.forall_mem_singleton.2 hcondition⟩

theorem stmtArm : S.Delivers inTrait (g.stmtArm .build)
    fun arm : StmtArm => S.Tree inTrait (.stmtArm arm) := by
  refine Delivers.position.bind fun pos _ => (hg.mark _).bind fun _ _ => ?_
  refine hg.patternAt.bind fun pattern hpattern => (hg.mark _).bind fun _ _ => ?_
  exact hg.block.bind fun body hbody => .pure (tree_stmtArm hpattern hbody)

theorem selectStmt : S.Delivers inTrait (g.selectStmt .build) (S.IsStmt inTrait) := by
  refine (hg.mark _).bind fun _ _ => (hg.exprAt _).bind fun subject hsubject => ?_
  refine (hg.mark _).bind fun _ _ => ?_
  refine (Delivers.openList (by nofun) hg.stmtArm).bind fun arms harms => .pure fun pos => ?_
  refine tree_stmt (s := ⟨pos, .select subject arms⟩) harms.1 trivial ?_
  exact List.forall_mem_cons.2 ⟨hsubject, List.forall_mem_map.2 harms.2⟩

theorem catchClause : S.Delivers inTrait (g.catchClause .build)
    fun clause : CatchClause => S.Tree inTrait (.handler clause) := by
  refine Delivers.position.bind fun pos _ => (hg.mark _).bind fun _ _ => ?_
  refine (hg.mark _).bind fun _ _ => hg.types.valueType.bind fun type htype => ?_
  refine Delivers.expectIdentifier.bind fun name hname => (hg.mark _).bind fun _ _ => ?_
  exact hg.block.bind fun body hbody => .pure (tree_handler htype hname hbody)

theorem attemptStmt : S.Delivers inTrait (g.attemptStmt .build) (S.IsStmt inTrait) := by
  refine (hg.mark _).bind fun _ _ => hg.block.bind fun body hbody => ?_
  refine (Delivers.listOnceAndWhile (Delivers.check _) hg.catchClause).bind fun handlers h => ?_
  refine .pure fun pos => tree_stmt (s := ⟨pos, .attempt body handlers⟩) h.1 trivial ?_
  exact List.forall_mem_cons.2 ⟨hbody, List.forall_mem_map.2 h.2⟩

/-! ## Other statements -/

theorem giveBack : S.Delivers inTrait (g.giveBack .build) (S.IsStmt inTrait) := by
  refine hg.drop.bind fun _ _ => ?_
  refine (Delivers.optionally (Delivers.checkNot _) (hg.exprAt _)).bind fun value hvalue => ?_
  refine (hg.mark _).bind fun _ _ => .pure fun pos => ?_
  exact tree_stmt (s := ⟨pos, .giveBack value⟩) trivial trivial (forall_mem_optional hvalue)

/-- A statement without parts. -/
theorem bareStmt {form : StmtForm} (h : form = .next ∨ form = .leave) :
    S.Delivers inTrait (Grammar.bareStmt .build form : Parse σ _) (S.IsStmt inTrait) := by
  refine hg.drop.bind fun _ _ => (hg.mark _).bind fun _ _ => .pure fun pos => ?_
  rcases h with rfl | rfl
  · exact tree_stmt (s := ⟨pos, .next⟩) trivial trivial fun _ hn => nomatch hn
  · exact tree_stmt (s := ⟨pos, .leave⟩) trivial trivial fun _ hn => nomatch hn

theorem gotoStmt : S.Delivers inTrait (Grammar.gotoStmt .build : Parse σ _) (S.IsStmt inTrait) := by
  refine hg.drop.bind fun _ _ => Delivers.expectIdentifier.bind fun name hname => ?_
  refine (hg.mark _).bind fun _ _ => .pure fun pos => ?_
  exact tree_stmt (s := ⟨pos, .goto name⟩) trivial hname fun _ hn => nomatch hn

theorem panicStmt : S.Delivers inTrait (g.panicStmt .build) (S.IsStmt inTrait) := by
  refine hg.drop.bind fun _ _ => (hg.mark _).bind fun _ _ => ?_
  refine (hg.exprAt _).bind fun value hvalue => (hg.mark _).bind fun _ _ => ?_
  refine (hg.mark _).bind fun _ _ => .pure fun pos => ?_
  exact tree_stmt (s := ⟨pos, .panic value⟩) trivial trivial (List.forall_mem_singleton.2 hvalue)

theorem labelStmt :
    S.Delivers inTrait (Grammar.labelStmt .build : Parse σ _) (S.IsStmt inTrait) := by
  refine Delivers.expectIdentifier.bind fun name hname => hg.drop.bind fun _ _ => ?_
  refine .pure fun pos => ?_
  exact tree_stmt (s := ⟨pos, .label name⟩) trivial hname fun _ hn => nomatch hn

theorem exprStmt : S.Delivers inTrait (g.exprStmt .build) (S.IsStmt inTrait) := by
  refine (hg.exprAt _).bind fun value hvalue => (hg.mark _).bind fun _ _ => ?_
  refine .pure fun pos => ?_
  exact tree_stmt (s := ⟨pos, .expr value⟩) trivial trivial (List.forall_mem_singleton.2 hvalue)

theorem variableStmt : S.Delivers inTrait
    (do return StmtForm.variable <$> (← g.variableDecl .build false true)) (S.IsStmt inTrait) := by
  refine (hg.variableDecl false true).bind fun d hd => .pure fun pos => ?_
  exact tree_stmt (s := ⟨pos, .variable d⟩) trivial hd.2.1 (List.forall_mem_singleton.2 hd.1)

theorem stmtForm : S.Delivers inTrait (g.stmtForm .build) (S.IsStmt inTrait) := by
  refine fun p hp => .kind ?_
  split
  · exact Delivers.bind Delivers.peek
      (fun _ _ => .ite (fun _ => hg.branchOn) fun _ => hg.branch) p hp
  · exact hg.forLoop p hp
  · exact hg.whileLoop p hp
  · exact hg.doWhile p hp
  · exact hg.selectStmt.inContext _ p hp
  · exact hg.giveBack p hp
  · exact hg.bareStmt (.inl rfl) p hp
  · exact hg.bareStmt (.inr rfl) p hp
  · exact hg.gotoStmt p hp
  · exact hg.attemptStmt p hp
  · exact hg.panicStmt p hp
  · exact hg.variableStmt p hp
  · exact hg.variableStmt p hp
  · exact Delivers.bind Delivers.peek
      (fun _ _ => .ite (fun _ => hg.labelStmt) fun _ => hg.exprStmt) p hp
  · exact hg.exprStmt p hp

theorem statementStep : S.Delivers inTrait (g.statementStep .build)
    fun s : Stmt => S.Tree inTrait (.stmt s) :=
  Delivers.position.bind fun _ _ => hg.stmtForm.bind fun _ hform => .pure (hform _)

/-! ## The whole -/

/-- A step of a sound grammar is sound. -/
theorem step : S.Sound (Grammar.step g) where
  free := hg.free
  checks := by
    have hstep := Simulation.Follows.step (Simulation.Grammars.follows hg.checks) hg.checks
    rwa [Lookaheads.step_plain] at hstep
  types := fun _ _ hp => hg.types.typeStep hp
  expr level hp := hg.exprStep level hp
  pattern hp := hg.patternStep hp
  statement := hg.statementStep

end Sound

/-- Types are read as they are to be read, however deep the text nests. -/
theorem readsTypes (S : Supply σ) (depth : Nat) : S.ReadsTypes (Grammar.upTo depth) := by
  induction depth with
  | zero => exact fun _ _ hp => .failAtStart hp (by nofun) (by nofun)
  | succ depth ih => exact fun _ _ hp => ih.typeStep hp

/-- The grammar reads all productions as they are to be read, however deep the text nests. -/
theorem sound (hfree : S.free) (depth : Nat) : S.Sound (Grammar.upTo depth) := by
  induction depth with
  | zero =>
    refine ⟨hfree, (Simulation.refl σ).upTo 0, S.readsTypes 0, ?_, ?_, ?_⟩
    · exact fun _ hp => .failAtStart hp (by nofun) (by nofun)
    · exact fun hp => .failAtStart hp (by nofun) (by nofun)
    · exact .failAtStart (by nofun) (by nofun)
  | succ depth ih => exact ih.step

end Supply

end ScriptFront
