import ScriptFront.Proofs.Shapes.Types

/-!
# What expressions are delivered

Expressions are read to be well formed if their parts are. Where paths are read, the first token
tells what stands at their left end, for nothing but `::` goes on behind it.

- `Expr.HeadedBy`: what the first token of a path tells.
- `Supply.Sound`: a grammar that reads all productions as they are to be read.
- `Supply.Sound.exprStep`: a step of the grammar reads such expressions if the grammar is sound.
-/

namespace ScriptFront

open ScriptFront.Parser

-- What a reading comes to is told by the rules; nothing is to be run to find out.
attribute [local irreducible] Ends

/-! ## Left ends -/

/-- What the first token of an atom tells; a parenthesis tells nothing. -/
structure ExprForm.OpensWith (k : TokenKind) (form : ExprForm) : Prop where
  atom : k ≠ Symbol.lParen → form.isAtom
  name : k = .identifier ∨ k = Symbol.colonColon → ∃ name root, form = .identifier name root
  constant : Grammar.startsLiteral k → ∃ value, form = .literal value

/-- What the first token of a path tells. -/
structure Expr.HeadedBy (k : TokenKind) (e : Expr) : Prop where
  path : k ≠ Symbol.lParen → e.IsPath
  name : k = .identifier ∨ k = Symbol.colonColon → e.IsNamePath
  constant : Grammar.startsLiteral k → e.IsConstant

theorem Expr.head_scope (pos : Position) (left right : Expr) :
    Expr.head ⟨pos, .binary .scope left right⟩ = left.head := by
  rw [Expr.head]

theorem Expr.head_of_isAtom {pos : Position} {form : ExprForm} (h : form.isAtom) :
    Expr.head ⟨pos, form⟩ = form := by
  cases form <;> first | rfl | cases h

/-- Only `::` binds as tightly as paths do. -/
theorem Continuation.eq_scope {c : Continuation} (h : ¬c.level < Level.path) :
    c = .binary .scope := by
  cases c with
  | binary op => cases op <;> first | rfl | exact absurd (by decide) h
  | count _ => exact absurd (by decide : Level.access < Level.path) h
  | _ => exact absurd (by decide) h

/-- Of the operators that stand before an operand only the minus sign begins a constant. -/
theorem Expr.HeadedBy.unary {k : TokenKind} {op : UnaryOp} (h : UnaryOp.ofKind? k = some op)
    (pos : Position) (operand : Expr) : HeadedBy k ⟨pos, .unary op .before operand⟩ := by
  unfold UnaryOp.ofKind? at h
  have hfound := List.find?_some h
  obtain rfl : op.token = k := of_decide_eq_true hfound
  refine ⟨fun _ => .inr rfl, fun hk => ?_, fun hk => .inr ⟨operand, ?_⟩⟩
  · cases op <;> rcases hk with hk | hk <;> cases hk
  · cases op with
    | neg => rfl
    | _ => cases hk

theorem Expr.HeadedBy.select {form : ExprForm} (h : form.isPrefixed) (pos : Position) :
    HeadedBy Keyword.matchKw ⟨pos, form⟩ := ⟨fun _ => .inr h, by nofun, by nofun⟩

theorem Expr.HeadedBy.of_head {k : TokenKind} {e : Expr} (h : e.head.OpensWith k) :
    e.HeadedBy k where
  path hk := .inl (h.atom hk)
  name hk := h.name hk
  constant hk := .inl (h.constant hk)

/-- Only `++` and `--` stand behind their operand. -/
theorem Continuation.count_of_ofKind? {k : TokenKind} {op : UnaryOp}
    (h : ofKind? k = some (.count op)) : op = .increment ∨ op = .decrement := by
  unfold ofKind? at h
  split at h
  · cases h
  · cases h
    exact .inl rfl
  · cases h
    exact .inr rfl
  · cases h
  · cases h
  · cases h
  · cases h
  · obtain ⟨_, -, h⟩ := Option.map_eq_some_iff.1 h
    cases h

namespace Supply

section Sound

variable {σ : Type} [ByteSource σ] (S : Supply σ)

/-- An expression that is read at a level from a token of a kind on. -/
structure IsExpr (inTrait : Bool) (level : Nat) (k : TokenKind) (e : Expr) : Prop where
  tree : S.Tree inTrait (.expr e)
  headed : level = Level.path → e.HeadedBy k

/-- A form of expressions that is read as an atom, from a token of a kind on. -/
structure IsAtom (inTrait : Bool) (k : TokenKind) (form : ExprForm) : Prop where
  tree : ∀ pos, S.Tree inTrait (.expr ⟨pos, form⟩)
  atom : form.isAtom
  name : k = .identifier ∨ k = Symbol.colonColon → ∃ name root, form = .identifier name root
  constant : Grammar.startsLiteral k → k ≠ Symbol.minus → ∃ value, form = .literal value

/-- A pattern that begins with a token of a kind. -/
structure IsPattern (inTrait : Bool) (k : TokenKind) (p : Pattern) : Prop where
  tree : S.Tree inTrait (.pattern p)
  fields : k = Symbol.lBrace → p.IsFields
  tuple : k = Symbol.lParen → ∃ items, p.form = .tuple items

/-- An argument of a call is no chain of commas. -/
structure IsArg (inTrait : Bool) (e : Expr) : Prop where
  tree : S.Tree inTrait (.expr e)
  single : e.isComma = false

/-- The parameters of a lambda, with types or without. -/
structure AreLambdaParams (inTrait typed : Bool) (params : List LambdaParam) : Prop where
  trees : ∀ p ∈ params, S.Tree inTrait (.lambdaParam p)
  last : ∀ p ∈ params.dropLast, p.variadic = false
  untyped : ∀ p ∈ params, p.variadic → p.type = none
  uniform : ∀ p ∈ params, p.variadic = false → p.type.isSome = typed
  first : S.vocabulary.firm → ∃ p rest, params = p :: rest ∧ p.type.isSome = typed

/-- A grammar that reads all productions as they are to be read, and checks as it builds. -/
structure Sound (g : Grammar σ) : Prop where
  free : S.free
  checks : (Simulation.refl σ).Grammars g g
  types : S.ReadsTypes g
  expr : ∀ {inTrait : Bool} {p : Parser σ} (level : Nat), S.Stays inTrait p →
    S.DeliversAt inTrait p (g.expr .build level) (S.IsExpr inTrait level p.current.kind)
  pattern : ∀ {inTrait : Bool} {p : Parser σ}, S.Stays inTrait p →
    S.DeliversAt inTrait p (g.pattern .build) (S.IsPattern inTrait p.current.kind)
  statement : ∀ {inTrait : Bool}, S.Delivers inTrait (g.statement .build)
    fun s : Stmt => S.Tree inTrait (.stmt s)

end Sound

variable {σ : Type} [ByteSource σ] {S : Supply σ} {inTrait : Bool} {p : Parser σ}

/-! ## Trees of expressions -/

/-- An expression is a tree if its form is in order, as far as that is asked, and its parts are
trees. -/
theorem tree_exprIf {e : Expr} (hform : S.vocabulary.firm → e.form.WellFormed)
    (hplaced : e.form.VoidsPlaced) (hwords : S.vocabulary.OfExpr e.form)
    (hparts : ∀ n ∈ e.form.nodes, S.Tree inTrait n) : S.Tree inTrait (.expr e) :=
  .of_parts rfl ⟨hform, hplaced, hwords⟩ hparts

theorem tree_expr {e : Expr} (hform : e.form.WellFormed) (hplaced : e.form.VoidsPlaced)
    (hwords : S.vocabulary.OfExpr e.form) (hparts : ∀ n ∈ e.form.nodes, S.Tree inTrait n) :
    S.Tree inTrait (.expr e) := tree_exprIf (fun _ => hform) hplaced hwords hparts

/-- The position of an expression does not matter. -/
theorem Tree.replaced {e : Expr} (h : S.Tree inTrait (.expr e)) (pos : Position) :
    S.Tree inTrait (.expr { e with pos }) :=
  have hhere := h.here
  tree_exprIf hhere.wellFormed hhere.voidsPlaced hhere.spelled fun _ hn => h.part hn rfl

/-- The operands of a chain of commas are arguments. -/
theorem Tree.commaListOnto {e : Expr} {rest : List Expr} (h : S.Tree inTrait (.expr e))
    (hrest : ∀ a ∈ rest, S.IsArg inTrait a) :
    ∀ a ∈ e.commaListOnto rest, S.IsArg inTrait a := by
  induction e, rest using Expr.commaListOnto.induct with
  | case1 rest pos left right ihRight ihLeft =>
    rw [Expr.commaListOnto]
    have hleft := h.part (m := .expr left) (by simp [Node.parts, ExprForm.nodes]) rfl
    have hright := h.part (m := .expr right) (by simp [Node.parts, ExprForm.nodes]) rfl
    exact ihLeft hleft (ihRight hright hrest)
  | case2 rest e hcomma =>
    rw [Expr.commaListOnto]
    · refine List.forall_mem_cons.2 ⟨⟨h, ?_⟩, hrest⟩
      unfold Expr.isComma
      split
      · next pos left right => exact absurd rfl (hcomma pos left right)
      · rfl
    · exact hcomma

theorem Tree.commaList {e : Expr} (h : S.Tree inTrait (.expr e)) :
    ∀ a ∈ e.commaList, S.IsArg inTrait a := h.commaListOnto nofun

/-- An atom without parts. -/
theorem tree_leaf {form : ExprForm} (hform : form.WellFormed) (hplaced : form.VoidsPlaced)
    (hwords : S.vocabulary.OfExpr form) (hnodes : form.nodes = []) (pos : Position) :
    S.Tree inTrait (.expr ⟨pos, form⟩) := by
  refine tree_expr hform hplaced hwords fun n hn => ?_
  rw [hnodes] at hn
  cases hn

theorem tree_block {b : Block} (h : ∀ s ∈ b.statements, S.Tree inTrait (.stmt s)) :
    S.Tree inTrait (.block b) :=
  .of_parts rfl ⟨fun _ => trivial, trivial, trivial⟩ (by simpa [Node.parts] using h)

/-- The types behind a name are those of values. -/
theorem forall_mem_types {type : Option TypeExpr} (h : ∀ t ∈ type, S.IsValueType inTrait t) :
    ∀ n ∈ type.toList.map Node.type, S.Tree inTrait n := by
  refine List.forall_mem_map.2 fun t ht => ?_
  exact (h t (Option.mem_toList.1 ht)).tree

theorem tree_lambdaParam {l : LambdaParam} (hname : S.vocabulary.Name l.name)
    (htype : ∀ t ∈ l.type, S.IsValueType inTrait t) : S.Tree inTrait (.lambdaParam l) :=
  .of_parts rfl ⟨fun _ => trivial, fun t ht => (htype t ht).value, hname⟩ (forall_mem_types htype)

/-- Parameters none of which is variadic. -/
theorem AreLambdaParams.of_plain {typed : Bool} {params : List LambdaParam}
    (htrees : ∀ p ∈ params, S.Tree inTrait (.lambdaParam p))
    (hplain : ∀ p ∈ params, p.variadic = false ∧ p.type.isSome = typed) (hne : params ≠ []) :
    S.AreLambdaParams inTrait typed params where
  trees := htrees
  last p hp := (hplain p (List.dropLast_subset _ hp)).1
  untyped p hp hvariadic := by
    rw [(hplain p hp).1] at hvariadic
    cases hvariadic
  uniform p hp _ := (hplain p hp).2
  first _ := by
    obtain ⟨p, rest, rfl⟩ := List.exists_cons_of_ne_nil hne
    exact ⟨p, rest, rfl, (hplain p List.mem_cons_self).2⟩

/-- Parameters of which the last one is variadic. -/
theorem AreLambdaParams.of_variadic {typed : Bool} {params : List LambdaParam} {last : LambdaParam}
    (htrees : ∀ p ∈ params, S.Tree inTrait (.lambdaParam p))
    (hplain : ∀ p ∈ params, p.variadic = false ∧ p.type.isSome = typed)
    (hlast : S.Tree inTrait (.lambdaParam last)) (hvariadic : last.variadic = true)
    (htype : last.type = none) (hfirst : S.vocabulary.firm → params = [] → typed = false) :
    S.AreLambdaParams inTrait typed (params ++ [last]) where
  trees := by simpa [or_imp, forall_and] using ⟨htrees, hlast⟩
  last p hp := by
    rw [List.dropLast_concat] at hp
    exact (hplain p hp).1
  untyped p hp hp' := by
    rcases List.mem_append.1 hp with hp | hp
    · rw [(hplain p hp).1] at hp'
      cases hp'
    · rw [List.mem_singleton.1 hp]
      exact htype
  uniform p hp hp' := by
    rcases List.mem_append.1 hp with hp | hp
    · exact (hplain p hp).2
    · rw [List.mem_singleton.1 hp, hvariadic] at hp'
      cases hp'
  first hfirm := by
    cases params with
    | nil => exact ⟨last, [], rfl, by rw [htype, hfirst hfirm rfl]; rfl⟩
    | cons p rest => exact ⟨p, rest ++ [last], rfl, (hplain p List.mem_cons_self).2⟩

/-- What a lambda leaves open is told by its first parameter and its arrow. -/
theorem AreLambdaParams.fits {typed explicit : Bool} {params : List LambdaParam}
    {result : TypeExpr} (h : S.AreLambdaParams inTrait typed params) (hfirm : S.vocabulary.firm)
    (hresult : explicit = false → result.IsPlainVoid) :
    (Grammar.inferenceOf (!typed) explicit).Fits params result where
  params := by
    obtain ⟨p, rest, rfl, hp⟩ := h.first hfirm
    have hnone : p.type = none ↔ typed = false := by rw [← hp, Option.isSome_eq_false_iff,
      Option.isNone_iff_eq_none]
    cases typed <;> cases explicit <;> simp [Grammar.inferenceOf, hnone]
  result hopen := by
    refine hresult ?_
    cases typed <;> cases explicit <;> simp_all [Grammar.inferenceOf]

theorem AreLambdaParams.allWellFormed {typed : Bool} {params : List LambdaParam}
    (h : S.AreLambdaParams inTrait typed params) : LambdaParam.AllWellFormed params where
  last := h.last
  untyped := h.untyped
  uniform := by
    cases typed with
    | true => exact .inl h.uniform
    | false =>
      refine .inr fun p hp hvariadic => ?_
      have htype := h.uniform p hp hvariadic
      rwa [Option.isSome_eq_false_iff, Option.isNone_iff_eq_none] at htype

/-- A lambda with its parameters, if it has some. -/
theorem tree_lambda {pos : Position} {params : List LambdaParam} {untyped explicit : Bool}
    {result : TypeExpr} {body : Block}
    (hparams : (∃ typed, untyped = !typed ∧ S.AreLambdaParams inTrait typed params) ∨
      params = [] ∧ untyped = false)
    (hresult : S.Tree inTrait (.type result)) (hvoid : explicit = false → result.IsPlainVoid)
    (hbody : S.Tree inTrait (.block body)) :
    S.Tree inTrait
      (.expr ⟨pos, .lambda params result (Grammar.inferenceOf untyped explicit) body⟩) := by
  have hnodes (htrees : ∀ p ∈ params, S.Tree inTrait (.lambdaParam p)) :
      ∀ n ∈ (ExprForm.lambda params result (Grammar.inferenceOf untyped explicit) body).nodes,
        S.Tree inTrait n := by
    rw [ExprForm.nodes, List.forall_mem_cons, List.forall_mem_cons]
    exact ⟨hresult, hbody, List.forall_mem_map.2 htrees⟩
  rcases hparams with ⟨typed, rfl, h⟩ | ⟨rfl, rfl⟩
  · exact tree_exprIf (fun hfirm => ⟨h.allWellFormed, h.fits hfirm hvoid⟩) trivial trivial
      (hnodes h.trees)
  · refine tree_expr ⟨⟨nofun, nofun, .inl nofun⟩, ?_⟩ trivial trivial (hnodes nofun)
    refine ⟨?_, fun hopen => hvoid ?_⟩
    · cases explicit <;> simp [Grammar.inferenceOf]
    · cases explicit <;> simp_all [Grammar.inferenceOf]

theorem tree_newItem {item : NewItem} (hname : S.vocabulary.Name item.name)
    (hvalue : ∀ e ∈ item.value, S.Tree inTrait (.expr e)) : S.Tree inTrait (.newItem item) := by
  refine .of_parts rfl ⟨fun _ => trivial, trivial, hname⟩ (List.forall_mem_map.2 fun e he => ?_)
  exact hvalue e (Option.mem_toList.1 he)

theorem tree_exprArm {arm : ExprArm} (hpattern : S.Tree inTrait (.pattern arm.pattern))
    (hbody : S.Tree inTrait arm.body.node) : S.Tree inTrait (.exprArm arm) :=
  .of_parts rfl ⟨fun _ => trivial, trivial, trivial⟩
    (List.forall_mem_cons.2 ⟨hpattern, List.forall_mem_singleton.2 hbody⟩)

/-- What a single token says is an atom. -/
theorem isAtom_token {k : TokenKind} {text : String} {form : String → ExprForm}
    (hform : Grammar.tokenForm? k = some form) (htext : S.vocabulary.text k text) :
    S.IsAtom inTrait k (form text) := by
  have hconstant (value : Literal) (h : S.vocabulary.Constant value)
      (hk : ¬(k = .identifier ∨ k = Symbol.colonColon)) : S.IsAtom inTrait k (.literal value) :=
    ⟨tree_leaf trivial trivial h rfl, rfl, fun h => absurd h hk, fun _ _ => ⟨value, rfl⟩⟩
  unfold Grammar.tokenForm? at hform
  split at hform
  · cases hform
    exact ⟨tree_leaf trivial trivial trivial rfl, rfl, by nofun, by nofun⟩
  · cases hform
    exact ⟨tree_leaf trivial trivial trivial rfl, rfl, by nofun, by nofun⟩
  · cases hform
    exact ⟨tree_leaf trivial trivial htext rfl, rfl, fun _ => ⟨_, _, rfl⟩, by nofun⟩
  · cases hform
    exact hconstant _ trivial (by simp)
  · cases hform
    exact hconstant _ trivial (by simp)
  · cases hform
    exact hconstant _ trivial (by simp)
  · cases hform
    exact hconstant _ htext (by simp)
  · cases hform
    exact hconstant _ htext (by simp)
  · cases hform
    exact hconstant _ htext (by simp)
  · cases hform
    exact hconstant _ htext (by simp)
  · cases hform

theorem IsAtom.opensWith {k : TokenKind} {form : ExprForm} (h : S.IsAtom inTrait k form)
    (hminus : k ≠ Symbol.minus) (pos : Position) : (Expr.head ⟨pos, form⟩).OpensWith k := by
  rw [Expr.head_of_isAtom h.atom]
  exact ⟨fun _ => h.atom, h.name, fun hk => h.constant hk hminus⟩

/-! ## Looking further -/

/-- What follows an attempt in the other mode sees where building leads to. -/
theorem DeliversAt.attemptChecked {α β : Type} {m : Mode} {x : Parse σ (Yield m α)}
    {y : Parse σ (Yield .build α)} {f : Except SyntaxError (Yield m α) → Parse σ β} {V : α → Prop}
    {U : β → Prop} (hxy : (Simulation.refl σ).Coupled Yield.Agree x y)
    (hy : S.DeliversAt inTrait p y V)
    (hok : ∀ a q, S.Stays inTrait q → S.DeliversAt inTrait q (f (.ok a)) U)
    (herror : ∀ e q, S.Stopped inTrait e q → S.DeliversAt inTrait q (f (.error e)) U) :
    S.DeliversAt inTrait p (attempt x >>= f) U := by
  have harrive := hxy (rfl : p = p)
  have hrun : (attempt x).run p = (.ok (x.run p).1, (x.run p).2) := rfl
  unfold DeliversAt Ends at hy hok herror ⊢
  rw [run_bind_ok hrun]
  unfold Simulation.CoupledAt at harrive
  revert harrive hy
  rcases x.run p with ⟨r, q⟩
  rcases y.run p with ⟨r', q'⟩
  rintro hy (⟨-, hstates⟩ | ⟨-, hstates⟩)
  · obtain rfl : q = q' := hstates.states
    exact hok _ q hy.2
  · obtain rfl : q = q' := hstates.states
    exact herror _ q hy

/-- What follows the way back to a token sees that token, where that can be relied on. -/
theorem DeliversAt.goBackThen {β : Type} {f : Unit → Parse σ β} {U : β → Prop} {q : Parser σ}
    (hp : S.Stays inTrait p) (hgt : p.current.kind ≠ Symbol.gt)
    (hpipe : p.current.kind ≠ Symbol.pipe) (hq : S.adrift q) (hinTrait : q.inTrait = inTrait)
    (hf : ∀ r, S.Stays inTrait r → (S.vocabulary.firm → r.current.kind = p.current.kind) →
      S.DeliversAt inTrait r (f ()) U) :
    S.DeliversAt inTrait q (Parser.goBack ⟨p.start⟩ >>= f) U := by
  have hback := DeliversAt.goBack (S.known_start hp.holds) hq hinTrait
  have hkind : Ends (fun _ _ => True) (Parser.goBack ⟨p.start⟩) q fun _ r =>
      S.vocabulary.firm → r.current.kind = p.current.kind := by
    by_cases hfirm : S.vocabulary.firm
    · exact (S.goBack_kind hfirm hp.holds hgt hpipe hq).mono fun _ _ h _ => h
    · unfold Ends
      rcases (Parser.goBack ⟨p.start⟩ : Parse σ Unit).run q with ⟨_ | _, r⟩
      · trivial
      · exact fun h => absurd h hfirm
  refine Ends.bind ((hback.and hkind).imp (fun _ _ h => h.1) fun _ _ h => h) ?_
  rintro _ r ⟨⟨-, hr⟩, hkind⟩
  exact hf r hr hkind

namespace Sound

variable {g : Grammar σ} (hg : S.Sound g)

include hg

theorem drop : S.Delivers inTrait Parser.drop fun _ => True :=
  fun _ hp => .drop hp rfl fun _ => hg.free

theorem eat (k : TokenKind) : S.Delivers inTrait (Parser.eat k) fun _ => True :=
  .eat k fun _ => hg.free

theorem mark (k : TokenKind) : S.Delivers inTrait (Parser.mark k) fun _ => True :=
  .mark k fun _ => hg.free

theorem exprAt (level : Nat) : S.Delivers inTrait (g.expr .build level)
    fun e : Expr => S.Tree inTrait (.expr e) :=
  fun _ hp => (hg.expr level hp).mono fun _ he => he.tree

theorem patternAt : S.Delivers inTrait (g.pattern .build)
    fun p : Pattern => S.Tree inTrait (.pattern p) :=
  fun _ hp => (hg.pattern hp).mono fun _ h => h.tree

/-- Type arguments behind an operand, if they are some of a call. -/
theorem genericCallArgs (hp : S.Stays inTrait p) :
    S.DeliversAt inTrait p (g.genericCallArgs .build) fun args : Option (List TypeExpr) =>
      ∀ ts ∈ args, ts ≠ [] ∧ ∀ t ∈ ts, S.IsValueType inTrait t := by
  have hrest (isCall : Bool) {q : Parser σ} (hq : S.adrift q) (hinTrait : q.inTrait = inTrait) :
      S.DeliversAt inTrait q
        (do
          Parser.goBack ⟨p.start⟩
          if isCall then return some (← g.genericArgs .build) else return none)
        fun args : Option (List TypeExpr) =>
          ∀ ts ∈ args, ts ≠ [] ∧ ∀ t ∈ ts, S.IsValueType inTrait t := by
    refine (DeliversAt.goBack (S.known_start hp.holds) hq hinTrait).bind fun _ _ => ?_
    refine .ite (fun _ => hg.types.genericArgs.bind fun ts hts => .pure ?_) fun _ => .pure nofun
    rintro _ ⟨⟩
    exact hts
  refine .save (.attemptChecked (hg.checks.genericArgs .check .build) (hg.types.genericArgs p hp)
    ?_ ?_)
  · exact fun _ q hq => .check (hrest _ (S.adrift_of_holds hq.holds) hq.inTrait_eq)
  · intro e q hq
    dsimp only
    split
    · exact Ends.throw hq
    · exact hrest false hq.adrift hq.inTrait_eq

/-! ## Blocks, arguments, types -/

theorem block : S.Delivers inTrait (g.block .build) fun b : Block => S.Tree inTrait (.block b) := by
  refine Delivers.position.bind fun pos _ => (hg.mark _).bind fun _ _ => ?_
  refine (Delivers.listWhile (Delivers.checkNot _) hg.statement).bind fun statements h => ?_
  exact hg.drop.bind fun _ _ => .pure (tree_block h)

theorem callArgs : S.Delivers inTrait (g.callArgs .build)
    fun args : List Expr => ∀ a ∈ args, S.IsArg inTrait a := by
  refine (hg.eat _).bind fun _ _ => .ite (fun _ => .pure nofun) fun _ => ?_
  exact (hg.exprAt _).bind fun args hargs => (hg.mark _).bind fun _ _ =>
    .pure hargs.commaList

theorem parameterType (name : String) :
    S.Delivers inTrait (g.parameterType .build name) (S.IsValueType inTrait) :=
  hg.types.typeBehind _

/-- Without an arrow the result is plain `void`. -/
theorem resultType (hp : S.Stays inTrait p) : S.DeliversAt inTrait p (g.resultType .build)
    fun t : TypeExpr => S.Tree inTrait (.type t) ∧
      (p.current.kind ≠ Symbol.arrow → t.IsPlainVoid) := by
  by_cases harrow : p.current.kind = Symbol.arrow
  · refine (DeliversAt.eat hp harrow (by nofun)).bind fun taken htaken =>
      .ite (fun _ => ?_) fun h =>
      absurd htaken h
    exact hg.types.type.mono fun t ht => ⟨ht, fun h => absurd harrow h⟩
  · refine (DeliversAt.eat_of_ne hp harrow).bind fun taken htaken => ?_
    rw [htaken]
    exact Delivers.position.bind fun pos _ => .pure ⟨tree_voidAt _, fun _ => ⟨rfl, rfl⟩⟩

/-! ## Atoms -/

theorem parenthesized : S.Delivers inTrait (g.parenthesized .build)
    fun e : Expr => S.Tree inTrait (.expr e) := by
  refine Delivers.position.bind fun pos _ => hg.drop.bind fun _ _ => ?_
  refine (hg.exprAt _).bind fun e he => ?_
  exact (hg.mark _).bind fun _ _ => .pure (he.replaced _)

theorem arrayLiteral : S.Delivers inTrait (g.arrayLiteral .build)
    fun form : ExprForm => (∀ pos, S.Tree inTrait (.expr ⟨pos, form⟩)) ∧ form.isAtom := by
  refine (hg.mark _).bind fun _ _ => ?_
  refine (Delivers.openListOrEmpty (by nofun) (hg.exprAt _)).bind fun items hitems => .pure ?_
  refine ⟨fun pos => tree_expr (e := ⟨pos, .array items⟩) trivial trivial trivial ?_, rfl⟩
  exact List.forall_mem_map.2 hitems

/-- The parameters that have been taken are the first ones, and none of them is variadic. If none
has been taken and the first one is to have a type, no ellipsis comes behind its name. -/
theorem lambdaParamsOnto (typed : Bool) (steps : Nat) {taken : Array LambdaParam}
    (htrees : ∀ p ∈ taken.toList, S.Tree inTrait (.lambdaParam p))
    (hplain : ∀ p ∈ taken.toList, p.variadic = false ∧ p.type.isSome = typed)
    (hp : S.Stays inTrait p) (hfirst : S.vocabulary.firm → taken = #[] → typed = true →
      Ends (fun _ _ => True) Parser.advance p fun _ r => r.current.kind ≠ Symbol.ellipsis) :
    S.DeliversAt inTrait p (g.lambdaParamsOnto .build typed steps taken)
      fun params : Array LambdaParam => S.AreLambdaParams inTrait typed params.toList := by
  induction steps generalizing taken p with
  | zero => exact .failAtStart hp (by nofun) (by nofun)
  | succ steps ih =>
    refine .position (.expectIdentifierThen hp (Q := fun r => S.vocabulary.firm → taken = #[] →
      typed = true → r.current.kind ≠ Symbol.ellipsis) ?_ fun name q hname hq hnext => ?_)
    · by_cases hnone : S.vocabulary.firm ∧ taken = #[] ∧ typed = true
      · exact (hfirst hnone.1 hnone.2.1 hnone.2.2).mono fun _ r h _ _ _ => h
      · exact .of_forall fun _ _ hfirm h h' => absurd ⟨hfirm, h, h'⟩ hnone
    by_cases hellipsis : q.current.kind = Symbol.ellipsis
    · refine (DeliversAt.eat hq hellipsis (by nofun)).bind fun _ heaten =>
        .ite (fun _ => .pure ?_) fun h =>
        absurd heaten h
      have hall : S.AreLambdaParams inTrait typed
          (taken.push ⟨p.current.position, name, none, true⟩).toList := by
        rw [Array.toList_push]
        refine .of_variadic htrees hplain (tree_lambdaParam hname nofun) rfl
          rfl fun hfirm hnil => ?_
        refine Bool.eq_false_iff.2 fun htyped => hnext hfirm ?_ htyped hellipsis
        exact Array.toList_eq_nil_iff.1 hnil
      exact hall
    · refine (DeliversAt.eat_of_ne hq hellipsis).bind fun _ heaten => .ite
        (fun h => absurd (heaten ▸ h) Bool.false_ne_true) fun _ => ?_
      refine (Delivers.optionallyIf fun _ => (hg.mark _).bind fun _ _ =>
        hg.parameterType name).bind fun type htype => ?_
      have htrees' := Delivers.forall_mem_push htrees
        (tree_lambdaParam (l := ⟨p.current.position, name, type, false⟩) hname htype.2)
      have hplain' := Delivers.forall_mem_push hplain
        (a := ⟨p.current.position, name, type, false⟩) ⟨rfl, htype.1⟩
      have hne := Delivers.toList_push_ne_nil taken ⟨p.current.position, name, type, false⟩
      refine (hg.eat _).bind fun _ _ => .ite (fun _ q hq => ?_) fun _ => ?_
      · exact ih htrees' hplain' hq fun _ hnone => absurd (congrArg Array.toList hnone) hne
      · refine (Delivers.check _).bind fun _ _ => .ite (fun _ => .pure ?_) fun _ =>
          .expectedOneOf _
        exact AreLambdaParams.of_plain htrees' hplain' hne

/-- Parameters between bars; whether they are without types is told by the first one. -/
theorem lambdaParams : S.Delivers inTrait (g.lambdaParams .build)
    fun r : List LambdaParam × Bool =>
      (∃ typed, r.2 = !typed ∧ S.AreLambdaParams inTrait typed r.1) ∨ r = ([], false) := by
  refine fun p hp => .check (.ite (fun hkind => ?_) fun _ => Delivers.pure (.inr rfl) p hp)
  refine .peekThen hp fun next q hq _ hcolon => ?_
  refine Ends.listBound (DeliversAt.bind (hg.lambdaParamsOnto _ _ Delivers.forall_mem_empty
    Delivers.forall_mem_empty hq fun hfirm _ htyped => hcolon hfirm (of_decide_eq_true htyped)) ?_)
  exact fun params hparams => .pure (.inl ⟨_, rfl, hparams⟩)

theorem lambda : S.Delivers inTrait (g.lambda .build)
    fun form : ExprForm => (∀ pos, S.Tree inTrait (.expr ⟨pos, form⟩)) ∧ form.isAtom := by
  refine Delivers.splitBars.bind fun _ _ => (hg.mark _).bind fun _ _ => ?_
  refine hg.lambdaParams.bind fun params hparams => (hg.mark _).bind fun _ _ q hq => ?_
  refine .check ((hg.resultType hq).bind fun result hresult => ?_)
  refine hg.block.bind fun body hbody => .pure ⟨fun pos => ?_, rfl⟩
  refine tree_lambda ?_ hresult.1 (fun h => hresult.2 (of_decide_eq_false h)) hbody
  rcases hparams with h | h
  · exact .inl h
  · exact .inr (Prod.mk.inj h)

theorem newItem : S.Delivers inTrait (g.newItem .build)
    fun item : NewItem => S.Tree inTrait (.newItem item) := by
  refine Delivers.position.bind fun pos _ => Delivers.expectIdentifier.bind fun name hname => ?_
  exact (Delivers.optionally (hg.eat _) (hg.exprAt _)).bind fun value hvalue =>
    .pure (tree_newItem hname hvalue)

theorem newObject : S.Delivers inTrait (g.newObject .build)
    fun form : ExprForm => (∀ pos, S.Tree inTrait (.expr ⟨pos, form⟩)) ∧ form.isAtom := by
  refine (hg.mark _).bind fun _ _ => hg.types.type.bind fun type htype => ?_
  refine (hg.mark _).bind fun _ _ => hg.callArgs.bind fun args hargs => ?_
  refine (Delivers.optionally (hg.eat _)
    (Delivers.openListOrEmpty (by nofun) hg.newItem)).bind fun init hinit =>
      .pure ⟨fun pos => ?_, rfl⟩
  refine tree_expr (e := ⟨pos, .new type args init⟩) trivial trivial ?_ ?_
  · exact fun a ha => (hargs a ha).single
  · refine List.forall_mem_cons.2 ⟨htype, List.forall_mem_append.2 ⟨?_, List.forall_mem_map.2 ?_⟩⟩
    · exact List.forall_mem_map.2 fun a ha => (hargs a ha).tree
    cases init with
    | none => nofun
    | some items => exact hinit items rfl

theorem rootIdentifier : S.Delivers inTrait (Grammar.rootIdentifier .build : Parse σ _)
    fun form : ExprForm => (∀ pos, S.Tree inTrait (.expr ⟨pos, form⟩)) ∧
      ∃ name root, form = .identifier name root := by
  refine hg.drop.bind fun _ _ => Delivers.expectIdentifier.bind fun name hname => .pure ?_
  exact ⟨tree_leaf trivial trivial hname rfl, name, true, rfl⟩

theorem atomForm (hp : S.Stays inTrait p) :
    S.DeliversAt inTrait p (g.atomForm .build) (S.IsAtom inTrait p.current.kind) := by
  refine .kind ?_
  split
  · next hkind =>
    rw [hkind]
    exact (hg.arrayLiteral p hp).mono fun _ h => ⟨h.1, h.2, by nofun, by nofun⟩
  · next hkind =>
    rw [hkind]
    exact (hg.lambda.inContext _ p hp).mono fun _ h => ⟨h.1, h.2, by nofun, by nofun⟩
  · next hkind =>
    rw [hkind]
    exact (hg.lambda.inContext _ p hp).mono fun _ h => ⟨h.1, h.2, by nofun, by nofun⟩
  · next hkind =>
    rw [hkind]
    exact (hg.newObject.inContext _ p hp).mono fun _ h => ⟨h.1, h.2, by nofun, by nofun⟩
  · next hkind =>
    rw [hkind]
    refine (hg.rootIdentifier p hp).mono ?_
    rintro _ ⟨htree, name, root, rfl⟩
    exact ⟨htree, rfl, fun _ => ⟨name, root, rfl⟩, by nofun⟩
  · next type hkind =>
    refine (hg.types hp).bind fun t ht => .pure ?_
    rw [hkind] at ht ⊢
    refine ⟨fun pos => ?_, rfl, by nofun, by nofun⟩
    refine tree_expr (e := ⟨pos, .primitive t⟩) trivial trivial (ht.primitive type rfl) ?_
    exact List.forall_mem_singleton.2 ht.tree
  · split
    · next form hform =>
      refine (DeliversAt.advance hp rfl fun _ => hg.free).bind fun t ht => .pure ?_
      rw [ht]
      exact isAtom_token hform (S.text_current hp.holds)
    · exact Delivers.unexpected p hp

/-- An atom is headed by its first token; operators and `match` come before atoms are tried. -/
theorem atom (hp : S.Stays inTrait p) (hminus : p.current.kind ≠ Symbol.minus) :
    S.DeliversAt inTrait p (g.atom .build)
      fun e : Expr => S.Tree inTrait (.expr e) ∧ e.head.OpensWith p.current.kind := by
  refine .check (.ite (fun hkind => ?_) fun hnot => ?_)
  · have hkind := of_decide_eq_true hkind
    refine (hg.parenthesized p hp).mono fun e he => ⟨he, ?_⟩
    rw [hkind]
    exact ⟨fun h => absurd rfl h, by nofun, by nofun⟩
  · exact .position ((hg.atomForm hp).bind fun form hform =>
      .pure ⟨hform.tree _, hform.opensWith hminus _⟩)

/-! ## Match expressions -/

theorem armBody : S.Delivers inTrait (g.armBody .build)
    fun body : ArmBody => S.Tree inTrait body.node := by
  refine (Delivers.check _).bind fun _ _ => .ite (fun _ => ?_) fun _ => ?_
  · exact hg.block.bind fun body hbody => .pure hbody
  · exact (hg.exprAt _).bind fun e he => .pure he

theorem exprArm : S.Delivers inTrait (g.exprArm .build)
    fun arm : ExprArm => S.Tree inTrait (.exprArm arm) := by
  refine Delivers.position.bind fun pos _ => (hg.mark _).bind fun _ _ => ?_
  refine hg.patternAt.bind fun pattern hpattern => (hg.mark _).bind fun _ _ => ?_
  refine hg.armBody.bind fun body hbody => (hg.eat _).bind fun _ _ => .pure ?_
  exact tree_exprArm hpattern hbody

theorem selectExpr : S.Delivers inTrait (g.selectExpr .build)
    fun form : ExprForm => (∀ pos, S.Tree inTrait (.expr ⟨pos, form⟩)) ∧ form.isPrefixed := by
  refine (hg.mark _).bind fun _ _ => (hg.exprAt _).bind fun subject hsubject => ?_
  refine (hg.mark _).bind fun _ _ => ?_
  refine (Delivers.listOnceAndWhile (Delivers.checkNot _) hg.exprArm).bind fun arms harms => ?_
  refine (hg.mark _).bind fun _ _ => .pure ⟨fun pos => ?_, rfl⟩
  refine tree_expr (e := ⟨pos, .select subject arms⟩) harms.1 trivial trivial ?_
  exact List.forall_mem_cons.2 ⟨hsubject, List.forall_mem_map.2 harms.2⟩

/-! ## Behind an operand -/

section Behind

variable {left : Expr} (hleft : S.Tree inTrait (.expr left))

include hleft

theorem genericCall {generics : List TypeExpr} (hne : generics ≠ [])
    (hgenerics : ∀ t ∈ generics, S.IsValueType inTrait t) :
    S.Delivers inTrait (g.genericCall .build left generics)
      fun form : ExprForm => ∀ pos, S.Tree inTrait (.expr ⟨pos, form⟩) := by
  refine (hg.mark _).bind fun _ _ => hg.callArgs.bind fun args hargs => .pure fun pos => ?_
  refine tree_expr (e := ⟨pos, .genericCall left generics args⟩) hne
    (fun t ht => (hgenerics t ht).value) (fun a ha => (hargs a ha).single) ?_
  refine List.forall_mem_cons.2 ⟨hleft, List.forall_mem_append.2 ⟨?_, ?_⟩⟩
  · exact List.forall_mem_map.2 fun t ht => (hgenerics t ht).tree
  · exact List.forall_mem_map.2 fun a ha => (hargs a ha).tree

theorem ternary : S.Delivers inTrait (g.ternary .build left)
    fun form : ExprForm => ∀ pos, S.Tree inTrait (.expr ⟨pos, form⟩) := by
  refine hg.drop.bind fun _ _ => (hg.exprAt _).bind fun consequence hconsequence => ?_
  refine (hg.mark _).bind fun _ _ => (hg.exprAt _).bind fun alternative halternative => ?_
  refine .pure fun pos => tree_expr (e := ⟨pos, .ternary left consequence alternative⟩) trivial
    trivial trivial ?_
  exact List.forall_mem_cons.2 ⟨hleft, List.forall_mem_cons.2 ⟨hconsequence,
    List.forall_mem_singleton.2 halternative⟩⟩

theorem continuation {c : Continuation}
    (hcount : ∀ op, c = .count op → op = .increment ∨ op = .decrement) :
    S.Delivers inTrait (g.continuation .build left c)
      fun form : ExprForm => (∀ pos, S.Tree inTrait (.expr ⟨pos, form⟩)) ∧
        (c = .binary .scope → ∃ right, form = .binary .scope left right) := by
  cases c with
  | binary op =>
    refine hg.drop.bind fun _ _ => (hg.exprAt _).bind fun right hright => .pure ⟨fun pos => ?_, ?_⟩
    · refine tree_expr (e := ⟨pos, .binary op left right⟩) trivial trivial trivial ?_
      exact List.forall_mem_cons.2 ⟨hleft, List.forall_mem_singleton.2 hright⟩
    · rintro ⟨⟩
      exact ⟨right, rfl⟩
  | ternary => exact (hg.ternary hleft).mono fun _ h => ⟨h, nofun⟩
  | count op =>
    refine hg.drop.bind fun _ _ => .pure ⟨fun pos => ?_, nofun⟩
    exact tree_expr (e := ⟨pos, .unary op .behind left⟩) trivial trivial (hcount op rfl)
      (List.forall_mem_singleton.2 hleft)
  | call =>
    refine hg.drop.bind fun _ _ => hg.callArgs.bind fun args hargs => .pure ⟨fun pos => ?_, nofun⟩
    refine tree_expr (e := ⟨pos, .call left args⟩) trivial trivial
      (fun a ha => (hargs a ha).single) ?_
    exact List.forall_mem_cons.2 ⟨hleft, List.forall_mem_map.2 fun a ha => (hargs a ha).tree⟩
  | index =>
    refine hg.drop.bind fun _ _ => (hg.exprAt _).bind fun position hposition => ?_
    refine (hg.mark _).bind fun _ _ => .pure ⟨fun pos => ?_, nofun⟩
    refine tree_expr (e := ⟨pos, .index left position⟩) trivial trivial trivial ?_
    exact List.forall_mem_cons.2 ⟨hleft, List.forall_mem_singleton.2 hposition⟩
  | cast =>
    refine hg.drop.bind fun _ _ => hg.types.type.bind fun type htype => .pure ⟨fun pos => ?_, nofun⟩
    refine tree_expr (e := ⟨pos, .cast left type⟩) trivial trivial trivial ?_
    exact List.forall_mem_cons.2 ⟨hleft, List.forall_mem_singleton.2 htype⟩
  | typeTest =>
    refine hg.drop.bind fun _ _ => hg.types.type.bind fun type htype => .pure ⟨fun pos => ?_, nofun⟩
    refine tree_expr (e := ⟨pos, .typeTest left type⟩) trivial trivial trivial ?_
    exact List.forall_mem_cons.2 ⟨hleft, List.forall_mem_singleton.2 htype⟩

/-- At the level of paths the left end stays what it is. -/
theorem climb (pos : Position) (level steps : Nat) :
    S.Delivers inTrait (g.climb .build pos level steps left)
      fun e : Expr => S.Tree inTrait (.expr e) ∧ (level = Level.path → e.head = left.head) := by
  induction steps generalizing left with
  | zero => exact .failAtStart (by nofun) (by nofun)
  | succ steps ih =>
    refine fun p hp => .kind (.ite (fun hcall => ?_) fun _ => ?_)
    · simp only [Bool.and_eq_true, decide_eq_true_eq] at hcall
      obtain ⟨-, rfl⟩ := hcall
      refine (hg.genericCallArgs hp).bind fun generics hgenerics => ?_
      cases generics with
      | none => exact .pure ⟨hleft, nofun⟩
      | some generics =>
        obtain ⟨hne, hvalues⟩ := hgenerics generics rfl
        refine (hg.genericCall hleft hne hvalues).bind fun form hform => ?_
        exact (ih (hform pos)).mono fun e he => ⟨he.1, nofun⟩
    · split
      · exact Delivers.pure ⟨hleft, fun _ => rfl⟩ p hp
      · next c hc =>
        refine .ite (fun _ => Delivers.pure ⟨hleft, fun _ => rfl⟩ p hp) fun hlevel => ?_
        have hcount (op : UnaryOp) (h : c = .count op) : op = .increment ∨ op = .decrement :=
          Continuation.count_of_ofKind? (h ▸ hc)
        refine (hg.continuation hleft hcount p hp).bind fun form hform => ?_
        -- What is taken at the level of paths keeps the left end.
        have hhead (h : level = Level.path) : Expr.head ⟨pos, form⟩ = left.head := by
          rw [h] at hlevel
          obtain ⟨right, hform'⟩ := hform.2 (Continuation.eq_scope hlevel)
          exact (congrArg (fun form => Expr.head ⟨pos, form⟩) hform').trans (Expr.head_scope ..)
        refine .ite (fun _ => .pure ⟨hform.1 pos, hhead⟩) fun _ => ?_
        exact (ih (hform.1 pos)).mono fun e he => ⟨he.1, fun h => (he.2 h).trans (hhead h)⟩

/-- From below the level of paths nothing is taken there. -/
theorem descend (pos : Position) (level top : Nat) (htop : top ≤ Level.path) :
    S.Delivers inTrait (g.descend .build pos level top left)
      fun e : Expr => S.Tree inTrait (.expr e) ∧ (level = Level.path → e.head = left.head ∧
        (top < Level.path → e = left)) := by
  induction top generalizing left with
  | zero => exact .pure ⟨hleft, fun _ => ⟨rfl, fun _ => rfl⟩⟩
  | succ top ih =>
    refine .ite (fun _ => .pure ⟨hleft, fun _ => ⟨rfl, fun _ => rfl⟩⟩) fun hlevel => ?_
    refine Delivers.listBound.bind fun steps _ => ?_
    refine (hg.climb hleft pos (top + 1) steps).bind fun e he => ?_
    refine (ih he.1 (by omega)).mono fun e' he' => ⟨he'.1, fun h => ?_⟩
    have htop' : top + 1 = Level.path := by omega
    exact ⟨(he'.2 h).1.trans (he.2 htop'), fun h => absurd h (by omega)⟩

end Behind

theorem unary (op : UnaryOp) : S.Delivers inTrait (g.unary .build op)
    fun form : ExprForm => (∀ pos, S.Tree inTrait (.expr ⟨pos, form⟩)) ∧
      ∃ operand, form = .unary op .before operand := by
  refine hg.drop.bind fun _ _ => (hg.exprAt _).bind fun operand hoperand =>
    .pure ⟨fun pos => ?_, ?_⟩
  · exact tree_expr (e := ⟨pos, .unary op .before operand⟩) trivial trivial trivial
      (List.forall_mem_singleton.2 hoperand)
  · exact ⟨operand, rfl⟩

/-- A step of the grammar reads expressions as they are to be read. -/
theorem exprStep (level : Nat) (hp : S.Stays inTrait p) :
    S.DeliversAt inTrait p (g.exprStep .build level) (S.IsExpr inTrait level p.current.kind) := by
  refine .position (.kind ?_)
  split
  · next op hop =>
    refine (hg.unary op p hp).bind fun form hform => ?_
    obtain ⟨htree, operand, hform⟩ := hform
    refine (hg.descend (htree _) _ level _ (by decide)).mono fun e he => ⟨he.1, fun hlevel => ?_⟩
    rw [(he.2 hlevel).2 (by decide)]
    subst hform
    exact .unary hop _ operand
  · next hop =>
    refine .ite (fun hkind => ?_) fun hkind => ?_
    · refine (hg.selectExpr.inContext _ p hp).bind fun form hform => ?_
      refine (hg.descend (hform.1 _) _ level _ (by decide)).mono fun e he =>
        ⟨he.1, fun hlevel => ?_⟩
      rw [(he.2 hlevel).2 (by decide), hkind]
      exact .select hform.2 _
    · have hminus : p.current.kind ≠ Symbol.minus := by
        intro h
        rw [h] at hop
        cases hop
      refine (hg.atom hp hminus).bind fun left hleft => ?_
      refine (hg.descend hleft.1 _ level _ (Nat.le_refl _)).mono fun e he =>
        ⟨he.1, fun hlevel => ?_⟩
      refine .of_head ?_
      rw [(he.2 hlevel).1]
      exact hleft.2

end Sound

end Supply

end ScriptFront
