import ScriptFront.Proofs.Coupling.Modes
import ScriptFront.Proofs.Rewriting.Types
import ScriptFront.Proofs.Writing.TypeOperators

/-!
# Further operands

How the forms of expressions are read that plain expressions are not made of: atoms that hold
types or blocks, `match`, casts, and calls with type arguments.

- `Parses.checkedPart`: what is built of a row is checked there, too.
- `Spine.ofAtom`, `Spine.primitive`: atoms that depend on what follows them.
- `Spine.genericCall`: a call with type arguments behind an operand.
- `Whole.prefixed`, `Whole.select`: forms that stand at any level.
-/

namespace ScriptFront

open ScriptFront.Parser

/-! ## Looking at a row -/

namespace Parses

variable {α : Type} {c : Setting} {ts us : List Lexeme} {depth : Nat} {x : Parse Buffer α}
  {V : α → Prop}

/-- What is built of a row is checked there, too. -/
theorem checkedPart (part : Part) {V : part.Tree → Prop}
    (h : Parses c ts (part.read (Grammar.upTo depth) .build) V us) :
    Parses c ts (part.read (Grammar.upTo depth) .check) (fun _ => True) us := by
  intro p hp
  obtain ⟨a, q, hq, -, hreads⟩ := h hp
  refine ⟨(), q, ?_, trivial, hreads⟩
  rw [part.check_eq_build_erased, hq]
  rfl

theorem attempt (h : Parses c ts x V us) :
    Parses c ts (Parser.attempt x) (fun r => ∃ a, r = .ok a ∧ V a) us := by
  intro p hp
  obtain ⟨a, q, hq, ha, hreads⟩ := h hp
  refine ⟨.ok a, q, ?_, ⟨a, rfl, ha⟩, hreads⟩
  simp only [Parser.attempt, ExceptT.run_mk, hq]

theorem goBack {b : Bookmark} (hb : c.Marks ts b) :
    Parses c us (Parser.goBack b) (fun _ => True) ts := by
  intro p hp
  obtain ⟨q, hq, hreads⟩ := hb.goBack hp.holds
  exact ⟨(), q, hq, trivial, hreads⟩

/-- Type arguments of a call. -/
theorem typeArguments {V : List TypeExpr → Prop}
    (h : Parses c ts ((Grammar.upTo depth).genericArgs .build) V us)
    (hus : headKind us = Symbol.lParen) :
    Parses c ts ((Grammar.upTo depth).genericCallArgs .build)
      (fun r => ∃ a, r = some a ∧ V a) us := by
  refine Parses.save fun b hb => (checkedPart .genericArgs h).attempt.bind fun r hr => ?_
  obtain ⟨a, rfl, -⟩ := hr
  refine Parses.check ((goBack hb).bind fun _ _ => Parses.ifTrue (decide_eq_true hus) ?_)
  exact h.bind fun a ha => .pure ⟨a, rfl, ha⟩

end Parses

section Rules

variable {c : Setting} {depth least : Nat} {l : Lexeme} {row : List Lexeme} {like : Expr → Prop}
  {ends : List Lexeme → Prop}

/-! ## Atoms -/

/-- An atom that depends on what follows it. -/
theorem Spine.ofAtom (hunary : UnaryOp.ofKind? l.kind = none) (hmatch : l.kind ≠ Keyword.matchKw)
    (hparen : l.kind ≠ Symbol.lParen) {formed : ExprForm → Prop}
    (h : ∀ rest, ends rest →
      Parses c (l :: (row ++ rest)) ((Grammar.upTo depth).atomForm .build) formed rest)
    (hlike : ∀ pos form, formed form → like ⟨pos, form⟩) :
    Spine c depth (l :: row) like Level.path ends := by
  intro least rest us V hleast hends hfinal
  refine Parses.position fun pos => Parses.kind ?_
  rw [List.cons_append, headKind_cons, hunary]
  refine Parses.ifFalse hmatch ?_
  have hatom : Parses c (l :: (row ++ rest)) ((Grammar.upTo depth).atom .build) like rest := by
    refine Parses.check (Parses.ifFalse (fun h => hparen (of_decide_eq_true h)) ?_)
    exact Parses.position fun pos => (h rest hends).bind fun form hform =>
      .pure (hlike pos form hform)
  refine hatom.bind fun left hleft => Parses.ifFalse (Nat.not_lt.2 hleast) ?_
  exact Parses.listBound fun n hn => hfinal pos n left hleft (by omega)

theorem TypeExpr.StartsPrimitive.eq_word {t : TypeExpr} (h : t.StartsPrimitive) :
    ∃ type more, t.lexemes = .word (.primitive type) :: more := by
  obtain ⟨pos, nullable, form⟩ := t
  rcases h with ⟨type, hform⟩ | ⟨⟨pos', nullable', form'⟩, dims, type, hform, helement⟩
  · obtain rfl : form = .primitive type := hform
    exact ⟨type, _, rfl⟩
  · obtain rfl : form = .array ⟨pos', nullable', form'⟩ dims := hform
    obtain rfl : form' = .primitive type := helement
    exact ⟨type, _, rfl⟩

/-- The name of a primitive type, perhaps with dimensions. -/
theorem Spine.primitive {t : TypeExpr} (hprimitive : t.StartsPrimitive)
    (h : t.Written c.inTrait) (hdepth : t.lexemes.length < depth)
    (hlike : ∀ pos t', Copies TypeExpr.unplaced t t' → like ⟨pos, .primitive t'⟩) :
    Spine c depth t.lexemes like Level.path fun rest => IsBare (headKind rest) := by
  obtain ⟨type, more, hrow⟩ := hprimitive.eq_word
  have hread (rest : List Lexeme) (hrest : IsBare (headKind rest)) :
      Parses c (.word (.primitive type) :: (more ++ rest)) ((Grammar.upTo depth).atomForm .build)
        (fun form => ∃ t', Copies TypeExpr.unplaced t t' ∧ form = .primitive t') rest := by
    have htype := hprimitive.parses h hdepth hrest
    rw [hrow] at htype
    exact Parses.kind (htype.bind fun t' ht' => .pure ⟨t', ht', rfl⟩)
  rw [hrow]
  refine Spine.ofAtom rfl nofun nofun hread ?_
  rintro pos _ ⟨t', ht', rfl⟩
  exact hlike pos t' ht'

/-! ## Behind operands -/

/-- The type arguments of a call are taken, and climbing goes on behind the call. -/
theorem Parses.climbGenericCall {α : Type} {ts us vs : List Lexeme} {pos : Position} {steps : Nat}
    {left : Yield .build Expr} {f : Yield .build Expr → Parse Buffer α} {V : α → Prop}
    {U : List TypeExpr → Prop} (hk : headKind ts = Symbol.lt)
    (hgenerics : Parses c ts ((Grammar.upTo depth).genericCallArgs .build)
      (fun r => ∃ a, r = some a ∧ U a) us)
    (h : ∀ a : List TypeExpr, U a → Parses c us
      (Grammar.genericCall (Grammar.upTo depth) .build left a >>= fun form =>
        (Grammar.upTo depth).climb .build pos Level.access steps
    (Expr.mk pos <$> form) >>= f) V vs) :
    Parses c ts
      ((Grammar.upTo depth).climb .build pos Level.access (steps + 1) left >>= f) V vs := by
  intro p hp
  have hkind : (Parser.kind : Parse Buffer TokenKind).run p = (.ok (headKind ts), p) := by
    rw [← hp.kind_eq]
    rfl
  obtain ⟨_, q, hq, ⟨a, rfl, ha⟩, hreads⟩ := hgenerics hp
  obtain ⟨b, r, hr, hb, hreads'⟩ := h a ha hreads
  refine ⟨b, r, ?_, hb, hreads'⟩
  rw [Grammar.climb, bind_assoc, run_bind_ok hkind, hk, if_pos (by simp), bind_assoc,
    run_bind_ok hq, bind_assoc]
  exact hr

/-- A call behind its callee and its type arguments. -/
theorem Spine.genericCall {generics : List TypeExpr} {rows : List (List Lexeme)}
    {args : List Lexeme} {likeCallee : Expr → Prop} {likeArgs : List Expr → Prop}
    (h : Operand c depth row likeCallee)
    (hgenerics : TypeExpr.AllSpelledBy c.inTrait generics rows) (hne : generics ≠ [])
    (hdepth : (commas rows).length < depth) (hargs : Args c depth args likeArgs)
    (hlike : ∀ pos e ts es, likeCallee e →
      ts.map TypeExpr.unplaced = generics.map TypeExpr.unplaced → likeArgs es →
      like ⟨pos, .genericCall e ts es⟩) :
    Spine c depth (row ++ inAngles (commas rows) ++ inParens args) like Level.access
      fun _ => True := by
  intro least rest us V hleast _ hfinal
  rw [List.append_assoc, List.append_assoc]
  refine h fun pos left hleft => ?_
  have hpath : ¬Level.path < least := Nat.not_lt.2 (Nat.le_trans hleast (by decide))
  refine Parses.ifFalse hpath (Parses.listBound fun n hn => ?_)
  obtain ⟨n, rfl⟩ : ∃ k, n = k + 1 := ⟨n - 1, by omega⟩
  have hkind : headKind (inAngles (commas rows) ++ (inParens args ++ rest)) = Symbol.lt := rfl
  -- At the level of paths, the angle is an operator that binds less tightly.
  have hlower (k : Continuation) (hk : Continuation.ofKind?
      (headKind (inAngles (commas rows) ++ (inParens args ++ rest))) = some k) :
      k.level < Level.path := by
    rw [hkind] at hk
    obtain rfl : Continuation.binary .lt = k := Option.some.inj hk
    decide
  refine (Parses.climbBelow hlower (fun hlt => absurd hlt.2 (by decide)) n).bind
    fun whole hwhole => ?_
  subst hwhole
  refine Parses.ifFalse (Nat.not_lt.2 hleast) (Parses.listBound fun m hm => ?_)
  obtain ⟨m, rfl⟩ : ∃ k, m = k + 1 := ⟨m - 1, by omega⟩
  refine Parses.climbGenericCall hkind
    (Parses.typeArguments (hgenerics.parses hne hdepth) rfl) fun ts hts => ?_
  rw [List.length_append, List.length_append] at hm
  have hcall : Parses c (inParens args ++ rest)
      (Grammar.genericCall (Grammar.upTo depth) .build whole ts)
      (fun form => ∃ es, likeArgs es ∧ form = .genericCall whole ts es) rest := by
    rw [inParens_append]
    exact Parses.mark rfl ((hargs rest).bind fun es hes => .pure ⟨es, hes, rfl⟩)
  refine hcall.bind fun form hform => ?_
  obtain ⟨es, hes, rfl⟩ := hform
  exact hfinal pos m _ (hlike pos whole ts es hleft hts hes) (by omega)

/-! ## Forms that stand at any level -/

/-- An operator before its operand, at whatever level. -/
theorem Whole.prefixed {op : UnaryOp} {likeOperand : Expr → Prop}
    (h : Whole c depth row likeOperand Level.operand (Stops Level.operand))
    (hlike : ∀ pos e, likeOperand e → like ⟨pos, .unary op .before e⟩) :
    Whole c (depth + 1) (op.lexeme :: row) like least
      fun rest => Stops Level.operand rest ∧ Stops least rest := by
  intro rest hrest
  have hform : Parses c (op.lexeme :: (row ++ rest))
      ((Grammar.upTo (depth + 1)).unary .build op)
      (fun form : Yield .build ExprForm => ∃ e, likeOperand e ∧ form = .unary op .before e) rest :=
    Parses.drop ((h hrest.1).bind fun e he => .pure ⟨e, he, rfl⟩)
  refine Parses.position fun pos => Parses.kind ?_
  rw [List.cons_append, headKind_cons, UnaryOp.lexeme, UnaryOp.ofKind?_token]
  refine hform.bind fun form hform => (Parses.descendNothing hrest.2 _).mono fun whole hwhole => ?_
  obtain ⟨e, he, rfl⟩ := hform
  subst hwhole
  exact hlike pos e he

/-- A `match`, at whatever level. -/
theorem Whole.select {formed : ExprForm → Prop}
    (h : ∀ rest, Parses c (.word .matchKw :: (row ++ rest))
      ((Grammar.upTo depth).selectExpr .build) formed rest)
    (hlike : ∀ pos form, formed form → like ⟨pos, form⟩) :
    Whole c depth (.word .matchKw :: row) like least (Stops least) := by
  intro rest hrest
  refine Parses.position fun pos => Parses.kind (Parses.ifTrue rfl ?_)
  refine (Parses.inContext .select (h rest)).bind fun form hform => ?_
  exact (Parses.descendNothing hrest _).mono fun whole hwhole => hwhole ▸ hlike pos form hform

end Rules

end ScriptFront
