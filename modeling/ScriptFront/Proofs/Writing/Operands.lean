import ScriptFront.Proofs.Writing.Climbing
import ScriptFront.Proofs.Writing.Unplaced

/-!
# Operands and what stands behind them

How each form of expression is read back from its row, given how its parts are. Parts are read one
step deeper in the grammar.

- `Operand.token`, `Operand.rootName`, `Operand.parens`: operands.
- `Stands.binary`, `Stands.count`, `Stands.call`, `Stands.index`: what goes on behind an operand.
- `Whole.before`, `Whole.ternary`: forms that nothing goes on behind.
-/

namespace ScriptFront

open ScriptFront.Parser

/-! ## Chains of commas -/

/-- Whether an expression is two operands with a comma between them. -/
def Expr.isComma : Expr → Bool
  | ⟨_, .binary .comma _ _⟩ => true
  | _ => false

theorem Expr.commaListOnto_append (e : Expr) (rest more : List Expr) :
    e.commaListOnto (rest ++ more) = e.commaListOnto rest ++ more := by
  induction e, rest using Expr.commaListOnto.induct with
  | case1 rest pos left right ihRight ihLeft =>
    rw [Expr.commaListOnto, Expr.commaListOnto, ihRight, ihLeft]
  | case2 rest e h =>
    rw [Expr.commaListOnto, Expr.commaListOnto]
    · rfl
    · exact h
    · exact h

theorem Expr.commaList_comma (pos : Position) (left right : Expr) :
    commaList ⟨pos, .binary .comma left right⟩ = left.commaList ++ right.commaList := by
  rw [commaList, commaList, ← commaListOnto_append, commaListOnto]
  rfl

theorem Expr.commaList_single {e : Expr} (h : e.isComma = false) : e.commaList = [e] := by
  rw [commaList, commaListOnto]
  rintro pos left right rfl
  exact absurd h nofun

/-- An expression is another one up to the places of its parts. -/
def Expr.Alike (e other : Expr) : Prop := other.unplaced = e.unplaced

theorem Expr.alike_mk {pos pos' : Position} {form form' : ExprForm} :
    Expr.Alike ⟨pos, form⟩ ⟨pos', form'⟩ ↔ form'.unplaced = form.unplaced :=
  ⟨fun h => congrArg Expr.form h, congrArg (Expr.mk .start)⟩

theorem Expr.Alike.isComma_eq {e other : Expr} (h : e.Alike other) : other.isComma = e.isComma := by
  have hunplaced (e : Expr) : e.unplaced.isComma = e.isComma := by
    obtain ⟨pos, form⟩ := e
    cases form with
    | binary op left right => cases op <;> rfl
    | _ => rfl
  rw [← hunplaced other, h, hunplaced e]

theorem commas_rows {wraps : Wrapping} (least : Nat) (a : Expr) (args : List Expr) :
    commas (Expr.rows wraps least (a :: args)) =
      a.part wraps least ++ args.flatMap fun a => .mark .comma :: a.part wraps least := by
  induction args generalizing a with
  | nil => simp [Expr.rows, commas]
  | cons b args ih =>
    rw [Expr.rows, Expr.rows, commas, ← Expr.rows, ih, List.flatMap_cons, List.cons_append]
    exact nofun

section Rules

variable {c : Setting} {depth least : Nat} {row : List Lexeme} {like : Expr → Prop} {l : Lexeme}
  {pos : Position}

/-! ## Operands -/

/-- An atom is an operand. -/
theorem Operand.ofAtom (hunary : UnaryOp.ofKind? l.kind = none)
    (hmatch : l.kind ≠ Keyword.matchKw)
    (h : ∀ rest, Parses c (l :: (row ++ rest)) ((Grammar.upTo depth).atom .build) like rest) :
    Operand c depth (l :: row) like := by
  intro least rest us V hfinal
  refine Parses.position fun pos => Parses.kind ?_
  rw [List.cons_append, headKind_cons, hunary]
  refine Parses.ifFalse hmatch ?_
  exact (h rest).bind fun left hleft => hfinal pos left hleft

/-- A single token. -/
theorem Operand.token {form : String → ExprForm} (hl : Grammar.tokenForm? l.kind = some form)
    (hlike : ∀ pos, like ⟨pos, form l.text⟩) : Operand c depth [l] like := by
  have hfacts : UnaryOp.ofKind? l.kind = none ∧ l.kind ≠ Keyword.matchKw ∧
      l.kind ≠ Symbol.lParen := by
    unfold Grammar.tokenForm? at hl
    split at hl
    case h_11 => exact absurd hl nofun
    all_goals
      next hk =>
        rw [hk]
        exact ⟨rfl, nofun, nofun⟩
  obtain ⟨hunary, hmatch, hparen⟩ := hfacts
  refine Operand.ofAtom hunary hmatch fun rest => ?_
  refine Parses.check
    (Parses.ifFalse (fun h => hparen (of_decide_eq_true h)) (Parses.position fun pos => ?_))
  have hform : Parses c (l :: rest) ((Grammar.upTo depth).atomForm .build)
      (fun f : Yield .build ExprForm => f = form l.text) rest := by
    refine Parses.kind ?_
    rw [headKind_cons]
    split
    case h_7 =>
      rw [hl]
      exact Parses.advance fun t _ htext => .pure (congrArg form htext)
    all_goals
      next hk =>
        rw [hk] at hl
        exact absurd hl nofun
  refine hform.bind fun f hf => .pure ?_
  subst hf
  exact hlike pos

/-- A name behind the mark of the root. -/
theorem Operand.rootName {name : String} (hlike : ∀ pos, like ⟨pos, .identifier name true⟩) :
    Operand c depth [.mark .colonColon, .name name] like := by
  refine Operand.ofAtom rfl nofun fun rest => ?_
  refine Parses.check (Parses.ifFalse Bool.false_ne_true (Parses.position fun pos => ?_))
  have hform : Parses c (.mark .colonColon :: .name name :: rest)
      ((Grammar.upTo depth).atomForm .build)
      (fun f : Yield .build ExprForm => f = .identifier name true) rest :=
    Parses.kind (Parses.drop (Parses.expectIdentifier (.pure rfl)))
  refine hform.bind fun f hf => .pure ?_
  subst hf
  exact hlike pos

/-- An expression in parentheses. -/
theorem Operand.parens {ends : List Lexeme → Prop} (h : Whole c depth row like Level.chain ends)
    (hends : ∀ rest, ends (.mark .rParen :: rest))
    (hlike : ∀ pos e, like e → like { e with pos }) :
    Operand c (depth + 1) (inParens row) like := by
  have hatom (rest : List Lexeme) : Parses c (.mark .lParen :: (row ++ [.mark .rParen] ++ rest))
      ((Grammar.upTo (depth + 1)).atom .build) like rest := by
    refine Parses.check (Parses.ifTrue rfl (Parses.position fun pos => Parses.drop ?_))
    rw [List.append_assoc]
    refine (h (hends rest)).bind fun e he => Parses.mark rfl (.pure ?_)
    exact hlike pos e he
  exact Operand.ofAtom rfl nofun hatom

/-! ## Behind operands -/

section Binary

variable {op : BinaryOp} {left right : List Lexeme} {likeLeft likeRight : Expr → Prop}

theorem BinaryOp.symbol_eq_lt (h : (Lexeme.mark op.symbol).kind = Symbol.lt) : op = .lt := by
  cases op with
  | lt => rfl
  | _ => exact absurd h nofun

/-- A binary operator and its operands. Behind an angle no call follows. -/
theorem Spine.binary (hleft : Stands c (depth + 1) left likeLeft op.leftLevel)
    (hright : Whole c depth right likeRight op.rightLevel (Stops op.rightLevel))
    (hlike : ∀ pos l r, likeLeft l → likeRight r → like ⟨pos, .binary op l r⟩) :
    Spine c (depth + 1) (left ++ .mark op.symbol :: right) like op.level fun rest =>
      Stops (Level.behind op.level) rest ∧ (op = .lt → noCall 0 (right ++ rest)) := by
  have hangle (h : (Lexeme.mark op.symbol).kind = Symbol.lt) : op.level ≠ Level.access := by
    obtain rfl := BinaryOp.symbol_eq_lt h
    decide
  let stop (rest : List Lexeme) : Prop :=
    Stops (Level.behind op.level) rest ∧ (op = .lt → noCall 0 (right ++ rest))
  have hform (rest : List Lexeme) (l : Yield .build Expr) (hrest : stop rest) (hl : likeLeft l) :
      Parses c (.mark op.symbol :: (right ++ rest))
        ((Grammar.upTo (depth + 1)).continuation .build l (.binary op))
        (fun form => ∃ l r, likeLeft l ∧ likeRight r ∧ form = ExprForm.binary op l r) rest := by
    have hstops : Stops op.rightLevel rest := op.rightLevel_eq ▸ hrest.1
    exact Parses.drop ((hright hstops).bind fun r hr => .pure ⟨l, r, hl, hr, rfl⟩)
  refine hleft.goOn (.binary op) (Continuation.ofKind?_binary op) op.level_le_leftLevel nofun
    (Level.lt_behind_leftLevel op)
    (fun h => ⟨hangle h, fun rest hrest => hrest.2 (BinaryOp.symbol_eq_lt h)⟩) hform ?_
  rintro pos form ⟨l, r, hl, hr, rfl⟩
  exact hlike pos l r hl hr

/-- A binary operator that is no angle stands at its own level. -/
theorem Stands.binary (op : BinaryOp) (hleft : Stands c (depth + 1) left likeLeft op.leftLevel)
    (hright : Whole c depth right likeRight op.rightLevel (Stops op.rightLevel)) (hop : op ≠ .lt)
    (hlike : ∀ pos l r, likeLeft l → likeRight r → like ⟨pos, .binary op l r⟩) :
    Stands c (depth + 1) (left ++ .mark op.symbol :: right) like op.level :=
  .inr ⟨op.level, Nat.le_refl _, fun _ _ _ _ hleast hends hfinal =>
    Spine.binary hleft hright hlike hleast ⟨hends, fun h => absurd h hop⟩ hfinal⟩

end Binary

/-- `++` or `--` behind its operand. -/
theorem Stands.count {op : UnaryOp} {likeOperand : Expr → Prop}
    (h : Stands c (depth + 1) row likeOperand Level.access)
    (hop : op = .increment ∨ op = .decrement)
    (hlike : ∀ pos e, likeOperand e → like ⟨pos, .unary op .behind e⟩) :
    Stands c (depth + 1) (row ++ [op.lexeme]) like Level.access := by
  have hkind : Continuation.ofKind? op.lexeme.kind = some (.count op) := by
    rcases hop with rfl | rfl <;> rfl
  have hlt : op.lexeme.kind ≠ Symbol.lt := by rcases hop with rfl | rfl <;> exact nofun
  have hform (rest : List Lexeme) (e : Yield .build Expr)
      (_ : Stops (Level.behind Level.access) rest) (he : likeOperand e) :
      Parses c (op.lexeme :: ([] ++ rest))
        ((Grammar.upTo (depth + 1)).continuation .build e (.count op))
        (fun form => ∃ e, likeOperand e ∧ form = ExprForm.unary op .behind e) rest :=
    Parses.drop (.pure ⟨e, he, rfl⟩)
  have hspine : Spine c (depth + 1) (row ++ [op.lexeme]) like (Continuation.count op).level
      (Stops (Level.behind Level.access)) := by
    refine h.goOn (.count op) hkind (Nat.le_refl _) nofun (Nat.lt_succ_self _)
      (fun h => absurd h hlt) hform ?_
    rintro pos form ⟨e, he, rfl⟩
    exact hlike pos e he
  exact .inr ⟨Level.access, Nat.le_refl _, hspine⟩

/-- An index behind its target. -/
theorem Stands.index {inside : List Lexeme} {likeTarget likeInside : Expr → Prop}
    (h : Stands c (depth + 1) row likeTarget Level.access)
    (hinside : Whole c depth inside likeInside Level.chain (Stops Level.chain))
    (hlike : ∀ pos e i, likeTarget e → likeInside i → like ⟨pos, .index e i⟩) :
    Stands c (depth + 1) (row ++ inBrackets inside) like Level.access := by
  have hform (rest : List Lexeme) (e : Yield .build Expr)
      (_ : Stops (Level.behind Level.access) rest) (he : likeTarget e) :
      Parses c (.mark .lBracket :: (inside ++ [.mark .rBracket] ++ rest))
        ((Grammar.upTo (depth + 1)).continuation .build e .index)
        (fun form => ∃ e i, likeTarget e ∧ likeInside i ∧ form = ExprForm.index e i) rest := by
    rw [List.append_assoc]
    refine Parses.drop ((hinside (.of_none rfl _)).bind fun i hi => Parses.mark rfl ?_)
    exact .pure ⟨e, i, he, hi, rfl⟩
  have hspine : Spine c (depth + 1) (row ++ inBrackets inside) like Continuation.index.level
      (Stops (Level.behind Level.access)) := by
    refine h.goOn .index rfl (Nat.le_refl _) nofun (Nat.lt_succ_self _) nofun hform ?_
    rintro pos form ⟨e, i, he, hi, rfl⟩
    exact hlike pos e i he hi
  exact .inr ⟨Level.access, Nat.le_refl _, hspine⟩

/-! ## Calls -/

/-- Reading a row between the parentheses of a call comes to arguments of which `likeArgs` holds. -/
def Args (c : Setting) (depth : Nat) (row : List Lexeme) (likeArgs : List Expr → Prop) : Prop :=
  ∀ rest, Parses c (row ++ .mark .rParen :: rest) ((Grammar.upTo depth).callArgs .build) likeArgs
    rest

theorem Args.none {likeArgs : List Expr → Prop} (hlike : likeArgs []) :
    Args c depth [] likeArgs :=
  fun _ => Parses.eat rfl (.pure hlike)

/-- The arguments are the operands of a chain of commas. -/
theorem Args.chain {likeArgs : List Expr → Prop}
    (hhead : ∀ rest, headKind (row ++ rest) ≠ Symbol.rParen)
    (h : Whole c depth row (fun e => likeArgs e.commaList) Level.chain (Stops Level.chain)) :
    Args c (depth + 1) row likeArgs := by
  refine fun rest => Parses.eatNot (hhead _) ?_
  exact (h (.of_none rfl _)).bind fun e he => Parses.mark rfl (.pure he)

/-- Further arguments, each behind a comma, go on behind the ones before them. -/
theorem Stands.commas {wraps : Wrapping} {taken args : List Expr}
    (h : Stands c (depth + 1) row
      (fun e => e.commaList.map Expr.unplaced = taken.map Expr.unplaced) Level.chain)
    (hargs : ∀ a ∈ args, a.isComma = false ∧ Whole c depth (a.part wraps Level.single)
      a.Alike Level.single (Stops Level.single)) :
    Stands c (depth + 1) (row ++ args.flatMap fun a => .mark .comma :: a.part wraps Level.single)
      (fun e => e.commaList.map Expr.unplaced = (taken ++ args).map Expr.unplaced) Level.chain := by
  induction args generalizing row taken with
  | nil => simpa using h
  | cons a args ih =>
    obtain ⟨hcomma, ha⟩ := hargs a List.mem_cons_self
    have htaken : Stands c (depth + 1) (row ++ .mark .comma :: a.part wraps Level.single)
        (fun e => e.commaList.map Expr.unplaced = (taken ++ [a]).map Expr.unplaced)
        Level.chain := by
      refine Stands.binary .comma h ha nofun fun pos l r hl hr => ?_
      have hsingle : r.isComma = false := by rw [hr.isComma_eq, hcomma]
      rw [Expr.commaList_comma, Expr.commaList_single hsingle, List.map_append, hl, List.map_append,
        List.map_singleton, List.map_singleton, hr]
    have hall := ih htaken fun b hb => hargs b (List.mem_cons_of_mem a hb)
    have hlist : taken ++ a :: args = taken ++ [a] ++ args := List.append_cons taken a args
    rw [List.append_assoc] at hall
    rw [List.flatMap_cons, hlist]
    exact hall

/-- A call behind its callee. -/
theorem Stands.call {args : List Lexeme} {likeCallee : Expr → Prop} {likeArgs : List Expr → Prop}
    (h : Stands c depth row likeCallee Level.access) (hargs : Args c depth args likeArgs)
    (hlike : ∀ pos e es, likeCallee e → likeArgs es → like ⟨pos, .call e es⟩) :
    Stands c depth (row ++ inParens args) like Level.access := by
  have hform (rest : List Lexeme) (e : Yield .build Expr)
      (_ : Stops (Level.behind Level.access) rest) (he : likeCallee e) :
      Parses c (.mark .lParen :: (args ++ [.mark .rParen] ++ rest))
        ((Grammar.upTo depth).continuation .build e .call)
        (fun form => ∃ e es, likeCallee e ∧ likeArgs es ∧ form = ExprForm.call e es) rest := by
    rw [List.append_assoc]
    exact Parses.drop ((hargs rest).bind fun es hes => .pure ⟨e, es, he, hes, rfl⟩)
  have hspine : Spine c depth (row ++ inParens args) like Continuation.call.level
      (Stops (Level.behind Level.access)) := by
    refine h.goOn .call rfl (Nat.le_refl _) nofun (Nat.lt_succ_self _) nofun hform ?_
    rintro pos form ⟨e, es, he, hes, rfl⟩
    exact hlike pos e es he hes
  exact .inr ⟨Level.access, Nat.le_refl _, hspine⟩

/-! ## Forms that nothing goes on behind -/

/-- An operator before its operand, which goes as far as it can. -/
theorem Whole.before {op : UnaryOp} {likeOperand : Expr → Prop}
    (h : Whole c depth row likeOperand Level.operand (Stops Level.operand))
    (hleast : least ≤ Level.operand)
    (hlike : ∀ pos e, likeOperand e → like ⟨pos, .unary op .before e⟩) :
    Whole c (depth + 1) (op.lexeme :: row) like least (Stops least) := by
  intro rest hrest
  have hform : Parses c (op.lexeme :: (row ++ rest))
      ((Grammar.upTo (depth + 1)).unary .build op)
      (fun form : Yield .build ExprForm => ∃ e, likeOperand e ∧ form = .unary op .before e) rest :=
    Parses.drop ((h (hrest.mono hleast)).bind fun e he => .pure ⟨e, he, rfl⟩)
  have hkind : UnaryOp.ofKind? op.lexeme.kind = some op := UnaryOp.ofKind?_token op
  refine Parses.position fun pos => Parses.kind ?_
  rw [List.cons_append, headKind_cons, hkind]
  refine hform.bind fun form hform => (Parses.descendNothing hrest _).mono fun whole hwhole => ?_
  obtain ⟨e, he, rfl⟩ := hform
  subst hwhole
  exact hlike pos e he

/-- A condition and both branches. -/
theorem Whole.ternary {cond yes no : List Lexeme} {likeCond likeYes likeNo : Expr → Prop}
    (hcond : Stands c (depth + 1) cond likeCond Level.item)
    (hyes : Whole c depth yes likeYes Level.single (Stops Level.single))
    (hno : Whole c depth no likeNo Level.chain (Stops Level.chain))
    (hlike : ∀ pos e y n, likeCond e → likeYes y → likeNo n → like ⟨pos, .ternary e y n⟩) :
    Whole c (depth + 1) (cond ++ .mark .question :: yes ++ .mark .colon :: no) like Level.chain
      (Stops Level.chain) := by
  intro rest hrest
  obtain ⟨level, hlevel, hspine⟩ := hcond.spine (by decide)
  rw [List.append_assoc, List.append_assoc, List.cons_append]
  have hform (e : Yield .build Expr) (he : likeCond e) :
      Parses c (.mark .question :: (yes ++ (.mark .colon :: no ++ rest)))
        ((Grammar.upTo (depth + 1)).ternary .build e)
        (fun form => ∃ e y n, likeCond e ∧ likeYes y ∧ likeNo n ∧ form = ExprForm.ternary e y n)
        rest := by
    refine Parses.drop ((hyes (.of_none rfl _)).bind fun y hy => Parses.mark rfl ?_)
    exact (hno hrest).bind fun n hn => .pure ⟨e, y, n, he, hy, hn, rfl⟩
  have hstops {n : Nat} (hn : Level.item ≤ n) :
      Stops n (.mark .question :: (yes ++ (.mark .colon :: no ++ rest))) := by
    refine ⟨fun k hk => ?_, nofun⟩
    obtain rfl : Continuation.ternary = k := Option.some.inj hk
    exact Nat.lt_of_lt_of_le (by decide) hn
  refine hspine (Nat.le_trans (by decide) hlevel)
    (hstops (by decide)) fun pos steps e he hsteps => ?_
  obtain ⟨steps, rfl⟩ : ∃ m, steps = m + 1 := ⟨steps - 1, by omega⟩
  refine (Parses.climbNothing (hstops hlevel) steps).bind fun e' he' => ?_
  subst he'
  refine Parses.descendTo (hstops (Nat.le_refl _)) (by decide) (by decide : 0 < Level.single)
    (Nat.le_sub_one_of_lt hlevel) fun n hn => ?_
  obtain ⟨n, rfl⟩ : ∃ m, n = m + 1 := ⟨n - 1, by omega⟩
  refine Parses.climbTernary rfl (Nat.le_refl _) n ((hform _ he).bind fun form hform => ?_)
  refine (Parses.descendNothing hrest _).mono fun whole hwhole => ?_
  obtain ⟨e, y, n, he, hy, hn, rfl⟩ := hform
  subst hwhole
  exact hlike pos e y n he hy hn

end Rules

end ScriptFront
