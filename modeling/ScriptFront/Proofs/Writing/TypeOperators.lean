import ScriptFront.Proofs.Lockstep.Rows
import ScriptFront.Proofs.Unspaced.Types
import ScriptFront.Proofs.Writing.Operands

/-!
# Casts and type tests

`as` and `is` bind more tightly than all operators whose operands are read by level. But the type
behind them is read by the grammar of types, and that gives no token back: what stands behind the
type is an operator only if the type does not go on with it.

- `Expr.parseAtom`, `Expr.parseBranches`: what a text is when it is read as an atom, or as two of
  them with a colon between them.
- `Parses.atom`: an atom is read alike wherever it is the end of a text.
- `Spine.typed`: a type behind an operand is taken at the level of casts.
- `Expr.parse_typed`: what stands behind the type takes the cast or test as its left operand.
-/

namespace ScriptFront

open ScriptFront.Parser

/-! ## Texts that are atoms -/

/-- Read a text that is one atom. -/
def Expr.parseAtom (text : String) : Except SyntaxError Expr :=
  let reading : Parse Buffer Expr := do
    let atom ← (← Parser.grammar).atom .build
    Parser.expectEof
    return atom
  Parser.run reading (Buffer.ofString text)

/-- Read a text that is two atoms with a colon between them. -/
def Expr.parseBranches (text : String) : Except SyntaxError (Expr × Expr) :=
  let reading : Parse Buffer (Expr × Expr) := do
    let g ← Parser.grammar
    let consequence ← g.atom .build
    Parser.mark Symbol.colon
    let alternative ← g.atom .build
    Parser.expectEof
    return (consequence, alternative)
  Parser.run reading (Buffer.ofString text)

section Alone

variable {α β : Type} {x : Parse Buffer α} {f : α → Parse Buffer β} {b : β} {p p' : Parser Buffer}

/-- What is read of a text is read from its first token on, by a grammar that nests deep enough. -/
theorem Parser.of_run_grammar {row : List Lexeme} (hrow : Legible row)
    {f : Grammar Buffer → Parse Buffer α} {a : α}
    (h : Parser.run (Parser.grammar >>= f) (Buffer.ofString (writeLexemes row)) = .ok a) :
    ∃ p p', Reads (.ofText (writeLexemes row) anonymousName) row p ∧
      3 * (rowSize row + 1) ≤ p.bound ∧ (f (Grammar.upTo p.bound)).run p = (.ok a, p') := by
  obtain ⟨p, hp, hreads⟩ := ofSource_writeLexemes hrow anonymousName defaultTabWidth
  have hgrammar : (Parser.grammar : Parse Buffer (Grammar Buffer)).run p =
      (.ok (Grammar.upTo p.bound), p) := rfl
  have hbound := hreads.rowSize_bound
  refine ⟨p, _, hreads, by omega, Prod.ext ?_ rfl⟩
  rw [Parser.run, hp] at h
  rw [← run_bind_ok hgrammar]
  exact h

/-- An atom begins neither with an operator nor with `match`. -/
theorem Parser.kind_of_run_atom {depth : Nat} {e : Yield .build Expr}
    (h : ((Grammar.upTo depth).atom .build).run p = (.ok e, p')) :
    UnaryOp.ofKind? p.current.kind = none ∧ p.current.kind ≠ Keyword.matchKw := by
  obtain ⟨lexer, ⟨kind, text, place⟩, start, inTrait⟩ := p
  have hfails (k : TokenKind) (hk : (∃ op : UnaryOp, k = op.token) ∨ k = Keyword.matchKw) :
      kind ≠ k := by
    rintro rfl
    rcases hk with ⟨op, rfl⟩ | rfl
    · cases op <;> cases h
    · cases h
  refine ⟨?_, hfails _ (.inr rfl)⟩
  cases hop : UnaryOp.ofKind? kind with
  | none => rfl
  | some op =>
    have htoken := List.find?_some hop
    exact absurd (of_decide_eq_true htoken).symm (hfails _ (.inl ⟨op, rfl⟩))

end Alone

/-! ## Atoms are expressions -/

section Atoms

variable {P Q : Parser Buffer → Prop} {depth level : Nat} {k : TokenKind}

/-- In front of a token that goes on with no operand, no level is climbed at. -/
theorem Leads.descendNothing (hk : ∀ p, P p → p.current.kind = k)
    (hnone : Continuation.ofKind? k = none) (pos : Position) (top : Nat)
    (left : Yield .build Expr) :
    Leads P ((Grammar.upTo depth).descend .build pos level top left) (fun whole => whole = left)
      P := by
  have hclimb (at' steps : Nat) :
      Leads P ((Grammar.upTo depth).climb .build pos at' (steps + 1) left)
        (fun whole => whole = left) P := by
    have hangle : ¬(k = Symbol.lt && at' = Level.access) = true := by
      intro h
      simp only [Bool.and_eq_true, decide_eq_true_eq] at h
      rw [h.1] at hnone
      exact absurd hnone (by decide)
    refine .kind hk (.ifFalse hangle ?_)
    rw [hnone]
    exact .pure rfl
  induction top with
  | zero => exact .pure rfl
  | succ top ih =>
    rw [Grammar.descend]
    split
    · exact .pure rfl
    · refine .listBound (n := 1) (fun p _ => ?_) fun steps hsteps => ?_
      · unfold Parser.bound
        omega
      · obtain ⟨steps, rfl⟩ : ∃ n, steps = n + 1 := ⟨steps - 1, by omega⟩
        exact (hclimb (top + 1) steps).bind fun whole hwhole => hwhole ▸ ih

/-- An atom that nothing goes on behind is an expression at every level. -/
theorem Leads.exprOfAtom {like : Expr → Prop} {k' : TokenKind}
    (hk : ∀ p, P p → p.current.kind = k) (hunary : UnaryOp.ofKind? k = none)
    (hmatch : k ≠ Keyword.matchKw)
    (hatom : Leads P ((Grammar.upTo depth).atom .build) like Q)
    (hk' : ∀ p, Q p → p.current.kind = k') (hnone : Continuation.ofKind? k' = none) :
    Leads P ((Grammar.upTo depth).exprStep .build level) like Q := by
  refine .position fun pos => .kind hk ?_
  rw [hunary]
  refine .ifFalse hmatch (hatom.bind fun left hleft => ?_)
  exact (Leads.descendNothing hk' hnone pos _ left).mono fun whole hwhole => hwhole ▸ hleft

theorem Lockstep.atom (L : Lockstep) {n depth' : Nat} (h : 3 * n ≤ depth) (h' : 3 * n ≤ depth') :
    L.Below n 1 (Yield.Like Expr.unplaced) ((Grammar.upTo depth).atom .build)
      ((Grammar.upTo depth').atom .build) := by
  cases n with
  | zero => exact .zero
  | succ n => exact (L.upTo h h').less.atom (L.upTo h h').types

/-- Where an atom was read, its expression is read beside it. -/
theorem Leads.atomBeside (level : Nat) {c c' : Setting} {n depth' : Nat} {p p' : Parser Buffer}
    {e : Expr} (hname : c.name = c'.name) (hdepth : 3 * n ≤ depth) (hdepth' : 3 * n ≤ depth')
    (hrun : ((Grammar.upTo depth).atom .build).run p = (.ok e, p'))
    (hnone : Continuation.ofKind? p'.current.kind = none) :
    Leads (Abreast c c' n p) ((Grammar.upTo depth').exprStep .build level) e.Alike
      (Abreast c c' n p') := by
  obtain ⟨hunary, hmatch⟩ := Parser.kind_of_run_atom hrun
  have hatom := Leads.beside hname (Lockstep.atom _ hdepth hdepth') hrun
  refine .exprOfAtom (fun q hq => hq.kind_eq) hunary hmatch (hatom.mono fun e' he => ?_)
    (fun q hq => hq.kind_eq) hnone
  exact he.symm

end Atoms

/-! ## Atoms at the end of a text -/

section Ends

variable {c : Setting} {row : List Lexeme} {depth : Nat}

/-- What is an atom alone is read as this atom at the end of any text. -/
theorem Parses.atom (hname : c.name = anonymousName) (hinTrait : c.inTrait = false)
    (hrow : Legible row) {e : Expr} (h : Expr.parseAtom (writeLexemes row) = .ok e)
    (hdepth : 3 * (rowSize row + 1) ≤ depth) (level : Nat) :
    Parses c row ((Grammar.upTo depth).exprStep .build level) e.Alike [] := by
  obtain ⟨p, p', hreads, halone, hrun⟩ := Parser.of_run_grammar hrow h
  obtain ⟨e', q, hatom, hend⟩ := of_run_bind hrun
  obtain ⟨_, r, heof, hpure⟩ := of_run_bind hend
  obtain rfl : e' = e := by
    cases hpure
    rfl
  have hkind := kind_of_run_mark heof
  have hnone : Continuation.ofKind? q.current.kind = none := by
    rw [hkind]
    rfl
  have hnames : (Setting.ofText (writeLexemes row) anonymousName).name = c.name := hname.symm
  have hbeside := Leads.atomBeside level hnames halone hdepth hatom hnone
  intro s hs
  obtain ⟨a, s', hrun', ha, hs'⟩ := hbeside (.of_reads hreads hs hinTrait.symm)
  exact ⟨a, s', hrun', ha, hs'.atEnd hkind⟩

/-- What are two atoms with a colon between them are the branches of `?:` at the end of any text. -/
theorem Parses.branches (hname : c.name = anonymousName) (hinTrait : c.inTrait = false)
    (hrow : Legible row) {y z : Expr} (h : Expr.parseBranches (writeLexemes row) = .ok (y, z))
    (hdepth : 3 * (rowSize row + 1) ≤ depth) (condition : Yield .build Expr) :
    Parses c (.mark .question :: row) ((Grammar.upTo (depth + 1)).ternary .build condition)
      (fun form => ∃ y' z', (y.Alike y' ∧ z.Alike z') ∧ form = ExprForm.ternary condition y' z')
      [] := by
  obtain ⟨p, p', hreads, halone, hrun⟩ := Parser.of_run_grammar hrow h
  obtain ⟨y₁, q, hyes, hrest⟩ := of_run_bind hrun
  obtain ⟨_, q₁, hcolon, hrest⟩ := of_run_bind hrest
  obtain ⟨z₁, q₂, hno, hend⟩ := of_run_bind hrest
  obtain ⟨_, r, heof, hpure⟩ := of_run_bind hend
  obtain ⟨rfl, rfl⟩ : y₁ = y ∧ z₁ = z := by
    cases hpure
    exact ⟨rfl, rfl⟩
  have hkind := kind_of_run_mark heof
  have hnone : Continuation.ofKind? q.current.kind = none := by
    rw [kind_of_run_mark hcolon]
    rfl
  have hnone' : Continuation.ofKind? q₂.current.kind = none := by
    rw [hkind]
    rfl
  have hnames : (Setting.ofText (writeLexemes row) anonymousName).name = c.name := hname.symm
  have hyes' := Leads.atomBeside Level.single hnames halone hdepth hyes hnone
  have hno' := Leads.atomBeside Level.chain hnames halone hdepth hno hnone'
  refine Parses.drop fun s hs => ?_
  obtain ⟨y', s₁, hrun₁, hy, hs₁⟩ := hyes' (.of_reads hreads hs hinTrait.symm)
  obtain ⟨_, s₂, hrun₂, -, hs₂⟩ := Leads.beside hnames (.mark .colon) hcolon hs₁
  obtain ⟨z', s₃, hrun₃, hz, hs₃⟩ := hno' hs₂
  refine ⟨_, s₃, ?_, ⟨y', z', ⟨hy, hz⟩, rfl⟩, hs₃.atEnd hkind⟩
  exact (run_bind_ok hrun₁).trans ((run_bind_ok hrun₂).trans (run_bind_ok hrun₃))

end Ends

/-! ## Types behind operands -/

/-- The operators behind which a type stands. -/
inductive TypeOp where
  /-- `as T` -/
  | cast
  /-- `is T` -/
  | typeTest

namespace TypeOp

def keyword : TypeOp → Keyword
  | .cast => .asKw
  | .typeTest => .isKw

def form : TypeOp → Expr → TypeExpr → ExprForm
  | .cast => .cast
  | .typeTest => .typeTest

def continuation : TypeOp → Continuation
  | .cast => .cast
  | .typeTest => .typeTest

theorem ofKind?_keyword (o : TypeOp) : Continuation.ofKind? o.keyword = some o.continuation := by
  cases o <;> rfl

theorem level_continuation (o : TypeOp) : o.continuation.level = Level.operand := by
  cases o <;> rfl

theorem continuation_ne_ternary (o : TypeOp) : o.continuation ≠ .ternary := by cases o <;> nofun

theorem unplaced_form (o : TypeOp) (e : Expr) (t : TypeExpr) :
    (o.form e t).unplaced = o.form e.unplaced t.unplaced := by cases o <;> rfl

end TypeOp

section Behind

variable {c : Setting} {row rest us : List Lexeme} {depth : Nat} {like : Expr → Prop}
  {ends : List Lexeme → Prop}

/-- The type behind an operand goes as far as it can. -/
theorem Spine.typed (o : TypeOp) {operand : List Lexeme} {likeOperand : Expr → Prop} {t : TypeExpr}
    (h : Operand c (depth + 1) operand likeOperand) (ht : t.SpelledBy c.inTrait row)
    (hdepth : row.length ≤ depth)
    (hlike : ∀ pos e t', likeOperand e → t.Alike t' → like ⟨pos, o.form e t'⟩) :
    Spine c (depth + 1) (operand ++ .word o.keyword :: row) like Level.operand
      (EndsAt t.GoesOn) := by
  have hform (rest : List Lexeme) (e : Yield .build Expr) (hrest : EndsAt t.GoesOn rest)
      (he : likeOperand e) : Parses c (.word o.keyword :: (row ++ rest))
        ((Grammar.upTo (depth + 1)).continuation .build e o.continuation)
        (fun form => ∃ e t', likeOperand e ∧ t.Alike t' ∧ form = o.form e t') rest := by
    have htype : Parses c (row ++ rest) ((Grammar.upTo (depth + 1)).type .build) t.Alike rest :=
      (ht.read c.feed).1 depth hdepth rest hrest
    cases o with
    | cast => exact Parses.drop (htype.bind fun t' ht' => .pure ⟨e, t', he, ht', rfl⟩)
    | typeTest => exact Parses.drop (htype.bind fun t' ht' => .pure ⟨e, t', he, ht', rfl⟩)
  have hangle : (Lexeme.word o.keyword).kind ≠ Symbol.lt := nofun
  rw [← o.level_continuation]
  refine h.spine.goOn o.ofKind?_keyword o.continuation.level_le_path o.continuation_ne_ternary
    (fun _ _ => trivial) (fun h => absurd h hangle) hform ?_
  rintro pos _ ⟨e, t', he, ht', rfl⟩
  exact hlike pos e t' he ht'

/-- Behind a cast or test, reading goes on at the level of what follows. An angle there opens no
type arguments of a call. -/
theorem Spine.goDown (h : Spine c depth row like Level.operand ends) (hends : ends rest)
    {goal : Nat} (hgoal : 0 < goal) (hless : goal < Level.operand)
    (hrest : ∀ k, Continuation.ofKind? (headKind rest) = some k → k.level = goal)
    {V : Yield .build Expr → Prop}
    (hgo : ∀ pos steps left, like left → rest.length < steps → Parses c rest
      ((Grammar.upTo depth).climb .build pos goal steps left >>=
        (Grammar.upTo depth).descend .build pos Level.chain (goal - 1)) V us) :
    Parses c (row ++ rest) ((Grammar.upTo depth).exprStep .build Level.chain) V us := by
  refine h (by decide) hends fun pos steps left hleft hsteps => ?_
  have hpast (past n : Nat) (hpast : goal < past) (hle : past ≤ Level.operand) : Parses c rest
      ((Grammar.upTo depth).climb .build pos past (n + 1) left)
        (fun whole => whole = left) rest := by
    refine .climbBelow (fun k hk => (hrest k hk).symm ▸ hpast) (fun hcall => ?_) n
    exact absurd (hcall.2 ▸ hle) (by decide)
  obtain ⟨steps, rfl⟩ : ∃ n, steps = n + 1 := ⟨steps - 1, by omega⟩
  refine (hpast Level.operand steps hless (Nat.le_refl _)).bind fun whole hwhole => ?_
  subst hwhole
  refine .descendPast hgoal hgoal (Nat.le_sub_one_of_lt hless) (fun past n hpast' hle => ?_)
    fun n hn => hgo pos n whole hleft hn
  exact hpast past n hpast' (Nat.le_trans hle (Nat.sub_le _ _))

/-- A binary operator behind a cast or test. -/
theorem Spine.binaryBehind (h : Spine c (depth + 1) row like Level.operand ends) {op : BinaryOp}
    (hop : op.level < Level.operand) (hends : ends (.mark op.symbol :: us))
    {likeRight : Expr → Prop}
    (hright : Parses c us ((Grammar.upTo depth).exprStep .build op.rightLevel) likeRight []) :
    Parses c (row ++ .mark op.symbol :: us) ((Grammar.upTo (depth + 1)).exprStep .build Level.chain)
      (fun whole => ∃ pos l r, like l ∧ likeRight r ∧ whole = ⟨pos, .binary op l r⟩) [] := by
  have hk : Continuation.ofKind? (headKind (.mark op.symbol :: us)) = some (.binary op) :=
    Continuation.ofKind?_binary op
  have hlevel (k : Continuation)
      (h : Continuation.ofKind? (headKind (.mark op.symbol :: us)) = some k) :
      k.level = op.level := by
    rw [hk] at h
    cases h
    rfl
  refine h.goDown hends op.level_pos hop hlevel fun pos steps left hleft hsteps => ?_
  obtain ⟨steps, rfl⟩ : ∃ n, steps = n + 2 := ⟨steps - 2, by rw [List.length_cons] at hsteps; omega⟩
  have hangle : op.level ≠ Level.access := Nat.ne_of_lt (Nat.lt_trans hop (by decide))
  have hform : Parses c (.mark op.symbol :: us)
      ((Grammar.upTo (depth + 1)).continuation .build left (.binary op))
      (fun form => ∃ l r, like l ∧ likeRight r ∧ form = ExprForm.binary op l r) [] :=
    Parses.drop (hright.bind fun r hr => .pure ⟨left, r, hleft, hr, rfl⟩)
  have hstops (level : Nat) : Stops level [] := .of_none rfl level
  refine Parses.climbOver hk (Nat.le_refl _) (fun _ => hangle)
    nofun _ (hform.bind fun form hform => ?_)
  refine (Parses.climbNothing (hstops _) steps).bind fun whole hwhole => ?_
  refine (Parses.descendNothing (hstops _) _).mono fun whole' hwhole' => ?_
  obtain ⟨l, r, hl, hr, rfl⟩ := hform
  subst hwhole hwhole'
  exact ⟨pos, l, r, hl, hr, rfl⟩

/-- The branches of `?:` behind a cast or test. -/
theorem Spine.ternaryBehind (h : Spine c (depth + 1) row like Level.operand ends)
    (hends : ends (.mark .question :: us)) {likeBranches : Expr → Expr → Prop}
    (hbranches : ∀ left, Parses c (.mark .question :: us)
      ((Grammar.upTo (depth + 1)).ternary .build left)
      (fun form => ∃ y z, likeBranches y z ∧ form = ExprForm.ternary left y z) []) :
    Parses c (row ++ .mark .question :: us) ((Grammar.upTo (depth + 1)).exprStep .build Level.chain)
      (fun whole => ∃ pos l y z, like l ∧ likeBranches y z ∧ whole = ⟨pos, .ternary l y z⟩) [] := by
  have hlevel (k : Continuation)
      (h : Continuation.ofKind? (headKind (.mark .question :: us)) = some k) :
      k.level = Level.single := by
    obtain rfl : Continuation.ternary = k := Option.some.inj h
    rfl
  have hgoal : 0 < Level.single := by decide
  refine h.goDown hends hgoal (by decide) hlevel fun pos steps left hleft hsteps => ?_
  obtain ⟨steps, rfl⟩ : ∃ n, steps = n + 1 := ⟨steps - 1, by omega⟩
  refine Parses.climbTernary rfl (Nat.le_refl _) steps ((hbranches left).bind fun form hform => ?_)
  refine (Parses.descendNothing (.of_none rfl _) _).mono fun whole hwhole => ?_
  obtain ⟨y, z, hyz, rfl⟩ := hform
  subst hwhole
  exact ⟨pos, left, y, z, hleft, hyz, rfl⟩

end Behind

/-! ## From the start of a text -/

/-- The last part of a type is a name that type arguments could stand behind. -/
def TypeExpr.EndsInName (t : TypeExpr) : Prop :=
  t.nullable = false ∧ ∃ path last, t.form = .named path ∧ path.segments.getLast? = some last ∧
    last.generics = []

/-- Of the operators that bind less tightly than casts, a type goes on only with an angle. -/
theorem TypeExpr.EndsInName.of_goesOn {t : TypeExpr} {op : BinaryOp}
    (hop : op.level < Level.operand) (h : t.GoesOn op.symbol) : op = .lt ∧ t.EndsInName := by
  have hquestion : (op.symbol : TokenKind) ≠ Symbol.question := by cases op <;> nofun
  have hbracket : (op.symbol : TokenKind) ≠ Symbol.lBracket := by cases op <;> nofun
  have hscope : (op.symbol : TokenKind) ≠ Symbol.colonColon := by
    cases op with
    | scope => exact absurd hop (by decide)
    | _ => nofun
  obtain ⟨pos, nullable, form⟩ := t
  cases nullable with
  | true => exact absurd h.1 hbracket
  | false =>
    rcases h with h | h | h
    · exact absurd h hquestion
    · exact absurd h hbracket
    · cases form with
      | named path =>
        rcases h with h | ⟨last, hlast, hlt, hgenerics⟩
        · exact absurd h hscope
        · exact ⟨BinaryOp.symbol_eq_lt hlt, rfl, path, last, rfl, hlast, hgenerics⟩
      | _ => exact h.elim

theorem TypeExpr.endsAt_question {t : TypeExpr} (h : t.nullable = true) (us : List Lexeme) :
    EndsAt t.GoesOn (.mark .question :: us) := by
  intro k hk hgo
  obtain rfl : k = Symbol.question := hk
  rw [TypeExpr.GoesOn, if_pos h] at hgo
  exact absurd hgo.1 nofun

theorem TypeExpr.endsAt_binary {t : TypeExpr} {op : BinaryOp} (hop : op.level < Level.operand)
    (h : op = .lt → ¬t.EndsInName) (us : List Lexeme) :
    EndsAt t.GoesOn (.mark op.symbol :: us) := by
  by_cases hgt : op = .gt
  · subst hgt
    exact (EndsType.of_mark .gt (.inr (.inl rfl)) us).endsAt t
  · have hne : Lexeme.mark op.symbol ≠ .mark .gt := by
      cases op with
      | gt => exact absurd rfl hgt
      | _ => nofun
    intro k hk hgo
    rw [Fronts, if_neg hne] at hk
    subst hk
    obtain ⟨hlt, hends⟩ := TypeExpr.EndsInName.of_goesOn hop hgo
    exact h hlt hends

/-- A text is read as an expression where its row is, by a grammar that nests deep enough. -/
theorem Expr.parse_of_parses {row : List Lexeme} (hrow : Legible row) {V : Expr → Prop}
    (h : ∀ depth, row.length ≤ depth → 3 * (rowSize row + 1) ≤ depth →
      Parses (.ofText (writeLexemes row) anonymousName) row
        ((Grammar.upTo (depth + 1)).exprStep .build Level.chain) V []) :
    ∃ e, Expr.parse (writeLexemes row) = .ok e ∧ V e := by
  have hexpr : Parses (.ofText (writeLexemes row) anonymousName) row Parser.parseExpr V [] := by
    intro p hp
    have hlength := hp.le_bound
    have hsize := hp.rowSize_bound
    obtain ⟨depth, hdepth⟩ : ∃ n, p.bound = n + 2 := ⟨p.bound - 2, by omega⟩
    have hgrammar : (Parser.grammar : Parse Buffer (Grammar Buffer)).run p =
        (.ok (Grammar.upTo (depth + 2)), p) := hdepth ▸ rfl
    obtain ⟨e, q, hq, he, hreads⟩ := h depth (by omega) (by omega) hp
    exact ⟨e, q, (run_bind_ok hgrammar).trans hq, he, hreads⟩
  have hread := hexpr.bind fun a ha => Parses.markEnd.bind fun _ _ => .pure ha
  exact hread.run hrow anonymousName defaultTabWidth

section Texts

variable {x : String} {t : TypeExpr} {row : List Lexeme}

/-- A name, and a type behind it, at the start of a row. -/
theorem Spine.typedName (ht : t.SpelledBy false row) (o : TypeOp) {c : Setting}
    (hc : c.inTrait = false) {depth : Nat} (hdepth : row.length ≤ depth) :
    Spine c (depth + 1) (.name x :: .word o.keyword :: row)
      (Expr.Alike ⟨.start, o.form ⟨.start, .identifier x false⟩ t⟩) Level.operand
      (EndsAt t.GoesOn) := by
  have hform : Grammar.tokenForm? (Lexeme.name x).kind =
      some fun text => .identifier text false := rfl
  have hname : Operand c (depth + 1) [.name x] (Expr.Alike ⟨.start, .identifier x false⟩) :=
    .token hform fun pos => rfl
  refine Spine.typed o hname (hc ▸ ht) hdepth fun pos e t' he ht' => ?_
  rw [Expr.alike_mk, o.unplaced_form, o.unplaced_form, he, ht']

theorem Expr.parse_typed_binary (hx : IsName x) (ht : t.SpelledBy false row) (o : TypeOp)
    {op : BinaryOp} (hop : op.level < Level.operand) (hends : op = .lt → ¬t.EndsInName)
    {ys : List Lexeme} (hys : Legible ys) {y : Expr}
    (hy : Expr.parseAtom (writeLexemes ys) = .ok y) :
    (Expr.parse (writeLexemes
      (.name x :: .word o.keyword :: row ++ .mark op.symbol :: ys))).map Expr.unplaced =
        .ok (Expr.unplaced
          ⟨.start, .binary op ⟨.start, o.form ⟨.start, .identifier x false⟩ t⟩ y⟩) := by
  have hlegible : Legible (.name x :: .word o.keyword :: row ++ .mark op.symbol :: ys) := by
    simpa using ⟨Lexeme.WellFormed.name hx, ht.legible, hys⟩
  obtain ⟨e, hparse, pos, l, r, hl, hr, rfl⟩ :=
    Expr.parse_of_parses hlegible fun depth hlength hsize => by
    rw [List.length_append, List.length_cons, List.length_cons] at hlength
    rw [rowSize_append, rowSize_cons (.mark _)] at hsize
    exact (Spine.typedName ht o rfl (by omega)).binaryBehind hop
      (TypeExpr.endsAt_binary hop hends ys) (.atom rfl rfl hys hy (by omega) _)
  rw [hparse]
  exact congrArg Except.ok (congrArg (Expr.mk .start) (congr_arg₂ (ExprForm.binary op) hl hr))

theorem Expr.parse_typed_branches (hx : IsName x) (ht : t.SpelledBy false row)
    (hnullable : t.nullable = true) {branches : List Lexeme} (hbranches : Legible branches)
    {y z : Expr} (hyz : Expr.parseBranches (writeLexemes branches) = .ok (y, z)) :
    (Expr.parse (writeLexemes
      (.name x :: .word .isKw :: row ++ .mark .question :: branches))).map Expr.unplaced =
        .ok (Expr.unplaced
          ⟨.start, .ternary ⟨.start, .typeTest ⟨.start, .identifier x false⟩ t⟩ y z⟩) := by
  have hlegible : Legible (.name x :: .word .isKw :: row ++ .mark .question :: branches) := by
    simpa using ⟨Lexeme.WellFormed.name hx, ht.legible, hbranches⟩
  obtain ⟨e, hparse, pos, l, y', z', hl, hyz, rfl⟩ :=
    Expr.parse_of_parses hlegible fun depth hlength hsize => by
      rw [List.length_append, List.length_cons, List.length_cons] at hlength
      rw [rowSize_append, rowSize_cons (.mark _)] at hsize
      exact (Spine.typedName ht .typeTest rfl (by omega)).ternaryBehind
        (TypeExpr.endsAt_question hnullable branches)
        (.branches rfl rfl hbranches hyz (by omega))
  rw [hparse]
  have hform : ExprForm.unplaced (.ternary l y' z') =
      .ternary (Expr.unplaced ⟨.start, .typeTest ⟨.start, .identifier x false⟩ t⟩) y.unplaced
        z.unplaced := by
    rw [ExprForm.unplaced, hl, hyz.1, hyz.2]
    rfl
  exact congrArg Except.ok (congrArg (Expr.mk .start) hform)

/-- Casts and type tests bind more tightly than all operators whose operands are read by level. An
operator behind the type takes the cast or test as its left operand, if it is no angle behind a
name, and `?:` takes it as its condition, if the type has its own question mark. -/
theorem Expr.parse_typed {x : String} {t : TypeExpr} {row : List Lexeme} (hx : IsName x)
    (ht : t.SpelledBy false row) :
    (∀ (o : TypeOp) (op : BinaryOp) (ys : List Lexeme) (y : Expr), op.level < Level.operand →
      (op = .lt → ¬t.EndsInName) → Legible ys → Expr.parseAtom (writeLexemes ys) = .ok y →
      let typed : Expr := ⟨.start, o.form ⟨.start, .identifier x false⟩ t⟩
      let whole : Expr := ⟨.start, .binary op typed y⟩
      (Expr.parse (writeLexemes
        (.name x :: .word o.keyword :: row ++ .mark op.symbol :: ys))).map Expr.unplaced =
          .ok whole.unplaced) ∧
    ∀ (branches : List Lexeme) (y z : Expr), t.nullable = true → Legible branches →
      Expr.parseBranches (writeLexemes branches) = .ok (y, z) →
      let test : Expr := ⟨.start, .typeTest ⟨.start, .identifier x false⟩ t⟩
      let whole : Expr := ⟨.start, .ternary test y z⟩
      (Expr.parse (writeLexemes
        (.name x :: .word .isKw :: row ++ .mark .question :: branches))).map Expr.unplaced =
          .ok whole.unplaced :=
  ⟨fun o _ _ _ hop hends hys hy => Expr.parse_typed_binary hx ht o hop hends hys hy,
    fun _ _ _ hnullable hbranches hyz => Expr.parse_typed_branches hx ht hnullable hbranches hyz⟩

end Texts

/-- Whether a tree is a name. -/
def Expr.isName (text : String) : Expr → Bool
  | ⟨_, .identifier name root⟩ => decide (name = text) && !root
  | _ => false

theorem Expr.unplaced_of_isName {text : String} {e : Expr} (h : e.isName text = true) :
    e.unplaced = ⟨.start, .identifier text false⟩ := by
  rcases e with ⟨pos, form⟩
  cases form with
  | identifier name root =>
    simp only [Expr.isName, Bool.and_eq_true, decide_eq_true_eq, Bool.not_eq_true'] at h
    obtain ⟨rfl, rfl⟩ := h
    rfl
  | _ => cases h

/-- Whether a tree is the sum of two names. -/
def Expr.isSum (left right : String) : Expr → Bool
  | ⟨_, .binary .add y z⟩ => y.isName left && z.isName right
  | _ => false

theorem Expr.unplaced_of_isSum {left right : String} {e : Expr} (h : e.isSum left right = true) :
    e.unplaced = ⟨.start, .binary .add ⟨.start, .identifier left false⟩
      ⟨.start, .identifier right false⟩⟩ := by
  rcases e with ⟨pos, form⟩
  cases form with
  | binary op y z =>
    cases op with
    | add =>
      simp only [Expr.isSum, Bool.and_eq_true] at h
      simp only [Expr.unplaced, ExprForm.unplaced, Expr.unplaced_of_isName h.1,
        Expr.unplaced_of_isName h.2]
    | _ => cases h
  | _ => cases h

/-- `x as A<B<u8>>? < (y + z)` is a comparison, and `x is A<B<u8>>? ? y : z` a choice. -/
theorem Expr.parse_typed_nullable :
    let name (text : String) : Expr := ⟨.start, .identifier text false⟩
    let inner : TypeExpr :=
      .plain .start (.named ⟨⟨.start, "B", false, [.plain .start (.primitive .u8)]⟩, []⟩)
    let t : TypeExpr := ⟨.start, true, .named ⟨⟨.start, "A", false, [inner]⟩, []⟩⟩
    let row : List Lexeme := .name "A" ::
      inAngles (.name "B" :: inAngles [.word (.primitive .u8)]) ++ [.mark .question]
    let sum : List Lexeme := inParens [.name "y", .mark .plus, .name "z"]
    let branches : List Lexeme := [.name "y", .mark .colon, .name "z"]
    (Expr.parse (writeLexemes
      (.name "x" :: .word .asKw :: row ++ .mark .lt :: sum))).map Expr.unplaced =
        .ok ⟨.start, .binary .lt ⟨.start, .cast (name "x") t⟩
          ⟨.start, .binary .add (name "y") (name "z")⟩⟩ ∧
    (Expr.parse (writeLexemes
      (.name "x" :: .word .isKw :: row ++ .mark .question :: branches))).map Expr.unplaced =
        .ok ⟨.start, .ternary ⟨.start, .typeTest (name "x") t⟩ (name "y") (name "z")⟩ := by
  intro name inner t row sum branches
  have hu8 : TypeExpr.SpelledBy false (.plain .start (.primitive .u8)) [.word (.primitive .u8)] :=
    .plain (.primitive .u8)
  have hinner : TypeExpr.SpelledBy false inner
      (.name "B" :: inAngles [.word (.primitive .u8)]) :=
    .plain (.named (.mk (.generic ⟨66, [], by decide +kernel⟩ (.cons hu8 rfl .nil)
      (by rintro ⟨⟩)) .nil))
  have ht : t.SpelledBy false row :=
    .absent (.named (.mk (.generic ⟨65, [], by decide +kernel⟩ (.cons hinner rfl .nil)
      (by rintro ⟨⟩)) .nil)) (by rintro ⟨⟩)
  have hx : IsName "x" := ⟨120, [], by decide +kernel⟩
  have hy : IsName "y" := ⟨121, [], by decide +kernel⟩
  have hz : IsName "z" := ⟨122, [], by decide +kernel⟩
  have hsum : (Expr.parseAtom "( y + z )").toOption.any (Expr.isSum "y" "z") = true := by
    decide +kernel
  have hbranches : (Expr.parseBranches "y : z").toOption.any
      (fun (y, z) => y.isName "y" && z.isName "z") = true := by decide +kernel
  obtain ⟨hbinary, hternary⟩ := Expr.parse_typed hx ht
  constructor
  · have htext : writeLexemes sum = "( y + z )" := by decide +kernel
    rw [← htext] at hsum
    obtain ⟨y, hparse, hy'⟩ := exists_ok_of_any hsum
    have hlegible : Legible sum := by
      simpa [sum] using ⟨Lexeme.WellFormed.name hy, Lexeme.WellFormed.name hz⟩
    have hends (hop : BinaryOp.lt = .lt) : ¬t.EndsInName := fun h => absurd h.1 (by rintro ⟨⟩)
    refine (hbinary .cast .lt sum y (by decide) hends hlegible hparse).trans ?_
    simp only [Expr.unplaced, ExprForm.unplaced, Expr.unplaced_of_isSum hy']
    rfl
  · have htext : writeLexemes branches = "y : z" := by decide +kernel
    rw [← htext] at hbranches
    obtain ⟨⟨y, z⟩, hparse, hnames⟩ := exists_ok_of_any hbranches
    obtain ⟨hy', hz'⟩ := Bool.and_eq_true_iff.1 hnames
    have hlegible : Legible branches := by
      simpa [branches] using ⟨Lexeme.WellFormed.name hy, Lexeme.WellFormed.name hz⟩
    refine (hternary branches y z rfl hlegible hparse).trans ?_
    simp only [Expr.unplaced, ExprForm.unplaced, Expr.unplaced_of_isName hy',
      Expr.unplaced_of_isName hz']
    rfl

/-- Without a question mark of its own, a type takes the one of `?:`, and a name takes an angle for
the start of type arguments. Outside traits, `self` is no type. -/
theorem Expr.parse_typed_suffix :
    let name (text : String) : Expr := ⟨.start, .identifier text false⟩
    let i32 : TypeExpr := .plain .start (.primitive .i32)
    let t : TypeExpr := .plain .start (.named ⟨⟨.start, "T", false, []⟩, []⟩)
    let own : TypeExpr := .plain .start .selfType
    (Expr.parse "x is i32 ? y : z").map Expr.unplaced ≠
        .ok ⟨.start, .ternary ⟨.start, .typeTest (name "x") i32⟩ (name "y") (name "z")⟩ ∧
      (Expr.parse "x as T < y").map Expr.unplaced ≠
        .ok ⟨.start, .binary .lt ⟨.start, .cast (name "x") t⟩ (name "y")⟩ ∧
      (Expr.parse "x as self + y").map Expr.unplaced ≠
        .ok ⟨.start, .binary .add ⟨.start, .cast (name "x") own⟩ (name "y")⟩ := by
  intro name i32 t own
  have hfails {r : Except SyntaxError Expr} (h : r.isOk = false) (e : Expr) :
      r.map Expr.unplaced ≠ .ok e := by
    cases r with
    | error _ => exact nofun
    | ok _ => exact absurd h nofun
  have htest : (Expr.parse "x is i32 ? y : z").isOk = false := by decide +kernel
  have hcast : (Expr.parse "x as T < y").isOk = false := by decide +kernel
  have hself : (Expr.parse "x as self + y").isOk = false := by decide +kernel
  exact ⟨hfails htest _, hfails hcast _, hfails hself _⟩

end ScriptFront
