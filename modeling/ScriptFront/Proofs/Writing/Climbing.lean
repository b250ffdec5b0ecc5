import ScriptFront.Grammar.Stmts
import ScriptFront.Proofs.Writing.Lookahead
import ScriptFront.Proofs.Writing.Trees

/-!
# Climbing over what was written

Behind an operand, an expression goes on with whatever binds tightly enough. How a written
expression is read back is told along its left spine: from its leftmost atom on, one part after the
other is taken at its own level.

- `Stops`: nothing that binds as tightly as a level follows.
- `Spine`: reading a row comes down to going on behind it, at the level that the row binds at.
- `Whole`: reading a row at a level comes to the end of the row.
- `Spine.binary`, `Spine.call`, …: one rule for each way to go on behind an operand.
-/

namespace ScriptFront

open ScriptFront.Parser

theorem BinaryOp.level_pos (op : BinaryOp) : 0 < op.level := by cases op <;> decide

theorem Continuation.level_pos (k : Continuation) : 0 < k.level := by
  cases k with
  | binary op => exact op.level_pos
  | count _ => exact (by decide : 0 < Level.access)
  | _ => decide

/-! ## Where an expression ends -/

/-- Nothing that binds as tightly as `level` or tighter follows, and if an angle follows, it opens
no type arguments. -/
structure Stops (level : Nat) (rest : List Lexeme) : Prop where
  lower : ∀ k, Continuation.ofKind? (headKind rest) = some k → k.level < level
  angle : headKind rest = Symbol.lt → noCall 0 rest.tail

theorem Stops.mono {m n : Nat} {rest : List Lexeme} (h : Stops m rest) (hle : m ≤ n) :
    Stops n rest :=
  ⟨fun k hk => Nat.lt_of_lt_of_le (h.lower k hk) hle, h.angle⟩

/-- Nothing goes on with a token that stands behind no operand. -/
theorem Stops.of_none {rest : List Lexeme} (h : Continuation.ofKind? (headKind rest) = none)
    (level : Nat) : Stops level rest := by
  refine ⟨fun k hk => ?_, fun hlt => ?_⟩
  · rw [h] at hk
    exact absurd hk nofun
  · rw [hlt] at h
    exact absurd h (by decide)

/-! ## Climbing and descending -/

section Climb

variable {α : Type} {c : Setting} {depth : Nat} {pos : Position} {level : Nat}
  {left : Yield .build Expr} {ts us : List Lexeme} {f : Yield .build Expr → Parse Buffer α}
  {V : α → Prop}

/-- Before an angle that opens no type arguments, the attempt at these comes to nothing and goes
back to the angle. -/
theorem Parses.genericCallArgs {l : Lexeme} (hl : l.kind = Symbol.lt) (hts : noCall 0 ts) :
    Parses c (l :: ts) ((Grammar.upTo depth).genericCallArgs .build) (fun r => r = none)
      (l :: ts) := by
  intro p hp
  have hsave : (Parser.save : Parse Buffer Bookmark).run p = (.ok ⟨p.start⟩, p) := rfl
  have hends := hp.genericArgs depth hl hts
  rcases hrun : ((Grammar.upTo depth).genericArgs .check).run p with ⟨e | args, q⟩
  · rw [Ends, hrun] at hends
    obtain ⟨hcode, hholds⟩ := hends
    obtain ⟨r, hback, hr⟩ := hp.marks.goBack hholds
    have hattempt : (Parser.attempt ((Grammar.upTo depth).genericArgs .check)).run p =
        (.ok (.error e), q) := by simp only [Parser.attempt, ExceptT.run_mk, hrun]
    refine ⟨none, r, ?_, rfl, hr⟩
    rw [Grammar.genericCallArgs, run_bind_ok hsave, run_bind_ok hattempt]
    dsimp only
    rw [if_neg hcode, pure_bind, run_bind_ok hback]
    rfl
  · rw [Ends, hrun] at hends
    obtain ⟨hholds, hkind⟩ := hends
    obtain ⟨r, hback, hr⟩ := hp.marks.goBack hholds
    have hattempt : (Parser.attempt ((Grammar.upTo depth).genericArgs .check)).run p =
        (.ok (.ok args), q) := by simp only [Parser.attempt, ExceptT.run_mk, hrun]
    have hcheck : (Parser.check Symbol.lParen : Parse Buffer Bool).run q = (.ok false, q) := by
      rw [← decide_eq_false hkind]
      rfl
    refine ⟨none, r, ?_, rfl, hr⟩
    rw [Grammar.genericCallArgs, run_bind_ok hsave, run_bind_ok hattempt]
    dsimp only
    rw [run_bind_ok hcheck, run_bind_ok hback]
    rfl

/-- Where nothing follows that binds tightly enough, and no call is tried, climbing ends. -/
theorem Parses.climbBelow
    (hlower : ∀ k, Continuation.ofKind? (headKind ts) = some k → k.level < level)
    (hcall : ¬(headKind ts = Symbol.lt ∧ level = Level.access)) (steps : Nat) :
    Parses c ts ((Grammar.upTo depth).climb .build pos level (steps + 1) left)
      (fun whole => whole = left) ts := by
  refine Parses.kind (Parses.ifFalse (by simpa using hcall) ?_)
  cases hk : Continuation.ofKind? (headKind ts) with
  | none => exact .pure rfl
  | some k => exact Parses.ifTrue (hlower k hk) (.pure rfl)

/-- Where nothing follows that binds tightly enough, climbing ends. -/
theorem Parses.climbNothing (hts : Stops level ts) (steps : Nat) :
    Parses c ts ((Grammar.upTo depth).climb .build pos level (steps + 1) left)
      (fun whole => whole = left) ts := by
  by_cases hlt : headKind ts = Symbol.lt ∧ level = Level.access
  · obtain ⟨hkind, rfl⟩ := hlt
    refine Parses.kind (Parses.ifTrue (by simp [hkind]) ?_)
    cases ts with
    | nil => exact absurd hkind (by decide)
    | cons l ts =>
      refine (Parses.genericCallArgs hkind (hts.angle hkind)).bind fun r hr => ?_
      subst hr
      exact .pure rfl
  · exact Parses.climbBelow hts.lower hlt steps

/-- What follows and binds tightly enough is taken, and climbing goes on behind it. -/
theorem Parses.climbOver {k : Continuation} (hk : Continuation.ofKind? (headKind ts) = some k)
    (hlevel : level ≤ k.level) (hangle : headKind ts = Symbol.lt → level ≠ Level.access)
    (hternary : k ≠ .ternary) (steps : Nat)
    (h : Parses c ts ((Grammar.upTo depth).continuation .build left k >>= fun form =>
      (Grammar.upTo depth).climb .build pos level steps (Expr.mk pos <$> form) >>= f) V us) :
    Parses c ts ((Grammar.upTo depth).climb .build pos level (steps + 1) left >>= f) V us := by
  intro p hp
  have hkind : (Parser.kind : Parse Buffer TokenKind).run p = (.ok (headKind ts), p) := by
    rw [← hp.kind_eq]
    rfl
  have hnoCall : ¬(headKind ts = Symbol.lt && level = Level.access) = true := by
    simpa using hangle
  have hrun : ((Grammar.upTo depth).climb .build pos level (steps + 1) left >>= f).run p =
      ((Grammar.upTo depth).continuation .build left k >>= fun form =>
        (Grammar.upTo depth).climb .build pos level steps (Expr.mk pos <$> form) >>= f).run p := by
    rw [Grammar.climb, bind_assoc, run_bind_ok hkind, if_neg hnoCall, hk]
    dsimp only
    rw [if_neg (Nat.not_lt.2 hlevel), bind_assoc]
    simp only [if_neg hternary]
  obtain ⟨a, q, hq, ha, hreads⟩ := h hp
  exact ⟨a, q, hrun.trans hq, ha, hreads⟩

/-- The branches of `?:` are taken, and climbing ends behind them. -/
theorem Parses.climbTernary (hk : headKind ts = Symbol.question) (hlevel : level ≤ Level.single)
    (steps : Nat)
    (h : Parses c ts ((Grammar.upTo depth).ternary .build left >>= fun form =>
      f (Expr.mk pos <$> form)) V us) :
    Parses c ts ((Grammar.upTo depth).climb .build pos level (steps + 1) left >>= f) V us := by
  intro p hp
  have hkind : (Parser.kind : Parse Buffer TokenKind).run p = (.ok (headKind ts), p) := by
    rw [← hp.kind_eq]
    rfl
  have hrun : ((Grammar.upTo depth).climb .build pos level (steps + 1) left >>= f).run p =
      ((Grammar.upTo depth).ternary .build left >>= fun form =>
        f (Expr.mk pos <$> form)).run p := by
    rw [Grammar.climb, bind_assoc, run_bind_ok hkind, hk]
    dsimp only
    rw [if_neg (by simp), Continuation.ofKind?]
    dsimp only
    rw [if_neg (show ¬Continuation.ternary.level < level from Nat.not_lt.2 hlevel), bind_assoc]
    simp only [if_true, pure_bind]
    rfl
  obtain ⟨a, q, hq, ha, hreads⟩ := h hp
  exact ⟨a, q, hrun.trans hq, ha, hreads⟩

/-- Where nothing follows that binds tightly enough, no level is climbed at. -/
theorem Parses.descendNothing (hts : Stops level ts) (top : Nat) :
    Parses c ts ((Grammar.upTo depth).descend .build pos level top left)
      (fun whole => whole = left) ts := by
  induction top generalizing left with
  | zero => exact .pure rfl
  | succ top ih =>
    by_cases htop : top + 1 < level
    · exact Parses.ifTrue htop (.pure rfl)
    · refine Parses.ifFalse htop (Parses.listBound fun n hn => ?_)
      obtain ⟨n, rfl⟩ : ∃ k, n = k + 1 := ⟨n - 1, by omega⟩
      refine (Parses.climbNothing (hts.mono (Nat.not_lt.1 htop)) n).bind fun whole hwhole => ?_
      subst hwhole
      exact ih

/-- Descending past levels at which nothing is climbed. -/
theorem Parses.descendPast {goal top : Nat} (hlevel : level ≤ goal) (hgoal : 0 < goal)
    (hle : goal ≤ top)
    (hpast : ∀ past steps, goal < past → past ≤ top → Parses c ts
      ((Grammar.upTo depth).climb .build pos past (steps + 1) left) (fun whole => whole = left) ts)
    {W : Yield .build Expr → Prop} (h : ∀ steps, ts.length < steps → Parses c ts
      ((Grammar.upTo depth).climb .build pos goal steps left >>=
        (Grammar.upTo depth).descend .build pos level (goal - 1)) W us) :
    Parses c ts ((Grammar.upTo depth).descend .build pos level top left) W us := by
  induction top with
  | zero => exact absurd hle (Nat.not_le.2 hgoal)
  | succ top ih =>
    have hlow : ¬top + 1 < level := Nat.not_lt.2 (Nat.le_trans hlevel hle)
    rw [Grammar.descend, if_neg hlow]
    refine Parses.listBound fun n hn => ?_
    obtain ⟨n, rfl⟩ : ∃ k, n = k + 1 := ⟨n - 1, by omega⟩
    by_cases htop : goal = top + 1
    · subst htop
      exact h (n + 1) (by omega)
    · have hless : goal ≤ top := Nat.le_of_lt_succ (Nat.lt_of_le_of_ne hle htop)
      have hclimb := hpast (top + 1) n (Nat.lt_succ_of_le hless) (Nat.le_refl _)
      refine hclimb.bind fun whole hwhole => ?_
      subst hwhole
      exact ih hless fun past steps hpast' htop' =>
        hpast past steps hpast' (Nat.le_succ_of_le htop')

/-- Descending to the level of what follows. -/
theorem Parses.descendTo {goal top : Nat} (hts : Stops (goal + 1) ts) (hlevel : level ≤ goal)
    (hgoal : 0 < goal) (hle : goal ≤ top)
    {W : Yield .build Expr → Prop} (h : ∀ steps, ts.length < steps → Parses c ts
      ((Grammar.upTo depth).climb .build pos goal steps left >>=
        (Grammar.upTo depth).descend .build pos level (goal - 1)) W us) :
    Parses c ts ((Grammar.upTo depth).descend .build pos level top left) W us :=
  .descendPast hlevel hgoal hle (fun _ steps hpast _ => .climbNothing (hts.mono hpast) steps) h

end Climb

/-! ## Rows along a spine -/

/-- Reading a row, and what follows it, at a level that is not higher than `level`, comes down to
going on behind the row at `level` with an expression of which `like` holds. -/
def Spine (c : Setting) (depth : Nat) (row : List Lexeme) (like : Expr → Prop) (level : Nat)
    (ends : List Lexeme → Prop) : Prop :=
  ∀ ⦃least : Nat⦄ ⦃rest us : List Lexeme⦄ ⦃V : Yield .build Expr → Prop⦄, least ≤ level →
    ends rest →
    (∀ (pos : Position) (steps : Nat) (left : Yield .build Expr), like left →
      rest.length < steps → Parses c rest
        ((Grammar.upTo depth).climb .build pos level steps left >>=
          (Grammar.upTo depth).descend .build pos least (level - 1)) V us) →
    Parses c (row ++ rest) ((Grammar.upTo depth).exprStep .build least) V us

/-- Reading a row, and what follows it, at any level comes down to descending behind the row. -/
def Operand (c : Setting) (depth : Nat) (row : List Lexeme) (like : Expr → Prop) : Prop :=
  ∀ ⦃least : Nat⦄ ⦃rest us : List Lexeme⦄ ⦃V : Yield .build Expr → Prop⦄,
    (∀ (pos : Position) (left : Yield .build Expr), like left →
      Parses c rest ((Grammar.upTo depth).descend .build pos least Level.path left) V us) →
    Parses c (row ++ rest) ((Grammar.upTo depth).exprStep .build least) V us

/-- Reading a row at a level comes to an expression of which `like` holds, and to the end of the
row. -/
def Whole (c : Setting) (depth : Nat) (row : List Lexeme) (like : Expr → Prop) (least : Nat)
    (ends : List Lexeme → Prop) : Prop :=
  ∀ ⦃rest : List Lexeme⦄, ends rest →
    Parses c (row ++ rest) ((Grammar.upTo depth).exprStep .build least) like rest

/-- What binds less tightly than this stands behind a row that is read at `level`. -/
def Level.behind (level : Nat) : Nat := if level = Level.single then level else level + 1

theorem Level.behind_mono {m n : Nat} (h : m ≤ n) : Level.behind m ≤ Level.behind n := by
  unfold Level.behind
  split <;> split <;> omega

theorem Level.le_behind (level : Nat) : level ≤ Level.behind level := by
  unfold Level.behind
  split <;> omega

theorem BinaryOp.rightLevel_eq (op : BinaryOp) : op.rightLevel = Level.behind op.level := by
  cases op <;> rfl

theorem BinaryOp.level_le_leftLevel (op : BinaryOp) : op.level ≤ op.leftLevel := by
  cases op <;> decide

theorem BinaryOp.level_le_rightLevel (op : BinaryOp) : op.level ≤ op.rightLevel := by
  cases op <;> decide

/-- Whatever binds less tightly than a level can follow a row at this level as a part of it. -/
theorem Level.lt_behind_leftLevel (op : BinaryOp) : op.level < Level.behind op.leftLevel := by
  cases op <;> decide

/-- A row that stands at a level: its left spine does not bind less tightly. -/
def Stands (c : Setting) (depth : Nat) (row : List Lexeme) (like : Expr → Prop) (least : Nat) :
    Prop :=
  Operand c depth row like ∨
    ∃ level, least ≤ level ∧ Spine c depth row like level (Stops (Level.behind least))

section Rules

variable {c : Setting} {depth level least : Nat} {row more : List Lexeme}
    {like likeWhole : Expr → Prop}
  {ends stop : List Lexeme → Prop} {l : Lexeme} {formed : ExprForm → Prop}

/-- A row along a spine is a whole where nothing goes on behind it. -/
theorem Spine.whole (h : Spine c depth row like level ends) (hleast : least ≤ level) :
    Whole c depth row like least fun rest => ends rest ∧ Stops least rest := by
  intro rest hrest
  obtain ⟨hends, hstops⟩ := hrest
  refine h hleast hends fun pos steps left hleft hsteps => ?_
  obtain ⟨steps, rfl⟩ : ∃ k, steps = k + 1 := ⟨steps - 1, by omega⟩
  refine (Parses.climbNothing (hstops.mono hleast) steps).bind fun whole hwhole => ?_
  subst hwhole
  exact (Parses.descendNothing hstops _).mono fun _ h => h ▸ hleft

/-- Going on behind a row: `l` begins what follows, and `more` is the rest of it. -/
theorem Spine.goOn (h : Spine c depth row like level ends) {k : Continuation}
    (hk : Continuation.ofKind? l.kind = some k) (hlevel : k.level ≤ level)
    (hternary : k ≠ .ternary) (hends : ∀ rest, stop rest → ends (l :: (more ++ rest)))
    (hangle : l.kind = Symbol.lt →
      k.level ≠ Level.access ∧ ∀ rest, stop rest → noCall 0 (more ++ rest))
    (hform : ∀ rest left, stop rest → like left →
      Parses c (l :: (more ++ rest)) ((Grammar.upTo depth).continuation .build left k) formed rest)
    (hwhole : ∀ pos form, formed form → likeWhole ⟨pos, form⟩) :
    Spine c depth (row ++ l :: more) likeWhole k.level stop := by
  intro least rest us V hleast hstop hfinal
  rw [List.append_assoc, List.cons_append]
  refine h (Nat.le_trans hleast hlevel) (hends rest hstop) fun pos steps left hleft hsteps => ?_
  have hover (n : Nat) (hn : (l :: (more ++ rest)).length < n) : Parses c (l :: (more ++ rest))
      ((Grammar.upTo depth).climb .build pos k.level n left >>=
        (Grammar.upTo depth).descend .build pos least (k.level - 1)) V us := by
    obtain ⟨n, rfl⟩ : ∃ m, n = m + 1 := ⟨n - 1, by omega⟩
    have hkind : Continuation.ofKind? (headKind (l :: (more ++ rest))) = some k := hk
    have hlt (h : headKind (l :: (more ++ rest)) = Symbol.lt) : k.level ≠ Level.access :=
      (hangle h).1
    refine Parses.climbOver hkind (Nat.le_refl _) hlt hternary n ?_
    refine (hform rest left hstop hleft).bind fun form hform => ?_
    refine hfinal pos n _ (hwhole pos form hform) ?_
    rw [List.length_cons, List.length_append] at hn
    omega
  have hstops {n : Nat} (hn : k.level < n) : Stops n (l :: (more ++ rest)) := by
    refine ⟨fun j hj => ?_, fun hlt => (hangle hlt).2 rest hstop⟩
    rw [headKind_cons, hk] at hj
    cases hj
    exact hn
  by_cases heq : k.level = level
  · subst heq
    exact hover steps hsteps
  · obtain ⟨steps, rfl⟩ : ∃ m, steps = m + 1 := ⟨steps - 1, by omega⟩
    have hless : k.level < level := Nat.lt_of_le_of_ne hlevel heq
    refine (Parses.climbNothing (hstops hless) steps).bind fun whole hwhole => ?_
    subst hwhole
    exact Parses.descendTo (hstops (Nat.lt_succ_self _)) hleast k.level_pos (by omega) hover

/-- An operand is the start of a spine at the highest level of all. -/
theorem Operand.spine (h : Operand c depth row like) :
    Spine c depth row like Level.path fun _ => True := by
  intro least rest us V hleast _ hfinal
  refine h fun pos left hleft => Parses.ifFalse (Nat.not_lt.2 hleast) ?_
  exact Parses.listBound fun n hn => hfinal pos n left hleft (by omega)

theorem Operand.whole (h : Operand c depth row like) :
    Whole c depth row like least (Stops least) :=
  fun _ hrest => h fun _ _ hleft => (Parses.descendNothing hrest _).mono fun _ h => h ▸ hleft

theorem Stands.mono {m n : Nat} (h : Stands c depth row like n) (hle : m ≤ n) :
    Stands c depth row like m := by
  rcases h with h | ⟨level, hlevel, h⟩
  · exact .inl h
  · refine .inr ⟨level, Nat.le_trans hle hlevel, fun least rest us V hleast hends hfinal => ?_⟩
    exact h hleast (hends.mono (Level.behind_mono hle)) hfinal

theorem Stands.imp (h : Stands c depth row like least) (himp : ∀ e, like e → likeWhole e) :
    Stands c depth row likeWhole least := by
  rcases h with h | ⟨level, hlevel, h⟩
  · exact .inl fun _ _ _ _ hfinal => h fun pos left hleft => hfinal pos left (himp left hleft)
  · refine .inr ⟨level, hlevel, fun least rest us V hleast hends hfinal => ?_⟩
    exact h hleast hends fun pos steps left hleft => hfinal pos steps left (himp left hleft)

/-- A row that stands at a level is a spine. -/
theorem Stands.spine (h : Stands c depth row like least) (hleast : least ≤ Level.path) :
    ∃ level, least ≤ level ∧ Spine c depth row like level (Stops (Level.behind least)) := by
  rcases h with h | h
  · refine ⟨Level.path, hleast, fun _ _ _ _ hle _ hfinal => ?_⟩
    exact h.spine hle trivial hfinal
  · exact h

/-- A row that stands at a level is read as a whole at this level and at lower ones. -/
theorem Stands.whole (h : Stands c depth row like level) (hle : least ≤ level) :
    Whole c depth row like least (Stops least) := by
  rcases h with h | ⟨top, hlevel, h⟩
  · exact h.whole
  · intro rest hrest
    have hstops : Stops (Level.behind level) rest :=
      hrest.mono (Nat.le_trans hle (Level.le_behind level))
    exact h.whole (Nat.le_trans hle hlevel) ⟨hstops, hrest⟩

/-- Going on behind a row that stands at a level. -/
theorem Stands.goOn (h : Stands c depth row like least) (k : Continuation)
    (hk : Continuation.ofKind? l.kind = some k) (hlevel : k.level ≤ least)
    (hternary : k ≠ .ternary) (hless : k.level < Level.behind least)
    (hangle : l.kind = Symbol.lt →
      k.level ≠ Level.access ∧ ∀ rest, stop rest → noCall 0 (more ++ rest))
    (hform : ∀ rest left, stop rest → like left →
      Parses c (l :: (more ++ rest)) ((Grammar.upTo depth).continuation .build left k) formed rest)
    (hwhole : ∀ pos form, formed form → likeWhole ⟨pos, form⟩) :
    Spine c depth (row ++ l :: more) likeWhole k.level stop := by
  rcases h with h | ⟨level, hle, h⟩
  · exact h.spine.goOn hk k.level_le_path hternary (fun _ _ => trivial) hangle hform hwhole
  · refine h.goOn hk (Nat.le_trans hlevel hle) hternary (fun rest hrest => ⟨?_, ?_⟩) hangle hform
      hwhole
    · intro j hj
      rw [headKind_cons, hk] at hj
      cases hj
      exact hless
    · exact fun hlt => (hangle hlt).2 rest hrest

end Rules

end ScriptFront
