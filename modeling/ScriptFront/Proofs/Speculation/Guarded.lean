import ScriptFront.Proofs.Coupling.Modes
import ScriptFront.Proofs.Coupling.Units

/-!
# Guarded lookaheads

What it means that a lookahead leaves no trace is a property of the state in which it is asked for.
The *guarded* lookaheads are those of the grammar as long as they have the property, and raise an
alarm otherwise. So no lookahead of a reading leaves a trace if the reading with guarded lookaheads
is the reading without a guard, whatever the alarm may be.

- `Parser.view`: what a lookahead must leave as it was.
- `Lookaheads.guarded`: the lookaheads of the grammar behind a guard.
- `Simulation.Restores`: going back to a fresh token shows it again.
- `Simulation.Restores.followsAll`: then no alarm is raised.
-/

namespace ScriptFront

open ScriptFront.Parser

/-! ## Traces -/

/-- The current token, its start, the place of the lexer behind it, and the trait flag. -/
structure View where
  current : Token
  start : Place
  lexerPlace : Place
  inTrait : Bool
deriving DecidableEq, Repr

/-- What a state shows. -/
def Parser.view {σ : Type} [ByteSource σ] (p : Parser σ) : View :=
  ⟨p.current, p.start, p.lexer.place, p.inTrait⟩

section Traceless

variable {σ : Type} [ByteSource σ] (g : Grammar σ) (p : Parser σ)

/-- Looking for type arguments leaves no trace if there are none; type arguments with a `(` behind
them are read again, up to that `(`. -/
structure TracelessGenerics (mode : Mode) : Prop where
  none_view : ∀ q, (g.genericCallArgs mode).run p = (.ok none, q) → q.view = p.view
  some_view : ∀ a q, (g.genericArgs .check).run p = (.ok a, q) → q.current.kind = Symbol.lParen →
    ∃ generics r, (g.genericCallArgs mode).run p = (.ok (some generics), r) ∧ r.view = q.view

/-- Looking for a `(` behind a path leaves no trace; a path with a `(` behind it can be read then,
in both modes, up to that `(`. -/
structure TracelessPath : Prop where
  answers : ∃ opens q, g.pathOpensParen.run p = (.ok opens, q) ∧ q.view = p.view
  opens_view : ∀ q, g.pathOpensParen.run p = (.ok true, q) →
    ∃ a s, (g.expr .check Level.path).run p = (.ok a, s) ∧ s.current.kind = Symbol.lParen ∧
      ∀ mode, ∃ path r, (g.expr mode Level.path).run q = (.ok path, r) ∧ r.view = s.view

/-- Looking for a dot leaves no trace, whether the end of the name is found or not. -/
def TracelessDot : Prop := ((Grammar.namesSourceType : Parse σ Bool).run p).2.view = p.view

/-- Looking at the next token leaves no trace, whether there is one or not. -/
def TracelessPeek : Prop := ((peek : Parse σ Token).run p).2.view = p.view

end Traceless

section Guard

variable {σ : Type} {α : Type} (alarm : (α : Type) → Parse σ α) (safe : Parser σ → Prop)
  (x : Parse σ α) {p : Parser σ}

open Classical in
/-- Read where that is safe, and raise an alarm elsewhere. -/
noncomputable def Parser.guard : Parse σ α := do
  if safe (← get) then x else alarm α

theorem run_guard (h : safe p) : (Parser.guard alarm safe x).run p = x.run p := by
  classical
  show ((if safe p then x else alarm α : Parse σ α)).run p = _
  rw [if_pos h]

end Guard

/-- The lookaheads of the grammar where they leave no trace, and an alarm where they would. An alarm
may do anything: stop, go on with any answer, or leave a mark that no way back removes. -/
noncomputable def Lookaheads.guarded {σ : Type} [ByteSource σ] (alarm : (α : Type) → Parse σ α) :
    Lookaheads σ where
  callGenerics g mode := guard alarm (TracelessGenerics g · mode) (g.genericCallArgs mode)
  parenBehind g := guard alarm (TracelessPath g) g.pathOpensParen
  dotBefore := guard alarm TracelessDot Grammar.namesSourceType
  second := guard alarm TracelessPeek peek

/-! ## Runs of lookaheads -/

section Runs

variable {σ : Type} {p q r : Parser σ}

theorem run_attempt {α : Type} {x : Parse σ α} {result : Except SyntaxError α}
    (h : x.run p = (result, q)) : (attempt x).run p = (.ok result, q) := by
  show (Except.ok (x.run p).1, (x.run p).2) = _
  rw [h]

theorem run_save : (save : Parse σ Bookmark).run p = (.ok ⟨p.start⟩, p) := rfl

variable [ByteSource σ] {g : Grammar σ}

/-- Behind type arguments, the current token decides. -/
theorem run_genericCallArgs_ok (mode : Mode) {a : Yield .check (List TypeExpr)}
    (hscan : (g.genericArgs .check).run p = (.ok a, q))
    (hback : (goBack ⟨p.start⟩).run q = (.ok (), r)) :
    (g.genericCallArgs mode).run p =
      if q.current.kind = Symbol.lParen then
        (do return some (← g.genericArgs mode) : Parse σ (Option (Yield mode _))).run r
      else (.ok none, r) := by
  have hopen : (g.genericCallArgs mode).run p =
      (do
        goBack ⟨p.start⟩
        if decide (q.current.kind = Symbol.lParen) then return some (← g.genericArgs mode)
        else return none : Parse σ (Option (Yield mode _))).run q := by
    unfold Grammar.genericCallArgs
    rw [run_bind_ok run_save, run_bind_ok (run_attempt hscan)]
    rfl
  rw [hopen, run_bind_ok hback]
  by_cases hparen : q.current.kind = Symbol.lParen
  · rw [if_pos hparen, if_pos (decide_eq_true hparen)]
  · rw [if_neg hparen, if_neg (by simpa using hparen)]
    rfl

/-- Without type arguments there is no answer, unless `void` is among them. -/
theorem run_genericCallArgs_error (mode : Mode) {e : SyntaxError}
    (hscan : (g.genericArgs .check).run p = (.error e, q))
    (hback : (goBack ⟨p.start⟩).run q = (.ok (), r)) :
    (g.genericCallArgs mode).run p =
      if e.code = .misplacedVoid then (.error e, q) else (.ok none, r) := by
  have hopen : (g.genericCallArgs mode).run p =
      (if e.code = .misplacedVoid then throw e
      else do
        goBack ⟨p.start⟩
        return none : Parse σ (Option (Yield mode _))).run q := by
    unfold Grammar.genericCallArgs
    rw [run_bind_ok run_save, run_bind_ok (run_attempt hscan)]
    dsimp only
    split <;> rfl
  rw [hopen]
  split
  · rfl
  · rw [run_bind_ok hback]
    rfl

/-- Behind a path, the current token decides; what is no path has no `(` behind it. -/
theorem run_pathOpensParen {result : Except SyntaxError (Yield .check Expr)}
    (hscan : (g.expr .check Level.path).run p = (result, q))
    (hback : (goBack ⟨p.start⟩).run q = (.ok (), r)) :
    g.pathOpensParen.run p =
      (.ok (result.isOk && decide (q.current.kind = Symbol.lParen)), r) := by
  have hopen : g.pathOpensParen.run p =
      (do
        goBack ⟨p.start⟩
        return result.isOk && decide (q.current.kind = Symbol.lParen) : Parse σ Bool).run q := by
    unfold Grammar.pathOpensParen
    rw [run_bind_ok run_save, run_bind_ok (run_attempt hscan)]
    cases result <;> rfl
  rw [hopen, run_bind_ok hback]
  rfl

theorem run_lookAhead {α : Type} {scan : Parse σ α} {result : Except SyntaxError α}
    (hscan : scan.run p = (result, q)) (hback : (goBack ⟨p.start⟩).run q = (.ok (), r)) :
    (lookAhead scan).run p = (result, r) := by
  unfold lookAhead
  rw [run_bind_ok run_save, run_bind_ok (run_attempt hscan), run_bind_ok hback]
  cases result <;> rfl

end Runs

/-! ## Going back -/

namespace Simulation

variable {σ : Type} [ByteSource σ] {S : Simulation σ σ}

/-- States correspond to themselves only, and going back to a fresh token leads to a state that
shows what was shown there, and from which everything is read alike. -/
structure Restores (S : Simulation σ σ) : Prop where
  eq_of_state : ∀ {p q : Parser σ}, S.state p q → p = q
  eq_of_adrift : ∀ {p q : Parser σ}, S.adrift p q → p = q
  goBack : ∀ {p q : Parser σ}, S.fresh p p → S.adrift q q → q.inTrait = p.inTrait →
    ∃ r, (Parser.goBack ⟨p.start⟩).run q = (.ok (), r) ∧ S.fresh r r ∧ r.view = p.view
  peek_view : ∀ {p : Parser σ}, S.state p p → TracelessPeek p
  alike : ∀ {p r : Parser σ}, S.fresh p p → S.fresh r r → r.view = p.view →
    ∃ T : Simulation σ σ, T.state p r ∧ ∀ p' r', T.state p' r' → r'.view = p'.view

namespace Restores

variable (hS : S.Restores) {g : Grammar σ} {depth : Nat} {p : Parser σ}

include hS

/-- In one mode, coupled readings are equal; what is known of the end of the second one is known of
both. -/
theorem run_eq {mode : Mode} {α : Type} {x y : Parse σ (Yield mode α)}
    (h : S.CoupledAt p p Yield.Agree x y) : x.run p = y.run p := by
  unfold CoupledAt at h
  refine Prod.ext ?_ ?_
  · exact (h.matching.mono fun _ _ => Yield.Agree.eq).eq
  · exact h.states (fun _ _ hs => hS.eq_of_state hs.states) fun _ _ hs => hS.eq_of_adrift hs.states

/-- From wherever a reading ended, the way back leads to a state that shows what was shown at the
start. -/
theorem goBack_of_coupled {α β : Type} {V : α → β → Prop} {x : Parse σ α} {y : Parse σ β}
    (hp : S.fresh p p) (h : S.CoupledAt p p V x y) :
    ∃ r, (Parser.goBack ⟨p.start⟩).run (x.run p).2 = (.ok (), r) ∧ S.fresh r r ∧
      r.view = p.view := by
  have hends : S.adrift (x.run p).2 (x.run p).2 ∧ (x.run p).2.inTrait = p.inTrait := by
    unfold CoupledAt at h
    revert h
    generalize x.run p = r
    generalize y.run p = r'
    rintro (⟨-, hs⟩ | ⟨-, hs⟩)
    · have hadrift := S.adrift_of_state hs.states
      rw [← hS.eq_of_adrift hadrift] at hadrift
      exact ⟨hadrift, hs.inTrait_eq⟩
    · have hadrift := hs.states
      rw [← hS.eq_of_adrift hadrift] at hadrift
      exact ⟨hadrift, hs.inTrait_eq⟩
  exact hS.goBack hp hends.1 hends.2

/-- Reading a part in another mode from a state that shows the same: it succeeds if it did, and ends
in a state that shows the same. -/
theorem reread {r : Parser σ} (hp : S.fresh p p) (hr : S.fresh r r) (hview : r.view = p.view)
    (part : Part) (m n : Mode) {a : Yield m part.Tree} {q : Parser σ}
    (h : (part.read (Grammar.upTo depth) m).run p = (.ok a, q)) :
    ∃ b s, (part.read (Grammar.upTo depth) n).run r = (.ok b, s) ∧ s.view = q.view := by
  obtain ⟨T, hstate, hshown⟩ := hS.alike hp hr hview
  have hagain := part.coupled (T.upTo depth) m n hstate
  unfold CoupledAt at hagain
  rw [h] at hagain
  generalize hrun : (part.read (Grammar.upTo depth) n).run r = result at hagain ⊢
  cases hagain with
  | ok _ hs => exact ⟨_, _, rfl, hshown _ _ hs.states⟩

variable (hg : S.Grammars g (Grammar.upTo depth)) (hp : S.fresh p p)

include hg hp

theorem tracelessGenerics (mode : Mode) : TracelessGenerics g p mode := by
  have hscan := hg.genericArgs .check .check (S.state_of_fresh hp)
  obtain ⟨r, hback, hr, hview⟩ := hS.goBack_of_coupled hp hscan
  have hplain := hS.run_eq hscan
  rcases hrun : (g.genericArgs .check).run p with ⟨e | a, q⟩
  · rw [hrun] at hback
    have hanswer := run_genericCallArgs_error mode hrun hback
    constructor
    case none_view =>
      intro q' hq'
      rw [hanswer] at hq'
      split at hq'
      · cases hq'
      · cases hq'
        exact hview
    case some_view =>
      intro a q' hq'
      rw [hrun] at hq'
      cases hq'
  · rw [hrun] at hback
    have hanswer := run_genericCallArgs_ok mode hrun hback
    constructor
    case none_view =>
      intro q' hq'
      rw [hanswer] at hq'
      split at hq'
      · rcases hargs : (g.genericArgs mode).run r with ⟨e | generics, s⟩
        · rw [run_bind_error hargs] at hq'
          cases hq'
        · rw [run_bind_ok hargs] at hq'
          cases hq'
      · cases hq'
        exact hview
    case some_view =>
      intro a' q' hq' hkind
      rw [hrun] at hq'
      cases hq'
      rw [hplain] at hrun
      obtain ⟨generics, s, hargs, hshown⟩ := hS.reread hp hr hview .genericArgs .check mode hrun
      have hargs' : (g.genericArgs mode).run r = (.ok generics, s) := by
        rw [hS.run_eq (hg.genericArgs mode mode (S.state_of_fresh hr))]
        exact hargs
      refine ⟨generics, s, ?_, hshown⟩
      rw [hanswer, if_pos hkind, run_bind_ok hargs']
      rfl

theorem tracelessPath : TracelessPath g p := by
  have hscan := hg .check .check (.expr Level.path) (S.state_of_fresh hp)
  obtain ⟨r, hback, hr, hview⟩ := hS.goBack_of_coupled hp hscan
  have hplain := hS.run_eq hscan
  rcases hrun : (g.expr .check Level.path).run p with ⟨result, q⟩
  rw [hrun] at hback
  have hanswer := run_pathOpensParen hrun hback
  constructor
  case answers => exact ⟨_, r, hanswer, hview⟩
  case opens_view =>
    intro q' hq'
    rw [hanswer] at hq'
    obtain ⟨hopens, rfl⟩ := Prod.mk.inj hq'
    cases result with
    | error e => cases hopens
    | ok a =>
      refine ⟨a, q, hrun, of_decide_eq_true (Except.ok.inj hopens), fun mode => ?_⟩
      rw [hplain] at hrun
      obtain ⟨path, s, hpath, hshown⟩ :=
        hS.reread hp hr hview (.expr Level.path) .check mode hrun
      refine ⟨path, s, ?_, hshown⟩
      rw [hS.run_eq (hg mode mode (.expr Level.path) (S.state_of_fresh hr))]
      exact hpath

omit hg in
theorem tracelessDot : TracelessDot p := by
  have hscan := S.dotAhead p.bound (S.state_of_fresh hp)
  obtain ⟨r, hback, -, hview⟩ := hS.goBack_of_coupled hp hscan
  have hbound : (Parser.listBound : Parse σ Nat).run p = (.ok p.bound, p) := rfl
  rcases hrun : (Grammar.dotAhead p.bound).run p with ⟨result, q⟩
  rw [hrun] at hback
  unfold TracelessDot Grammar.namesSourceType
  rw [run_bind_ok hbound, run_lookAhead hrun hback]
  exact hview

omit hp in
/-- Behind the guard, the lookaheads see what those of the grammar see: no alarm is raised. -/
theorem follows (alarm : (α : Type) → Parse σ α) :
    S.Follows (.guarded alarm) g (Grammar.upTo depth) where
  callGenerics m n p q h := by
    obtain rfl := hS.eq_of_state (S.state_of_fresh h)
    have hsafe := run_guard alarm (TracelessGenerics g · m) (g.genericCallArgs m)
      (hS.tracelessGenerics hg h m)
    unfold CoupledAt Lookaheads.guarded
    rw [hsafe]
    exact hg.genericCallArgs (S.state_of_fresh h) m n
  parenBehind {p q} h := by
    obtain rfl := hS.eq_of_state (S.state_of_fresh h)
    have hsafe := run_guard alarm (TracelessPath g) g.pathOpensParen (hS.tracelessPath hg h)
    unfold CoupledAt Lookaheads.guarded
    rw [hsafe]
    exact hg.pathOpensParen (S.state_of_fresh h)
  dotBefore {p q} h := by
    obtain rfl := hS.eq_of_state (S.state_of_fresh h)
    have hsafe := run_guard alarm TracelessDot Grammar.namesSourceType (hS.tracelessDot h)
    unfold CoupledAt Lookaheads.guarded
    rw [hsafe]
    exact S.namesSourceType (S.state_of_fresh h)
  second p q h := by
    obtain rfl := hS.eq_of_state h
    have hsafe := run_guard alarm TracelessPeek Parser.peek (hS.peek_view h)
    unfold CoupledAt Lookaheads.guarded
    rw [hsafe]
    exact S.peek h

omit hg hp in
/-- Every reading from a state of the simulation comes to what it comes to behind the guard: the
same result, in the same state. -/
theorem run_read (alarm : (α : Type) → Parse σ α) (entry : Entry) (hp : S.state p p) :
    ((Lookaheads.guarded alarm).read entry).run p = entry.read.run p := by
  have hfollows : S.FollowsAll (.guarded alarm) := ⟨fun hg => hS.follows hg alarm⟩
  have hread := hfollows.read entry hp
  unfold CoupledAt at hread
  exact Prod.ext hread.matching.eq
    (hread.states (fun _ _ hs => hS.eq_of_state hs.states) fun _ _ hs => hS.eq_of_adrift hs.states)

end Restores

end Simulation

end ScriptFront
