import ScriptFront.Grammar.Units
import ScriptFront.Proofs.Shapes.Supply
import ScriptFront.Proofs.Writing.Climbing

/-!
# Expressions take what binds tightly enough

An expression read at a level ends in front of a token that cannot go on with it: climbing at a
level stops only there, or behind the branches of `?:`, the second of which is itself read at the
lowest level. The levels above do not matter. Whatever they leave, the level that is asked for is
climbed at last, and there an angle is an operator.

- `Parser.Below`: nothing that binds as tightly as a level follows.
- `Grammar.Maximal`: every expression that a grammar reads ends so.
- `Grammar.Maximal.climb`, `Grammar.Maximal.descend`, `Grammar.Maximal.exprStep`: what one step of
  the grammar keeps.
- `Grammar.exprs_maximal`: the grammar at every depth.
-/

namespace ScriptFront

open ScriptFront.Parser

-- What a reading comes to is told by the rules; nothing is to be run to find out.
attribute [local irreducible] Ends

/-- The current token goes on with no operand at `level`: it is no operator of that level or of a
tighter one. -/
def Parser.Below {σ : Type} (level : Nat) (p : Parser σ) : Prop :=
  ∀ c, Continuation.ofKind? p.current.kind = some c → c.level < level

namespace Parser.Below

variable {σ : Type} {level : Nat} {p : Parser σ}

theorem mono {n : Nat} (h : p.Below level) (hle : level ≤ n) : p.Below n :=
  fun c hc => Nat.lt_of_lt_of_le (h c hc) hle

/-- Below the lowest level there is no operator at all. -/
theorem ofKind?_eq_none (h : p.Below Level.chain) :
    Continuation.ofKind? p.current.kind = none := by
  refine Option.eq_none_iff_forall_ne_some.2 fun c hc => ?_
  have hlow : c.level < 1 := h c hc
  exact absurd c.level_pos (by omega)

end Parser.Below

namespace Grammar

variable {σ : Type} [ByteSource σ] {g : Grammar σ} {mode : Mode} {pos : Position} {level : Nat}
  {left : Yield mode Expr} {p : Parser σ}

/-- Every expression that the grammar reads at a level from the lowest to that of an operand ends
in front of a token that is below the level. -/
def Maximal (g : Grammar σ) : Prop :=
  ∀ (mode : Mode) (level : Nat) (p : Parser σ), 0 < level → level ≤ Level.operand →
    Ends (fun _ _ => True) (g.expr mode level) p fun _ q => q.Below level

namespace Maximal

/-- Behind the branches of `?:` there is no operator, since the second one takes all. -/
theorem ternary (hg : g.Maximal) :
    Ends (fun _ _ => True) (g.ternary mode left) p fun _ q => q.Below Level.chain := by
  refine Ends.bind (Q := fun _ _ => True) (.of_forall fun _ _ => trivial) fun _ _ _ => ?_
  refine Ends.bind (Q := fun _ _ => True) (.of_forall fun _ _ => trivial) fun _ _ _ => ?_
  refine Ends.bind (Q := fun _ _ => True) (.of_forall fun _ _ => trivial) fun _ _ _ => ?_
  exact (hg mode Level.chain _ (by decide) (by decide)).bind fun _ _ hq => .pure hq

/-- Climbing at a level takes all that binds as tightly. -/
theorem climb (hg : g.Maximal) (hpos : 0 < level) (hlevel : level ≤ Level.operand) (steps : Nat) :
    Ends (fun _ _ => True) (g.climb mode pos level steps left) p fun _ q => q.Below level := by
  induction steps generalizing left p with
  | zero => exact .failAtStart trivial
  | succ steps ih =>
    have hangle : level ≠ Level.access := Nat.ne_of_lt (Nat.lt_succ_of_le hlevel)
    unfold Grammar.climb
    refine .kind (.ite (fun h => absurd h (by simp [hangle])) fun _ => ?_)
    cases hnext : Continuation.ofKind? p.current.kind with
    | none =>
      refine .pure fun c hc => ?_
      rw [hnext] at hc
      cases hc
    | some c =>
      refine .ite (fun hlow => .pure fun d hd => ?_) fun _ => ?_
      · rw [hnext] at hd
        exact Option.some.inj hd ▸ hlow
      · by_cases hternary : c = .ternary
        · subst hternary
          refine hg.ternary.bind fun _ _ hq => ?_
          rw [if_pos rfl]
          exact .pure (hq.mono hpos)
        · refine Ends.bind (Q := fun _ _ => True) (.of_forall fun _ _ => trivial) fun _ _ _ => ?_
          rw [if_neg hternary]
          exact ih

/-- Behind the levels that are asked for there is nothing to climb at. -/
theorem descend_of_lt {top : Nat} (h : top < level) :
    g.descend mode pos level top left = pure left := by
  cases top with
  | zero => rfl
  | succ top => rw [Grammar.descend, if_pos h]

/-- Whatever the levels above leave, the level that is asked for is climbed at last. -/
theorem descend (hg : g.Maximal) (hpos : 0 < level) (hlevel : level ≤ Level.operand) {top : Nat}
    (htop : level ≤ top) :
    Ends (fun _ _ => True) (g.descend mode pos level top left) p fun _ q => q.Below level := by
  induction top generalizing left p with
  | zero => exact absurd htop (Nat.not_le.2 hpos)
  | succ top ih =>
    rw [Grammar.descend, if_neg (Nat.not_lt.2 htop)]
    refine .listBound ?_
    rcases Nat.lt_or_ge top level with hlast | hmore
    · obtain rfl : level = top + 1 := Nat.le_antisymm htop hlast
      refine (hg.climb hpos hlevel p.bound).bind fun _ _ hq => ?_
      rw [descend_of_lt hlast]
      exact .pure hq
    · refine Ends.bind (Q := fun _ _ => True) (.of_forall fun _ _ => trivial) fun _ _ _ => ?_
      exact ih hmore

/-- One more level of nesting: an operator with its operand and a `match` are gone on from at the
level of an operand, an atom at the tightest one. -/
theorem exprStep (hg : g.Maximal) (hpos : 0 < level) (hlevel : level ≤ Level.operand) :
    Ends (fun _ _ => True) (g.exprStep mode level) p fun _ q => q.Below level := by
  have hpath : level ≤ Level.path := Nat.le_trans hlevel (by decide)
  refine .position (.kind ?_)
  cases UnaryOp.ofKind? p.current.kind with
  | some op =>
    refine Ends.bind (Q := fun _ _ => True) (.of_forall fun _ _ => trivial) fun _ _ _ => ?_
    exact hg.descend hpos hlevel hlevel
  | none =>
    refine .ite (fun _ => ?_) fun _ => ?_
    · refine Ends.bind (Q := fun _ _ => True) (.of_forall fun _ _ => trivial) fun _ _ _ => ?_
      exact hg.descend hpos hlevel hlevel
    · refine Ends.bind (Q := fun _ _ => True) (.of_forall fun _ _ => trivial) fun _ _ _ => ?_
      exact hg.descend hpos hlevel hpath

end Maximal

/-- At every depth of nesting. -/
theorem maximal_upTo (depth : Nat) : (upTo depth : Grammar σ).Maximal := by
  induction depth with
  | zero => exact fun _ _ _ _ _ => .failAtStart trivial
  | succ depth ih => exact fun _ _ _ hpos hlevel => ih.exprStep hpos hlevel

/-- An expression that is read at a level, from any state and in either mode, ends in front of a
token that is no operator of this level or of a tighter one. What is read as a whole expression
ends in front of no operator at all. -/
theorem exprs_maximal :
    (∀ (mode : Mode) (level depth : Nat) (p q : Parser σ) (e : Yield mode Expr), 0 < level →
      level ≤ Level.operand → ((upTo depth).expr mode level).run p = (.ok e, q) → q.Below level) ∧
    ∀ (p q : Parser σ) (e : Expr), Parser.parseExpr.run p = (.ok e, q) →
      Continuation.ofKind? q.current.kind = none := by
  refine ⟨fun mode level depth p q e hpos hlevel hrun => ?_, fun p q e hrun => ?_⟩
  · exact (maximal_upTo depth mode level p hpos hlevel).ok hrun
  · have hends : Ends (fun _ _ => True) (Parser.parseExpr : Parse σ Expr) p
        fun _ q => q.Below Level.chain := by
      refine Ends.bind (Q := fun g _ => g.Maximal) (.of_run rfl (maximal_upTo p.bound)) ?_
      exact fun g r hg => hg .build Level.chain r (by decide) (by decide)
    exact (hends.ok hrun).ofKind?_eq_none

/-- Read as a sum, `a * b + c < d` is read up to the angle, and as a whole up to the end. -/
theorem exprs_maximal_sum :
    ∃ (p q r : Parser Buffer) (sum whole : Expr),
      Parser.ofSource (Buffer.ofString "a * b + c < d") = .ok p ∧
      ((upTo p.bound).expr .build BinaryOp.add.level).run p = (.ok sum, q) ∧
      q.Below BinaryOp.add.level ∧ Parser.parseExpr.run p = (.ok whole, r) ∧
      Continuation.ofKind? r.current.kind = none := by
  have hread : ((Parser.ofSource (Buffer.ofString "a * b + c < d")).toOption.any fun p =>
      (((upTo p.bound).expr .build BinaryOp.add.level).run p).1.isOk &&
        (Parser.parseExpr.run p).1.isOk) = true := by decide +kernel
  obtain ⟨p, hp, hread⟩ := exists_ok_of_any hread
  rcases hsum : ((upTo p.bound).expr .build BinaryOp.add.level).run p with ⟨e | sum, q⟩
  · rw [hsum] at hread
    cases hread
  · rcases hwhole : Parser.parseExpr.run p with ⟨e | whole, r⟩
    · rw [hsum, hwhole] at hread
      cases hread
    · exact ⟨p, q, r, sum, whole, hp, hsum,
        exprs_maximal.1 .build _ _ p q sum (by decide) (by decide) hsum, hwhole,
        exprs_maximal.2 p r whole hwhole⟩

end Grammar

end ScriptFront
