import ScriptFront.Lexer.Scan
import ScriptFront.Proofs.Coupling.Basic

/-!
# Two walks in step

Two walkers correspond, and go on to correspond whatever their sources are asked. How they do so is
left open: what a walker does with the answers is the same for all sources.

- `Paired`: coupled actions that cannot fail.
- `Strides`: two kinds of walkers that correspond step by step.
-/

namespace ScriptFront

/-! ## Actions that cannot fail -/

/-- From states that correspond by `R`, both actions come to values that correspond by `V`, and
again to states that correspond. -/
def Paired {s t α β : Type} (R : s → t → Prop) (V : α → β → Prop) (x : StateM s α)
    (y : StateM t β) : Prop :=
  ∀ ⦃p : s⦄ ⦃q : t⦄, R p q → V (x.run p).1 (y.run q).1 ∧ R (x.run p).2 (y.run q).2

namespace Paired

variable {s t α β γ δ : Type} {R : s → t → Prop} {V : α → β → Prop} {x : StateM s α}
  {y : StateM t β}

theorem pure {a : α} {b : β} (h : V a b) : Paired R V (Pure.pure a) (Pure.pure b) :=
  fun _ _ hR => ⟨h, hR⟩

theorem bind {W : γ → δ → Prop} {f : α → StateM s γ} {g : β → StateM t δ} (h : Paired R V x y)
    (hf : ∀ a b, V a b → Paired R W (f a) (g b)) : Paired R W (x >>= f) (y >>= g) :=
  fun _ _ hR => hf _ _ (h hR).1 (h hR).2

/-- Paired first parts with equal values. -/
theorem bindEq {W : γ → δ → Prop} {x : StateM s α} {y : StateM t α} {f : α → StateM s γ}
    {g : α → StateM t δ} (h : Paired R Eq x y) (hf : ∀ a, Paired R W (f a) (g a)) :
    Paired R W (x >>= f) (y >>= g) :=
  h.bind fun a _ hab => hab ▸ hf a

theorem get : Paired R R (MonadState.get : StateM s s) MonadState.get := fun _ _ hR => ⟨hR, hR⟩

theorem ite (c : Prop) [Decidable c] {x' : StateM s α} {y' : StateM t β} (h : Paired R V x y)
    (h' : Paired R V x' y') : Paired R V (if c then x else x') (if c then y else y') := by
  split
  · exact h
  · exact h'

/-- Paired actions are coupled where something else may fail. -/
theorem walk {σ τ ε : Type} {R : Walker σ → Walker τ → Prop} {x : StateM (Walker σ) α}
    {y : StateM (Walker τ) β} (h : Paired R V x y) :
    Coupled R V (walk x : ExceptT ε (StateM (Walker σ)) α) (walk y) :=
  fun _ _ hR => ⟨.ok (h hR).1, (h hR).2⟩

end Paired

/-! ## Walkers that correspond -/

/-- Two kinds of walkers that answer alike, and the places that both can go back to. They correspond
from an offset on: neither stands nearer to the start. -/
structure Strides (σ τ : Type) [ByteSource σ] [ByteSource τ] where
  rel (least : Nat) : Walker σ → Walker τ → Prop
  known (least : Nat) : Place → Prop
  place_eq {least : Nat} {w : Walker σ} {v : Walker τ} : rel least w v → w.place = v.place
  tabWidth_eq {least : Nat} {w : Walker σ} {v : Walker τ} :
    rel least w v → w.tabWidth = v.tabWidth
  extent_eq {least : Nat} {w : Walker σ} {v : Walker τ} : rel least w v → w.extent = v.extent
  known_place {least : Nat} {w : Walker σ} {v : Walker τ} : rel least w v → known least w.place
  /-- The lexer looks at most three bytes ahead. -/
  read {least ahead : Nat} : ahead ≤ 3 →
    Paired (rel least) Eq (Walker.read ahead) (Walker.read ahead)
  atEnd {least : Nat} : Paired (rel least) Eq Walker.atEnd Walker.atEnd
  sourceAdvance {least : Nat} :
    Paired (rel least) Eq (Walker.ask ByteAccess.advance) (Walker.ask ByteAccess.advance)
  find {least : Nat} (needle : UInt8) : Paired (rel least) Eq
    (Walker.ask (ByteSource.find needle)) (Walker.ask (ByteSource.find needle))
  sourceSkip {least : Nat} (count : Nat) : Paired (rel least) Eq
    (Walker.ask (ByteSource.skip count)) (Walker.ask (ByteSource.skip count))
  counted {least : Nat} {w : Walker σ} {v : Walker τ} (line column : UInt32) : rel least w v →
    rel least { w with line, column } { v with line, column }
  reset {least least' : Nat} {w : Walker σ} {v : Walker τ} {target : Place} : known least target →
    rel least' w v → rel least ((Walker.reset target).run w).2 ((Walker.reset target).run v).2

namespace Strides

variable {σ τ : Type} [ByteSource σ] [ByteSource τ] (S : Strides σ τ) {least : Nat}

theorem current : Paired (S.rel least) Eq Walker.current Walker.current :=
  S.read (Nat.zero_le _)

/-! ## Lines and columns -/

/-- Line and column change by a rule that looks at line, column and tab width only. -/
theorem recount (f : Position → UInt32 → Position) :
    Paired (S.rel least) Eq
      (modify fun w : Walker σ =>
        { w with
          line := (f w.linePosition w.tabWidth).line
          column := (f w.linePosition w.tabWidth).column })
      (modify fun w : Walker τ =>
        { w with
          line := (f w.linePosition w.tabWidth).line
          column := (f w.linePosition w.tabWidth).column }) := by
  intro w v h
  have hposition : w.linePosition = v.linePosition := congrArg Place.toPosition (S.place_eq h)
  have hrule : f w.linePosition w.tabWidth = f v.linePosition v.tabWidth := by
    rw [hposition, S.tabWidth_eq h]
  refine ⟨rfl, ?_⟩
  show S.rel least { w with
    line := (f w.linePosition w.tabWidth).line
    column := (f w.linePosition w.tabWidth).column } _
  rw [hrule]
  exact S.counted _ _ h

theorem advance : Paired (S.rel least) Eq Walker.advance Walker.advance := by
  refine S.atEnd.bindEq fun atEnd => .ite _ (.pure rfl) ?_
  refine S.current.bindEq fun byte => S.sourceAdvance.bindEq fun _ => ?_
  exact S.recount fun p tabWidth => p.after tabWidth byte

theorem bump : Paired (S.rel least) Eq Walker.bump Walker.bump :=
  S.current.bindEq fun _ => S.advance.bindEq fun _ => .pure rfl

theorem advanceBy (count : Nat) :
    Paired (S.rel least) Eq (Walker.advanceBy count) (Walker.advanceBy count) := by
  induction count with
  | zero => exact .pure rfl
  | succ count ih => exact S.advance.bindEq fun _ => ih

theorem advanceToEnd (steps : Nat) :
    Paired (S.rel least) Eq (Walker.advanceToEnd steps) (Walker.advanceToEnd steps) := by
  induction steps with
  | zero => exact .pure rfl
  | succ steps ih =>
    exact S.atEnd.bindEq fun _ => .ite _ (.pure rfl) (S.advance.bindEq fun _ => ih)

theorem skipLine : Paired (S.rel least) Eq Walker.skipLine Walker.skipLine := by
  refine (S.find newline).bindEq fun run => ?_
  cases run with
  | some run =>
    refine (S.sourceSkip run).bindEq fun _ => ?_
    exact S.recount fun p _ => ⟨p.line, columnBehind p.column run⟩
  | none =>
    refine Paired.get.bind fun w v h => ?_
    rw [S.extent_eq h]
    exact S.advanceToEnd _

/-! ## Runs of bytes -/

theorem collect (inClass : UInt8 → Bool) (steps : Nat) (taken : Bytes) :
    Paired (S.rel least) Eq (Walker.collect inClass steps taken)
      (Walker.collect inClass steps taken) := by
  induction steps generalizing taken with
  | zero => exact .pure rfl
  | succ steps ih =>
    exact S.current.bindEq fun _ => .ite _ (S.bump.bindEq fun _ => ih _) (.pure rfl)

theorem takeWhile (inClass : UInt8 → Bool) :
    Paired (S.rel least) Eq (Walker.takeWhile inClass) (Walker.takeWhile inClass) := by
  refine Paired.get.bind fun w v h => ?_
  rw [S.extent_eq h]
  exact (S.collect inClass _ _).bindEq fun _ => .pure rfl

end Strides

end ScriptFront
