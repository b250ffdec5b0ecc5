import Mathlib.Algebra.GroupWithZero.Nat
import Mathlib.Logic.Function.Iterate
import ScriptFront.Proofs.Writing.Operands

/-!
# Chains of commas as lists

A chain of commas is flattened into the trees that the commas stand between. Chains may be nested on
both sides: on the left one because commas group to the left, on the right one in parentheses.

- `Expr.at?`: the tree that a path of sides leads to through commas alone.
- `Expr.operandPaths`: the paths to the trees that are no commas themselves, left to right.
- `Flattening`: the chain taken apart with a stack of the trees that are still to be looked at.
- `CommaTree`: a way to put commas between trees.
- `Expr.commaList_faithful`: the list holds the trees at these paths in their order, the stack ends
  in it, and every chain that is built over it gives it back.
-/

namespace ScriptFront

namespace Expr

/-- A chain of commas is followed into both sides, and any other expression is taken as it is. -/
theorem commaInduction {P : Expr → Prop}
    (comma : ∀ pos left right, P left → P right → P ⟨pos, .binary .comma left right⟩)
    (single : ∀ e, e.isComma = false → P e) (e : Expr) : P e := by
  refine Expr.commaListOnto.induct (fun e _ => P e) ?_ ?_ e []
  · exact fun _ pos left right hright hleft => comma pos left right hleft hright
  · intro _ e hne
    refine single e ?_
    unfold isComma
    split
    · exact absurd rfl (hne _ _ _)
    · rfl

end Expr

/-! ## Paths through commas -/

/-- A side of a comma. -/
inductive CommaSide where
  | left
  | right
deriving DecidableEq, Repr

/-- A path leads to a place further left than another one does: where they part, the one goes left
and the other right. -/
inductive Precedes : List CommaSide → List CommaSide → Prop
  | parting (p q : List CommaSide) : Precedes (.left :: p) (.right :: q)
  | along {p q : List CommaSide} (side : CommaSide) (h : Precedes p q) :
    Precedes (side :: p) (side :: q)

theorem Precedes.ne {p q : List CommaSide} (h : Precedes p q) : p ≠ q := by
  induction h with
  | parting => nofun
  | along side _ ih => exact fun heq => ih (List.cons.inj heq).2

namespace Expr

/-- The tree that a path leads to, if it goes through commas alone. -/
def at? : Expr → List CommaSide → Option Expr
  | e, [] => some e
  | ⟨_, .binary .comma left _⟩, .left :: path => left.at? path
  | ⟨_, .binary .comma _ right⟩, .right :: path => right.at? path
  | _, _ :: _ => none

/-- The paths through commas that come to something else, left to right. -/
def operandPaths : Expr → List (List CommaSide)
  | ⟨_, .binary .comma left right⟩ =>
    left.operandPaths.map (.left :: ·) ++ right.operandPaths.map (.right :: ·)
  | _ => [[]]

-- Paths are followed one side at a time below, so both functions are unfolded into their cases.
attribute [local simp] at? operandPaths

theorem operandPaths_single {e : Expr} (h : e.isComma = false) : e.operandPaths = [[]] := by
  unfold operandPaths
  split
  · cases h
  · rfl

theorem at?_cons_of_single {e : Expr} (h : e.isComma = false) (side : CommaSide)
    (path : List CommaSide) : e.at? (side :: path) = none := by
  unfold at?
  split
  · contradiction
  · cases h
  · cases h
  · rfl

/-- The list holds the trees at the paths. -/
theorem commaList_at? (e : Expr) : e.commaList.map some = e.operandPaths.map e.at? := by
  induction e using commaInduction with
  | comma pos left right ihLeft ihRight =>
    rw [commaList_comma, List.map_append, ihLeft, ihRight, operandPaths, List.map_append,
      List.map_map, List.map_map]
    rfl
  | single e h =>
    rw [commaList_single h, operandPaths_single h, List.map_singleton, List.map_singleton, at?]

/-- The paths are those that come to something else than a comma. -/
theorem mem_operandPaths {e : Expr} {path : List CommaSide} :
    path ∈ e.operandPaths ↔ ∃ a, e.at? path = some a ∧ a.isComma = false := by
  induction e using commaInduction generalizing path with
  | comma pos left right ihLeft ihRight =>
    rw [operandPaths, List.mem_append, List.mem_map, List.mem_map]
    cases path with
    | nil => simp [isComma]
    | cons side path =>
      cases side with
      | left => simpa using ihLeft
      | right => simpa using ihRight
  | single e h =>
    rw [operandPaths_single h, List.mem_singleton]
    cases path with
    | nil => simp [h]
    | cons side path => simp [at?_cons_of_single h]

/-- The paths are in order, so that no place comes twice. -/
theorem pairwise_operandPaths (e : Expr) : e.operandPaths.Pairwise Precedes := by
  induction e using commaInduction with
  | comma pos left right ihLeft ihRight =>
    rw [operandPaths, List.pairwise_append]
    refine ⟨ihLeft.map _ fun _ _ => .along .left, ihRight.map _ fun _ _ => .along .right, ?_⟩
    intro p hp q hq
    obtain ⟨p, -, rfl⟩ := List.mem_map.1 hp
    obtain ⟨q, -, rfl⟩ := List.mem_map.1 hq
    exact .parting p q
  | single e h =>
    rw [operandPaths_single h]
    exact List.pairwise_singleton _ _

/-- No operand is a comma. -/
theorem isComma_of_mem_commaList {e a : Expr} (h : a ∈ e.commaList) : a.isComma = false := by
  induction e using commaInduction with
  | comma pos left right ihLeft ihRight =>
    rw [commaList_comma, List.mem_append] at h
    exact h.elim ihLeft ihRight
  | single e hsingle =>
    rw [commaList_single hsingle, List.mem_singleton] at h
    exact h ▸ hsingle

/-- How many trees are looked at: the operands and the commas between them. -/
def commaSize : Expr → Nat
  | ⟨_, .binary .comma left right⟩ => left.commaSize + right.commaSize + 1
  | _ => 1

theorem commaSize_pos (e : Expr) : 0 < e.commaSize := by
  unfold commaSize
  split
  · exact Nat.succ_pos _
  · exact Nat.one_pos

theorem commaSize_single {e : Expr} (h : e.isComma = false) : e.commaSize = 1 := by
  unfold commaSize
  split
  · cases h
  · rfl

end Expr

/-! ## Flattening with a stack -/

/-- A chain that is being taken apart: the trees that are still to be looked at, the next one first,
and the operands that have been found. -/
structure Flattening where
  pending : List Expr
  found : List Expr

namespace Flattening

/-- Look at the next tree: both sides of a comma are to be looked at, the left one first, and
anything else has been found. -/
def step : Flattening → Flattening
  | ⟨[], found⟩ => ⟨[], found⟩
  | ⟨⟨_, .binary .comma left right⟩ :: pending, found⟩ => ⟨left :: right :: pending, found⟩
  | ⟨e :: pending, found⟩ => ⟨pending, found ++ [e]⟩

theorem step_single {e : Expr} (h : e.isComma = false) (pending found : List Expr) :
    step ⟨e :: pending, found⟩ = ⟨pending, found ++ [e]⟩ := by
  unfold step
  split
  · cases ‹_›
  · rename_i heq
    cases heq
    cases h
  · rename_i heq
    cases heq
    rfl

/-- What will have been found in the end. -/
def outcome (f : Flattening) : List Expr := f.found ++ f.pending.flatMap Expr.commaList

/-- How many steps are still to be made. -/
def remaining (f : Flattening) : Nat := (f.pending.map Expr.commaSize).sum

/-- A step leads one tree further and changes nothing of what will be found. -/
theorem outcome_step (f : Flattening) :
    f.step.outcome = f.outcome ∧ (f.pending ≠ [] → f.step.remaining + 1 = f.remaining) := by
  obtain ⟨pending, found⟩ := f
  cases pending with
  | nil => exact ⟨rfl, fun h => absurd rfl h⟩
  | cons e pending =>
    induction e using Expr.commaInduction with
    | comma pos left right _ _ =>
      simp only [step, outcome, remaining, List.flatMap_cons, List.map_cons, List.sum_cons,
        Expr.commaList_comma, Expr.commaSize, List.append_assoc, true_and]
      omega
    | single e h =>
      simp only [step_single h, outcome, remaining, List.flatMap_cons, List.map_cons,
        List.sum_cons, Expr.commaList_single h, Expr.commaSize_single h, List.append_assoc,
        true_and]
      omega

/-- As many steps as remain lead to the outcome. -/
theorem iterate_step (f : Flattening) : step^[f.remaining] f = ⟨[], f.outcome⟩ := by
  induction hn : f.remaining generalizing f with
  | zero =>
    obtain ⟨pending, found⟩ := f
    cases pending with
    | nil => rw [outcome, List.flatMap_nil, List.append_nil, Function.iterate_zero, id]
    | cons e pending =>
      rw [remaining, List.map_cons, List.sum_cons] at hn
      exact absurd hn (by have := e.commaSize_pos; omega)
  | succ n ih =>
    obtain ⟨houtcome, hremaining⟩ := f.outcome_step
    have hpending : f.pending ≠ [] := by
      intro hnil
      rw [remaining, hnil] at hn
      cases hn
    have hstep : f.step.remaining = n := by
      have := hremaining hpending
      omega
    rw [Function.iterate_succ_apply, ih f.step hstep, houtcome]

end Flattening

/-! ## Building chains -/

/-- A way to put commas between trees. -/
inductive CommaTree where
  | operand (e : Expr)
  | comma (pos : Position) (left right : CommaTree)

namespace CommaTree

/-- The chain. -/
def toExpr : CommaTree → Expr
  | operand e => e
  | comma pos left right => ⟨pos, .binary .comma left.toExpr right.toExpr⟩

/-- The trees that the commas are put between. -/
def operands : CommaTree → List Expr
  | operand e => [e]
  | comma _ left right => left.operands ++ right.operands

/-- A chain over trees that are no commas is flattened into these trees. -/
theorem commaList_toExpr (t : CommaTree) (h : ∀ a ∈ t.operands, a.isComma = false) :
    t.toExpr.commaList = t.operands := by
  induction t with
  | operand e => exact Expr.commaList_single (h e (List.mem_singleton.2 rfl))
  | comma pos left right ihLeft ihRight =>
    rw [toExpr, Expr.commaList_comma, operands,
      ihLeft fun a ha => h a (List.mem_append_left _ ha),
      ihRight fun a ha => h a (List.mem_append_right _ ha)]

end CommaTree

/-- Flattening a chain of commas ends, with the trees that are reached through commas alone and are
no commas themselves: each place once, left to right, and the trees as they are. Every chain that is
built over them is flattened into them again. -/
theorem Expr.commaList_faithful (e : Expr) :
    Flattening.step^[e.commaSize] ⟨[e], []⟩ = ⟨[], e.commaList⟩ ∧
    (∀ a ∈ e.commaList, a.isComma = false) ∧
    (∃ paths : List (List CommaSide), paths.Pairwise Precedes ∧ paths.Nodup ∧
      (∀ path, path ∈ paths ↔ ∃ a, e.at? path = some a ∧ a.isComma = false) ∧
      e.commaList.map some = paths.map e.at?) ∧
    ∀ tree : CommaTree, tree.operands = e.commaList → tree.toExpr.commaList = e.commaList := by
  refine ⟨?_, fun a ha => isComma_of_mem_commaList ha, ⟨e.operandPaths, ?_⟩, fun tree htree => ?_⟩
  · have hrun := Flattening.iterate_step ⟨[e], []⟩
    simpa [Flattening.remaining, Flattening.outcome] using hrun
  · have hordered := e.pairwise_operandPaths
    exact ⟨hordered, hordered.imp Precedes.ne, fun _ => mem_operandPaths, e.commaList_at?⟩
  · rw [tree.commaList_toExpr, htree]
    rw [htree]
    exact fun a ha => isComma_of_mem_commaList ha

end ScriptFront
