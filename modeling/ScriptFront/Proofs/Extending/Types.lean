import ScriptFront.Grammar.Types
import ScriptFront.Proofs.Extending.Basic

/-!
# Types in front of a symbol

A type is the same at the end of a text and in front of `{` or a dot, and so is an error. A grammar
that reads types so reads type arguments and paths so.

- `Extension.Types`: a grammar that reads types as it does over the first text.
- `Extension.Types.typeStep`: a step more of it.
- `Extension.types_upTo`: the types of the grammar.
-/

namespace ScriptFront

open ScriptFront.Parser

namespace Extension

variable {E : Extension} {p q : Parser Buffer} {m : Mode}

/-- What is mirrored is kept, whether errors count or not. -/
theorem Keeps.weaken {α : Type} {mirrored : Prop} {x : Parse Buffer α} (h : E.Keeps True x) :
    E.Keeps mirrored x := by
  intro p q hs
  have hx := h hs
  unfold At at hx ⊢
  generalize x.run p = r at hx
  generalize x.run q = r' at hx
  cases hx with
  | ok state => exact .ok state
  | error void_iff => exact .error void_iff
  | unmirrored h => exact absurd trivial h

/-! ## Parts without types inside -/

theorem splitClosingAngle : E.Keeps True (Grammar.splitClosingAngle : Parse Buffer Unit) := by
  intro p q hs
  refine .kind hs (fun htwin => .ite (fun h => ?_) fun _ => .pure hs _) fun hparted => ?_
  · simp only [Bool.or_eq_true, decide_eq_true_eq] at h
    rcases h with (h | h) | h
    · exact .narrow htwin h rfl
    · exact .narrow htwin h rfl
    · exact .narrow htwin h rfl
  · rcases E.next_eq with h | h
    · rw [h]
      exact .pure hs ()
    · rw [h]
      exact .pure hs ()

theorem rejectVoid (use : VoidUse) : E.Keeps True (Grammar.rejectVoid use : Parse Buffer Unit) :=
  fun _ _ hs => .check hs (by decide) (fun _ _ => .failAtStart _) (.pure hs _)

theorem arraySize : E.Keeps True (Grammar.arraySize : Parse Buffer Nat) := by
  refine .of_twin (fun hs => .save hs (.kind (.inl hs) (fun _ => ?_) fun hparted => ?_))
    (.of_stalls ?_)
  · split
    · exact .failHere nofun
    · refine (At.advance hs).bind fun t _ _ _ hs' => ?_
      dsimp only
      split
      · exact .ite (fun _ => .pure hs' _) fun _ => .failAt _ _ _
      · exact .failAt _ _ _
  · exact absurd hparted.kind_eq hs.kind_ne
  · refine of_partings ?_ ?_ ?_
    · exact .save fun _ => .kind (.failHere nofun)
    · exact .save fun _ => .kind (.failHere nofun)
    · exact .save fun _ => .kind (.failHere nofun)

theorem arrayDim : E.Keeps True (Grammar.arrayDim : Parse Buffer ArrayDim) := by
  intro p q hs
  refine .check hs (by decide) (fun htwin _ => ?_) ?_
  · exact (At.drop htwin).bind fun _ _ _ _ hs' => .pure hs' _
  · exact (arraySize.bind fun _ => (Keeps.mark (by decide)).bind fun _ => .pure _) hs

theorem arrayDims : E.Keeps True (Grammar.arrayDims m : Parse Buffer _) :=
  .listWhile (.eat (by decide)) (arrayDim.bind fun _ => .pure _)

theorem selfType (hs : E.Twin p q) :
    E.At True p q (Grammar.selfType m : Parse Buffer _) (Grammar.selfType m) := by
  have hrun {r : Parser Buffer} : (Grammar.selfType m : Parse Buffer _).run r =
      (if r.inTrait then do
        Parser.drop
        return Pure.pure .selfType
      else Parser.failAtStart .selfOutsideTrait : Parse Buffer (Yield m TypeForm)).run r := rfl
  unfold At
  rw [hrun, hrun, hs.inTrait_eq]
  exact At.ite (fun _ => (At.drop hs).bind fun _ _ _ _ hs' => .pure hs' _) fun _ => .failAtStart _

theorem absenceSuffix (start : Bookmark) (isVoid : Bool) (type : Yield m TypeExpr) :
    E.Keeps True (Grammar.absenceSuffix m start isVoid type : Parse Buffer _) := by
  intro p q hs
  refine .check hs (by decide) (fun htwin _ => ?_) (.pure hs _)
  cases isVoid with
  | true => exact .failAt _ _ _
  | false => exact (At.drop htwin).bind fun _ _ _ _ hs' => .pure hs' _

theorem arraySuffix (start : Bookmark) (isVoid : Bool) (element : Yield m TypeExpr) :
    E.Keeps True (Grammar.arraySuffix m start isVoid element : Parse Buffer _) := by
  refine (Keeps.check (by decide)).bind fun _ => .ite (.ite ?_ ?_) (.pure _)
  · exact fun _ _ _ => .failAt _ _ _
  · refine arrayDims.bind fun dims => ?_
    exact (Keeps.eat (by decide)).bind fun _ => .ite (.pure _) (.pure _)

/-! ## With the parts of a grammar -/

variable (E) in
/-- Types that are read with the grammar are the same over the second text. -/
def Types (g : Grammar Buffer) : Prop := ∀ m, E.Keeps True (g.type m)

namespace Types

variable {g : Grammar Buffer} (hg : E.Types g)

include hg

theorem valueType : E.Keeps True (g.valueType m) := (rejectVoid _).bind fun _ => hg m

theorem genericArg : E.Keeps True (g.genericArg m) :=
  (rejectVoid _).bind fun _ => (hg m).bind fun _ => splitClosingAngle.bind fun _ => .pure _

theorem genericArgs : E.Keeps True (g.genericArgs m) :=
  (Keeps.mark (by decide)).bind fun _ =>
    .closedList _ (by decide) hg.genericArg

theorem pathSegment (root : Bool) : E.Keeps True (g.pathSegment m root) := by
  refine .position (fun _ => Keeps.expectIdentifier.bind fun _ => ?_)
    fun _ => Stuck.expectIdentifier.bind
  refine (Keeps.check (by decide)).bind fun _ => .ite ?_ (.pure _)
  exact hg.genericArgs.bind fun _ => .pure _

theorem typePath : E.Keeps True (g.typePath m) := by
  refine (Keeps.eat (by decide)).bind fun root => (hg.pathSegment root).bind fun _ => ?_
  exact (Keeps.listWhile (.eat (by decide)) (hg.pathSegment false)).bind fun _ => .pure _

theorem functionPartsOnto (steps : Nat) (params : Yield m (Array TypeExpr)) :
    E.Keeps True (g.functionPartsOnto m steps params) := by
  have hclose : .symbol .rParen ∉ partings := by decide
  have harrow : .symbol .arrow ∉ partings := by decide
  have hcomma : .symbol .comma ∉ partings := by decide
  induction steps generalizing params with
  | zero => exact fun _ _ _ => .failAtStart _
  | succ steps ih =>
    have hparam : E.Keeps True (do
        let param ← g.valueType m
        let params := params.push param
        let k ← kind
        if k = Symbol.comma then
          drop
          g.functionPartsOnto m steps params
        else if k = Symbol.rParen || k = Symbol.arrow then g.functionPartsOnto m steps params
        else failAtStart .unclosedFunctionType) := by
      refine hg.valueType.bind fun param p q hs => .kind hs (fun htwin => ?_) fun _ => ?_
      · refine .ite (fun _ => ?_) fun _ => .ite (fun _ => ih _ hs) fun _ => .failAtStart _
        exact (At.drop htwin).bind fun _ _ _ _ hs' => ih _ hs'
      · rw [if_neg (eof_ne hcomma), if_neg (next_ne hcomma)]
        simp only [eof_ne hclose, next_ne hclose, eof_ne harrow, next_ne harrow, decide_false,
          Bool.or_self, Bool.false_eq_true, if_false]
        exact .failAtStart _
    intro p q hs
    refine .kind hs (fun htwin => ?_) fun _ => ?_
    · refine .ite (fun _ => ?_) fun _ => .ite (fun _ => ?_) fun _ => hparam hs
      · exact .position htwin fun _ => (At.drop htwin).bind fun _ _ _ _ hs' => .pure hs' _
      · refine (At.drop htwin).bind fun _ _ _ _ hs' => ((hg m).bind fun _ => ?_) hs'
        exact (Keeps.mark hclose).bind fun _ => .pure _
    · rw [if_neg (eof_ne hclose), if_neg (next_ne hclose), if_neg (eof_ne harrow),
        if_neg (next_ne harrow)]
      exact hparam hs

theorem functionType : E.Keeps True (g.functionType m) := by
  refine (Keeps.mark (by decide)).bind fun _ =>
    (Keeps.mark (by decide)).bind fun _ p q hs => .listBound hs fun steps => ?_
  exact ((hg.functionPartsOnto steps _).bind fun _ => .pure _) hs

theorem tupleType : E.Keeps True (g.tupleType m) :=
  (Keeps.mark (by decide)).bind fun _ =>
    (Keeps.closedList _ (by decide) hg.valueType).bind fun _ => .pure _

omit hg in
theorem stalls_baseType : ∀ k ∈ partings, Stalls k (g.baseType m) :=
  of_partings (.kind .unexpected) (.kind .unexpected) (.kind .unexpected)

theorem baseType : E.Keeps True (g.baseType m) := by
  refine .of_twin (fun hs => .kind (.inl hs) (fun _ => ?_) fun hparted => ?_)
    (.of_stalls stalls_baseType)
  · have hnamed (path : Yield m TypePath) :
        E.Keeps True (Pure.pure (TypeForm.named <$> path)) := .pure _
    have hpath := (hg.typePath (m := m)).bind hnamed
    split
    · exact (At.drop hs).bind fun _ _ _ _ hs' => .pure hs' _
    · exact hg.functionType (.inl hs)
    · exact hg.tupleType (.inl hs)
    · exact selfType hs
    · exact hpath (.inl hs)
    · exact hpath (.inl hs)
    · exact .unexpected
  · exact absurd hparted.kind_eq hs.kind_ne

omit hg in
theorem stalls_typeStep : ∀ k ∈ partings, Stalls k (g.typeStep m) := by
  intro k hk
  refine .save fun _ => .check ?_ (stalls_baseType k hk).bind
  rintro rfl
  exact absurd hk (by decide)

theorem typeStep : E.Keeps True (g.typeStep m) := by
  refine .of_twin (fun hs => .save hs ?_) (.of_stalls stalls_typeStep)
  refine ((Keeps.check (by decide)).bind fun isVoid => ?_) (.inl hs)
  exact hg.baseType.bind fun _ => (absenceSuffix _ isVoid _).bind fun _ => arraySuffix _ isVoid _

end Types

variable (E) in
/-- However deep it nests, the grammar reads types as it does over the first text. -/
theorem types_upTo (depth : Nat) : E.Types (Grammar.upTo depth) := by
  induction depth with
  | zero => exact fun _ _ _ _ => .failAtStart _
  | succ depth ih => exact fun _ => ih.typeStep

end Extension

end ScriptFront
