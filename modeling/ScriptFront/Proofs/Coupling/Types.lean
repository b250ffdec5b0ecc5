import ScriptFront.Grammar.Types
import ScriptFront.Proofs.Coupling.Parser

/-!
# Coupled readings of types

Two grammars are coupled if each production of the one is coupled with the same production of the
other, in any two modes. A type read with one of them is then coupled with a type read with the
other.
-/

namespace ScriptFront

open ScriptFront.Parser

namespace Simulation

variable {σ τ : Type} [ByteSource σ] [ByteSource τ] (S : Simulation σ τ)

/-- Each production of `g` is coupled with the same one of `g'`, whatever the modes. -/
def Grammars (g : Grammar σ) (g' : Grammar τ) : Prop :=
  ∀ (m n : Mode) (production : Production),
    S.Coupled Yield.Agree (g m production) (g' n production)

/-- A symbol that is cut is cut in both readings. -/
theorem narrow {p : Parser σ} {q : Parser τ} (hs : S.state p q) {whole part : Symbol}
    (hwhole : p.current.kind = whole) (hpart : whole.cut? = some part) :
    S.CoupledAt p q Eq (Parser.narrow part 1) (Parser.narrow part 1) :=
  .ok rfl ⟨S.narrow_state hs hwhole hpart, rfl⟩

/-- A closing angle is cut off the same symbol in both readings. -/
theorem splitClosingAngle :
    S.Coupled Eq (Grammar.splitClosingAngle : Parse σ Unit) Grammar.splitClosingAngle := by
  refine S.kindAt fun p q hs => ?_
  split
  · next h =>
    simp only [Bool.or_eq_true, decide_eq_true_eq] at h
    rcases h with (h | h) | h
    · exact S.narrow hs h rfl
    · exact S.narrow hs h rfl
    · exact S.narrow hs h rfl
  · exact Coupled.pure rfl hs

theorem rejectVoid (use : VoidUse) :
    S.Coupled Eq (Grammar.rejectVoid use : Parse σ Unit) (Grammar.rejectVoid use) :=
  (S.check _).bindEq fun _ => .ite _ (S.failAtStart nofun rfl) (.pure rfl)

theorem arraySize : S.Coupled Eq (Grammar.arraySize : Parse σ Nat) Grammar.arraySize := by
  refine S.save.bind fun b _ hb => hb.1 ▸ S.kind.bindEq fun k => ?_
  split
  · exact S.failHere nofun fun _ => rfl
  · refine S.advance.bindEq fun t => ?_
    dsimp only
    split
    · exact .ite _ (.pure rfl) (S.failAt hb.2 nofun rfl)
    · exact S.failAt hb.2 nofun rfl

theorem arrayDim : S.Coupled Eq (Grammar.arrayDim : Parse σ ArrayDim) Grammar.arrayDim :=
  (S.check _).bindEq fun _ =>
    .ite _ (S.drop.bindEq fun _ => .pure rfl)
      (S.arraySize.bindEq fun _ => (S.mark _).bindEq fun _ => .pure rfl)

variable (m n : Mode)

theorem arrayDims :
    S.Coupled Yield.Agree (Grammar.arrayDims m : Parse σ _) (Grammar.arrayDims n) :=
  S.listWhile (S.eat _) (S.arrayDim.bindEq fun _ => .pure (Yield.agree_pure _))

theorem selfType :
    S.Coupled Yield.Agree (Grammar.selfType m : Parse σ _) (Grammar.selfType n) := by
  refine S.get.bind fun p q hs => ?_
  rw [S.inTrait_eq hs]
  exact .ite _ (S.drop.bindEq fun _ => .pure (Yield.agree_pure _)) (S.failAtStart nofun rfl)

theorem absenceSuffix {m n : Mode} {start : Bookmark} (hstart : S.known start) (isVoid : Bool)
    {a : Yield m TypeExpr} {b : Yield n TypeExpr} (h : Yield.Agree a b) :
    S.Coupled Yield.Agree (Grammar.absenceSuffix m start isVoid a : Parse σ _)
      (Grammar.absenceSuffix n start isVoid b) := by
  refine (S.check _).bindEq fun _ => .ite _ (.ite _ (S.failAt hstart nofun rfl) ?_) (.pure h)
  exact S.drop.bindEq fun _ => .pure (h.map _)

theorem arraySuffix {m n : Mode} {start : Bookmark} (hstart : S.known start) (isVoid : Bool)
    {a : Yield m TypeExpr} {b : Yield n TypeExpr} (h : Yield.Agree a b) :
    S.Coupled Yield.Agree (Grammar.arraySuffix m start isVoid a : Parse σ _)
      (Grammar.arraySuffix n start isVoid b) := by
  refine (S.check _).bindEq fun _ => .ite _ (.ite _ (S.failAt hstart nofun rfl) ?_) (.pure h)
  refine (S.arrayDims m n).bind fun c d hcd => (S.eat _).bindEq fun _ => ?_
  exact .ite _ (.pure (((h.map _).seq hcd).map _)) (.pure ((h.map _).seq hcd))

/-! ## With the parts of a grammar -/

variable {S} {g : Grammar σ} {g' : Grammar τ} (hg : S.Grammars g g')

include hg

namespace Grammars

theorem valueType :
    S.Coupled Yield.Agree (g.valueType m) (g'.valueType n) :=
  (S.rejectVoid _).bindEq fun _ => hg m n .type

theorem genericArg :
    S.Coupled Yield.Agree (g.genericArg m) (g'.genericArg n) :=
  (S.rejectVoid _).bindEq fun _ => (hg m n .type).bind fun _ _ h =>
    S.splitClosingAngle.bindEq fun _ => .pure h

theorem genericArgs :
    S.Coupled Yield.Agree (g.genericArgs m) (g'.genericArgs n) :=
  (S.mark _).bindEq fun _ => S.closedList _ (hg.genericArg m n)

theorem pathSegment (root : Bool) :
    S.Coupled Yield.Agree (g.pathSegment m root) (g'.pathSegment n root) := by
  refine S.position.bindEq fun pos => S.expectIdentifier.bindEq fun name => ?_
  refine (S.check _).bindEq fun _ => .ite _ ?_ (.pure (Yield.agree_pure _))
  exact (hg.genericArgs m n).yieldMap _

theorem typePath :
    S.Coupled Yield.Agree (g.typePath m) (g'.typePath n) := by
  refine (S.eat _).bindEq fun root => (hg.pathSegment m n root).bind fun _ _ hhead => ?_
  refine (S.listWhile (S.eat _) (hg.pathSegment m n false)).bind fun _ _ htail => ?_
  exact .pure ((hhead.map _).seq htail)

theorem functionPartsOnto {m n : Mode} (steps : Nat) {a : Yield m (Array TypeExpr)}
    {b : Yield n (Array TypeExpr)} (h : Yield.Agree a b) :
    S.Coupled (fun x y => Yield.Agree x.1 y.1 ∧ Yield.Agree x.2 y.2)
      (g.functionPartsOnto m steps a) (g'.functionPartsOnto n steps b) := by
  induction steps generalizing a b with
  | zero => exact S.failAtStart nofun rfl
  | succ steps ih =>
    refine S.kind.bindEq fun k => .ite _ ?_ (.ite _ ?_ ?_)
    · exact S.position.bindEq fun _ => S.drop.bindEq fun _ => .pure ⟨h, Yield.agree_pure _⟩
    · exact S.drop.bindEq fun _ => (hg m n .type).bind fun _ _ hr =>
        (S.mark _).bindEq fun _ => .pure ⟨h, hr⟩
    · refine (hg.valueType m n).bind fun _ _ hp => S.kind.bindEq fun k => ?_
      refine .ite _ (S.drop.bindEq fun _ => ih (h.push hp)) (.ite _ ?_ (S.failAtStart nofun rfl))
      exact ih (h.push hp)

theorem functionType :
    S.Coupled Yield.Agree (g.functionType m) (g'.functionType n) := by
  refine (S.mark _).bindEq fun _ => (S.mark _).bindEq fun _ => S.listBound.bindEq fun steps => ?_
  refine (hg.functionPartsOnto steps (Yield.agree_pure _)).bind fun a b hab => ?_
  exact .pure (((hab.1.map _).map _).seq hab.2)

theorem tupleType :
    S.Coupled Yield.Agree (g.tupleType m) (g'.tupleType n) :=
  (S.mark _).bindEq fun _ =>
    (S.closedList _ (hg.valueType m n)).yieldMap _

theorem baseType :
    S.Coupled Yield.Agree (g.baseType m) (g'.baseType n) := by
  refine S.kind.bindEq fun k => ?_
  split
  · exact S.drop.bindEq fun _ => .pure (Yield.agree_pure _)
  · exact hg.functionType m n
  · exact hg.tupleType m n
  · exact S.selfType m n
  · exact (hg.typePath m n).yieldMap _
  · exact (hg.typePath m n).yieldMap _
  · exact S.unexpected

theorem typeStep :
    S.Coupled Yield.Agree (g.typeStep m) (g'.typeStep n) := by
  refine S.save.bind fun start _ hstart => hstart.1 ▸ (S.check _).bindEq fun isVoid => ?_
  refine (hg.baseType m n).bind fun _ _ hform => ?_
  refine (S.absenceSuffix hstart.2 isVoid (hform.map _)).bind fun _ _ h => ?_
  exact S.arraySuffix hstart.2 isVoid h

end Grammars

end Simulation

end ScriptFront
