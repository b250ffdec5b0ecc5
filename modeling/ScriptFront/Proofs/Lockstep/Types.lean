import ScriptFront.Grammar.Types
import ScriptFront.Proofs.Lockstep.Lists
import ScriptFront.Proofs.Writing.Unplaced

/-!
# Types in lockstep

If two grammars go together below a number, a step more of them goes together with one more left:
a type takes a token first, and what it has behind that token has less left.
-/

namespace ScriptFront

open ScriptFront.Parser

namespace Lockstep

/-- Types that are read with two grammars go together, and differ in places only. -/
def Types (L : Lockstep) (n : Nat) (g g' : Grammar Buffer) : Prop :=
  ∀ m, L.Below n 1 (Yield.Like TypeExpr.unplaced) (g.type m) (g'.type m)

variable {L : Lockstep} {n i : Nat} {p q : Parser Buffer}

theorem splitClosingAngle :
    L.Below n 0 Eq (Grammar.splitClosingAngle : Parse Buffer Unit) Grammar.splitClosingAngle := by
  intro i p q hi hs
  refine .kind hs (.ite (fun h => ?_) fun _ => .pure hs rfl)
  simp only [Bool.or_eq_true, decide_eq_true_eq] at h
  rcases h with (h | h) | h
  · exact .narrow hs h rfl
  · exact .narrow hs h rfl
  · exact .narrow hs h rfl

theorem rejectVoid (use : VoidUse) :
    L.Below n 0 Eq (Grammar.rejectVoid use : Parse Buffer Unit) (Grammar.rejectVoid use) :=
  (Below.check _).bindEq fun _ => .ite _ (.failAtStart nofun) (.pure rfl)

theorem arraySize : L.Below n 1 Eq (Grammar.arraySize : Parse Buffer Nat) Grammar.arraySize := by
  intro i p q hi hs
  refine .save hs fun hknown => .kind hs ?_
  split
  · exact .failHere hs nofun
  · next form hform =>
    have hkind : p.current.kind = .integer form := by
      cases hk : p.current.kind with
      | integer form' =>
        rw [hk] at hform
        exact congrArg TokenKind.integer (Option.some.inj hform)
      | _ =>
        rw [hk] at hform
        cases hform
    refine (At.advance hs (by rw [hkind]; nofun) fun h => ?_).after (Nat.le_of_lt hi) ?_
    · rw [hkind] at h
      cases h
    · rintro t t' ⟨⟨-, htext⟩, -⟩
      dsimp only
      rw [← htext]
      split
      · exact .ite _ (.pure rfl) (.failAt hknown nofun)
      · exact .failAt hknown nofun

theorem arrayDim :
    L.Below n 1 Eq (Grammar.arrayDim : Parse Buffer ArrayDim) Grammar.arrayDim := by
  intro i p q hi hs
  refine .check hs (fun hkind => ?_) fun _ => ?_
  · exact (At.drop hs hkind).after (Nat.le_of_lt hi) fun _ _ _ => .pure rfl
  · exact (arraySize.andThenEq fun _ => (Below.mark _).weaken.bindEq fun _ => .pure rfl) hi hs

variable (m : Mode)

theorem arrayDims :
    L.Below n 0 (Yield.Like (List.map id)) (Grammar.arrayDims m : Parse Buffer _)
      (Grammar.arrayDims m) :=
  .listWhile (Below.eat _) (arrayDim.map fun _ _ h => Yield.rel_pure h)

theorem selfType (hs : L.state i p q) (hkind : p.current.kind = Keyword.selfKw) :
    L.At i 1 p q (Yield.Like TypeForm.unplaced) (Grammar.selfType m : Parse Buffer _)
      (Grammar.selfType m) := by
  refine .getThen ?_
  rw [← L.inTrait_eq hs]
  refine .ite (fun htrait => ?_) fun _ => .failAtStart hs nofun
  have hadvance := At.advance hs (by rw [hkind]; nofun) fun _ => htrait
  have hdrop : L.At i 1 p q Eq Parser.drop Parser.drop :=
    hadvance.bindRun (fun _ _ _ _ _ _ _ _ hbehind => .pure hbehind.state rfl) (Nat.le_refl 1)
  exact hdrop.after (Nat.le_refl i) fun _ _ _ => .pure (Yield.rel_pure rfl)

variable {m : Mode}

theorem orAbsent_congr {t t' : TypeExpr} (h : t.unplaced = t'.unplaced) :
    t.orAbsent.unplaced = t'.orAbsent.unplaced := by
  obtain ⟨pos, nullable, form⟩ := t
  obtain ⟨pos', nullable', form'⟩ := t'
  have hform : form.unplaced = form'.unplaced := congrArg TypeExpr.form h
  rw [TypeExpr.orAbsent, TypeExpr.orAbsent, TypeExpr.unplaced, TypeExpr.unplaced, hform]

theorem absenceSuffix {start start' : Bookmark} (hstart : At.Known L start start') (isVoid : Bool)
    {a b : Yield m TypeExpr} (h : Yield.Like TypeExpr.unplaced a b) :
    L.Below n 0 (Yield.Like TypeExpr.unplaced) (Grammar.absenceSuffix m start isVoid a)
      (Grammar.absenceSuffix m start' isVoid b) := by
  intro i p q hi hs
  refine .check hs (fun hkind => ?_) fun _ => .pure hs h
  cases isVoid with
  | true => exact .failAt hs hstart nofun
  | false =>
    exact (At.drop hs hkind).weaken.bind hi fun _ _ _ => .pure (h.map fun _ _ => orAbsent_congr)

theorem arraySuffix {start start' : Bookmark} (hstart : At.Known L start start') (isVoid : Bool)
    {a b : Yield m TypeExpr} (h : Yield.Like TypeExpr.unplaced a b) :
    L.Below n 0 (Yield.Like TypeExpr.unplaced) (Grammar.arraySuffix m start isVoid a)
      (Grammar.arraySuffix m start' isVoid b) := by
  refine (Below.check _).bindEq fun _ => .ite _ (.ite _ (.failAt hstart nofun) ?_) (.pure h)
  refine (arrayDims m).bind fun dims dims' hdims => (Below.eat _).bindEq fun _ => ?_
  have harray : Yield.Rel (fun e e' => e.unplaced = e'.unplaced)
      ((fun element dims => TypeExpr.plain start.position (.array element dims)) <$> a <*> dims)
      ((fun element dims => TypeExpr.plain start'.position (.array element dims)) <$> b
        <*> dims') := by
    refine h.map₂ hdims fun a b dims dims' hab hdims => ?_
    rw [List.map_id, List.map_id] at hdims
    simp only [TypeExpr.plain, TypeExpr.unplaced, TypeForm.unplaced, hab, hdims]
  exact .ite _ (.pure (harray.map fun _ _ => orAbsent_congr)) (.pure harray)

/-! ## With the parts of a grammar -/

namespace Types

variable {g g' : Grammar Buffer} (hg : L.Types n g g')

include hg

theorem valueType :
    L.Below n 1 (Yield.Like TypeExpr.unplaced) (g.valueType m) (g'.valueType m) :=
  (rejectVoid _).bindEq fun _ => hg m

theorem genericArg :
    L.Below n 1 (Yield.Like TypeExpr.unplaced) (g.genericArg m) (g'.genericArg m) :=
  (rejectVoid _).bindEq fun _ => (hg m).andThen fun _ _ h =>
    splitClosingAngle.bindEq fun _ => .pure h

theorem genericArgs :
    L.Below (n + 1) 1 (Yield.Like (List.map TypeExpr.unplaced)) (g.genericArgs m)
      (g'.genericArgs m) :=
  (Below.mark _).afterEq fun _ => (Below.closedList _ hg.genericArg).weaken

theorem pathSegment (root : Bool) :
    L.Below (n + 1) 1 (Yield.Like PathSegment.unplaced) (g.pathSegment m root)
      (g'.pathSegment m root) := by
  refine Below.position.bind fun _ _ _ => Below.expectIdentifier.afterEq fun name => ?_
  refine (Below.check _).bindEq fun _ => .ite _ ?_ (.pure (Yield.rel_pure rfl))
  refine hg.genericArgs.less.weaken.yieldMap fun a b hab => ?_
  simp only [PathSegment.unplaced, TypeExpr.unplacedAll_eq_map, hab]

theorem typePath :
    L.Below (n + 1) 1 (Yield.Like TypePath.unplaced) (g.typePath m) (g'.typePath m) := by
  refine (Below.eat _).bindEq fun root => (hg.pathSegment root).andThen fun _ _ hhead => ?_
  refine (Below.listWhile (Below.eat _) (hg.pathSegment false)).bind fun _ _ htail => ?_
  refine .pure (hhead.map₂ htail fun a b c d hab hcd => ?_)
  simp only [TypePath.unplaced, PathSegment.unplacedAll_eq_map, hab, hcd]

theorem functionPartsOnto (steps steps' : Nat) {taken taken' : Yield m (Array TypeExpr)}
    (ht : Below.Taken TypeExpr.unplaced taken taken') (hi : i < n) (hsteps : i < steps)
    (hsteps' : i < steps') (hs : L.state i p q) :
    L.At i 1 p q (fun x y => Below.Taken TypeExpr.unplaced x.1 y.1 ∧
        Yield.Like TypeExpr.unplaced x.2 y.2)
      (g.functionPartsOnto m steps taken) (g'.functionPartsOnto m steps' taken') := by
  induction steps generalizing steps' taken taken' i p q with
  | zero => omega
  | succ steps ih =>
    obtain _ | steps' := steps'
    · omega
    refine .kind hs (.ite (fun hclose => ?_) fun _ => .ite (fun harrow => ?_) fun _ => ?_)
    · have hdrop := At.drop hs hclose
      refine .getThen (hdrop.after (Nat.le_of_lt hi) fun _ _ _ => ?_)
      exact .pure ⟨ht, Yield.rel_pure rfl⟩
    · refine (At.drop hs harrow).after (Nat.le_of_lt hi) fun _ _ _ => ?_
      exact (hg m).weaken.bind fun _ _ hr => (Below.mark _).weaken.bindEq fun _ => .pure ⟨ht, hr⟩
    · refine (hg.valueType hi hs).bindRun (m := 0) ?_ (Nat.le_refl 1)
      intro a b j p' q' _ hab hj hbehind
      refine .kind hbehind.state (.ite (fun hcomma => ?_) fun _ => .ite (fun _ => ?_) fun _ =>
        .failAtStart hbehind.state nofun)
      · refine (At.drop hbehind.state hcomma).weaken.bindRun (m := 0) ?_ (Nat.le_refl 0)
        intro _ _ j' p'' q'' _ _ hj' hbehind'
        exact (ih steps' (ht.push hab) (by omega) (by omega) (by omega) hbehind'.state).weaken
      · exact (ih steps' (ht.push hab) (by omega) (by omega) (by omega) hbehind.state).weaken

theorem functionType :
    L.Below (n + 1) 1 (Yield.Like TypeForm.unplaced) (g.functionType m) (g'.functionType m) := by
  refine (Below.markWord _ (by nofun)).afterEq fun _ => (Below.mark _).weaken.bindEq fun _ => ?_
  intro i p q hi hs
  refine .listBound hs fun steps steps' hsteps hsteps' => ?_
  refine (hg.functionPartsOnto steps steps' Yield.like_empty hi hsteps hsteps' hs).weaken.bind hi ?_
  rintro ⟨params, result⟩ ⟨params', result'⟩ ⟨hparams, hresult⟩
  refine .pure (hparams.toList.map₂ hresult fun a b c d hab hcd => ?_)
  simp only [TypeForm.unplaced, TypeExpr.unplacedAll_eq_map, hab, hcd]

theorem tupleType :
    L.Below (n + 1) 1 (Yield.Like TypeForm.unplaced) (g.tupleType m) (g'.tupleType m) := by
  refine (Below.mark _).afterEq fun _ => ?_
  refine (Below.closedList _ hg.valueType).weaken.yieldMap fun a b hab => ?_
  simp only [TypeForm.unplaced, TypeExpr.unplacedAll_eq_map, hab]

theorem baseType :
    L.Below (n + 1) 1 (Yield.Like TypeForm.unplaced) (g.baseType m) (g'.baseType m) := by
  intro i p q hi hs
  have hpath : L.Below (n + 1) 1 (Yield.Like TypeForm.unplaced)
      (do return TypeForm.named <$> (← g.typePath m))
      (do return TypeForm.named <$> (← g'.typePath m)) :=
    hg.typePath.yieldMap fun a b hab => by simp only [TypeForm.unplaced, hab]
  refine .kind hs ?_
  split
  · next hkind =>
    refine (At.dropWord hs hkind (by nofun)).after (Nat.le_of_lt_succ hi) fun _ _ _ => ?_
    exact .pure (Yield.rel_pure rfl)
  · exact hg.functionType hi hs
  · exact hg.tupleType hi hs
  · next hkind => exact selfType m hs hkind
  · exact hpath hi hs
  · exact hpath hi hs
  · exact .unexpected hs

theorem typeStep :
    L.Below (n + 1) 1 (Yield.Like TypeExpr.unplaced) (g.typeStep m) (g'.typeStep m) := by
  refine Below.save.bind fun start start' hstart => (Below.check _).bindEq fun isVoid => ?_
  refine hg.baseType.andThen fun form form' hform => ?_
  have htype : Yield.Like TypeExpr.unplaced (TypeExpr.plain start.position <$> form)
      (TypeExpr.plain start'.position <$> form') :=
    hform.map fun a b hab => by simp only [TypeExpr.plain, TypeExpr.unplaced, hab]
  exact (absenceSuffix hstart isVoid htype).bind fun _ _ h => arraySuffix hstart isVoid h

end Types

end Lockstep

end ScriptFront
