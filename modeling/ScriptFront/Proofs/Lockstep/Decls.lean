import ScriptFront.Grammar.Units
import ScriptFront.Proofs.Lockstep.Stmts

/-!
# Declarations in lockstep

Declarations are only built: readings that go together come to trees that are alike, that is, equal
but for the places of their nodes. A trait is read with the flag on behind its header; what is then
known of the way to its end is left open (`Lockstep.Bridges`).
-/

namespace ScriptFront

open ScriptFront.Parser

/-- Two trees of which `u` makes the same. -/
abbrev Alike {α β : Type} (u : α → β) (a b : α) : Prop := u a = u b

/-- What stands in front of the part of a trait where `self` is a type. -/
def Grammar.traitHead {σ : Type} [ByteSource σ] (g : Grammar σ) :
    Parse σ (String × Option GenericDecl) := do
  mark Keyword.traitKw
  let name ← expectIdentifier
  let generics ← g.generics
  return (name, generics)

theorem Grammar.traitDecl_eq {σ : Type} [ByteSource σ] (g : Grammar σ) (exported : Bool) :
    g.traitDecl exported = (do
      let pos ← position
      let (name, generics) ← g.traitHead
      let (forType, functions) ← inTraitMode g.traitBody
      return { pos, exported, name, generics, forType, functions }) := by
  simp only [Grammar.traitDecl, Grammar.traitHead, bind_assoc, pure_bind]

namespace Lockstep

/-- What is known of the way through the header of a trait leads on to its end. -/
def Bridges (L : Lockstep) (g : Grammar Buffer) : Prop :=
  ∀ {i : Nat} {p q p' p'' : Parser Buffer} {head : String × Option GenericDecl}
    {body : Option TypeExpr × List TraitFunctionDecl}, L.state i p q →
    g.traitHead.run p = (.ok head, p') → L.since p p' →
    g.traitBody.run { p' with inTrait := true } = (.ok body, p'') →
    L.since p { p'' with inTrait := p.inTrait }

variable {L : Lockstep} {n i : Nat} {p q : Parser Buffer} {g g' : Grammar Buffer}

namespace Below

variable {α β : Type} {u : α → β} {test test' : Parse Buffer Bool} {x y : Parse Buffer α} {k : Nat}

theorem builtOptionally (htest : L.Below n 0 Eq test test') (h : L.Below n k (Alike u) x y) :
    L.Below n 0 (Alike (Option.map u)) (Grammar.builtOptionally test x)
      (Grammar.builtOptionally test' y) :=
  Below.optionally (m := .build) htest h

theorem builtWhile (htest : L.Below n 0 Eq test test') (h : L.Below n 1 (Alike u) x y) :
    L.Below n 0 (Alike (List.map u)) (Grammar.builtWhile test x)
      (Grammar.builtWhile test' y) :=
  Below.listWhile (m := .build) htest h

/-- Parts up to a token, and the token. -/
theorem builtUntilThen {γ δ : Type} {W : γ → δ → Prop} (close : Symbol)
    (h : L.Below n 1 (Alike u) x y) {f : List α → Parse Buffer γ} {f' : List α → Parse Buffer δ}
    (hf : ∀ l l', Alike (List.map u) l l' → L.Below n 0 W (f l) (f' l')) :
    L.Below n 1 W
      (do
        let l ← Grammar.builtWhile (Parser.checkNot close) x
        Parser.drop
        f l)
      (do
        let l ← Grammar.builtWhile (Parser.checkNot close) y
        Parser.drop
        f' l) :=
  Below.untilThen (m := .build) close h hf

/-- One part and further ones behind a token. -/
theorem builtList (sep : Symbol) (h : L.Below n 1 (Alike u) x y) :
    L.Below n 1 (Alike (List.map u))
      (do
        let first ← x
        return first :: (← Grammar.builtWhile (Parser.eat sep) x))
      (do
        let first ← y
        return first :: (← Grammar.builtWhile (Parser.eat sep) y)) := by
  refine h.andThen fun a b hab => (builtWhile (.eat sep) h).map fun l l' hl => ?_
  simp only [Alike, List.map_cons, hab, hl]

end Below

theorem closingModifiers (isAbstract : Bool) (name : String) :
    L.Below n 0 Eq (Grammar.closingModifiers isAbstract name : Parse Buffer (Bool × Bool))
      (Grammar.closingModifiers isAbstract name) := by
  intro i p q hi hs
  refine .kind hs (.ite (fun hkind => ?_) fun _ => .pure hs rfl)
  have heof : p.current.kind ≠ .eof := fun h => by rw [h] at hkind; cases hkind
  have hself : p.current.kind ≠ Keyword.selfKw := fun h => by rw [h] at hkind; cases hkind
  have hdrop : L.At i 0 p q Eq
      (do
        Parser.drop
        return (decide (p.current.kind = Keyword.overrideKw),
          decide (p.current.kind = Keyword.finalKw)))
      (do
        Parser.drop
        return (decide (p.current.kind = Keyword.overrideKw),
          decide (p.current.kind = Keyword.finalKw))) :=
    (At.dropAny hs heof hself).weaken.bind hi fun _ _ _ => .pure rfl
  refine .ite (fun _ => ?_) fun _ => hdrop
  have hfail : L.At i 0 p q (fun (_ _ : Unit) => False)
      (failAtStart (.modifierClash (.abstractFunction name)))
      (failAtStart (.modifierClash (.abstractFunction name))) := .failAtStart hs nofun
  exact hfail.bindRun (m := 0) (fun _ _ _ _ _ _ h => h.elim) (Nat.le_refl 0)

theorem accessModifier :
    L.Below n 0 Eq (Grammar.accessModifier : Parse Buffer (Option Access))
      Grammar.accessModifier := by
  intro i p q hi hs
  refine .kind hs (.ite (fun hsome => ?_) fun _ => .pure hs rfl)
  have heof : p.current.kind ≠ .eof := fun h => by rw [h] at hsome; cases hsome
  have hself : p.current.kind ≠ Keyword.selfKw := fun h => by rw [h] at hsome; cases hsome
  exact (At.dropAny hs heof hself).weaken.bind hi fun _ _ _ => .pure rfl

namespace Grammars

variable (hg : L.Grammars n g g')

include hg

/-! ## What is built -/

theorem builtType : L.Below n 1 (Alike TypeExpr.unplaced) g.builtType g'.builtType :=
  hg.types .build

theorem builtExpr (level : Nat) :
    L.Below n 1 (Alike Expr.unplaced) (g.expr .build level) (g'.expr .build level) :=
  hg.exprs .build level

theorem builtBlock :
    L.Below n 1 (Alike Block.unplaced) (g.block .build) (g'.block .build) :=
  (hg.block (m := .build)).less

theorem builtResult :
    L.Below n 0 (Alike TypeExpr.unplaced) (g.resultType .build) (g'.resultType .build) :=
  hg.resultType (m := .build)

theorem builtVariable (exported destructures : Bool) :
    L.Below n 1 (Alike VariableDecl.unplaced) (g.variableDecl .build exported destructures)
      (g'.variableDecl .build exported destructures) :=
  (hg.variableDecl (m := .build) exported destructures).less

/-! ## Type parameters -/

theorem constraint : L.Below n 1 (Alike TypeExpr.unplaced) g.constraint g'.constraint := by
  refine Below.save.bind fun start start' hstart => hg.builtType.andThen fun a b hab => ?_
  have hnullable : a.nullable = b.nullable := by
    rw [← a.unplaced_nullable, hab, b.unplaced_nullable]
  rw [hnullable]
  exact .ite _ (.failAt hstart nofun) (.pure hab)

theorem constraints (name : String) :
    L.Below n 1 (Alike (List.map TypeExpr.unplaced)) (g.constraints name)
      (g'.constraints name) := by
  have hrest : L.Below n 0 (Alike (List.map TypeExpr.unplaced))
      (do
        Parser.mark Keyword.isKw
        let first ← g.constraint
        return first :: (← Grammar.builtWhile (Parser.eat Symbol.pipe) g.constraint))
      (do
        Parser.mark Keyword.isKw
        let first ← g'.constraint
        return first :: (← Grammar.builtWhile (Parser.eat Symbol.pipe) g'.constraint)) :=
    (Below.markWord _ (by nofun)).weaken.bindEq fun _ =>
      (Below.builtList Symbol.pipe hg.constraint).weaken
  refine (Below.markWord _ (by nofun)).andThenEq fun _ =>
    Below.save.bind fun start start' hstart => ?_
  refine Below.expectIdentifier.weaken.bindEq fun constrained => .ite _ ?_ hrest
  have hfail : L.Below n 0 (fun (_ _ : Unit) => False)
      (failAt (.foreignConstraint name) start.place)
      (failAt (.foreignConstraint name) start'.place) := .failAt hstart nofun
  exact hfail.bind fun _ _ h => h.elim

theorem genericItem : L.Below n 1 (Alike GenericItem.unplaced) g.genericItem g'.genericItem := by
  refine Below.position.bind fun pos pos' _ => Below.expectIdentifier.andThenEq fun name => ?_
  refine (Below.eat _).bindEq fun colon => (Below.check _).bindEq fun _ => .ite _ ?_ (.pure rfl)
  refine (hg.constraints name).weaken.map fun a b hab => ?_
  simp only [Alike, GenericItem.unplaced, TypeExpr.unplacedAll_eq_map, hab]

theorem genericDecl : L.Below n 1 (Alike GenericDecl.unplaced) g.genericDecl g'.genericDecl := by
  refine Below.position.bind fun pos pos' _ => (Below.mark _).andThenEq fun _ => ?_
  refine hg.genericItem.weaken.bind fun first first' hfirst => ?_
  refine (Below.builtWhile (Below.eat _) hg.genericItem).bind fun rest rest' hrest => ?_
  refine splitClosingAngle.bindEq fun _ => (Below.mark _).weaken.bindEq fun _ => .pure ?_
  simp only [Alike, GenericDecl.unplaced, List.map_cons, hfirst, hrest]

theorem generics :
    L.Below n 0 (Alike (Option.map GenericDecl.unplaced)) g.generics g'.generics :=
  Below.builtOptionally (Below.check _) (Below.inContext _ hg.genericDecl)

/-! ## Parameters -/

theorem namedParameter (pos pos' : Position) (ownership : Ownership) :
    L.Below n 1 (Alike ParameterDecl.unplaced) (g.namedParameter pos ownership)
      (g'.namedParameter pos' ownership) := by
  refine Below.expectIdentifier.andThenEq fun name => ?_
  refine (Below.eat _).bindEq fun _ => .ite _ (.pure rfl) ?_
  refine (Below.mark _).weaken.bindEq fun _ => ?_
  have htype : L.Below n 1 (Alike TypeExpr.unplaced) (g.parameterType .build name)
      (g'.parameterType .build name) := hg.parameterType (m := .build) name
  refine htype.weaken.map fun a b hab => ?_
  simp only [Alike, ParameterDecl.unplaced, Option.map_some, hab]

theorem patternParameter (pos pos' : Position) (ownership : Ownership) :
    L.Below n 1 (Alike ParameterDecl.unplaced) (g.patternParameter pos ownership)
      (g'.patternParameter pos' ownership) := by
  have hpattern : L.Below n 1 (Alike Pattern.unplaced) (g.pattern .build) (g'.pattern .build) :=
    hg.patterns .build
  refine hpattern.andThen fun a b hab => (Below.mark _).weaken.bindEq fun _ => ?_
  refine (rejectVoid _).bindEq fun _ => hg.builtType.weaken.map fun c d hcd => ?_
  simp only [Alike, ParameterDecl.unplaced, Binding.unplaced, Option.map_some, hab, hcd]

theorem parameter : L.Below n 1 (Alike ParameterDecl.unplaced) g.parameter g'.parameter := by
  refine Below.position.bind fun pos pos' _ => ownership.bindEq fun ownership => ?_
  refine Below.kind.bindEq fun k => .ite _ (hg.namedParameter pos pos' ownership) ?_
  exact .ite _ (hg.patternParameter pos pos' ownership) (.expectedOneOf _)

theorem parametersOnto (steps steps' : Nat) (hsteps : n ≤ steps) (hsteps' : n ≤ steps')
    {taken taken' : Array ParameterDecl}
    (ht : taken.toList.map ParameterDecl.unplaced = taken'.toList.map ParameterDecl.unplaced) :
    L.Below n 1 (Alike fun l => l.toList.map ParameterDecl.unplaced) (g.parametersOnto steps taken)
      (g'.parametersOnto steps' taken') := by
  induction n generalizing steps steps' taken taken' with
  | zero => exact .zero
  | succ n ih =>
    obtain _ | steps := steps
    · omega
    obtain _ | steps' := steps'
    · omega
    refine hg.parameter.after fun a b hab => ?_
    have hpush : (taken.push a).toList.map ParameterDecl.unplaced =
        (taken'.push b).toList.map ParameterDecl.unplaced := by
      rw [Array.toList_push, Array.toList_push, List.map_append, List.map_append, ht,
        List.map_singleton, List.map_singleton, hab]
    have hvariadic : a.variadic = b.variadic := by
      have hsame : a.unplaced.variadic = b.unplaced.variadic := by rw [hab]
      exact hsame
    dsimp only
    rw [hvariadic]
    refine .ite _ ((Below.mark _).weaken.bindEq fun _ => .pure hpush) fun i p q hi hs => ?_
    refine .kind hs (.ite (fun hcomma => ?_) fun _ => .ite (fun hclose => ?_) fun _ =>
      .failAtStart hs nofun)
    · exact (At.drop hs hcomma).weaken.bind hi fun _ _ _ =>
        (ih hg.less steps steps' (by omega) (by omega) hpush).weaken
    · exact (At.drop hs hclose).weaken.bind hi fun _ _ _ => .pure hpush

theorem parameters :
    L.Below n 1 (Alike (List.map ParameterDecl.unplaced)) g.parameters g'.parameters := by
  refine (Below.mark _).andThenEq fun _ => .inContext _ ?_
  refine (Below.eat _).bindEq fun _ => .ite _ (.pure rfl) fun i p q hi hs => ?_
  refine .listBound hs fun steps steps' hsteps hsteps' => ?_
  have hparams : L.Below (i + 1) 1 (Alike fun l => l.toList.map ParameterDecl.unplaced)
      (g.parametersOnto steps #[]) (g'.parametersOnto steps' #[]) :=
    (hg.le hi).parametersOnto steps steps' hsteps hsteps' rfl
  exact (hparams (Nat.lt_succ_self i) hs).weaken.bind hi fun _ _ h => .pure h

/-! ## Functions, interfaces, structs -/

theorem functionDecl (exported : Bool) :
    L.Below n 1 (Alike FunctionDecl.unplaced) (g.functionDecl exported)
      (g'.functionDecl exported) := by
  refine Below.position.bind fun pos pos' _ => (Below.markWord _ (by nofun)).andThenEq fun _ => ?_
  refine Below.expectIdentifier.weaken.bindEq fun name => hg.generics.bind fun _ _ hgenerics => ?_
  refine hg.parameters.weaken.bind fun _ _ hparams => hg.builtResult.bind fun _ _ hresult => ?_
  refine hg.builtBlock.weaken.map fun _ _ hbody => ?_
  simp only [Alike, FunctionDecl.unplaced, hgenerics, hparams, hresult, hbody]

theorem signature (hi : i < n) (hs : L.state i p q) (hkind : p.current.kind = Keyword.fnKw) :
    L.At i 1 p q (Alike SignatureDecl.unplaced) g.signature g'.signature := by
  refine .getThen ((At.dropWord hs hkind (by nofun)).after (Nat.le_of_lt hi) fun _ _ _ => ?_)
  refine Below.expectIdentifier.weaken.bindEq fun name => hg.generics.bind fun _ _ hgenerics => ?_
  refine hg.parameters.weaken.bind fun _ _ hparams => hg.builtResult.bind fun _ _ hresult => ?_
  refine (Below.mark _).weaken.bindEq fun _ => .pure ?_
  simp only [Alike, SignatureDecl.unplaced, hgenerics, hparams, hresult]

theorem interfaceDecl (exported : Bool) :
    L.Below n 1 (Alike InterfaceDecl.unplaced) (g.interfaceDecl exported)
      (g'.interfaceDecl exported) := by
  refine Below.position.bind fun pos pos' _ => (Below.markWord _ (by nofun)).andThenEq fun _ => ?_
  refine Below.expectIdentifier.weaken.bindEq fun name => hg.generics.bind fun _ _ hgenerics => ?_
  refine (Below.mark _).weaken.bindEq fun _ => ?_
  have hfunction : L.Below n 1 (Alike SignatureDecl.unplaced)
      (do
        if ← Parser.check Keyword.fnKw then g.signature
        else Parser.expectedOneOf [Keyword.fnKw, Symbol.rBrace])
      (do
        if ← Parser.check Keyword.fnKw then g'.signature
        else Parser.expectedOneOf [Keyword.fnKw, Symbol.rBrace]) :=
    fun i p q hi hs => .check hs (fun hkind => hg.signature hi hs hkind) fun _ =>
      .expectedOneOf hs _
  refine (Below.builtUntilThen _ hfunction fun l l' hl => .pure ?_).weaken
  simp only [Alike, InterfaceDecl.unplaced, hgenerics, hl]

omit hg in
theorem atVariable :
    L.Below n 0 Eq (Grammar.atVariable : Parse Buffer Bool) Grammar.atVariable :=
  Below.kind.map fun _ _ h => by rw [h]

theorem structDecl (exported : Bool) :
    L.Below n 1 (Alike StructDecl.unplaced) (g.structDecl exported) (g'.structDecl exported) := by
  refine Below.position.bind fun pos pos' _ => (Below.markWord _ (by nofun)).andThenEq fun _ => ?_
  refine Below.expectIdentifier.weaken.bindEq fun name => hg.generics.bind fun _ _ hgenerics => ?_
  refine (Below.mark _).weaken.bindEq fun _ => ?_
  have hfield : L.Below n 1 (Alike VariableDecl.unplaced)
      (do
        if ← Grammar.atVariable then g.variableDecl .build false false
        else Parser.expectedOneOf [Keyword.letKw, Keyword.constKw, Symbol.rBrace])
      (do
        if ← Grammar.atVariable then g'.variableDecl .build false false
        else Parser.expectedOneOf [Keyword.letKw, Keyword.constKw, Symbol.rBrace]) :=
    atVariable.bindEq fun _ => .ite _ (hg.builtVariable false false) (.expectedOneOf _)
  refine (Below.builtUntilThen _ hfield fun l l' hl => .pure ?_).weaken
  simp only [Alike, StructDecl.unplaced, hgenerics, hl]

/-! ## Traits and enums -/

theorem traitFunction (hasBody : Bool) :
    L.Below n 1 (Alike TraitFunctionDecl.unplaced) (g.traitFunction hasBody)
      (g'.traitFunction hasBody) := by
  refine Below.position.bind fun pos pos' _ =>
    (Below.eatWord _ (by nofun)).bindEq fun isStatic => ?_
  refine (Below.markWord _ (by nofun)).andThenEq fun _ =>
    Below.expectIdentifier.weaken.bindEq fun name => ?_
  refine hg.generics.bind fun _ _ hgenerics => hg.parameters.weaken.bind fun _ _ hparams => ?_
  refine hg.builtResult.bind fun _ _ hresult => .ite _ ?_ ?_
  · refine hg.builtBlock.weaken.map fun _ _ hbody => ?_
    simp only [Alike, TraitFunctionDecl.unplaced, Option.map_some, hgenerics, hparams,
      hresult, hbody]
  · refine (Below.mark _).weaken.bindEq fun _ => .pure ?_
    simp only [Alike, TraitFunctionDecl.unplaced, Option.map_none, hgenerics, hparams, hresult]

theorem traitBody :
    L.Below n 1 (fun a b => a.1.map TypeExpr.unplaced = b.1.map TypeExpr.unplaced ∧
        a.2.map TraitFunctionDecl.unplaced = b.2.map TraitFunctionDecl.unplaced)
      g.traitBody g'.traitBody := by
  refine (Below.builtOptionally (Below.eatWord _ (by nofun)) hg.builtType).bind
    fun forType forType' hfor => ?_
  have hsome : forType.isSome = forType'.isSome := by
    rw [← Option.isSome_map (f := TypeExpr.unplaced), hfor, Option.isSome_map]
  have hfunction : L.Below n 1 (Alike TraitFunctionDecl.unplaced)
      (do
        let k ← Parser.kind
        if k = Keyword.staticKw || k = Keyword.fnKw then g.traitFunction forType.isSome
        else Parser.expectedOneOf [Keyword.fnKw, Keyword.staticKw, Symbol.rBrace])
      (do
        let k ← Parser.kind
        if k = Keyword.staticKw || k = Keyword.fnKw then g'.traitFunction forType'.isSome
        else Parser.expectedOneOf [Keyword.fnKw, Keyword.staticKw, Symbol.rBrace]) := by
    rw [hsome]
    exact Below.kind.bindEq fun k => .ite _ (hg.traitFunction _) (.expectedOneOf _)
  refine (Below.mark _).andThenEq fun _ => ?_
  exact (Below.builtUntilThen _ hfunction fun l l' hl => .pure ⟨hfor, hl⟩).weaken

theorem traitHead :
    L.Below n 1 (fun a b => a.1 = b.1 ∧
        a.2.map GenericDecl.unplaced = b.2.map GenericDecl.unplaced)
      g.traitHead g'.traitHead := by
  refine (Below.markWord _ (by nofun)).andThenEq fun _ =>
    Below.expectIdentifier.weaken.bindEq fun name => ?_
  exact hg.generics.map fun _ _ h => ⟨rfl, h⟩

theorem traitDecl (hbridges : L.Bridges g) (exported : Bool) :
    L.Below n 1 (Alike TraitDecl.unplaced) (g.traitDecl exported) (g'.traitDecl exported) := by
  rw [Grammar.traitDecl_eq, Grammar.traitDecl_eq]
  refine Below.position.bind fun pos pos' _ => fun i p q hi hs => ?_
  -- The way through the trait is known as a whole only, for behind the header the flag is on.
  refine (hg.traitHead hi hs).bindFrom (m := 0) ?_ (Nat.le_refl 1)
  rintro ⟨name, generics⟩ ⟨_, generics'⟩ j p' q' hrun ⟨rfl, hgenerics⟩ hj hbehind
  have hbody := hg.traitBody (by omega) (L.state_withTrait true hbehind.state)
  have hpart := At.inTraitMode hbehind.inTrait_eq hbehind.state hbody.weaken fun body p'' hbody =>
    hbridges hs hrun hbehind.since hbody
  refine Meets.bind hpart (fun _ _ h => h) ?_
  rintro ⟨forType, functions⟩ ⟨forType', functions'⟩ p'' q'' _ ⟨hfor, hfunctions⟩ hstates
  refine .ok ?_ hstates
  simp only [Alike, TraitDecl.unplaced, hgenerics, hfor, hfunctions]

theorem enumItemValue :
    L.Below n 0 (Alike EnumItemValue.unplaced) g.enumItemValue g'.enumItemValue := by
  intro i p q hi hs
  refine .kind hs (.ite (fun heq => ?_) fun _ => .ite (fun hopen => ?_) fun _ => .pure hs rfl)
  · refine (At.drop hs heq).weaken.bind hi fun _ _ _ => ?_
    refine (hg.builtExpr _).weaken.map fun a b hab => ?_
    simp only [Alike, EnumItemValue.unplaced, hab]
  · refine (At.drop hs hopen).weaken.bind hi fun _ _ _ => ?_
    have htypes : L.Below n 1 (Alike (List.map TypeExpr.unplaced))
        (Parser.closedList .rParen (g.type .build)) (Parser.closedList .rParen (g'.type .build)) :=
      Below.closedList (m := .build) _ (hg.types .build)
    refine htypes.weaken.map fun a b hab => ?_
    simp only [Alike, EnumItemValue.unplaced, TypeExpr.unplacedAll_eq_map, hab]

theorem enumItem : L.Below n 1 (Alike EnumItemDecl.unplaced) g.enumItem g'.enumItem := by
  refine Below.position.bind fun pos pos' _ => Below.expectIdentifier.andThenEq fun name => ?_
  refine hg.enumItemValue.bind fun a b hab => fun i p q hi hs => ?_
  have hitem : EnumItemDecl.unplaced { pos, name, value := a } =
      EnumItemDecl.unplaced { pos := pos', name, value := b } := by
    simp only [EnumItemDecl.unplaced, hab]
  refine .kind hs (.ite (fun hcomma => ?_) fun _ => .ite (fun _ => ?_) fun _ => .pure hs hitem)
  · exact (At.drop hs hcomma).weaken.bind hi fun _ _ _ => .pure hitem
  · have hfail : L.At i 0 p q (fun (_ _ : Unit) => False) Parser.unexpected Parser.unexpected :=
      .unexpected hs
    exact hfail.bindRun (m := 0) (fun _ _ _ _ _ _ h => h.elim) (Nat.le_refl 0)

theorem enumDecl (exported : Bool) :
    L.Below n 1 (Alike EnumDecl.unplaced) (g.enumDecl exported) (g'.enumDecl exported) := by
  refine Below.position.bind fun pos pos' _ => (Below.markWord _ (by nofun)).andThenEq fun _ => ?_
  refine Below.expectIdentifier.weaken.bindEq fun name => hg.generics.bind fun _ _ hgenerics => ?_
  refine (Below.mark _).weaken.bindEq fun _ => ?_
  refine (Below.builtUntilThen _ hg.enumItem fun l l' hl => .pure ?_).weaken
  simp only [Alike, EnumDecl.unplaced, hgenerics, hl]

end Grammars

end Lockstep

end ScriptFront
