import ScriptFront.Proofs.Coupling.Lookaheads
import ScriptFront.Proofs.Lockstep.Decls

/-!
# Classes and units in lockstep

- `Lockstep.namesSourceType`: a reading that looks for a dot takes what it likes before it goes
  back.
- `Lockstep.read`: each reading that the front end offers goes together with the same reading from
  states that go together.
-/

namespace ScriptFront

open ScriptFront.Parser

attribute [local irreducible] Ends

/-! ## Members without places -/

/-- A member of a class without places. -/
def Grammar.ClassMember.unplaced : Grammar.ClassMember → Grammar.ClassMember
  | .function decl => .function decl.unplaced
  | .variable decl => .variable decl.unplaced
  | .constructor decl => .constructor decl.unplaced
  | .destructor decl => .destructor decl.unplaced

/-- A member of a namespace without places. -/
def Grammar.NamespaceMember.unplaced : Grammar.NamespaceMember → Grammar.NamespaceMember
  | .inner decl => .inner decl.unplaced
  | .declaration decl => .declaration decl.unplaced

/-- What is picked from members that are alike is alike. -/
theorem Alike.filterMap {α β : Type} {u : α → α} {v : β → β} {f : α → Option β}
    (h : ∀ a, f (u a) = (f a).map v) {l l' : List α} (hl : Alike (List.map u) l l') :
    Alike (List.map v) (l.filterMap f) (l'.filterMap f) := by
  have hpick (l : List α) : (l.filterMap f).map v = (l.map u).filterMap f := by
    rw [List.map_filterMap, List.filterMap_map]
    exact congrArg (List.filterMap · l) (funext fun a => (h a).symm)
  show (l.filterMap f).map v = (l'.filterMap f).map v
  rw [hpick, hpick]
  exact congrArg _ hl

/-- What a reading comes to, without places. -/
def Entry.unplaced : (entry : Entry) → entry.Tree → entry.Tree
  | .unit => CodeUnit.unplaced
  | .type => TypeExpr.unplaced
  | .expr => Expr.unplaced
  | .pattern => Pattern.unplaced
  | .statement => Stmt.unplaced
  | .block => Block.unplaced
  | .eof => id

/-- How many tokens a reading takes at least. -/
def Entry.least : Entry → Nat
  | .unit | .eof => 0
  | _ => 1

namespace Lockstep

variable {L : Lockstep} {n i : Nat} {p q : Parser Buffer} {g g' : Grammar Buffer}

theorem At.builtOptionally {α β : Type} {u : α → β} {test test' : Parse Buffer Bool}
    {x y : Parse Buffer α} {k : Nat} (htest : L.At i 0 p q Eq test test') (hi : i < n)
    (h : L.Below n k (Alike u) x y) :
    L.At i 0 p q (Alike (Option.map u)) (Grammar.builtOptionally test x)
      (Grammar.builtOptionally test' y) := by
  have hpart : L.Below n 0 (Alike (Option.map u)) (do return some (← x)) (do return some (← y)) :=
    h.weaken.map fun a b hab => congrArg some hab
  exact htest.bind hi fun more _ h => h ▸ .ite _ hpart (.pure rfl)

/-! ## Looking for a dot -/

/-- What is taken in front of a dot does not matter, for the readings go back. -/
theorem dotAhead (steps steps' : Nat) {p' q' : Parser Buffer} (hs : L.state i p' q')
    (hinTrait : p'.inTrait = p.inTrait) (hsteps : i < steps) (hsteps' : i < steps') :
    Meets L.told (L.Lost p) Eq (L.Lost p) ((Grammar.dotAhead steps : Parse Buffer Bool).run p')
      ((Grammar.dotAhead steps').run q') := by
  induction steps generalizing i steps' p' q' with
  | zero => omega
  | succ steps ih =>
    obtain _ | steps' := steps'
    · omega
    have hlost := lost_of_state hs hinTrait
    unfold Grammar.dotAhead
    rw [run_bind_ok (run_kind p'), run_bind_ok (run_kind q'), ← L.kind_eq hs]
    split
    · exact .ok rfl hlost
    · split
      · exact .ok rfl hlost
      · next hstop =>
        have heof : p'.current.kind ≠ .eof := fun h => hstop (by rw [h]; rfl)
        have hleft : ((Parser.advance : Parse Buffer Token).run p').2.inTrait = p'.inTrait :=
          inTrait_advance
        have hright : ((Parser.advance : Parse Buffer Token).run q').2.inTrait = q'.inTrait :=
          inTrait_advance
        have hadvance := L.advance_fresh hs
        unfold Parser.drop
        rw [bind_assoc, bind_assoc]
        rcases hp : (Parser.advance : Parse Buffer Token).run p' with ⟨r, p''⟩
        rcases hq : (Parser.advance : Parse Buffer Token).run q' with ⟨r', q''⟩
        rw [hp] at hleft
        rw [hq] at hright
        rw [hp, hq] at hadvance
        replace hleft := hleft.trans hinTrait
        replace hright := hright.trans hlost.right_eq
        cases hadvance with
        | error told states =>
          rw [run_bind_error hp, run_bind_error hq]
          exact .error told ⟨states, hleft, hright⟩
        | ok value states =>
          obtain ⟨j, hfresh, -, hlt⟩ := states
          have hj := hlt heof
          rw [run_bind_ok hp, run_bind_ok hq, pure_bind, pure_bind]
          exact ih steps' (L.state_of_fresh hfresh) hleft (by omega) (by omega)

theorem namesSourceType (hfresh : L.fresh i p q) :
    L.At i 0 p q Eq (Grammar.namesSourceType : Parse Buffer Bool) Grammar.namesSourceType := by
  have hs := L.state_of_fresh hfresh
  exact .listBound hs fun steps steps' hsteps hsteps' =>
    .lookAhead hfresh (dotAhead steps steps' hs rfl hsteps hsteps')

/-! ## Includes -/

theorem includeItem :
    L.Below n 1 (Alike IncludeItem.unplaced) (Grammar.includeItem : Parse Buffer IncludeItem)
      Grammar.includeItem := by
  have hitem : L.Below n 1 (Alike IncludeItem.unplaced)
      (do
        let pos ← Parser.position
        let name ← Parser.expectIdentifier
        return { pos, name } : Parse Buffer IncludeItem)
      (do
        let pos ← Parser.position
        let name ← Parser.expectIdentifier
        return { pos, name }) :=
    Below.position.bind fun _ _ _ => Below.expectIdentifier.andThenEq fun _ => .pure rfl
  have hfail : L.Below n 0 (fun (_ _ : Unit) => False) Parser.unexpected Parser.unexpected :=
    .unexpected
  exact (Below.check _).bindEq fun _ => .ite _ (hfail.bind fun _ _ h => h.elim) hitem

theorem includeItems :
    L.Below n 0 (Alike IncludeItems.unplaced) (Grammar.includeItems : Parse Buffer IncludeItems)
      Grammar.includeItems := by
  refine (Below.eat _).bindEq fun _ => .ite _ (.pure rfl) ?_
  refine includeItem.weaken.bind fun first first' hfirst => ?_
  refine (Below.builtWhile (Below.eat _) includeItem).map fun l l' hl => ?_
  simp only [Alike, IncludeItems.unplaced, List.map_cons, hfirst, hl]

theorem scopedName :
    L.Below n 1 (Alike fun path => { path with pos := .start })
      (Grammar.scopedName : Parse Buffer ScopedName) Grammar.scopedName := by
  refine Below.position.bind fun pos pos' _ => (Below.eat _).bindEq fun root => ?_
  have hname : L.Below n 1 (Alike id) (expectIdentifier : Parse Buffer String) expectIdentifier :=
    Below.expectIdentifier
  refine hname.andThen fun first first' hfirst => ?_
  refine (Below.builtWhile (Below.eat _) hname).map fun l l' hl => ?_
  simp only [Alike, id, List.map_id] at hfirst hl ⊢
  rw [hfirst, hl]

theorem includeDecl :
    L.Below n 1 (Alike IncludeDecl.unplaced) (Grammar.includeDecl : Parse Buffer IncludeDecl)
      Grammar.includeDecl := by
  refine Below.position.bind fun pos pos' _ => (Below.markWord _ (by nofun)).andThenEq fun _ => ?_
  refine (Below.mark _).weaken.bindEq fun _ => includeItems.bind fun items items' hitems => ?_
  refine (Below.mark _).weaken.bindEq fun _ =>
    (Below.expectOneOf _ (by decide) (by decide)).weaken.bind fun _ _ _ => ?_
  refine scopedName.weaken.bind fun path path' hpath => (Below.mark _).weaken.bindEq fun _ => ?_
  refine .pure ?_
  simp only [Alike, IncludeDecl.unplaced] at hpath ⊢
  rw [hitems, hpath]

namespace Grammars

variable (hg : L.Grammars n g g')

include hg

/-! ## Classes -/

theorem sourceType : L.Below n 1 (Alike TypeExpr.unplaced) g.sourceType g'.sourceType :=
  hg.builtType.andThen fun _ _ h => (Below.mark _).weaken.bindEq fun _ => .pure h

/-- What stands behind the type that a function is named for. -/
theorem namedClassFunction (pos pos' : Position) (access : Access)
    (isStatic isAbstract isVirtual : Bool) (sourceType sourceType' : Option TypeExpr)
    (hsource : Alike (Option.map TypeExpr.unplaced) sourceType sourceType') :
    L.Below n 0 (Alike ClassFunctionDecl.unplaced)
    (do
      let name ← Parser.expectIdentifier
      let generics ← g.generics
      let params ← g.parameters
      let result ← g.resultType .build
      let (isOverride, isFinal) ← Grammar.closingModifiers isAbstract name
      let body ← Grammar.builtOptionally (return !isAbstract) (g.block .build)
      if isAbstract then Parser.mark Symbol.semicolon
      return { pos, access, isStatic, isAbstract, isVirtual, isOverride, isFinal, sourceType,
               name, generics, params, result, body : ClassFunctionDecl })
    (do
      let name ← Parser.expectIdentifier
      let generics ← g'.generics
      let params ← g'.parameters
      let result ← g'.resultType .build
      let (isOverride, isFinal) ← Grammar.closingModifiers isAbstract name
      let body ← Grammar.builtOptionally (return !isAbstract) (g'.block .build)
      if isAbstract then Parser.mark Symbol.semicolon
      return { pos := pos', access, isStatic, isAbstract, isVirtual, isOverride, isFinal,
               sourceType := sourceType', name, generics, params, result, body }) := by
  refine Below.expectIdentifier.weaken.bindEq fun name => hg.generics.bind fun _ _ hgenerics => ?_
  refine hg.parameters.weaken.bind fun _ _ hparams => hg.builtResult.bind fun _ _ hresult => ?_
  refine (closingModifiers isAbstract name).bindEq ?_
  rintro ⟨isOverride, isFinal⟩
  refine (Below.builtOptionally (.pure rfl) hg.builtBlock).bind fun _ _ hbody => ?_
  refine .ite _ ((Below.mark _).weaken.bindEq fun _ => .pure ?_) (.pure ?_)
  · simp only [Alike, ClassFunctionDecl.unplaced, hsource, hgenerics, hparams, hresult, hbody]
  · simp only [Alike, ClassFunctionDecl.unplaced, hsource, hgenerics, hparams, hresult, hbody]

theorem classFunctionBehind (pos pos' : Position) (access : Access)
    (isStatic isAbstract isVirtual : Bool) :
    L.Below (n + 1) 1 (Alike ClassFunctionDecl.unplaced)
      (g.classFunctionBehind pos access isStatic isAbstract isVirtual)
      (g'.classFunctionBehind pos' access isStatic isAbstract isVirtual) := by
  -- The dot is looked for right behind a token that was taken.
  intro i p q hi hs
  refine .markThen hs (fun j p' q' _ hj _ _ hfresh => ?_) (by rintro ⟨⟩) (by rintro ⟨⟩)
  have hj : j < n := by omega
  exact (At.builtOptionally (namesSourceType hfresh) hj hg.sourceType).bind hj fun _ _ h =>
    namedClassFunction hg pos pos' access isStatic isAbstract isVirtual _ _ h

theorem classFunction (access : Access) (isStatic : Bool) :
    L.Below (n + 1) 1 (Alike ClassFunctionDecl.unplaced) (g.classFunction access isStatic)
      (g'.classFunction access isStatic) := by
  refine Below.position.bind fun pos pos' _ =>
    (Below.eatWord _ (by nofun)).bindEq fun isAbstract => ?_
  have hbehind := hg.classFunctionBehind pos pos' access isStatic isAbstract
  exact .ite _ (hbehind false) ((Below.eatWord _ (by nofun)).bindEq hbehind)

theorem fieldInit : L.Below n 1 (Alike FieldInit.unplaced) g.fieldInit g'.fieldInit := by
  refine Below.position.bind fun pos pos' _ => Below.expectIdentifier.andThenEq fun name => ?_
  refine (Below.mark _).weaken.bindEq fun _ => (hg.builtExpr _).weaken.bind fun _ _ hvalue => ?_
  refine (Below.mark _).weaken.bindEq fun _ => .pure ?_
  simp only [Alike, FieldInit.unplaced, hvalue]

theorem constructorInits :
    L.Below n 1 (fun a b => a.1.map (List.map Expr.unplaced) = b.1.map (List.map Expr.unplaced) ∧
        a.2.map FieldInit.unplaced = b.2.map FieldInit.unplaced)
      g.constructorInits g'.constructorInits := by
  have hinits := Below.builtWhile (Below.eat (L := L) (n := n) Symbol.comma) hg.fieldInit
  refine (Below.eatWord _ (by nofun)).bindEq fun _ => .ite _ ?_ ?_
  · refine (Below.mark _).andThenEq fun _ => ?_
    have hargs : L.Below n 0 (Alike (List.map Expr.unplaced)) (g.callArgs .build)
        (g'.callArgs .build) := hg.callArgs (m := .build)
    refine hargs.bind fun _ _ hargs => hinits.map fun _ _ hinits => ⟨?_, hinits⟩
    simp only [Option.map_some, hargs]
  · refine hg.fieldInit.andThen fun _ _ hfirst => hinits.map fun _ _ hinits => ⟨rfl, ?_⟩
    simp only [List.map_cons, hfirst, hinits]

theorem constructorDecl (access : Access) :
    L.Below n 1 (Alike ConstructorDecl.unplaced) (g.constructorDecl access)
      (g'.constructorDecl access) := by
  have hall (args : Option (List Expr)) : args.map Expr.unplacedAll =
      args.map (List.map Expr.unplaced) :=
    congrArg (Option.map · args) (funext Expr.unplacedAll_eq_map)
  refine Below.position.bind fun pos pos' _ => (Below.markWord _ (by nofun)).andThenEq fun _ => ?_
  refine hg.parameters.weaken.bind fun _ _ hparams => (Below.eat _).bindEq fun _ => .ite _ ?_ ?_
  · refine hg.constructorInits.weaken.bind fun (args, inits) (args', inits') hinits => ?_
    refine hg.builtBlock.weaken.map fun _ _ hbody => ?_
    simp only [Alike, ConstructorDecl.unplaced, hall, hparams, hinits.1, hinits.2, hbody]
  · refine hg.builtBlock.weaken.map fun _ _ hbody => ?_
    simp only [Alike, ConstructorDecl.unplaced, hparams, hbody]

theorem destructorDecl :
    L.Below n 1 (Alike DestructorDecl.unplaced) g.destructorDecl g'.destructorDecl := by
  refine Below.position.bind fun pos pos' _ => (Below.markWord _ (by nofun)).andThenEq fun _ => ?_
  refine (Below.mark _).weaken.bindEq fun _ => (Below.mark _).weaken.bindEq fun _ => ?_
  refine hg.builtBlock.weaken.map fun _ _ hbody => ?_
  simp only [Alike, DestructorDecl.unplaced, hbody]

theorem namedType {fault : SyntaxFault} (hfault : fault ≠ .tooDeep) :
    L.Below n 1 (Alike TypeExpr.unplaced) (g.namedType fault) (g'.namedType fault) := by
  refine Below.save.bind fun start start' hstart => hg.builtType.andThen fun a b hab => ?_
  have hnamed : a.isNamed = b.isNamed := by
    rw [← a.unplaced_isNamed, hab, b.unplaced_isNamed]
  rw [hnamed]
  exact .ite _ (.pure hab) (.failAt hstart hfault)

theorem interfaces (className : String) :
    L.Below n 0 (Alike (List.map TypeExpr.unplaced)) (g.interfaces className)
      (g'.interfaces className) := by
  refine (Below.eatWord _ (by nofun)).bindEq fun _ => .ite _ ?_ (.pure rfl)
  exact (Below.builtList Symbol.comma (hg.namedType (by nofun))).weaken

theorem classMember :
    L.Below n 1 (Alike Grammar.ClassMember.unplaced) g.classMember g'.classMember := by
  refine accessModifier.bindEq fun modifier =>
    (Below.eatWord _ (by nofun)).bindEq fun isStatic => ?_
  have hfunction : L.Below n 1 (Alike Grammar.ClassMember.unplaced)
      (do return .function (← g.classFunction (modifier.getD .privateMember) isStatic))
      (do return .function (← g'.classFunction (modifier.getD .privateMember) isStatic)) :=
    (hg.classFunction _ _).less.map fun _ _ h => congrArg Grammar.ClassMember.function h
  have hvariable : L.Below n 1 (Alike Grammar.ClassMember.unplaced)
      (do return .variable ⟨modifier.getD .privateMember, isStatic,
        ← g.variableDecl .build false false⟩)
      (do return .variable ⟨modifier.getD .privateMember, isStatic,
        ← g'.variableDecl .build false false⟩) := by
    refine (hg.builtVariable false false).map fun _ _ h => ?_
    simp only [Alike, Grammar.ClassMember.unplaced, ClassVariableDecl.unplaced, h]
  have hconstructor : L.Below n 1 (Alike Grammar.ClassMember.unplaced)
      (do return .constructor (← g.constructorDecl (modifier.getD .privateMember)))
      (do return .constructor (← g'.constructorDecl (modifier.getD .privateMember))) :=
    (hg.constructorDecl _).map fun _ _ h => congrArg Grammar.ClassMember.constructor h
  have hdestructor : L.Below n 1 (Alike Grammar.ClassMember.unplaced)
      (do return .destructor (← g.destructorDecl)) (do return .destructor (← g'.destructorDecl)) :=
    hg.destructorDecl.map fun _ _ h => congrArg Grammar.ClassMember.destructor h
  refine Below.kind.bindEq fun k => ?_
  split
  · exact .ite _ (.failAtStart nofun) hfunction
  · exact .ite _ (.failAtStart nofun) hfunction
  · exact hfunction
  · exact hvariable
  · exact hvariable
  · exact .ite _ (.failAtStart nofun) hconstructor
  · exact .ite _ (.failAtStart nofun) (.ite _ (.failAtStart nofun) hdestructor)
  · exact .expectedOneOf _

theorem classDecl (exported isAbstract : Bool) :
    L.Below n 1 (Alike ClassDecl.unplaced) (g.classDecl exported isAbstract)
      (g'.classDecl exported isAbstract) := by
  refine Below.position.bind fun pos pos' _ => (Below.markWord _ (by nofun)).andThenEq fun _ => ?_
  refine Below.expectIdentifier.weaken.bindEq fun name => hg.generics.bind fun _ _ hgenerics => ?_
  refine (Below.builtOptionally (Below.eatWord _ (by nofun)) (hg.namedType (by nofun))).bind
    fun _ _ hbase => ?_
  refine (hg.interfaces name).bind fun _ _ hinterfaces => (Below.mark _).weaken.bindEq fun _ => ?_
  refine (Below.builtUntilThen _ hg.classMember fun l l' hl => .pure ?_).weaken
  have hfunctions := Alike.filterMap (f := Grammar.ClassMember.asFunction?)
    (v := ClassFunctionDecl.unplaced) (by rintro (_ | _ | _ | _) <;> rfl) hl
  have hfields := Alike.filterMap (f := Grammar.ClassMember.asVariable?)
    (v := ClassVariableDecl.unplaced) (by rintro (_ | _ | _ | _) <;> rfl) hl
  have hconstructors := Alike.filterMap (f := Grammar.ClassMember.asConstructor?)
    (v := ConstructorDecl.unplaced) (by rintro (_ | _ | _ | _) <;> rfl) hl
  have hdestructors := Alike.filterMap (f := Grammar.ClassMember.asDestructor?)
    (v := DestructorDecl.unplaced) (by rintro (_ | _ | _ | _) <;> rfl) hl
  simp only [Alike, ClassDecl.unplaced, TypeExpr.unplacedAll_eq_map, hgenerics, hbase, hinterfaces,
    hfunctions, hfields, hconstructors, hdestructors]

/-! ## Namespaces and units -/

variable (hbridges : L.Bridges g)

include hbridges

theorem declaration (exported isAbstract : Bool) :
    L.Below n 1 (Alike GeneralDecl.unplaced) (g.declaration exported isAbstract)
      (g'.declaration exported isAbstract) := by
  refine Below.kind.bindEq fun k => ?_
  split
  · exact (Below.inContext _ (hg.classDecl exported isAbstract)).map fun _ _ h =>
      congrArg GeneralDecl.class h
  · exact (Below.inContext _ (hg.interfaceDecl exported)).map fun _ _ h =>
      congrArg GeneralDecl.interface h
  · exact (Below.inContext _ (hg.structDecl exported)).map fun _ _ h =>
      congrArg GeneralDecl.struct h
  · exact (Below.inContext _ (hg.enumDecl exported)).map fun _ _ h => congrArg GeneralDecl.enum h
  · exact (Below.inContext _ (hg.traitDecl hbridges exported)).map fun _ _ h =>
      congrArg GeneralDecl.trait h
  · exact (Below.inContext _ (hg.functionDecl exported)).map fun _ _ h =>
      congrArg GeneralDecl.function h
  · exact (hg.builtVariable exported false).map fun _ _ h => congrArg GeneralDecl.variable h
  · exact (hg.builtVariable exported false).map fun _ _ h => congrArg GeneralDecl.variable h
  · exact .expectedOneOf _

theorem generalDecl : L.Below n 1 (Alike GeneralDecl.unplaced) g.generalDecl g'.generalDecl := by
  refine (Below.eatWord _ (by nofun)).bindEq fun exported =>
    (Below.eatWord _ (by nofun)).bindEq fun isAbstract => ?_
  exact (Below.checkNot _).bindEq fun _ =>
    .ite _ .unexpected (hg.declaration hbridges exported isAbstract)

theorem namespaceDecl (depth depth' : Nat) (h : n ≤ depth) (h' : n ≤ depth') :
    L.Below n 1 (Alike NamespaceDecl.unplaced) (g.namespaceDecl depth)
      (g'.namespaceDecl depth') := by
  induction n generalizing depth depth' with
  | zero => exact .zero
  | succ n ih =>
    obtain _ | depth := depth
    · omega
    obtain _ | depth' := depth'
    · omega
    have hinner := ih hg.less depth depth' (by omega) (by omega)
    have hmember : L.Below n 1 (Alike Grammar.NamespaceMember.unplaced)
        (do
          if ← Parser.check Keyword.namespaceKw then return .inner (← g.namespaceDecl depth)
          else return .declaration (← g.generalDecl))
        (do
          if ← Parser.check Keyword.namespaceKw then return .inner (← g'.namespaceDecl depth')
          else return .declaration (← g'.generalDecl)) := by
      refine (Below.check _).bindEq fun _ => .ite _ ?_ ?_
      · exact hinner.map fun _ _ h => congrArg Grammar.NamespaceMember.inner h
      · exact (hg.less.generalDecl hbridges).map fun _ _ h =>
          congrArg Grammar.NamespaceMember.declaration h
    refine Below.position.bind fun pos pos' _ => (Below.markWord _ (by nofun)).afterEq fun _ => ?_
    refine Below.expectIdentifier.weaken.bindEq fun name => .inContext _ ?_
    refine (Below.mark _).weaken.bindEq fun _ => ?_
    refine (Below.builtUntilThen _ hmember fun l l' hl => .pure ?_).weaken
    have hnamespaces := Alike.filterMap (f := Grammar.NamespaceMember.inner?)
      (v := NamespaceDecl.unplaced) (by rintro (_ | _) <;> rfl) hl
    have hdeclarations := Alike.filterMap (f := Grammar.NamespaceMember.declaration?)
      (v := GeneralDecl.unplaced) (by rintro (_ | _) <;> rfl) hl
    simp only [Alike, NamespaceDecl.unplaced, NamespaceDecl.unplacedAll_eq_map, hnamespaces,
      hdeclarations]

theorem topNamespace :
    L.Below n 1 (Alike NamespaceDecl.unplaced) g.topNamespace g'.topNamespace := by
  intro i p q hi hs
  refine .check hs (fun _ => .listBound hs fun depth depth' h h' => ?_) fun _ => .expectedOneOf hs _
  exact (hg.le hi).namespaceDecl hbridges depth depth' h h' (Nat.lt_succ_self i) hs

theorem unit : L.Below n 0 (Alike CodeUnit.unplaced) g.unit g'.unit := by
  intro i p q hi hs
  refine .getThen ?_
  rw [L.name_eq hs]
  have hincludes := Below.builtWhile (Below.check (L := L) (n := n) Keyword.includeKw)
    (Below.inContext .includes includeDecl)
  have hnamespaces := Below.builtWhile (Below.checkNot (L := L) (n := n) .eof)
    (hg.topNamespace hbridges)
  refine (hincludes.bind fun _ _ hincludes => hnamespaces.map fun _ _ hnamespaces => ?_) hi hs
  simp only [Alike, CodeUnit.unplaced, NamespaceDecl.unplacedAll_eq_map, hincludes, hnamespaces]

end Grammars

/-! ## Whole readings -/

theorem expectEof (hs : L.state i p q) :
    L.At i 0 p q Eq (Parser.expectEof : Parse Buffer Unit) Parser.expectEof := by
  unfold Parser.expectEof Parser.mark Parser.expect
  rw [bind_assoc]
  refine At.check hs (fun hkind => ?_) fun _ => ?_
  · have hadvance := At.takeAny hs fun h => absurd (hkind.symm.trans h) nofun
    exact hadvance.bindRun (fun _ _ _ _ _ _ _ _ hbehind => .pure hbehind.state rfl) (Nat.le_refl 0)
  · have hfail : L.At i 0 p q (fun (_ _ : Token) => False) (Parser.failHere (.wrongToken .eof))
        (Parser.failHere (.wrongToken .eof)) := .failHere hs nofun
    exact hfail.bindRun (m := 0) (fun _ _ _ _ _ _ h => h.elim) (Nat.le_refl 0)

/-- A reading from states that go together comes to trees that are alike. -/
theorem read (entry : Entry) (hs : L.state i p q)
    (hbridges : entry = .unit → L.Bridges (Grammar.upTo p.bound)) :
    L.At i entry.least p q (Alike entry.unplaced) entry.read entry.read := by
  have hleft := L.le_left hs
  have hright := L.le_right hs
  have hg : L.Grammars (i + 1) (Grammar.upTo p.bound) (Grammar.upTo q.bound) := by
    refine L.upTo ?_ ?_
    · unfold Parser.bound
      omega
    · unfold Parser.bound
      omega
  have hi := Nat.lt_succ_self i
  cases entry with
  | unit => exact .getThen (hg.unit (hbridges rfl) hi hs)
  | type => exact .getThen (hg.types .build hi hs)
  | expr => exact .getThen (hg.exprs .build _ hi hs)
  | pattern => exact .getThen (hg.patterns .build hi hs)
  | statement => exact .getThen (hg.statements .build hi hs)
  | block => exact .getThen (hg.builtBlock hi hs)
  | eof => exact expectEof hs

end Lockstep

end ScriptFront
