import ScriptFront.Proofs.Coupling.Decls

/-!
# Coupled readings of classes and units

- `FollowsAll.read`: each reading that the front end offers is coupled with the same reading with
  other lookaheads, if these see what those of the grammar see.
- `Simulation.entry`: each of them is coupled with itself by every simulation.
-/

namespace ScriptFront

open ScriptFront.Parser

namespace Simulation

variable {σ τ : Type} [ByteSource σ] [ByteSource τ] {S : Simulation σ τ}
  {g : Grammar σ} {g' : Grammar τ}

namespace Grammars

variable (hg : S.Grammars g g')

include hg

/-! ## Classes -/

theorem sourceType : S.Coupled Eq g.sourceType g'.sourceType :=
  hg.builtType.bindEq fun _ => (S.mark _).bindEq fun _ => .pure rfl

theorem fieldInit : S.Coupled Eq g.fieldInit g'.fieldInit := by
  refine S.position.bindEq fun pos => S.expectIdentifier.bindEq fun name => ?_
  exact (S.mark _).bindEq fun _ => (hg.builtExpr _).bindEq fun value =>
    (S.mark _).bindEq fun _ => .pure rfl

theorem constructorInits : S.Coupled Eq g.constructorInits g'.constructorInits := by
  have hinits := S.builtWhile (S.eat Symbol.comma) hg.fieldInit
  refine (S.eat _).bindEq fun _ => .ite _ ?_ ?_
  · refine (S.mark _).bindEq fun _ => ?_
    refine (show S.Coupled Eq _ _ from hg.callArgs .build .build).bindEq fun args => ?_
    exact hinits.bindEq fun _ => .pure rfl
  · exact hg.fieldInit.bindEq fun first => hinits.bindEq fun _ => .pure rfl

theorem constructorDecl (access : Access) :
    S.Coupled Eq (g.constructorDecl access) (g'.constructorDecl access) := by
  refine S.position.bindEq fun pos => (S.mark _).bindEq fun _ => ?_
  refine hg.parameters.bindEq fun params => (S.eat _).bindEq fun _ => .ite _ ?_ ?_
  · exact hg.constructorInits.bindEq fun inits => hg.builtBlock.bindEq fun _ => .pure rfl
  · exact hg.builtBlock.bindEq fun _ => .pure rfl

theorem destructorDecl : S.Coupled Eq g.destructorDecl g'.destructorDecl := by
  refine S.position.bindEq fun pos => (S.mark _).bindEq fun _ => (S.mark _).bindEq fun _ => ?_
  exact (S.mark _).bindEq fun _ => hg.builtBlock.bindEq fun _ => .pure rfl

theorem namedType {fault : SyntaxFault} (hfault : ∀ f, fault ≠ .lexical f )
    (hfound : fault.found? = none) :
    S.Coupled Eq (g.namedType fault) (g'.namedType fault) := by
  refine S.save.bind fun start _ hstart => hstart.1 ▸ hg.builtType.bindEq fun type => ?_
  exact .ite _ (.pure rfl) (S.failAt hstart.2 hfault hfound)

theorem interfaces (className : String) :
    S.Coupled Eq (g.interfaces className) (g'.interfaces className) := by
  refine (S.eat _).bindEq fun _ => .ite _ ?_ (.pure rfl)
  exact (hg.namedType (by nofun) rfl).bindEq fun first =>
    (S.builtWhile (S.eat _) (hg.namedType (by nofun) rfl)).bindEq fun _ => .pure rfl

/-- What stands behind the type that a function is named for. -/
theorem namedClassFunction (pos : Position) (access : Access)
    (isStatic isAbstract isVirtual : Bool) (sourceType : Option TypeExpr) :
    S.Coupled Eq
    (do
      let name ← Parser.expectIdentifier
      let generics ← g.generics
      let params ← g.parameters
      let result ← g.resultType .build
      let (isOverride, isFinal) ← Grammar.closingModifiers isAbstract name
      let body ← Grammar.builtOptionally (return !isAbstract) (g.block .build)
      if isAbstract then Parser.mark Symbol.semicolon
      return { pos, access, isStatic, isAbstract, isVirtual, isOverride, isFinal, sourceType,
               name, generics, params, result, body : ClassFunctionDecl })
    (do
      let name ← Parser.expectIdentifier
      let generics ← g'.generics
      let params ← g'.parameters
      let result ← g'.resultType .build
      let (isOverride, isFinal) ← Grammar.closingModifiers isAbstract name
      let body ← Grammar.builtOptionally (return !isAbstract) (g'.block .build)
      if isAbstract then Parser.mark Symbol.semicolon
      return { pos, access, isStatic, isAbstract, isVirtual, isOverride, isFinal, sourceType,
               name, generics, params, result, body }) := by
  refine S.expectIdentifier.bindEq fun name => hg.generics.bindEq fun generics => ?_
  refine hg.parameters.bindEq fun params => hg.builtResult.bindEq fun result => ?_
  refine (S.closingModifiers isAbstract name).bindEq ?_
  rintro ⟨isOverride, isFinal⟩
  refine (S.builtOptionally (.pure rfl) hg.builtBlock).bindEq fun body => .ite _ ?_ (.pure rfl)
  exact (S.mark _).bindEq fun _ => .pure rfl

end Grammars

/-! ## With lookaheads -/

namespace Follows

variable {L : Lookaheads σ} (hL : S.Follows L g g') (hg : S.Grammars g g')

include hL hg

theorem classFunctionBehind (pos : Position) (access : Access)
    (isStatic isAbstract isVirtual : Bool) :
    S.Coupled Eq (L.classFunctionBehind g pos access isStatic isAbstract isVirtual)
      (g'.classFunctionBehind pos access isStatic isAbstract isVirtual) := by
  -- The dot is looked for right behind a token that was taken.
  refine S.markThen _ fun p q hfresh => ?_
  exact (S.builtOptionallyAt (hL.dotBefore hfresh) hg.sourceType).bind fun _ _ h =>
    h ▸ hg.namedClassFunction pos access isStatic isAbstract isVirtual _

theorem classFunction (access : Access) (isStatic : Bool) :
    S.Coupled Eq (L.classFunction g access isStatic) (g'.classFunction access isStatic) := by
  refine S.position.bindEq fun pos => (S.eat _).bindEq fun isAbstract => ?_
  have hbehind := hL.classFunctionBehind hg pos access isStatic isAbstract
  exact .ite _ (hbehind false) ((S.eat _).bindEq hbehind)

theorem classMember : S.Coupled Eq (L.classMember g) g'.classMember := by
  rw [← Lookaheads.classMember_plain]
  refine S.accessModifier.bindEq fun modifier => (S.eat _).bindEq fun isStatic => ?_
  have hfunction := (hL.classFunction hg (modifier.getD .privateMember) isStatic).mapEq
    Grammar.ClassMember.function
  rw [← Lookaheads.classFunction_plain] at hfunction
  have hvariable := (hg.builtVariable false false).mapEq fun decl =>
    Grammar.ClassMember.variable ⟨modifier.getD .privateMember, isStatic, decl⟩
  refine S.kind.bindEq fun k => ?_
  split
  · exact .ite _ (S.failAtStart nofun rfl) hfunction
  · exact .ite _ (S.failAtStart nofun rfl) hfunction
  · exact hfunction
  · exact hvariable
  · exact hvariable
  · exact .ite _ (S.failAtStart nofun rfl) ((hg.constructorDecl _).mapEq _)
  · exact .ite _
      (S.failAtStart nofun rfl) (.ite _ (S.failAtStart nofun rfl) (hg.destructorDecl.mapEq _))
  · exact S.expectedOneOf _

theorem classDecl (exported isAbstract : Bool) :
    S.Coupled Eq (L.classDecl g exported isAbstract) (g'.classDecl exported isAbstract) := by
  refine S.position.bindEq fun pos => (S.mark _).bindEq fun _ => ?_
  refine S.expectIdentifier.bindEq fun name => hg.generics.bindEq fun generics => ?_
  refine (S.builtOptionally (S.eat _) (hg.namedType (by nofun) rfl)).bindEq fun base => ?_
  refine (hg.interfaces name).bindEq fun interfaces => (S.mark _).bindEq fun _ => ?_
  exact (S.builtWhile (S.checkNot _) (hL.classMember hg)).bindEq fun members =>
    S.drop.bindEq fun _ => .pure rfl

theorem declaration (exported isAbstract : Bool) :
    S.Coupled Eq (L.declaration g exported isAbstract)
      (g'.declaration exported isAbstract) := by
  have hclass := hL.classDecl hg exported isAbstract
  rw [← Lookaheads.classDecl_plain] at hclass
  rw [← Lookaheads.declaration_plain]
  have hvariable := (hg.builtVariable exported false).mapEq GeneralDecl.variable
  refine S.kind.bindEq fun k => ?_
  split
  · exact (S.inContext _ hclass).mapEq _
  · exact (S.inContext _ (hg.interfaceDecl exported)).mapEq _
  · exact (S.inContext _ (hg.structDecl exported)).mapEq _
  · exact (S.inContext _ (hg.enumDecl exported)).mapEq _
  · exact (S.inContext _ (hg.traitDecl exported)).mapEq _
  · exact (S.inContext _ (hg.functionDecl exported)).mapEq _
  · exact hvariable
  · exact hvariable
  · exact S.expectedOneOf _

theorem generalDecl : S.Coupled Eq (L.generalDecl g) g'.generalDecl := by
  refine (S.eat _).bindEq fun exported => (S.eat _).bindEq fun isAbstract => ?_
  exact (S.checkNot _).bindEq fun _ => .ite _ S.unexpected (hL.declaration hg exported isAbstract)

theorem namespaceDecl (depth : Nat) :
    S.Coupled Eq (L.namespaceDecl g depth) (g'.namespaceDecl depth) := by
  induction depth with
  | zero => exact S.failAtStart nofun rfl
  | succ depth ih =>
    refine S.position.bindEq fun pos => (S.mark _).bindEq fun _ => ?_
    refine S.expectIdentifier.bindEq fun name => S.inContext _ ((S.mark _).bindEq fun _ => ?_)
    have hmember := (S.check Keyword.namespaceKw).bindEq fun isNamespace =>
      Coupled.ite (isNamespace = true) (ih.mapEq Grammar.NamespaceMember.inner)
        ((hL.generalDecl hg).mapEq Grammar.NamespaceMember.declaration)
    exact (S.builtWhile (S.checkNot _) hmember).bindEq fun members =>
      S.drop.bindEq fun _ => .pure rfl

theorem topNamespace : S.Coupled Eq (L.topNamespace g) g'.topNamespace :=
  (S.check _).bindEq fun _ =>
    .ite _ (S.listBound.bindEq fun depth => hL.namespaceDecl hg depth) (S.expectedOneOf _)

theorem unit : S.Coupled Eq (L.unit g) g'.unit := by
  refine S.get.bind fun p q hs => ?_
  rw [S.name_eq hs]
  refine (S.builtWhile (S.check _) (S.inContext _ S.includeDecl)).bindEq fun includes => ?_
  exact (S.builtWhile (S.checkNot _) (hL.topNamespace hg)).bindEq fun _ => .pure rfl

end Follows

namespace FollowsAll

variable {L : Lookaheads σ}

/-- A whole reading is coupled with another one if reading with coupled grammars is. -/
theorem withGrammar (hL : S.FollowsAll L) {α : Type} {f : Grammar σ → Parse σ α}
    {f' : Grammar τ → Parse τ α}
    (h : ∀ {depth : Nat} {g : Grammar σ}, S.Grammars g (Grammar.upTo depth) →
      S.Coupled Eq (f g) (f' (Grammar.upTo depth))) :
    S.Coupled Eq (do f (← L.grammar)) (do f' (← Parser.grammar)) := by
  refine Coupled.bind (V := fun g g' => ∃ depth, g' = Grammar.upTo depth ∧ S.Grammars g g')
    (S.get.bind fun p q hs => .pure ⟨q.bound, rfl, ?_⟩) ?_
  · rw [Parser.bound, Parser.bound, S.extent_eq hs]
    exact hL.upTo _
  · rintro g _ ⟨depth, rfl, hg⟩
    exact h hg

/-- Every reading that the front end offers comes to what it comes to with other lookaheads, if
these see what the grammar's own see. -/
theorem read (hL : S.FollowsAll L) (e : Entry) : S.Coupled Eq (L.read e) e.read := by
  cases e with
  | unit => exact hL.withGrammar fun hg => (hL.follows hg).unit hg
  | type => exact hL.withGrammar fun hg => hg.builtType
  | expr => exact hL.withGrammar fun hg => hg.builtExpr _
  | pattern => exact hL.withGrammar fun hg => hg.builtPattern
  | statement => exact hL.withGrammar fun hg => hg .build .build .statement
  | block => exact hL.withGrammar fun hg => hg.builtBlock
  | eof => exact S.mark _

end FollowsAll

/-- Every reading that the front end offers is coupled with itself. -/
theorem entry (S : Simulation σ τ) (e : Entry) :
    S.Coupled Eq (e.read : Parse σ e.Tree) e.read := by
  have hread := S.followsAll_plain.read e
  rw [Lookaheads.read_plain] at hread
  exact hread

end Simulation

end ScriptFront
