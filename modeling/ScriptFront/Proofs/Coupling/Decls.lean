import ScriptFront.Grammar.Units
import ScriptFront.Proofs.Coupling.Stmts

/-!
# Coupled readings of declarations

Declarations are only built, so that coupled readings of them come to equal trees. The whole
readings of the front end are coupled by any simulation.
-/

namespace ScriptFront

open ScriptFront.Parser

namespace Simulation

variable {σ τ : Type} [ByteSource σ] [ByteSource τ] (S : Simulation σ τ)

section Built

variable {α : Type} {test : Parse σ Bool} {test' : Parse τ Bool} {x : Parse σ α} {y : Parse τ α}

theorem builtOptionallyAt {p : Parser σ} {q : Parser τ} (htest : S.CoupledAt p q Eq test test')
    (h : S.Coupled Eq x y) :
    S.CoupledAt p q Eq (Grammar.builtOptionally test x) (Grammar.builtOptionally test' y) :=
  S.optionallyAt (m := .build) (n := .build) htest h

theorem builtOptionally (htest : S.Coupled Eq test test') (h : S.Coupled Eq x y) :
    S.Coupled Eq (Grammar.builtOptionally test x) (Grammar.builtOptionally test' y) :=
  S.optionally (m := .build) (n := .build) htest h

theorem builtWhile (htest : S.Coupled Eq test test') (h : S.Coupled Eq x y) :
    S.Coupled Eq (Grammar.builtWhile test x) (Grammar.builtWhile test' y) :=
  S.listWhile (m := .build) (n := .build) htest h

end Built

theorem atVariable :
    S.Coupled Eq (Grammar.atVariable : Parse σ Bool) Grammar.atVariable :=
  S.kind.bindEq fun _ => .pure rfl

theorem closingModifiers (isAbstract : Bool) (name : String) :
    S.Coupled Eq (Grammar.closingModifiers isAbstract name : Parse σ (Bool × Bool))
      (Grammar.closingModifiers isAbstract name) := by
  refine S.kind.bindEq fun k => .ite _ (.ite _ ?_ ?_) (.pure rfl)
  · exact (S.failAtStart (by nofun) rfl).bindEq fun _ => S.drop.bindEq fun _ => .pure rfl
  · exact S.drop.bindEq fun _ => .pure rfl

theorem accessModifier :
    S.Coupled Eq (Grammar.accessModifier : Parse σ (Option Access))
      Grammar.accessModifier :=
  S.kind.bindEq fun _ => .ite _ (S.drop.bindEq fun _ => .pure rfl) (.pure rfl)

/-! ## Includes -/

theorem includeItem :
    S.Coupled Eq (Grammar.includeItem : Parse σ IncludeItem) Grammar.includeItem := by
  have hitem : S.Coupled Eq
      (do
        let pos ← Parser.position
        let name ← Parser.expectIdentifier
        return { pos, name } : Parse σ IncludeItem)
      (do
        let pos ← Parser.position
        let name ← Parser.expectIdentifier
        return { pos, name }) :=
    S.position.bindEq fun _ => S.expectIdentifier.bindEq fun _ => .pure rfl
  exact (S.check _).bindEq fun _ => .ite _ (S.unexpected.bindEq fun _ => hitem) hitem

theorem includeItems :
    S.Coupled Eq (Grammar.includeItems : Parse σ IncludeItems) Grammar.includeItems := by
  refine (S.eat _).bindEq fun _ => .ite _ (.pure rfl) ?_
  exact S.includeItem.bindEq fun first =>
    (S.builtWhile (S.eat _) S.includeItem).bindEq fun _ => .pure rfl

theorem scopedName :
    S.Coupled Eq (Grammar.scopedName : Parse σ ScopedName) Grammar.scopedName := by
  refine S.position.bindEq fun pos => (S.eat _).bindEq fun root => ?_
  exact S.expectIdentifier.bindEq fun first =>
    (S.builtWhile (S.eat _) S.expectIdentifier).bindEq fun _ => .pure rfl

theorem includeDecl :
    S.Coupled Eq (Grammar.includeDecl : Parse σ IncludeDecl) Grammar.includeDecl := by
  refine S.position.bindEq fun pos => (S.mark _).bindEq fun _ => (S.mark _).bindEq fun _ => ?_
  refine S.includeItems.bindEq fun items => (S.mark _).bindEq fun _ => ?_
  refine (S.expectOneOf _).bindEq fun _ => S.scopedName.bindEq fun path => ?_
  exact (S.mark _).bindEq fun _ => .pure rfl

variable {S} {g : Grammar σ} {g' : Grammar τ}

namespace Grammars

variable (hg : S.Grammars g g')

include hg

theorem builtType : S.Coupled Eq g.builtType g'.builtType := hg .build .build .type

theorem builtExpr (level : Nat) :
    S.Coupled Eq (g.expr .build level) (g'.expr .build level) :=
  hg .build .build (.expr level)

theorem builtPattern : S.Coupled Eq (g.pattern .build) (g'.pattern .build) :=
  hg .build .build .pattern

theorem builtBlock : S.Coupled Eq (g.block .build) (g'.block .build) :=
  hg.block .build .build

theorem builtResult : S.Coupled Eq (g.resultType .build) (g'.resultType .build) :=
  hg.resultType .build .build

theorem builtVariable (exported destructures : Bool) :
    S.Coupled Eq (g.variableDecl .build exported destructures)
      (g'.variableDecl .build exported destructures) :=
  hg.variableDecl .build .build exported destructures

/-! ## Type parameters -/

theorem constraint : S.Coupled Eq g.constraint g'.constraint := by
  refine S.save.bind fun start _ hstart => hstart.1 ▸ hg.builtType.bindEq fun type => ?_
  exact .ite _ (S.failAt hstart.2 nofun rfl) (.pure rfl)

theorem constraints (name : String) :
    S.Coupled Eq (g.constraints name) (g'.constraints name) := by
  have hrest : S.Coupled Eq
      (do
        Parser.mark Keyword.isKw
        let first ← g.constraint
        return first :: (← Grammar.builtWhile (Parser.eat Symbol.pipe) g.constraint))
      (do
        Parser.mark Keyword.isKw
        let first ← g'.constraint
        return first :: (← Grammar.builtWhile (Parser.eat Symbol.pipe) g'.constraint)) :=
    (S.mark _).bindEq fun _ => hg.constraint.bindEq fun _ =>
      (S.builtWhile (S.eat _) hg.constraint).bindEq fun _ => .pure rfl
  refine (S.mark _).bindEq fun _ => S.save.bind fun start _ hstart => hstart.1 ▸ ?_
  refine S.expectIdentifier.bindEq fun constrained => .ite _ ?_ hrest
  exact (S.failAt hstart.2 (by nofun) rfl).bindEq fun _ => hrest

theorem genericItem : S.Coupled Eq g.genericItem g'.genericItem := by
  refine S.position.bindEq fun pos => S.expectIdentifier.bindEq fun name => ?_
  refine (S.eat _).bindEq fun colon => (S.check _).bindEq fun _ => .ite _ ?_ (.pure rfl)
  exact (hg.constraints name).bindEq fun _ => .pure rfl

theorem genericDecl : S.Coupled Eq g.genericDecl g'.genericDecl := by
  refine S.position.bindEq fun pos => (S.mark _).bindEq fun _ => ?_
  refine hg.genericItem.bindEq fun first => ?_
  refine (S.builtWhile (S.eat _) hg.genericItem).bindEq fun rest => ?_
  exact S.splitClosingAngle.bindEq fun _ => (S.mark _).bindEq fun _ => .pure rfl

theorem generics : S.Coupled Eq g.generics g'.generics :=
  S.builtOptionally (S.check _) (S.inContext _ hg.genericDecl)

/-! ## Parameters -/

theorem namedParameter (pos : Position) (ownership : Ownership) :
    S.Coupled Eq (g.namedParameter pos ownership) (g'.namedParameter pos ownership) := by
  refine S.expectIdentifier.bindEq fun name => (S.eat _).bindEq fun _ => .ite _ (.pure rfl) ?_
  refine (S.mark _).bindEq fun _ => ?_
  exact (show S.Coupled Eq _ _ from hg.parameterType .build .build name).bindEq fun _ =>
    .pure rfl

theorem patternParameter (pos : Position) (ownership : Ownership) :
    S.Coupled Eq (g.patternParameter pos ownership)
      (g'.patternParameter pos ownership) := by
  refine hg.builtPattern.bindEq fun pattern => (S.mark _).bindEq fun _ => ?_
  exact (S.rejectVoid _).bindEq fun _ => hg.builtType.bindEq fun _ => .pure rfl

theorem parameter : S.Coupled Eq g.parameter g'.parameter := by
  refine S.position.bindEq fun pos => S.ownership.bindEq fun ownership => ?_
  refine S.kind.bindEq fun k => .ite _ (hg.namedParameter pos ownership) ?_
  exact .ite _ (hg.patternParameter pos ownership) (S.expectedOneOf _)

theorem parametersOnto (steps : Nat) (taken : Array ParameterDecl) :
    S.Coupled Eq (g.parametersOnto steps taken) (g'.parametersOnto steps taken) := by
  induction steps generalizing taken with
  | zero => exact S.failAtStart nofun rfl
  | succ steps ih =>
    refine hg.parameter.bindEq fun next => .ite _ ((S.mark _).bindEq fun _ => .pure rfl) ?_
    refine S.kind.bindEq fun k => .ite _ (S.drop.bindEq fun _ => ih _) ?_
    exact .ite _ (S.drop.bindEq fun _ => .pure rfl) (S.failAtStart nofun rfl)

theorem parameters : S.Coupled Eq g.parameters g'.parameters := by
  refine (S.mark _).bindEq fun _ => S.inContext _ ?_
  refine (S.eat _).bindEq fun _ => .ite _ (.pure rfl) (S.listBound.bindEq fun steps => ?_)
  exact (hg.parametersOnto steps #[]).bindEq fun _ => .pure rfl

/-! ## Functions, interfaces, structs -/

theorem functionDecl (exported : Bool) :
    S.Coupled Eq (g.functionDecl exported) (g'.functionDecl exported) := by
  refine S.position.bindEq fun pos => (S.mark _).bindEq fun _ => ?_
  refine S.expectIdentifier.bindEq fun name => hg.generics.bindEq fun generics => ?_
  refine hg.parameters.bindEq fun params => hg.builtResult.bindEq fun result => ?_
  exact hg.builtBlock.bindEq fun _ => .pure rfl

theorem signature : S.Coupled Eq g.signature g'.signature := by
  refine S.position.bindEq fun pos => S.drop.bindEq fun _ => ?_
  refine S.expectIdentifier.bindEq fun name => hg.generics.bindEq fun generics => ?_
  refine hg.parameters.bindEq fun params => hg.builtResult.bindEq fun result => ?_
  exact (S.mark _).bindEq fun _ => .pure rfl

theorem interfaceDecl (exported : Bool) :
    S.Coupled Eq (g.interfaceDecl exported) (g'.interfaceDecl exported) := by
  refine S.position.bindEq fun pos => (S.mark _).bindEq fun _ => ?_
  refine S.expectIdentifier.bindEq fun name => hg.generics.bindEq fun generics => ?_
  refine (S.mark _).bindEq fun _ => ?_
  have hfunction := (S.check Keyword.fnKw).bindEq fun isFunction =>
    Coupled.ite (isFunction = true) hg.signature (S.expectedOneOf [Keyword.fnKw, Symbol.rBrace])
  exact (S.builtWhile (S.checkNot _) hfunction).bindEq fun functions =>
    S.drop.bindEq fun _ => .pure rfl

theorem structDecl (exported : Bool) :
    S.Coupled Eq (g.structDecl exported) (g'.structDecl exported) := by
  refine S.position.bindEq fun pos => (S.mark _).bindEq fun _ => ?_
  refine S.expectIdentifier.bindEq fun name => hg.generics.bindEq fun generics => ?_
  refine (S.mark _).bindEq fun _ => ?_
  have hfield := S.atVariable.bindEq fun isVariable =>
    Coupled.ite (isVariable = true) (hg.builtVariable false false)
      (S.expectedOneOf [Keyword.letKw, Keyword.constKw, Symbol.rBrace])
  exact (S.builtWhile (S.checkNot _) hfield).bindEq fun fields =>
    S.drop.bindEq fun _ => .pure rfl

/-! ## Traits and enums -/

theorem traitFunction (hasBody : Bool) :
    S.Coupled Eq (g.traitFunction hasBody) (g'.traitFunction hasBody) := by
  refine S.position.bindEq fun pos => (S.eat _).bindEq fun isStatic => ?_
  refine (S.mark _).bindEq fun _ => S.expectIdentifier.bindEq fun name => ?_
  refine hg.generics.bindEq fun generics => hg.parameters.bindEq fun params => ?_
  refine hg.builtResult.bindEq fun result => .ite _ ?_ ?_
  · exact hg.builtBlock.bindEq fun _ => .pure rfl
  · exact (S.mark _).bindEq fun _ => .pure rfl

theorem traitBody : S.Coupled Eq g.traitBody g'.traitBody := by
  refine (S.builtOptionally (S.eat _) hg.builtType).bindEq fun forType => ?_
  refine (S.mark _).bindEq fun _ => ?_
  have hfunction := S.kind.bindEq fun k =>
    Coupled.ite ((decide (k = Keyword.staticKw) || decide (k = Keyword.fnKw)) = true)
      (hg.traitFunction forType.isSome)
      (S.expectedOneOf [Keyword.fnKw, Keyword.staticKw, Symbol.rBrace])
  exact (S.builtWhile (S.checkNot _) hfunction).bindEq fun functions =>
    S.drop.bindEq fun _ => .pure rfl

theorem traitDecl (exported : Bool) :
    S.Coupled Eq (g.traitDecl exported) (g'.traitDecl exported) := by
  refine S.position.bindEq fun pos => (S.mark _).bindEq fun _ => ?_
  refine S.expectIdentifier.bindEq fun name => hg.generics.bindEq fun generics => ?_
  exact (S.inTraitMode hg.traitBody).bindEq fun _ => .pure rfl

theorem enumItemValue : S.Coupled Eq g.enumItemValue g'.enumItemValue := by
  refine S.kind.bindEq fun k => .ite _ ?_ (.ite _ ?_ (.pure rfl))
  · exact S.drop.bindEq fun _ => (hg.builtExpr _).bindEq fun _ => .pure rfl
  · exact S.drop.bindEq fun _ =>
      (show S.Coupled Eq _ _ from S.closedList _ (hg .build .build .type)).bindEq fun _ =>
        .pure rfl

theorem enumItem : S.Coupled Eq g.enumItem g'.enumItem := by
  refine S.position.bindEq fun pos => S.expectIdentifier.bindEq fun name => ?_
  refine hg.enumItemValue.bindEq fun value => S.kind.bindEq fun k => .ite _ ?_ (.ite _ ?_ ?_)
  · exact S.drop.bindEq fun _ => .pure rfl
  · exact S.unexpected.bindEq fun _ => .pure rfl
  · exact .pure rfl

theorem enumDecl (exported : Bool) :
    S.Coupled Eq (g.enumDecl exported) (g'.enumDecl exported) := by
  refine S.position.bindEq fun pos => (S.mark _).bindEq fun _ => ?_
  refine S.expectIdentifier.bindEq fun name => hg.generics.bindEq fun generics => ?_
  refine (S.mark _).bindEq fun _ => ?_
  exact (S.builtWhile (S.checkNot _) hg.enumItem).bindEq fun items =>
    S.drop.bindEq fun _ => .pure rfl

end Grammars

end Simulation

end ScriptFront
