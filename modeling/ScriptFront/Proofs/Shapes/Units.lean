import ScriptFront.Proofs.Coupling.Lookaheads
import ScriptFront.Proofs.Shapes.Decls

/-!
# What classes and units are delivered

With classes, namespaces and includes every reading that the front end offers delivers trees in
which all nodes are in order.

- `Entry.roots`: the trees that a reading yields.
- `Supply.entry`: all nodes of these trees are in order.
-/

namespace ScriptFront

open ScriptFront.Parser

-- What a reading comes to is told by the rules; nothing is to be run to find out.
attribute [local irreducible] Ends

/-- The trees that a reading yields. -/
def Entry.roots : (entry : Entry) → entry.Tree → List Node
  | .unit, u => [.unit u]
  | .type, t => [.type t]
  | .expr, e => [.expr e]
  | .pattern, p => [.pattern p]
  | .statement, s => [.stmt s]
  | .block, b => [.block b]
  | .eof, _ => []

namespace Supply

variable {σ : Type} [ByteSource σ] {S : Supply σ} {inTrait : Bool} {p : Parser σ}

/-! ## Trees of classes and units -/

theorem tree_classFunction {d : ClassFunctionDecl} (hform : d.WellFormed)
    (hname : S.vocabulary.Name d.name)
    (hsource : ∀ t ∈ d.sourceType, S.Tree inTrait (.type t) ∧ S.vocabulary.source t)
    (hhead : S.IsHead inTrait d.generics d.params d.result)
    (hbody : ∀ b ∈ d.body, S.Tree inTrait (.block b)) : S.Tree inTrait (.classFunction d) :=
  .of_parts rfl ⟨fun _ => hform, trivial, hname, fun t ht => (hsource t ht).2⟩
    (List.forall_mem_append.2 ⟨List.forall_mem_append.2
      ⟨forall_mem_optional fun t ht => (hsource t ht).1, hhead.nodes⟩, forall_mem_optional hbody⟩)

theorem tree_fieldInit {init : FieldInit} (hname : S.vocabulary.Name init.name)
    (hvalue : S.Tree inTrait (.expr init.value)) : S.Tree inTrait (.fieldInit init) :=
  .of_parts rfl ⟨fun _ => trivial, trivial, hname⟩ (List.forall_mem_singleton.2 hvalue)

theorem tree_constructor {d : ConstructorDecl}
    (hparams : ∀ p ∈ d.params, S.Tree inTrait (.parameter p))
    (hlast : ParameterDecl.VariadicLast d.params)
    (hargs : ∀ args ∈ d.superArgs, ∀ a ∈ args, S.IsArg inTrait a)
    (hinits : ∀ i ∈ d.inits, S.Tree inTrait (.fieldInit i))
    (hbody : S.Tree inTrait (.block d.body)) : S.Tree inTrait (.constructor d) := by
  refine .of_parts rfl ⟨fun _ => hlast, trivial, fun args hmem a ha =>
    (hargs args hmem a ha).single⟩ ?_
  refine List.forall_mem_cons.2 ⟨hbody, List.forall_mem_append.2 ⟨List.forall_mem_append.2
    ⟨List.forall_mem_map.2 hparams, List.forall_mem_map.2 ?_⟩, List.forall_mem_map.2 hinits⟩⟩
  cases hsuper : d.superArgs with
  | none => exact fun _ ha => nomatch ha
  | some args => exact fun a ha => (hargs args hsuper a ha).tree

theorem tree_destructor {d : DestructorDecl} (hbody : S.Tree inTrait (.block d.body)) :
    S.Tree inTrait (.destructor d) :=
  .of_parts rfl ⟨fun _ => trivial, trivial, trivial⟩ (List.forall_mem_singleton.2 hbody)

/-- A type with a name. -/
structure IsNamedType (S : Supply σ) (inTrait : Bool) (t : TypeExpr) : Prop where
  tree : S.Tree inTrait (.type t)
  named : t.isNamed

/-- A member of a class. -/
def IsClassMember (S : Supply σ) (inTrait : Bool) : Grammar.ClassMember → Prop
  | .function d => S.Tree inTrait (.classFunction d)
  | .variable d => S.IsMember inTrait d.decl
  | .constructor d => S.Tree inTrait (.constructor d)
  | .destructor d => S.Tree inTrait (.destructor d)

/-- What is known of the members of a list is known of those of one kind. -/
theorem forall_mem_filterMap {α β : Type} {P : α → Prop} {Q : β → Prop} {members : List α}
    {part : α → Option β} (h : ∀ m ∈ members, P m) (hpart : ∀ m b, P m → part m = some b → Q b) :
    ∀ b ∈ members.filterMap part, Q b := by
  intro b hb
  obtain ⟨m, hm, hmb⟩ := List.mem_filterMap.1 hb
  exact hpart m b (h m hm) hmb

theorem tree_class {d : ClassDecl} {members : List Grammar.ClassMember}
    (hname : S.vocabulary.Name d.name) (hgenerics : ∀ g ∈ d.generics, S.Tree inTrait (.generics g))
    (hbase : ∀ t ∈ d.base, S.IsNamedType inTrait t)
    (hinterfaces : ∀ t ∈ d.interfaces, S.IsNamedType inTrait t)
    (hmembers : ∀ m ∈ members, S.IsClassMember inTrait m)
    (hfunctions : d.functions = members.filterMap Grammar.ClassMember.asFunction?)
    (hfields : d.fields = members.filterMap Grammar.ClassMember.asVariable?)
    (hconstructors : d.constructors = members.filterMap Grammar.ClassMember.asConstructor?)
    (hdestructors : d.destructors = members.filterMap Grammar.ClassMember.asDestructor?) :
    S.Tree inTrait (.class d) := by
  have hfunctions' : ∀ f ∈ d.functions, S.Tree inTrait (.classFunction f) := by
    rw [hfunctions]
    refine forall_mem_filterMap hmembers fun m f hm hf => ?_
    cases m <;> cases hf
    exact hm
  have hfields' : ∀ f ∈ d.fields, S.IsMember inTrait f.decl := by
    rw [hfields]
    refine forall_mem_filterMap hmembers fun m f hm hf => ?_
    cases m <;> cases hf
    exact hm
  have hconstructors' : ∀ c ∈ d.constructors, S.Tree inTrait (.constructor c) := by
    rw [hconstructors]
    refine forall_mem_filterMap hmembers fun m c hm hc => ?_
    cases m <;> cases hc
    exact hm
  have hdestructors' : ∀ c ∈ d.destructors, S.Tree inTrait (.destructor c) := by
    rw [hdestructors]
    refine forall_mem_filterMap hmembers fun m c hm hc => ?_
    cases m <;> cases hc
    exact hm
  refine .of_parts rfl ⟨fun _ => ⟨fun t ht => (hbase t ht).named,
    fun t ht => (hinterfaces t ht).named, fun f hf => (hfields' f hf).named⟩, trivial,
      hname, fun f hf => (hfields' f hf).exported_eq⟩ ?_
  simp only [Node.parts, List.forall_mem_append, List.forall_mem_map]
  refine ⟨⟨⟨⟨⟨⟨?_, ?_⟩, ?_⟩, hfunctions'⟩, ?_⟩, hconstructors'⟩, hdestructors'⟩
  · exact fun t ht => hgenerics t (Option.mem_toList.1 ht)
  · exact fun t ht => (hbase t (Option.mem_toList.1 ht)).tree
  · exact fun t ht => (hinterfaces t ht).tree
  · exact fun f hf => (hfields' f hf).tree

theorem tree_declaration {d : GeneralDecl} (hform : d.WellFormed) (h : S.Tree inTrait d.node) :
    S.Tree inTrait (.declaration d) :=
  .of_parts rfl ⟨fun _ => hform, trivial, trivial⟩ (List.forall_mem_singleton.2 h)

theorem tree_namespace {d : NamespaceDecl} (hname : S.vocabulary.Name d.name)
    (hinner : ∀ n ∈ d.namespaces, S.Tree inTrait (.namespace n))
    (hdeclarations : ∀ c ∈ d.declarations, S.Tree inTrait (.declaration c)) :
    S.Tree inTrait (.namespace d) :=
  .of_parts rfl ⟨fun _ => trivial, trivial, hname⟩ (List.forall_mem_append.2
    ⟨List.forall_mem_map.2 hinner, List.forall_mem_map.2 hdeclarations⟩)

theorem tree_include {d : IncludeDecl} (hform : d.WellFormed) (hwords : S.vocabulary.Include d) :
    S.Tree inTrait (.include d) :=
  .of_parts rfl ⟨fun _ => hform, trivial, hwords⟩ fun _ hn => nomatch hn

theorem tree_unit {u : CodeUnit} (hincludes : ∀ d ∈ u.includes, S.Tree inTrait (.include d))
    (hnamespaces : ∀ d ∈ u.namespaces, S.Tree inTrait (.namespace d)) :
    S.Tree inTrait (.unit u) :=
  .of_parts rfl ⟨fun _ => trivial, trivial, trivial⟩ (List.forall_mem_append.2
    ⟨List.forall_mem_map.2 hincludes, List.forall_mem_map.2 hnamespaces⟩)

/-- A grammar that finds interfaces before the names of functions as they are to be found. -/
def ReadsSources (S : Supply σ) (g : Grammar σ) : Prop :=
  ∀ ⦃inTrait : Bool⦄, S.Delivers inTrait
    (Grammar.builtOptionally Grammar.namesSourceType g.sourceType)
    fun o : Option TypeExpr => ∀ t ∈ o, S.Tree inTrait (.type t) ∧ S.vocabulary.source t

namespace Delivers

/-! ## Interfaces before names -/

theorem dotAhead (steps : Nat) :
    S.Delivers inTrait (Grammar.dotAhead steps : Parse σ Bool) fun _ => True := by
  induction steps with
  | zero => exact failAtStart (by nofun) (by nofun)
  | succ steps ih =>
    refine fun p hp => .kind (.ite (fun _ => pure trivial p hp) fun hdot => ?_)
    refine .ite (fun _ => pure trivial p hp) fun _ => ?_
    exact (DeliversAt.drop hp rfl fun h => absurd h hdot).bind fun _ _ => ih

theorem namesSourceType :
    S.Delivers inTrait (Grammar.namesSourceType : Parse σ Bool) fun _ => True :=
  listBound.bind fun _ _ => (dotAhead _).lookAhead

theorem sourceType (hfree : S.free) {g : Grammar σ} (hg : S.ReadsTypes g) :
    S.Delivers inTrait g.sourceType fun t : TypeExpr => S.Tree inTrait (.type t) :=
  hg.type.bind fun _ ht => (mark _ fun _ => hfree).bind fun _ _ => .pure ht

/-! ## Includes -/

theorem includeItem : S.Delivers inTrait (Grammar.includeItem : Parse σ IncludeItem)
    fun i => S.vocabulary.Name i.name := by
  have hname : S.Delivers inTrait
      (do
        let pos ← Parser.position
        let name ← Parser.expectIdentifier
        return ({ pos, name } : IncludeItem))
      fun i => S.vocabulary.Name i.name :=
    position.bind fun _ _ => expectIdentifier.bind fun _ h => .pure h
  refine (check _).bind fun _ _ => .ite (fun _ => ?_) fun _ => hname
  exact bind (V := fun _ => True) .unexpected fun _ _ => hname

theorem includeItems (hfree : S.free) :
    S.Delivers inTrait (Grammar.includeItems : Parse σ IncludeItems)
    fun items => ∀ l, items = .named l → l ≠ [] ∧ ∀ i ∈ l, S.vocabulary.Name i.name := by
  refine (eat _ fun _ => hfree).bind fun _ _ => .ite (fun _ => .pure nofun) fun _ => ?_
  refine includeItem.bind fun first hfirst => ?_
  refine (listWhile (eat _ fun _ => hfree) includeItem).bind fun rest hrest => .pure ?_
  rintro _ ⟨⟩
  exact ⟨List.cons_ne_nil _ _, List.forall_mem_cons.2 ⟨hfirst, hrest⟩⟩

theorem scopedName (hfree : S.free) : S.Delivers inTrait (Grammar.scopedName : Parse σ ScopedName)
    fun path => path.segments ≠ [] ∧ ∀ name ∈ path.segments, S.vocabulary.Name name := by
  refine position.bind fun pos _ => (eat _ fun _ => hfree).bind fun root _ => ?_
  refine expectIdentifier.bind fun first hfirst => ?_
  refine (listWhile (eat _ fun _ => hfree) expectIdentifier).bind fun rest hrest => ?_
  exact .pure ⟨List.cons_ne_nil _ _, List.forall_mem_cons.2 ⟨hfirst, hrest⟩⟩

theorem includeDecl (hfree : S.free) :
    S.Delivers inTrait (Grammar.includeDecl : Parse σ IncludeDecl)
    fun d => S.Tree inTrait (.include d) := by
  refine position.bind fun pos _ => (mark _ fun _ => hfree).bind fun _ _ => ?_
  refine (mark _ fun _ => hfree).bind fun _ _ => (includeItems hfree).bind fun items hitems => ?_
  refine (mark _ fun _ => hfree).bind fun _ _ =>
    (expectOneOf _ fun h => absurd h (by decide)).bind fun _ _ => ?_
  refine (scopedName hfree).bind fun path hpath => (mark _ fun _ => hfree).bind fun _ _ => .pure ?_
  exact tree_include ⟨fun l hl => (hitems l hl).1, hpath.1⟩
    ⟨fun l hl => (hitems l hl).2, hpath.2⟩

end Delivers

namespace Sound

variable {g : Grammar σ} (hg : S.Sound g)

include hg

/-! ## Functions of classes -/

/-- An abstract function neither overrides nor is final, and no function does both. -/
theorem closingModifiers (isAbstract : Bool) (name : String) :
    S.Delivers inTrait (Grammar.closingModifiers isAbstract name : Parse σ (Bool × Bool))
      fun r => ¬(r.1 ∧ r.2) ∧ (isAbstract → r = (false, false)) := by
  refine fun p hp => .kind ?_
  have hboth : ¬(decide (p.current.kind = Keyword.overrideKw) = true ∧
      decide (p.current.kind = Keyword.finalKw) = true) := by
    rintro ⟨h, h'⟩
    rw [of_decide_eq_true h] at h'
    cases h'
  refine .ite (fun _ => ?_) fun hnone => ?_
  · refine .ite (fun _ => ?_) fun habstract => ?_
    · exact DeliversAt.bind (V := fun _ => False)
        (.failAtStart hp (by nofun) (by nofun)) fun _ h => h.elim
    · exact (hg.drop p hp).bind fun _ _ => .pure ⟨hboth, fun h => absurd h habstract⟩
  · refine Delivers.pure ⟨hboth, fun _ => ?_⟩ p hp
    simp only [Bool.or_eq_true, not_or, Bool.not_eq_true] at hnone
    rw [hnone.1, hnone.2]

section Functions

variable (hsources : S.ReadsSources g)

include hsources

/-- The modifiers in front of a function go together. -/
theorem classFunctionBehind {isStatic isAbstract isVirtual : Bool} (pos : Position)
    (access : Access) (habstract : isAbstract → isStatic = false ∧ isVirtual = false)
    (hvirtual : isVirtual → isStatic = false) :
    S.Delivers inTrait (g.classFunctionBehind pos access isStatic isAbstract isVirtual)
      fun d : ClassFunctionDecl => S.Tree inTrait (.classFunction d) := by
  refine (hg.mark _).bind fun _ _ => (@hsources inTrait).bind fun source hsource => ?_
  refine Delivers.expectIdentifier.bind fun name hname => ?_
  refine hg.headThen fun generics params result hhead => ?_
  refine (hg.closingModifiers isAbstract name).bind fun closing hclosing => ?_
  refine (Delivers.optionallyIf fun _ => hg.block).bind fun body hbody => ?_
  have htree : S.Tree inTrait (.classFunction ⟨pos, access, isStatic, isAbstract, isVirtual,
      closing.1, closing.2, source, name, generics, params, result, body⟩) := by
    refine tree_classFunction ⟨?_, fun h => ?_, hvirtual, hclosing.1, hhead.last⟩ hname hsource
      hhead hbody.2
    · rw [← Option.isNone_iff_eq_none, ← Option.not_isSome, hbody.1, Bool.not_not]
    · obtain ⟨hstatic, hvirtual'⟩ := habstract h
      have hnone := hclosing.2 h
      exact ⟨hstatic, hvirtual', congrArg Prod.fst hnone, congrArg Prod.snd hnone⟩
  refine .ite (fun _ => (hg.mark _).bind fun _ _ => .pure htree) fun _ => .pure htree

/-- A static function is neither abstract nor virtual. -/
theorem classFunction {isStatic : Bool} (hp : S.Stays inTrait p) (access : Access)
    (hstatic : isStatic → p.current.kind = Keyword.fnKw) :
    S.DeliversAt inTrait p (g.classFunction access isStatic)
      fun d : ClassFunctionDecl => S.Tree inTrait (.classFunction d) := by
  refine .position ?_
  cases isStatic with
  | true =>
    have hkind := hstatic rfl
    refine .eatOfNeThen (by rw [hkind]; nofun) ?_
    refine .ite (fun h => absurd h Bool.false_ne_true) fun _ => ?_
    refine .eatOfNeThen (by rw [hkind]; nofun) ?_
    have hbehind : S.Delivers inTrait
        (g.classFunctionBehind p.current.position access true false false)
        fun d : ClassFunctionDecl => S.Tree inTrait (.classFunction d) :=
      hg.classFunctionBehind hsources _ access (fun h => nomatch h) (fun h => nomatch h)
    exact hbehind p hp
  | false =>
    refine Delivers.bind (hg.eat _) (fun isAbstract _ => .ite (fun h => ?_) fun h => ?_) p hp
    · exact hg.classFunctionBehind hsources _ access (fun _ => ⟨rfl, rfl⟩) nofun
    · refine (hg.eat _).bind fun isVirtual _ => ?_
      exact hg.classFunctionBehind hsources _ access (fun h' => absurd h' h) fun _ => rfl

end Functions

/-! ## Constructors and destructors -/

theorem fieldInit : S.Delivers inTrait g.fieldInit
    fun i : FieldInit => S.Tree inTrait (.fieldInit i) := by
  refine Delivers.position.bind fun pos _ => Delivers.expectIdentifier.bind fun name hname => ?_
  refine (hg.mark _).bind fun _ _ => (hg.exprAt _).bind fun value hvalue => ?_
  exact (hg.mark _).bind fun _ _ => .pure (tree_fieldInit hname hvalue)

theorem constructorInits : S.Delivers inTrait g.constructorInits
    fun r : Option (List Expr) × List FieldInit =>
      (∀ args ∈ r.1, ∀ a ∈ args, S.IsArg inTrait a) ∧
        ∀ i ∈ r.2, S.Tree inTrait (.fieldInit i) := by
  have hmore : S.Delivers inTrait (Grammar.builtWhile (Parser.eat Symbol.comma) g.fieldInit)
      fun inits : List FieldInit => ∀ i ∈ inits, S.Tree inTrait (.fieldInit i) :=
    Delivers.listWhile (hg.eat _) hg.fieldInit
  refine (hg.eat _).bind fun _ _ => .ite (fun _ => ?_) fun _ => ?_
  · refine (hg.mark _).bind fun _ _ => hg.callArgs.bind fun args hargs => ?_
    refine hmore.bind fun inits hinits => .pure ⟨?_, hinits⟩
    rintro _ ⟨⟩
    exact hargs
  · refine hg.fieldInit.bind fun first hfirst => hmore.bind fun rest hrest => .pure ⟨nofun, ?_⟩
    exact List.forall_mem_cons.2 ⟨hfirst, hrest⟩

theorem constructorDecl (access : Access) : S.Delivers inTrait (g.constructorDecl access)
    fun d : ConstructorDecl => S.Tree inTrait (.constructor d) := by
  refine Delivers.position.bind fun pos _ => (hg.mark _).bind fun _ _ => ?_
  refine hg.parameters.bind fun params hparams => (hg.eat _).bind fun _ _ => ?_
  refine .ite (fun _ => ?_) fun _ => ?_
  · refine hg.constructorInits.bind fun r hr => hg.block.bind fun body hbody => .pure ?_
    exact tree_constructor hparams.1 hparams.2 hr.1 hr.2 hbody
  · refine hg.block.bind fun body hbody => .pure ?_
    exact tree_constructor hparams.1 hparams.2 (fun _ h => nomatch h) (fun _ h => nomatch h) hbody

theorem destructorDecl : S.Delivers inTrait g.destructorDecl
    fun d : DestructorDecl => S.Tree inTrait (.destructor d) := by
  refine Delivers.position.bind fun pos _ => (hg.mark _).bind fun _ _ => ?_
  refine (hg.mark _).bind fun _ _ => (hg.mark _).bind fun _ _ => ?_
  exact hg.block.bind fun body hbody => .pure (tree_destructor hbody)

/-! ## Members and classes -/

theorem accessModifier :
    S.Delivers inTrait (Grammar.accessModifier : Parse σ (Option Access)) fun _ => True :=
  Delivers.kind.bind fun _ _ => .ite (fun _ => hg.drop.bind fun _ _ => .pure trivial)
    fun _ => .pure trivial

theorem classMember (hsources : S.ReadsSources g) :
    S.Delivers inTrait g.classMember (S.IsClassMember inTrait) := by
  refine hg.accessModifier.bind fun modifier _ => (hg.eat _).bind fun isStatic _ => ?_
  refine fun p hp => .kind ?_
  split
  · refine .ite (fun _ => .failAtStart hp (by nofun) (by nofun)) fun h => ?_
    exact (hg.classFunction hsources hp _ fun h' => absurd h' h).bind fun d hd => .pure hd
  · refine .ite (fun _ => .failAtStart hp (by nofun) (by nofun)) fun h => ?_
    exact (hg.classFunction hsources hp _ fun h' => absurd h' h).bind fun d hd => .pure hd
  · next hkind =>
    exact (hg.classFunction hsources hp _ fun _ => hkind).bind fun d hd => .pure hd
  · exact (hg.memberVariable p hp).bind fun d hd => .pure hd
  · exact (hg.memberVariable p hp).bind fun d hd => .pure hd
  · refine .ite (fun _ => .failAtStart hp (by nofun) (by nofun)) fun _ => ?_
    exact (hg.constructorDecl _ p hp).bind fun d hd => .pure hd
  · refine .ite (fun _ => .failAtStart hp (by nofun) (by nofun)) fun _ =>
      .ite (fun _ => .failAtStart hp (by nofun) (by nofun)) fun _ => ?_
    exact (hg.destructorDecl p hp).bind fun d hd => .pure hd
  · exact Delivers.expectedOneOf _ p hp

theorem namedType (fault : SyntaxFault) (hfault : fault.code ≠ .misplacedVoid)
    (hself : fault ≠ .selfOutsideTrait) :
    S.Delivers inTrait (g.namedType fault) (S.IsNamedType inTrait) := by
  refine fun p hp => .save ((hg.types.type p hp).bind fun t ht => ?_)
  exact .ite (fun h => .pure ⟨ht, h⟩) fun _ => .failAt hfault fun _ => hself

theorem interfaces (className : String) : S.Delivers inTrait (g.interfaces className)
    fun ts : List TypeExpr => ∀ t ∈ ts, S.IsNamedType inTrait t := by
  have hitem : S.Delivers inTrait (g.namedType (.notAnInterface className)) _ :=
    hg.namedType _ nofun nofun
  refine (hg.eat _).bind fun _ _ => .ite (fun _ => ?_) fun _ => .pure fun _ h => nomatch h
  refine hitem.bind fun first hfirst => (Delivers.listWhile (hg.eat _) hitem).bind ?_
  exact fun rest hrest => .pure (List.forall_mem_cons.2 ⟨hfirst, hrest⟩)

theorem classDecl (hsources : S.ReadsSources g) (exported isAbstract : Bool) :
    S.Delivers inTrait (g.classDecl exported isAbstract)
      fun d : ClassDecl => S.Tree inTrait (.class d) := by
  refine Delivers.position.bind fun pos _ => (hg.mark _).bind fun _ _ => ?_
  refine Delivers.expectIdentifier.bind fun name hname =>
    hg.types.generics.bind fun generics hgenerics => ?_
  refine (Delivers.optionally (hg.eat _) (hg.namedType (.notABase name) nofun nofun)).bind
    fun base hbase => (hg.interfaces name).bind fun interfaces hinterfaces => ?_
  refine (hg.mark _).bind fun _ _ => ?_
  refine (Delivers.listWhile (Delivers.checkNot _) (hg.classMember hsources)).bind
    fun members hmembers => hg.drop.bind fun _ _ => .pure ?_
  exact tree_class hname hgenerics hbase hinterfaces hmembers rfl rfl rfl rfl

/-! ## Namespaces and units -/

section Namespaces

variable (hsources : S.ReadsSources g)

include hsources

theorem declaration (exported isAbstract : Bool) :
    S.Delivers inTrait (g.declaration exported isAbstract)
      fun d : GeneralDecl => S.Tree inTrait (.declaration d) := by
  refine fun p hp => .kind ?_
  split
  · exact ((hg.classDecl hsources exported isAbstract).inContext _ p hp).bind fun d hd =>
      .pure (tree_declaration trivial hd)
  · exact ((hg.interfaceDecl exported).inContext _ p hp).bind fun d hd =>
      .pure (tree_declaration trivial hd)
  · exact ((hg.structDecl exported).inContext _ p hp).bind fun d hd =>
      .pure (tree_declaration trivial hd)
  · exact ((hg.enumDecl exported).inContext _ p hp).bind fun d hd =>
      .pure (tree_declaration trivial hd)
  · exact ((hg.traitDecl exported).inContext _ p hp).bind fun d hd =>
      .pure (tree_declaration trivial hd)
  · exact ((hg.functionDecl exported).inContext _ p hp).bind fun d hd =>
      .pure (tree_declaration trivial hd)
  · exact (hg.variableDecl exported false p hp).bind fun d hd =>
      .pure (tree_declaration (hd.2.2 rfl) hd.1)
  · exact (hg.variableDecl exported false p hp).bind fun d hd =>
      .pure (tree_declaration (hd.2.2 rfl) hd.1)
  · exact Delivers.expectedOneOf _ p hp

theorem generalDecl : S.Delivers inTrait g.generalDecl
    fun d : GeneralDecl => S.Tree inTrait (.declaration d) := by
  refine (hg.eat _).bind fun exported _ => (hg.eat _).bind fun isAbstract _ => ?_
  refine (Delivers.checkNot _).bind fun _ _ => .ite (fun _ => .unexpected) fun _ => ?_
  exact hg.declaration hsources exported isAbstract

/-- A member of a namespace. -/
def IsNamespaceMember (S : Supply σ) (inTrait : Bool) : Grammar.NamespaceMember → Prop
  | .inner d => S.Tree inTrait (.namespace d)
  | .declaration d => S.Tree inTrait (.declaration d)

theorem namespaceDecl (depth : Nat) : S.Delivers inTrait (g.namespaceDecl depth)
    fun d : NamespaceDecl => S.Tree inTrait (.namespace d) := by
  induction depth with
  | zero => exact .failAtStart (by nofun) (by nofun)
  | succ depth ih =>
    refine Delivers.position.bind fun pos _ => (hg.mark _).bind fun _ _ => ?_
    refine Delivers.expectIdentifier.bind fun name hname => Delivers.inContext _ ?_
    refine (hg.mark _).bind fun _ _ => ?_
    refine (Delivers.listWhile (P := IsNamespaceMember S inTrait) (Delivers.checkNot _) ?_).bind
      fun members hmembers => hg.drop.bind fun _ _ => .pure (tree_namespace hname ?_ ?_)
    · refine (Delivers.check _).bind fun _ _ => .ite (fun _ => ?_) fun _ => ?_
      · exact ih.bind fun d hd => .pure hd
      · exact (hg.generalDecl hsources).bind fun d hd => .pure hd
    · refine forall_mem_filterMap hmembers fun m d hm hd => ?_
      cases m <;> cases hd
      exact hm
    · refine forall_mem_filterMap hmembers fun m d hm hd => ?_
      cases m <;> cases hd
      exact hm

theorem topNamespace : S.Delivers inTrait g.topNamespace
    fun d : NamespaceDecl => S.Tree inTrait (.namespace d) :=
  (Delivers.check _).bind fun _ _ => .ite
    (fun _ => Delivers.listBound.bind fun _ _ => hg.namespaceDecl hsources _)
    fun _ => .expectedOneOf _

theorem unit : S.Delivers inTrait g.unit fun u : CodeUnit => S.Tree inTrait (.unit u) := by
  refine fun p hp => .get ?_
  refine (Delivers.listWhile (Delivers.check _)
    ((Delivers.includeDecl hg.free).inContext _) p hp).bind ?_
  refine fun includes hincludes => ?_
  refine (Delivers.listWhile (Delivers.checkNot _) (hg.topNamespace hsources)).bind ?_
  exact fun namespaces hnamespaces => .pure (tree_unit hincludes hnamespaces)

end Namespaces

end Sound

/-- Where any type may stand before the name of a function, interfaces need not be looked at. -/
theorem readsSources (hfree : S.free) (hany : ∀ t, S.vocabulary.source t) (depth : Nat) :
    S.ReadsSources (Grammar.upTo depth) := fun _ =>
  (Delivers.optionally .namesSourceType (.sourceType hfree (S.readsTypes depth))).mono
    fun _ h t ht => ⟨h t ht, hany t⟩

/-! ## Whole readings -/

theorem grammar :
    S.Delivers inTrait Parser.grammar fun g : Grammar σ => ∃ depth, g = Grammar.upTo depth :=
  fun p hp => DeliversAt.get (f := fun p => Pure.pure (Grammar.upTo p.bound))
    (Delivers.pure ⟨p.bound, rfl⟩ p hp)

/-- All trees that a reading yields are in order. -/
theorem entry (hfree : S.free) (hsources : ∀ depth, S.ReadsSources (Grammar.upTo depth))
    (entry : Entry) :
    S.Delivers inTrait entry.read fun tree => ∀ n ∈ entry.roots tree, S.Tree inTrait n := by
  have hsound := S.sound hfree
  cases entry with
  | unit =>
    refine grammar.bind ?_
    rintro _ ⟨depth, rfl⟩
    exact ((hsound depth).unit (hsources depth)).mono fun _ h => List.forall_mem_singleton.2 h
  | type =>
    refine grammar.bind ?_
    rintro _ ⟨depth, rfl⟩
    exact (hsound depth).types.type.mono fun _ h => List.forall_mem_singleton.2 h
  | expr =>
    refine grammar.bind ?_
    rintro _ ⟨depth, rfl⟩
    exact ((hsound depth).exprAt _).mono fun _ h => List.forall_mem_singleton.2 h
  | pattern =>
    refine grammar.bind ?_
    rintro _ ⟨depth, rfl⟩
    exact (hsound depth).patternAt.mono fun _ h => List.forall_mem_singleton.2 h
  | statement =>
    refine grammar.bind ?_
    rintro _ ⟨depth, rfl⟩
    exact (hsound depth).statement.mono fun _ h => List.forall_mem_singleton.2 h
  | block =>
    refine grammar.bind ?_
    rintro _ ⟨depth, rfl⟩
    exact (hsound depth).block.mono fun _ h => List.forall_mem_singleton.2 h
  | eof => exact (Delivers.mark _ fun _ => hfree).mono fun _ _ _ hn => nomatch hn

end Supply

end ScriptFront
