import ScriptFront.Grammar.Decls
import ScriptFront.Proofs.Shapes.Stmts

/-!
# What declarations are delivered

Functions, interfaces, structs, traits and enums are read to be well formed by a sound grammar. The
lists that they share come first: type parameters, parameters, and what stands between the name of
a function and its body.
-/

namespace ScriptFront

open ScriptFront.Parser

-- What a reading comes to is told by the rules; nothing is to be run to find out.
attribute [local irreducible] Ends

namespace Supply

variable {σ : Type} [ByteSource σ] {S : Supply σ} {inTrait : Bool} {p : Parser σ}

/-! ## Trees of declarations -/

theorem tree_genericItem {item : GenericItem} (hname : S.vocabulary.Name item.name)
    (hconstraints : ∀ t ∈ item.constraints, S.Tree inTrait (.type t) ∧ t.nullable = false) :
    S.Tree inTrait (.genericItem item) :=
  .of_parts rfl ⟨fun _ t ht => (hconstraints t ht).2, trivial, hname⟩
    (List.forall_mem_map.2 fun t ht => (hconstraints t ht).1)

theorem tree_generics {d : GenericDecl} (hne : d.items ≠ [])
    (hitems : ∀ i ∈ d.items, S.Tree inTrait (.genericItem i)) : S.Tree inTrait (.generics d) :=
  .of_parts rfl ⟨fun _ => hne, trivial, trivial⟩ (List.forall_mem_map.2 hitems)

theorem tree_parameter {d : ParameterDecl} (hform : d.WellFormed)
    (hbinding : S.IsBinding inTrait d.binding) (htype : ∀ t ∈ d.type, S.IsValueType inTrait t) :
    S.Tree inTrait (.parameter d) :=
  .of_parts rfl ⟨fun _ => hform, fun t ht => (htype t ht).value, hbinding.declared⟩
    (List.forall_mem_append.2 ⟨hbinding.parts, forall_mem_types htype⟩)

/-- What stands between the name of a function and its body. -/
structure IsHead (S : Supply σ) (inTrait : Bool) (generics : Option GenericDecl)
    (params : List ParameterDecl) (result : TypeExpr) : Prop where
  nodes : ∀ n ∈ headNodes generics params result, S.Tree inTrait n
  last : ParameterDecl.VariadicLast params

theorem tree_function {d : FunctionDecl} (hname : S.vocabulary.Name d.name)
    (hhead : S.IsHead inTrait d.generics d.params d.result)
    (hbody : S.Tree inTrait (.block d.body)) : S.Tree inTrait (.function d) :=
  .of_parts rfl ⟨fun _ => hhead.last, trivial, hname⟩ (List.forall_mem_cons.2 ⟨hbody, hhead.nodes⟩)

theorem tree_signature {d : SignatureDecl} (hname : S.vocabulary.Name d.name)
    (hhead : S.IsHead inTrait d.generics d.params d.result) : S.Tree inTrait (.signature d) :=
  .of_parts rfl ⟨fun _ => hhead.last, trivial, hname⟩ hhead.nodes

theorem tree_interface {d : InterfaceDecl} (hname : S.vocabulary.Name d.name)
    (hgenerics : ∀ g ∈ d.generics, S.Tree inTrait (.generics g))
    (hfunctions : ∀ f ∈ d.functions, S.Tree inTrait (.signature f)) :
    S.Tree inTrait (.interface d) :=
  .of_parts rfl ⟨fun _ => trivial, trivial, hname⟩ (List.forall_mem_append.2
    ⟨forall_mem_optional hgenerics, List.forall_mem_map.2 hfunctions⟩)

/-- A variable that is a member of something: it has a name and is not exported. -/
structure IsMember (S : Supply σ) (inTrait : Bool) (d : VariableDecl) : Prop where
  tree : S.Tree inTrait (.variable d)
  exported_eq : d.exported = false
  named : d.binding.IsNamed

theorem tree_struct {d : StructDecl} (hname : S.vocabulary.Name d.name)
    (hgenerics : ∀ g ∈ d.generics, S.Tree inTrait (.generics g))
    (hfields : ∀ f ∈ d.fields, S.IsMember inTrait f) : S.Tree inTrait (.struct d) :=
  .of_parts rfl
    ⟨fun _ f hf => (hfields f hf).named, trivial, hname, fun f hf => (hfields f hf).exported_eq⟩
    (List.forall_mem_append.2 ⟨forall_mem_optional hgenerics,
      List.forall_mem_map.2 fun f hf => (hfields f hf).tree⟩)

theorem tree_traitFunction {d : TraitFunctionDecl} (hname : S.vocabulary.Name d.name)
    (hhead : S.IsHead inTrait d.generics d.params d.result)
    (hbody : ∀ b ∈ d.body, S.Tree inTrait (.block b)) : S.Tree inTrait (.traitFunction d) :=
  .of_parts rfl ⟨fun _ => hhead.last, trivial, hname⟩
    (List.forall_mem_append.2 ⟨hhead.nodes, forall_mem_optional hbody⟩)

/-- In the body of a trait `self` is a type. -/
theorem tree_traitBody {forType : Option TypeExpr} {functions : List TraitFunctionDecl}
    (htype : ∀ t ∈ forType, S.Tree true (.type t))
    (hfunctions : ∀ f ∈ functions,
      S.Tree true (.traitFunction f) ∧ (f.body.isSome ↔ forType.isSome)) :
    S.Tree inTrait (.traitBody forType functions) := by
  refine .intro ⟨fun _ f hf => (hfunctions f hf).2, trivial, trivial⟩ ?_
  rw [Node.isTraitBody, Bool.or_true]
  exact List.forall_mem_append.2 ⟨forall_mem_optional htype,
    List.forall_mem_map.2 fun f hf => (hfunctions f hf).1⟩

theorem tree_trait {d : TraitDecl} (hname : S.vocabulary.Name d.name)
    (hgenerics : ∀ g ∈ d.generics, S.Tree inTrait (.generics g))
    (hbody : S.Tree inTrait (.traitBody d.forType d.functions)) : S.Tree inTrait (.trait d) :=
  .of_parts rfl ⟨fun _ => trivial, trivial, hname⟩
    (List.forall_mem_cons.2 ⟨hbody, forall_mem_optional hgenerics⟩)

theorem tree_enumItem {i : EnumItemDecl} (hname : S.vocabulary.Name i.name)
    (hform : i.value.WellFormed) (hparts : ∀ n ∈ i.value.nodes, S.Tree inTrait n) :
    S.Tree inTrait (.enumItem i) := .of_parts rfl ⟨fun _ => hform, trivial, hname⟩ hparts

theorem tree_enum {d : EnumDecl} (hname : S.vocabulary.Name d.name)
    (hgenerics : ∀ g ∈ d.generics, S.Tree inTrait (.generics g))
    (hitems : ∀ i ∈ d.items, S.Tree inTrait (.enumItem i)) : S.Tree inTrait (.enum d) :=
  .of_parts rfl ⟨fun _ => trivial, trivial, hname⟩ (List.forall_mem_append.2
    ⟨forall_mem_optional hgenerics, List.forall_mem_map.2 hitems⟩)

namespace ReadsTypes

variable {g : Grammar σ} (hg : S.ReadsTypes g)

include hg

/-! ## Type parameters -/

theorem constraint : S.Delivers inTrait g.constraint
    fun t : TypeExpr => S.Tree inTrait (.type t) ∧ t.nullable = false := by
  refine fun p hp =>
    .save ((hg.type p hp).bind fun t ht =>
      .ite (fun _ => .failAt (by nofun) (by nofun)) fun h => ?_)
  exact .pure ⟨ht, Bool.eq_false_iff.2 h⟩

theorem constraints (name : String) : S.Delivers inTrait (g.constraints name)
    fun ts : List TypeExpr => ∀ t ∈ ts, S.Tree inTrait (.type t) ∧ t.nullable = false := by
  refine (Delivers.mark _ (by nofun)).bind fun _ _ p hp => .save ?_
  refine (Delivers.expectIdentifier p hp).bind fun constrained _ => ?_
  have hrest : S.Delivers inTrait
      (do
        Parser.mark Keyword.isKw
        let first ← g.constraint
        return first :: (← Grammar.builtWhile (Parser.eat Symbol.pipe) g.constraint))
      fun ts : List TypeExpr => ∀ t ∈ ts, S.Tree inTrait (.type t) ∧ t.nullable = false := by
    refine (Delivers.mark _ (by nofun)).bind fun _ _ => hg.constraint.bind fun first hfirst => ?_
    refine (Delivers.listWhile (Delivers.eat _ (by nofun)) hg.constraint).bind
      fun rest hrest => .pure ?_
    exact List.forall_mem_cons.2 ⟨hfirst, hrest⟩
  exact .ite (fun _ => Delivers.bind (V := fun _ => True) (.failAt (by nofun) (by nofun)) fun _ _ =>
    hrest) fun _ => hrest

theorem genericItem : S.Delivers inTrait g.genericItem
    fun item : GenericItem => S.Tree inTrait (.genericItem item) := by
  refine Delivers.position.bind fun pos _ => Delivers.expectIdentifier.bind fun name hname => ?_
  refine (Delivers.eat _ (by nofun)).bind fun _ _ => (Delivers.check _).bind fun _ _ => ?_
  refine .ite (fun _ => ?_) fun _ => .pure (tree_genericItem hname fun _ ht => nomatch ht)
  exact (hg.constraints name).bind fun ts hts => .pure (tree_genericItem hname hts)

theorem genericDecl : S.Delivers inTrait g.genericDecl
    fun d : GenericDecl => S.Tree inTrait (.generics d) := by
  refine Delivers.position.bind fun pos _ => (Delivers.mark _ (by nofun)).bind fun _ _ => ?_
  refine hg.genericItem.bind fun first hfirst => ?_
  refine (Delivers.listWhile (Delivers.eat _ (by nofun)) hg.genericItem).bind fun rest hrest => ?_
  refine Delivers.splitClosingAngle.bind fun _ _ =>
    (Delivers.mark _ (by nofun)).bind fun _ _ => .pure ?_
  exact tree_generics (List.cons_ne_nil _ _) (List.forall_mem_cons.2 ⟨hfirst, hrest⟩)

theorem generics : S.Delivers inTrait g.generics
    fun o : Option GenericDecl => ∀ d ∈ o, S.Tree inTrait (.generics d) :=
  Delivers.optionally (Delivers.check _) (hg.genericDecl.inContext _)

end ReadsTypes

namespace Sound

variable {g : Grammar σ} (hg : S.Sound g)

include hg

/-! ## Parameters -/

theorem namedParameter (pos : Position) (ownership : Ownership) :
    S.Delivers inTrait (g.namedParameter pos ownership)
      fun d : ParameterDecl => S.Tree inTrait (.parameter d) := by
  refine Delivers.expectIdentifier.bind fun name hname => ?_
  refine (hg.eat _).bind fun _ _ => .ite (fun _ => .pure ?_) fun _ => ?_
  · exact tree_parameter ⟨by simp, fun _ => rfl, nofun⟩ (.named hname) nofun
  · refine (hg.mark _).bind fun _ _ => (hg.parameterType name).bind fun type htype => .pure ?_
    refine tree_parameter ⟨by simp, nofun, nofun⟩ (.named hname) ?_
    rintro _ ⟨⟩
    exact htype

theorem patternParameter (hp : S.Stays inTrait p) (hkind : p.current.kind = Symbol.lBrace)
    (pos : Position) (ownership : Ownership) :
    S.DeliversAt inTrait p (g.patternParameter pos ownership)
      fun d : ParameterDecl => S.Tree inTrait (.parameter d) := by
  refine (hg.pattern hp).bind fun pattern hpattern => (hg.mark _).bind fun _ _ => ?_
  have hfields : pattern.IsFields := hpattern.fields hkind
  refine fun q hq => .rejectVoid hq _ fun hvoid => (hg.types hq).bind fun type htype => .pure ?_
  refine tree_parameter ⟨by simp, nofun, ?_⟩ (.destructured hpattern.tree (.inl hfields)) ?_
  · rintro _ ⟨⟩
    exact hfields
  · rintro _ ⟨⟩
    exact ⟨htype.tree, htype.value hvoid⟩

theorem parameter : S.Delivers inTrait g.parameter
    fun d : ParameterDecl => S.Tree inTrait (.parameter d) := by
  refine Delivers.position.bind fun pos _ => (ownership hg.free).bind fun ownership _ => ?_
  refine fun p hp => .kind (.ite (fun _ => hg.namedParameter pos ownership p hp) fun _ =>
    .ite (fun hkind => hg.patternParameter hp hkind pos ownership) fun _ => ?_)
  exact Delivers.expectedOneOf _ p hp

/-- No parameter that has been taken is variadic unless it is the last. -/
theorem parametersOnto (steps : Nat) {taken : Array ParameterDecl}
    (htaken : ∀ d ∈ taken.toList, S.Tree inTrait (.parameter d) ∧ d.variadic = false) :
    S.Delivers inTrait (g.parametersOnto steps taken) fun params : Array ParameterDecl =>
      (∀ d ∈ params.toList, S.Tree inTrait (.parameter d)) ∧
        ParameterDecl.VariadicLast params.toList := by
  induction steps generalizing taken with
  | zero => exact .failAtStart (by nofun) (by nofun)
  | succ steps ih =>
    refine hg.parameter.bind fun next hnext => ?_
    have hall := Delivers.forall_mem_push (fun d hd => (htaken d hd).1) hnext
    have hlast : ParameterDecl.VariadicLast (taken.push next).toList := by
      rw [ParameterDecl.VariadicLast, Array.toList_push, List.dropLast_concat]
      exact fun d hd => (htaken d hd).2
    refine .ite (fun _ => (hg.mark _).bind fun _ _ => .pure ⟨hall, hlast⟩) fun hvariadic => ?_
    refine fun q hq => .kind (.ite (fun hcomma => ?_) fun _ => .ite (fun hclose => ?_) fun _ => ?_)
    · refine (hg.drop _ hq).bind fun _ _ => ih (Delivers.forall_mem_push htaken ?_)
      exact ⟨hnext, Bool.eq_false_iff.2 hvariadic⟩
    · exact (hg.drop _ hq).bind fun _ _ => .pure ⟨hall, hlast⟩
    · exact .failAtStart hq (by nofun) (by nofun)

theorem parameters : S.Delivers inTrait g.parameters fun params : List ParameterDecl =>
    (∀ d ∈ params, S.Tree inTrait (.parameter d)) ∧ ParameterDecl.VariadicLast params := by
  refine (hg.mark _).bind fun _ _ => Delivers.inContext _ ?_
  refine (hg.eat _).bind fun _ _ => .ite (fun _ => .pure ⟨nofun, nofun⟩) fun _ => ?_
  refine Delivers.listBound.bind fun steps _ => ?_
  exact (hg.parametersOnto steps Delivers.forall_mem_empty).bind fun params hparams => .pure hparams

/-! ## Functions, interfaces, structs -/

/-- What stands between the name of a function and its body, and what follows it. -/
theorem headThen {β : Type} {f : Option GenericDecl → List ParameterDecl → TypeExpr → Parse σ β}
    {U : β → Prop}
    (hf : ∀ generics params result, S.IsHead inTrait generics params result →
      S.Delivers inTrait (f generics params result) U) :
    S.Delivers inTrait
      (do
        let generics ← g.generics
        let params ← g.parameters
        let result ← g.resultType .build
        f generics params result) U := by
  refine hg.types.generics.bind fun generics hgenerics =>
    hg.parameters.bind fun params hparams => ?_
  refine Delivers.bind (fun p hp => hg.resultType hp |>.mono fun t ht => ht.1)
    fun result hresult => ?_
  refine hf generics params result ⟨List.forall_mem_cons.2 ⟨hresult, List.forall_mem_append.2
    ⟨forall_mem_optional hgenerics, List.forall_mem_map.2 hparams.1⟩⟩, hparams.2⟩

theorem functionDecl (exported : Bool) : S.Delivers inTrait (g.functionDecl exported)
    fun d : FunctionDecl => S.Tree inTrait (.function d) := by
  refine Delivers.position.bind fun pos _ => (hg.mark _).bind fun _ _ => ?_
  refine Delivers.expectIdentifier.bind fun name hname => ?_
  refine hg.headThen fun generics params result hhead => hg.block.bind fun body hbody => .pure ?_
  exact tree_function hname hhead hbody

theorem signature : S.Delivers inTrait g.signature
    fun d : SignatureDecl => S.Tree inTrait (.signature d) := by
  refine Delivers.position.bind fun pos _ => hg.drop.bind fun _ _ => ?_
  refine Delivers.expectIdentifier.bind fun name hname => ?_
  refine hg.headThen fun generics params result hhead => ?_
  exact (hg.mark _).bind fun _ _ => .pure (tree_signature hname hhead)

theorem interfaceDecl (exported : Bool) : S.Delivers inTrait (g.interfaceDecl exported)
    fun d : InterfaceDecl => S.Tree inTrait (.interface d) := by
  refine Delivers.position.bind fun pos _ => (hg.mark _).bind fun _ _ => ?_
  refine Delivers.expectIdentifier.bind fun name hname =>
    hg.types.generics.bind fun generics hgenerics => ?_
  refine (hg.mark _).bind fun _ _ => ?_
  refine (Delivers.listWhile (P := fun d : SignatureDecl => S.Tree inTrait (.signature d))
    (Delivers.checkNot _) ?_).bind fun functions hfunctions => ?_
  · exact (Delivers.check _).bind fun _ _ => .ite (fun _ => hg.signature) fun _ => .expectedOneOf _
  · exact hg.drop.bind fun _ _ => .pure (tree_interface hname hgenerics hfunctions)

theorem memberVariable : S.Delivers inTrait (g.variableDecl .build false false)
    (S.IsMember inTrait) :=
  (hg.variableDecl false false).mono fun _ h => ⟨h.1, h.2.1, h.2.2 rfl⟩

theorem structDecl (exported : Bool) : S.Delivers inTrait (g.structDecl exported)
    fun d : StructDecl => S.Tree inTrait (.struct d) := by
  refine Delivers.position.bind fun pos _ => (hg.mark _).bind fun _ _ => ?_
  refine Delivers.expectIdentifier.bind fun name hname =>
    hg.types.generics.bind fun generics hgenerics => ?_
  refine (hg.mark _).bind fun _ _ => ?_
  refine (Delivers.listWhile (P := S.IsMember inTrait) (Delivers.checkNot _) ?_).bind
    fun fields hfields => ?_
  · refine Delivers.bind (V := fun _ => True) (Delivers.kind.bind fun _ _ => .pure trivial)
      fun _ _ => .ite (fun _ => hg.memberVariable) fun _ => .expectedOneOf _
  · exact hg.drop.bind fun _ _ => .pure (tree_struct hname hgenerics hfields)

/-! ## Traits -/

theorem traitFunction (hasBody : Bool) : S.Delivers inTrait (g.traitFunction hasBody)
    fun d : TraitFunctionDecl => S.Tree inTrait (.traitFunction d) ∧ d.body.isSome = hasBody := by
  refine Delivers.position.bind fun pos _ => (hg.eat _).bind fun isStatic _ => ?_
  refine (hg.mark _).bind fun _ _ => Delivers.expectIdentifier.bind fun name hname => ?_
  refine hg.headThen fun generics params result hhead => .ite (fun hbody => ?_) fun hbody => ?_
  · refine hg.block.bind fun body hblock => .pure ⟨tree_traitFunction hname hhead ?_, hbody.symm⟩
    rintro _ ⟨⟩
    exact hblock
  · refine (hg.mark _).bind fun _ _ => .pure ⟨tree_traitFunction hname hhead nofun, ?_⟩
    exact (Bool.eq_false_iff.2 hbody).symm

theorem traitBody : S.Delivers true g.traitBody
    fun r : Option TypeExpr × List TraitFunctionDecl =>
      ∀ inTrait, S.Tree inTrait (.traitBody r.1 r.2) := by
  refine (Delivers.optionally (hg.eat _) hg.types.type).bind fun forType htype => ?_
  refine (hg.mark _).bind fun _ _ => ?_
  refine (Delivers.listWhile (P := fun f : TraitFunctionDecl => S.Tree true (.traitFunction f) ∧
    (f.body.isSome = Option.isSome forType)) (Delivers.checkNot _) ?_).bind fun functions h => ?_
  · exact Delivers.kind.bind fun _ _ => .ite (fun _ => hg.traitFunction _) fun _ => .expectedOneOf _
  · refine hg.drop.bind fun _ _ => .pure fun inTrait => tree_traitBody htype fun f hf => ?_
    exact ⟨(h f hf).1, by rw [(h f hf).2]⟩

theorem traitDecl (exported : Bool) : S.Delivers inTrait (g.traitDecl exported)
    fun d : TraitDecl => S.Tree inTrait (.trait d) := by
  refine Delivers.position.bind fun pos _ => (hg.mark _).bind fun _ _ => ?_
  refine Delivers.expectIdentifier.bind fun name hname =>
    hg.types.generics.bind fun generics hgenerics => ?_
  exact (hg.traitBody.inTraitMode).bind fun body hbody =>
    .pure (tree_trait hname hgenerics (hbody inTrait))

/-! ## Enums -/

theorem enumItemValue : S.Delivers inTrait g.enumItemValue
    fun value : EnumItemValue => value.WellFormed ∧ ∀ n ∈ value.nodes, S.Tree inTrait n := by
  refine fun p hp => .kind (.ite (fun hkind => ?_) fun _ => .ite (fun hkind => ?_) fun _ => ?_)
  · refine (hg.drop _ hp).bind fun _ _ => (hg.exprAt _).bind fun e he => .pure ?_
    exact ⟨trivial, List.forall_mem_singleton.2 he⟩
  · refine (hg.drop _ hp).bind fun _ _ => ?_
    refine (Delivers.closedList (by nofun) hg.types.type).bind fun types htypes => .pure ?_
    exact ⟨htypes.1, List.forall_mem_map.2 htypes.2⟩
  · exact Delivers.pure ⟨trivial, fun _ hn => nomatch hn⟩ p hp

theorem enumItem : S.Delivers inTrait g.enumItem
    fun item : EnumItemDecl => S.Tree inTrait (.enumItem item) := by
  refine Delivers.position.bind fun pos _ => Delivers.expectIdentifier.bind fun name hname => ?_
  refine hg.enumItemValue.bind fun value hvalue => Delivers.kind.bind fun _ _ => ?_
  have hitem := tree_enumItem (i := ⟨pos, name, value⟩) hname hvalue.1 hvalue.2
  refine .ite (fun _ => hg.drop.bind fun _ _ => .pure hitem) fun _ => ?_
  exact .ite (fun _ => Delivers.bind (V := fun _ => True) .unexpected fun _ _ => .pure hitem)
    fun _ => .pure hitem

theorem enumDecl (exported : Bool) : S.Delivers inTrait (g.enumDecl exported)
    fun d : EnumDecl => S.Tree inTrait (.enum d) := by
  refine Delivers.position.bind fun pos _ => (hg.mark _).bind fun _ _ => ?_
  refine Delivers.expectIdentifier.bind fun name hname =>
    hg.types.generics.bind fun generics hgenerics => ?_
  refine (hg.mark _).bind fun _ _ => ?_
  refine (Delivers.listWhile (Delivers.checkNot _) hg.enumItem).bind fun items hitems => ?_
  exact hg.drop.bind fun _ _ => .pure (tree_enum hname hgenerics hitems)

end Sound

end Supply

end ScriptFront
