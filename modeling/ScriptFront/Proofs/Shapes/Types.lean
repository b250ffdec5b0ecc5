import ScriptFront.Grammar.Exprs
import ScriptFront.Proofs.Shapes.Supply

/-!
# What types are delivered

Types are read to be well formed if their parts are. The first token tells whether a type is
`void`, so that a test of the token in front of a type keeps `void` from where values are needed.

- `Supply.Tree`: a tree of words, with all that is to hold everywhere in it.
- `Supply.IsType`: such a tree, with what its first token tells.
- `Supply.ReadsTypes.typeStep`: a step of the grammar reads such types if the grammar does.
-/

namespace ScriptFront

open ScriptFront.Parser

-- What a reading comes to is told by the rules; nothing is to be run to find out.
attribute [local irreducible] Ends

theorem TypeExpr.form_of_isVoid {t : TypeExpr} (h : t.isVoid) : t.form = .primitive .void := by
  unfold isVoid at h
  split at h
  · assumption
  · cases h

namespace Supply

section Trees

variable {σ : Type} [ByteSource σ] (S : Supply σ)

/-- A tree of words of the supply, with all that is to hold everywhere in it. -/
abbrev Tree (inTrait : Bool) (n : Node) : Prop := n.Everywhere (Node.Parsed S.vocabulary) inTrait

/-- The type of a value. -/
structure IsValueType (inTrait : Bool) (t : TypeExpr) : Prop where
  tree : S.Tree inTrait (.type t)
  value : t.isVoid = false

/-- A type that begins with a token of a kind. -/
structure IsType (inTrait : Bool) (k : TokenKind) (t : TypeExpr) : Prop where
  tree : S.Tree inTrait (.type t)
  value : k ≠ .primitive .void → t.isVoid = false
  primitive : ∀ type, k = .primitive type → t.StartsPrimitive

/-- A form of types that begins with a token of a kind, and that nothing stands behind. -/
structure IsBase (inTrait : Bool) (k : TokenKind) (form : TypeForm) : Prop where
  tree : ∀ pos, S.Tree inTrait (.type (.plain pos form))
  value : ∀ type, form = .primitive type → k = .primitive type
  primitive : ∀ type, k = .primitive type → form = .primitive type
  notArray : ∀ element dims, form ≠ .array element dims

/-- A name of a path with its type arguments. -/
structure IsSegment (inTrait root : Bool) (s : PathSegment) : Prop where
  root : s.root = root
  name : S.vocabulary.Name s.name
  generics : ∀ t ∈ s.generics, S.IsValueType inTrait t

/-- Types are read as they are to be. -/
def ReadsTypes (g : Grammar σ) : Prop :=
  ∀ ⦃inTrait : Bool⦄ ⦃p : Parser σ⦄, S.Stays inTrait p →
    S.DeliversAt inTrait p (g.type .build) (S.IsType inTrait p.current.kind)

end Trees

variable {σ : Type} [ByteSource σ] {S : Supply σ} {inTrait : Bool} {p : Parser σ}

/-! ## Trees of types -/

/-- A type is a tree if its form is in order and its parts are trees. -/
theorem tree_type {t : TypeExpr} (hform : t.form.WellFormed)
    (hvoid : t.isVoid → t.nullable = false) (hplaced : t.form.VoidsPlaced)
    (hwords : S.vocabulary.OfType inTrait t.form)
    (hparts : ∀ part ∈ t.form.types, S.Tree inTrait (.type part)) : S.Tree inTrait (.type t) :=
  .of_parts rfl ⟨fun _ => hform, ⟨hvoid, hplaced⟩, hwords⟩ (by simpa [Node.parts] using hparts)

theorem tree_voidAt (pos : Position) : S.Tree inTrait (.type (.voidAt pos)) :=
  tree_type trivial (fun _ => rfl) trivial trivial nofun

/-- A type may be absent if it is not `void`. -/
theorem Tree.orAbsent {t : TypeExpr} (h : S.Tree inTrait (.type t)) (ht : t.isVoid = false) :
    S.Tree inTrait (.type t.orAbsent) := by
  have hhere := h.here
  have hvalue (hvoid : t.isVoid) : False := by
    rw [ht] at hvoid
    cases hvoid
  exact .of_parts rfl ⟨hhere.wellFormed, ⟨fun hvoid => (hvalue hvoid).elim, hhere.voidsPlaced.2⟩,
    hhere.spelled⟩ fun _ hpart => h.part hpart rfl

/-! ## Without the parts of a grammar -/

namespace Delivers

theorem splitClosingAngle : S.Delivers inTrait Grammar.splitClosingAngle fun _ => True := by
  refine fun p hp => .kind (.ite (fun h => ?_) fun _ => Delivers.pure trivial p hp)
  simp only [Bool.or_eq_true, decide_eq_true_eq] at h
  rcases h with (h | h) | h
  · exact .narrow hp h rfl
  · exact .narrow hp h rfl
  · exact .narrow hp h rfl

theorem splitBars : S.Delivers inTrait Grammar.splitBars fun _ => True := by
  refine fun p hp => .check (.ite (fun h => ?_) fun _ => Delivers.pure trivial p hp)
  exact .narrow hp (of_decide_eq_true h) rfl

theorem arraySize : S.Delivers inTrait Grammar.arraySize fun size =>
      size < Grammar.arraySizeLimit := by
  refine fun p hp => .save (.kind ?_)
  split
  · exact .failHere hp (by nofun) (by nofun)
  · next form hform =>
    have hdot : p.current.kind = Symbol.dot → S.free := by
      intro h
      rw [h] at hform
      cases hform
    refine (DeliversAt.advance hp rfl hdot).bind fun t _ => ?_
    dsimp only
    split
    · exact .ite (fun h => .pure h) fun _ => .failAt (by nofun) (by nofun)
    · exact .failAt (by nofun) (by nofun)

theorem arrayDim : S.Delivers inTrait Grammar.arrayDim
    fun dim => ∀ size, dim = .sized size → size < Grammar.arraySizeLimit := by
  refine fun p hp => .check (.ite (fun h => ?_) fun _ => ?_)
  · exact (DeliversAt.drop hp (of_decide_eq_true h) (by nofun)).bind fun _ _ => .pure nofun
  · refine (arraySize p hp).bind fun size hsize =>
      (Delivers.mark _ (by nofun)).bind fun _ _ => .pure ?_
    rintro _ ⟨⟩
    exact hsize

theorem selfType (p : Parser σ) (hp : S.Stays inTrait p) (hkind : p.current.kind = Keyword.selfKw) :
    S.DeliversAt inTrait p (Grammar.selfType .build) fun form : TypeForm =>
      (∀ pos, S.Tree inTrait (.type (.plain pos form))) ∧ form = .selfType := by
  refine .get (.ite (fun htrait => ?_) fun htrait => ?_)
  case refine_2 => exact .failAtStart hp (by nofun) fun h => absurd (hp.inTrait_eq.trans h) htrait
  rw [hp.inTrait_eq] at htrait
  refine (DeliversAt.drop hp hkind (by nofun)).bind fun _ _ => .pure ⟨fun pos => ?_, rfl⟩
  exact tree_type trivial (fun _ => rfl) trivial htrait nofun

/-- At a bracket there is one dimension at least. -/
theorem arrayDims (hp : S.Stays inTrait p) (hkind : p.current.kind = Symbol.lBracket) :
    S.DeliversAt inTrait p (Grammar.arrayDims .build) fun dims : List ArrayDim =>
      dims ≠ [] ∧ ∀ dim ∈ dims, ∀ size, dim = .sized size → size < Grammar.arraySizeLimit :=
  listWhile_of_first (.eat hp hkind (by nofun)) (Delivers.eat _ (by nofun))
    (arrayDim.bind fun _ hdim => .pure hdim)

end Delivers

/-! ## Behind a type -/

/-- A type that starts at a bookmark, perhaps `void`, with what has been read of it. -/
structure IsBegun (S : Supply σ) (inTrait isVoid : Bool) (start : Bookmark) (t : TypeExpr) :
    Prop where
  tree : S.Tree inTrait (.type t)
  isVoid_eq : t.isVoid → isVoid = true
  isVoid_start : isVoid = true → S.isVoid start.place
  notArray : ¬t.IsArray

theorem IsBegun.value {start : Bookmark} {t : TypeExpr} (h : S.IsBegun inTrait false start t) :
    t.isVoid = false := Bool.eq_false_iff.2 fun ht => nomatch h.isVoid_eq ht

section Suffixes

variable {isVoid : Bool} {start : Bookmark} {t : TypeExpr} (ht : S.IsBegun inTrait isVoid start t)

include ht

theorem absenceSuffix : S.Delivers inTrait (Grammar.absenceSuffix .build start isVoid t)
    fun whole : TypeExpr => S.IsBegun inTrait isVoid start whole ∧ whole.form = t.form := by
  refine fun p hp => .check (.ite (fun hkind => ?_) fun _ => Delivers.pure ⟨ht, rfl⟩ p hp)
  refine .ite (fun hvoid => .failAt hp (fun _ => ht.isVoid_start hvoid) (by nofun)) fun hvoid => ?_
  obtain rfl := Bool.eq_false_iff.2 hvoid
  refine (DeliversAt.drop hp (of_decide_eq_true hkind) (by nofun)).bind fun _ _ => .pure ⟨?_, rfl⟩
  exact ⟨ht.tree.orAbsent ht.value, ht.isVoid_eq, ht.isVoid_start, ht.notArray⟩

theorem arraySuffix : S.Delivers inTrait (Grammar.arraySuffix .build start isVoid t)
    fun whole : TypeExpr => S.Tree inTrait (.type whole) ∧ (whole.isVoid → isVoid = true) ∧
      (whole = t ∨ ∃ dims, whole.form = .array t dims) := by
  refine fun p hp => .check (.ite (fun hkind => ?_) fun _ =>
    Delivers.pure ⟨ht.tree, ht.isVoid_eq, .inl rfl⟩ p hp)
  refine .ite (fun hvoid => .failAt hp (fun _ => ht.isVoid_start hvoid) (by nofun)) fun hvoid => ?_
  obtain rfl := Bool.eq_false_iff.2 hvoid
  refine (Delivers.arrayDims hp (of_decide_eq_true hkind)).bind fun dims hdims => ?_
  -- The whole is no `void` whatever it has for elements, so it may be absent.
  have htree : S.Tree inTrait (.type (.plain start.position (.array t dims))) := by
    refine tree_type ⟨ht.notArray, hdims.1⟩ (fun _ => rfl) ht.value ?_ ?_
    · exact fun size hsize => hdims.2 _ hsize size rfl
    · rintro _ (_ | ⟨_, ⟨⟩⟩)
      exact ht.tree
  refine (Delivers.eat _ (by nofun)).bind fun _ _ => .ite (fun _ => .pure ?_) fun _ => .pure ?_
  · exact ⟨htree.orAbsent rfl, nofun, .inr ⟨dims, rfl⟩⟩
  · exact ⟨htree, nofun, .inr ⟨dims, rfl⟩⟩

end Suffixes

/-! ## With the parts of a grammar -/

namespace ReadsTypes

variable {g : Grammar σ} (hg : S.ReadsTypes g)

include hg

theorem type : S.Delivers inTrait (g.type .build) fun t : TypeExpr => S.Tree inTrait (.type t) :=
  fun _ hp => (hg hp).mono fun _ ht => ht.tree

/-- Behind a test for `void`, a type is the type of a value. -/
theorem typeBehind (use : VoidUse) : S.Delivers inTrait
    (do
      Grammar.rejectVoid use
      g.type .build)
    (S.IsValueType inTrait) := by
  refine fun p hp => .rejectVoid hp use fun hkind => (hg hp).mono fun t ht => ?_
  exact ⟨ht.tree, ht.value hkind⟩

theorem valueType : S.Delivers inTrait (g.valueType .build) (S.IsValueType inTrait) :=
  hg.typeBehind _

theorem genericArg : S.Delivers inTrait (g.genericArg .build) (S.IsValueType inTrait) := by
  refine fun p hp => .rejectVoid hp _ fun hkind => (hg hp).bind fun t ht => ?_
  exact Delivers.splitClosingAngle.bind fun _ _ => .pure ⟨ht.tree, ht.value hkind⟩

theorem genericArgs : S.Delivers inTrait (g.genericArgs .build)
    fun args : List TypeExpr => args ≠ [] ∧ ∀ t ∈ args, S.IsValueType inTrait t :=
  (Delivers.mark _ (by nofun)).bind fun _ _ => .closedList (by nofun) hg.genericArg

theorem pathSegment (root : Bool) :
    S.Delivers inTrait (g.pathSegment .build root) (S.IsSegment inTrait root) := by
  refine Delivers.position.bind fun pos _ => Delivers.expectIdentifier.bind fun name hname => ?_
  refine (Delivers.check _).bind fun _ _ => .ite (fun _ => ?_) fun _ => .pure ⟨rfl, hname, nofun⟩
  exact hg.genericArgs.bind fun args hargs => .pure ⟨rfl, hname, hargs.2⟩

/-- Only the first name of a path may be a root. -/
theorem typePath : S.Delivers inTrait (g.typePath .build) fun path : TypePath =>
    (∃ root, S.IsSegment inTrait root path.head) ∧
      ∀ s ∈ path.tail, S.IsSegment inTrait false s := by
  refine (Delivers.eat _ (by nofun)).bind fun root _ => ?_
  refine (hg.pathSegment root).bind fun head hhead => ?_
  refine (Delivers.listWhile (Delivers.eat _ (by nofun)) (hg.pathSegment false)).bind
    fun tail htail => ?_
  exact .pure ⟨⟨root, hhead⟩, htail⟩

theorem functionPartsOnto (steps : Nat) {params : Array TypeExpr}
    (hparams : ∀ t ∈ params.toList, S.IsValueType inTrait t) :
    S.Delivers inTrait (g.functionPartsOnto .build steps params)
      fun parts : Array TypeExpr × TypeExpr =>
        (∀ t ∈ parts.1.toList, S.IsValueType inTrait t) ∧ S.Tree inTrait (.type parts.2) := by
  induction steps generalizing params with
  | zero => exact .failAtStart (by nofun) (by nofun)
  | succ steps ih =>
    refine fun p hp => .kind (.ite (fun hclose => ?_) fun _ => .ite (fun harrow => ?_) fun _ => ?_)
    · refine .position ((DeliversAt.drop hp hclose (by nofun)).bind fun _ _ => .pure ⟨hparams, ?_⟩)
      exact tree_voidAt _
    · refine (DeliversAt.drop hp harrow (by nofun)).bind fun _ _ =>
        hg.type.bind fun result hresult => ?_
      exact (Delivers.mark _ (by nofun)).bind fun _ _ => .pure ⟨hparams, hresult⟩
    · refine (hg.valueType p hp).bind fun t ht q hq => ?_
      have hmore := Delivers.forall_mem_push hparams ht
      refine .kind (.ite (fun hcomma => ?_) fun _ => .ite (fun _ => ih hmore q hq) fun _ => ?_)
      · exact (DeliversAt.drop hq hcomma (by nofun)).bind fun _ _ => ih hmore
      · exact .failAtStart hq (by nofun) (by nofun)

theorem functionType : S.Delivers inTrait (g.functionType .build) fun form : TypeForm =>
    (∀ pos, S.Tree inTrait (.type (.plain pos form))) ∧
      ∃ params result, form = .function params result := by
  refine (Delivers.mark _ (by nofun)).bind fun _ _ =>
    Delivers.markThen _ (fun hparen => ?_) (by nofun)
  refine Delivers.listBound.bind fun steps _ => ?_
  refine (hg.functionPartsOnto steps Delivers.forall_mem_empty).bind fun parts hparts => .pure ?_
  refine ⟨fun pos => tree_type trivial (fun _ => rfl) ?_ hparen ?_, _, _, rfl⟩
  · exact fun t ht => (hparts.1 t ht).value
  · exact List.forall_mem_cons.2 ⟨hparts.2, fun t ht => (hparts.1 t ht).tree⟩

theorem tupleType : S.Delivers inTrait (g.tupleType .build) fun form : TypeForm =>
    (∀ pos, S.Tree inTrait (.type (.plain pos form))) ∧ ∃ members, form = .tuple members := by
  refine Delivers.markThen _ (fun hparen => ?_) (by nofun)
  refine (Delivers.closedList (by nofun) hg.valueType).bind fun members hmembers => .pure ?_
  refine ⟨fun pos => tree_type hmembers.1 (fun _ => rfl) ?_ hparen ?_, _, rfl⟩
  · exact fun t ht => (hmembers.2 t ht).value
  · exact fun t ht => (hmembers.2 t ht).tree

theorem namedForm : S.Delivers inTrait (do return TypeForm.named <$> (← g.typePath .build))
    fun form : TypeForm =>
      (∀ pos, S.Tree inTrait (.type (.plain pos form))) ∧ ∃ path, form = .named path := by
  refine hg.typePath.bind fun path hpath => .pure ⟨fun pos => ?_, path, rfl⟩
  have hsegments : ∀ s ∈ path.segments, ∃ root, S.IsSegment inTrait root s :=
    List.forall_mem_cons.2 ⟨hpath.1, fun s hs => ⟨false, hpath.2 s hs⟩⟩
  have hgenerics (s : PathSegment) (hs : s ∈ path.segments) (t : TypeExpr) (ht : t ∈ s.generics) :
      S.IsValueType inTrait t := by
    obtain ⟨root, hsegment⟩ := hsegments s hs
    exact hsegment.generics t ht
  refine tree_type (fun s hs => (hpath.2 s hs).root) (fun _ => rfl) ?_ ?_ fun t ht => ?_
  · exact fun s hs t ht => (hgenerics s hs t ht).value
  · intro s hs
    obtain ⟨root, hsegment⟩ := hsegments s hs
    exact hsegment.name
  · obtain ⟨s, hs, ht⟩ := List.mem_flatMap.1 ht
    exact (hgenerics s hs t ht).tree

theorem baseType (hp : S.Stays inTrait p) :
    S.DeliversAt inTrait p (g.baseType .build) (S.IsBase inTrait p.current.kind) := by
  refine .kind ?_
  split
  · next type hkind =>
    rw [hkind]
    refine (DeliversAt.drop hp hkind (by nofun)).bind fun _ _ =>
      .pure ⟨fun pos => ?_, ?_, ?_, nofun⟩
    · exact tree_type trivial (fun _ => rfl) trivial trivial nofun
    · rintro _ ⟨⟩
      rfl
    · rintro _ ⟨⟩
      rfl
  · next hkind =>
    rw [hkind]
    refine (hg.functionType p hp).mono ?_
    rintro _ ⟨htree, params, result, rfl⟩
    exact ⟨htree, nofun, nofun, nofun⟩
  · next hkind =>
    rw [hkind]
    refine (hg.tupleType p hp).mono ?_
    rintro _ ⟨htree, members, rfl⟩
    exact ⟨htree, nofun, nofun, nofun⟩
  · next hkind =>
    rw [hkind]
    refine (Delivers.selfType p hp hkind).mono ?_
    rintro _ ⟨htree, rfl⟩
    exact ⟨htree, nofun, nofun, nofun⟩
  · next hkind =>
    rw [hkind]
    refine (hg.namedForm p hp).mono ?_
    rintro _ ⟨htree, path, rfl⟩
    exact ⟨htree, nofun, nofun, nofun⟩
  · next hkind =>
    rw [hkind]
    refine (hg.namedForm p hp).mono ?_
    rintro _ ⟨htree, path, rfl⟩
    exact ⟨htree, nofun, nofun, nofun⟩
  · exact Delivers.unexpected p hp

/-- A step of the grammar reads types as they are to be read. -/
theorem typeStep (hp : S.Stays inTrait p) :
    S.DeliversAt inTrait p (g.typeStep .build) (S.IsType inTrait p.current.kind) := by
  refine .save (.check ((hg.baseType hp).bind fun form hform => ?_))
  generalize hstart : Bookmark.mk p.start = start
  have hbegun : S.IsBegun inTrait (decide (p.current.kind = .primitive .void)) start
      (.plain start.position form) := by
    refine ⟨hform.tree _, fun hvoid => ?_, fun hvoid => ?_, ?_⟩
    · exact decide_eq_true (hform.value _ (TypeExpr.form_of_isVoid hvoid))
    · rw [← hstart]
      exact S.isVoid_start hp.holds (of_decide_eq_true hvoid)
    · rintro ⟨element, dims, h⟩
      exact hform.notArray element dims h
  refine (absenceSuffix hbegun).bind fun t ht => (arraySuffix ht.1).mono fun whole hwhole => ?_
  obtain ⟨htree, hvoid, hform'⟩ := hwhole
  refine ⟨htree, fun hkind => Bool.eq_false_iff.2 fun h => hkind (of_decide_eq_true (hvoid h)), ?_⟩
  intro type hkind
  have hprimitive := hform.primitive type hkind
  rcases hform' with rfl | ⟨dims, hdims⟩
  · exact .inl ⟨type, ht.2.trans hprimitive⟩
  · exact .inr ⟨t, dims, type, hdims, ht.2.trans hprimitive⟩

end ReadsTypes

end Supply

end ScriptFront
