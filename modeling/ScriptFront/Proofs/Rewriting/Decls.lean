import ScriptFront.Proofs.Rewriting.Params

/-!
# Declarations that are written anew

Interfaces, structs, traits, enums and functions. Their members are told from the brace behind them
by their first tokens.

- `Parses.inTraitMode`: what stands in the body of a trait is read where `self` is a type.
- `FunctionDecl.rewritten`, `InterfaceDecl.rewritten`, …: one theorem for each sort of declaration.
-/

namespace ScriptFront

open ScriptFront.Parser

variable {V : Vocabulary} {inTrait : Bool}

/-! ## Functions -/

/-- Nothing in a head goes on with a block. -/
theorem Block.not_isTypeSuffix (b : Block) (rest : List Lexeme) :
    ¬IsTypeSuffix (headKind (b.lexemes parenthesized ++ rest)) ∧
      headKind (b.lexemes parenthesized ++ rest) ≠ Symbol.arrow := by
  rw [b.headKind_append]
  exact ⟨by decide, nofun⟩

/-- A function whose parts are read back is read back. -/
theorem FunctionDecl.rewritten (hV : V.Writable) {d : FunctionDecl}
    (here : (Node.function d).Writable V inTrait)
    (parts : ∀ m ∈ (Node.function d).parts, m.Rewritten inTrait) :
    (Node.function d).Rewritten inTrait := by
  obtain ⟨pos, exported, name, generics, params, result, body⟩ := d
  have hhead : HeadRewritten inTrait generics params result :=
    .of_nodes (fun m hm => parts m (by simp [Node.parts, hm])) (here.wellFormed hV.firm)
  have hbody : (Node.block body).Rewritten inTrait := parts (.block body) (by simp [Node.parts])
  refine ⟨?_, ?_⟩
  · simpa [FunctionDecl.lexemes] using ⟨hhead.legible (hV.name here.spelled), hbody.legible⟩
  rintro c rfl depth hdepth rest -
  obtain ⟨hsuffix, harrow⟩ := body.not_isTypeSuffix rest
  simp only [FunctionDecl.lexemes, List.length_cons, List.length_append] at hdepth
  dsimp only [FunctionDecl.lexemes]
  rw [List.append_assoc, List.cons_append]
  refine Parses.position fun pos' => Parses.mark rfl ?_
  refine hhead.parses (by omega) hsuffix harrow fun g ps r hg hps hr => ?_
  refine (hbody.read c rfl depth (by omega) rest trivial).bind fun (b : Block) hb => .pure ?_
  have hb : b.unplaced = body.unplaced := hb
  simp only [Copies, FunctionDecl.unplaced, hg, hps, hr, hb]

/-! ## Interfaces and structs -/

theorem SignatureDecl.begins (s : SignatureDecl) :
    Begins (s.lexemes parenthesized) fun k => k = Keyword.fnKw := ⟨_, _, rfl, rfl⟩

/-- A function of an interface whose parts are read back is read back. -/
theorem SignatureDecl.rewritten (hV : V.Writable) {s : SignatureDecl}
    (here : (Node.signature s).Writable V inTrait)
    (parts : ∀ m ∈ (Node.signature s).parts, m.Rewritten inTrait) :
    (Node.signature s).Rewritten inTrait := by
  obtain ⟨pos, name, generics, params, result⟩ := s
  have hhead : HeadRewritten inTrait generics params result :=
    .of_nodes parts (here.wellFormed hV.firm)
  refine ⟨by simpa [SignatureDecl.lexemes] using hhead.legible (hV.name here.spelled), ?_⟩
  rintro c rfl depth hdepth rest -
  simp only [SignatureDecl.lexemes, List.length_cons, List.length_append] at hdepth
  dsimp only [SignatureDecl.lexemes]
  rw [List.append_assoc, List.cons_append]
  refine Parses.position fun pos' => Parses.drop ?_
  refine hhead.parses (by omega) (not_isTypeSuffix_cons (by decide) _) nofun
    fun g ps r hg hps hr => Parses.mark rfl (.pure ?_)
  simp only [Copies, SignatureDecl.unplaced, hg, hps, hr]

/-- An interface whose parts are read back is read back. -/
theorem InterfaceDecl.rewritten (hV : V.Writable) {d : InterfaceDecl}
    (here : (Node.interface d).Writable V inTrait)
    (parts : ∀ m ∈ (Node.interface d).parts, m.Rewritten inTrait) :
    (Node.interface d).Rewritten inTrait := by
  obtain ⟨pos, exported, name, generics, functions⟩ := d
  have hname : IsName name := hV.name here.spelled
  have hgenerics : ∀ g ∈ generics, (Node.generics g).Rewritten inTrait := fun g hg =>
    parts (.generics g) (by simp_all [Node.parts])
  have hfunctions : ∀ s ∈ functions, (Node.signature s).Rewritten inTrait := fun s hs =>
    parts (.signature s) (by simp [Node.parts, hs])
  refine ⟨?_, ?_⟩
  · simpa [InterfaceDecl.lexemes] using ⟨Lexeme.WellFormed.name hname,
      GenericDecl.legible hgenerics, fun s hs => (hfunctions s hs).legible⟩
  rintro c rfl depth hdepth rest -
  simp only [InterfaceDecl.lexemes, inBraces, List.length_cons, List.length_append] at hdepth
  dsimp only [InterfaceDecl.lexemes]
  rw [List.append_assoc, inBraces_append]
  refine Parses.position fun pos' => Parses.mark rfl (Parses.expectIdentifier ?_)
  refine (Parses.genericsBrace hgenerics (by omega)).bind fun g hg => Parses.mark rfl ?_
  refine (Parses.builtMembers (u := SignatureDecl.unplaced)
    (fun s _ => s.begins.mono (by rintro k rfl ⟨⟩)) fun s hs us => ?_).bind fun out hout =>
      Parses.drop (.pure ?_)
  · have hlength := length_le_flatMap (f := SignatureDecl.lexemes parenthesized) hs
    refine Parses.check (Parses.ifTrue (decide_eq_true (s.begins.headKind us)) ?_)
    exact (hfunctions s hs).read c rfl depth (by omega) us trivial
  · simp only [Copies, InterfaceDecl.unplaced, hg, hout]

theorem Parses.atVariable {c : Setting} {ts : List Lexeme}
    (h : headKind ts = Keyword.letKw ∨ headKind ts = Keyword.constKw) :
    Parses c ts Grammar.atVariable (fun b => b = true) ts :=
  kind (pure (by simpa using h))

/-- A struct whose parts are read back is read back. -/
theorem StructDecl.rewritten (hV : V.Writable) {d : StructDecl}
    (here : (Node.struct d).Writable V inTrait)
    (parts : ∀ m ∈ (Node.struct d).parts, m.Rewritten inTrait) :
    (Node.struct d).Rewritten inTrait := by
  obtain ⟨pos, exported, name, generics, fields⟩ := d
  have hname : IsName name := hV.name here.spelled.1
  have hexported : ∀ f ∈ fields, f.exported = false := here.spelled.2
  have hnamed : ∀ f ∈ fields, f.binding.IsNamed := here.wellFormed hV.firm
  have hgenerics : ∀ g ∈ generics, (Node.generics g).Rewritten inTrait := fun g hg =>
    parts (.generics g) (by simp_all [Node.parts])
  have hfields (f : VariableDecl) (hf : f ∈ fields) : Rereads inTrait (f.lexemes parenthesized)
      (·.variableDecl .build false false) (Copies VariableDecl.unplaced f) fun _ => True := by
    have hread := parts (.variable f) (by simp [Node.parts, hf]) false fun _ => hnamed f hf
    rwa [hexported f hf] at hread
  refine ⟨?_, ?_⟩
  · simpa [StructDecl.lexemes] using ⟨Lexeme.WellFormed.name hname,
      GenericDecl.legible hgenerics, fun f hf => (hfields f hf).legible⟩
  rintro c rfl depth hdepth rest -
  simp only [StructDecl.lexemes, inBraces, List.length_cons, List.length_append] at hdepth
  dsimp only [StructDecl.lexemes]
  rw [List.append_assoc, inBraces_append]
  refine Parses.position fun pos' => Parses.mark rfl (Parses.expectIdentifier ?_)
  refine (Parses.genericsBrace hgenerics (by omega)).bind fun g hg => Parses.mark rfl ?_
  refine (Parses.builtMembers (u := VariableDecl.unplaced)
    (fun f _ => f.begins.mono fun k hk => ?_) fun f hf us => ?_).bind fun out hout =>
      Parses.drop (.pure ?_)
  · rcases hk with rfl | rfl <;> rintro ⟨⟩
  · have hlength := length_le_flatMap (f := VariableDecl.lexemes parenthesized) hf
    refine (Parses.atVariable (f.begins.headKind us)).bind fun b hb => Parses.ifTrue hb ?_
    exact (hfields f hf).read c rfl depth (by omega) us trivial
  · simp only [Copies, StructDecl.unplaced, hg, hout]

/-! ## Traits -/

/-- A keyword that may stand in front of something that begins otherwise. -/
theorem Parses.eatFlag {α : Type} {c : Setting} {k : Keyword} {applies : Bool}
    {rest us : List Lexeme} {f : Bool → Parse Buffer α} {W : α → Prop}
    (hrest : applies = false → headKind rest ≠ k) (h : Parses c rest (f applies) W us) :
    Parses c (flag k applies ++ rest) (Parser.eat k >>= f) W us := by
  cases applies with
  | true => exact eat rfl h
  | false => exact eatNot (hrest rfl) h

theorem Legible.flag (k : Keyword) (applies : Bool) : Legible (flag k applies) := by
  cases applies <;> simp [ScriptFront.flag]

theorem TraitFunctionDecl.begins (f : TraitFunctionDecl) :
    Begins (f.lexemes parenthesized) fun k => k = Keyword.staticKw ∨ k = Keyword.fnKw := by
  obtain ⟨pos, isStatic, name, generics, params, result, body⟩ := f
  cases isStatic with
  | true => exact ⟨_, _, rfl, .inl rfl⟩
  | false => exact ⟨_, _, rfl, .inr rfl⟩

/-- What ends a function is no part of its head. -/
theorem not_isTypeSuffix_body (body : Option Block) (rest : List Lexeme) :
    ¬IsTypeSuffix (headKind (bodyLexemes parenthesized body ++ rest)) ∧
      headKind (bodyLexemes parenthesized body ++ rest) ≠ Symbol.arrow := by
  cases body with
  | none => exact ⟨not_isTypeSuffix_cons (by decide) _, nofun⟩
  | some b => exact b.not_isTypeSuffix rest

theorem Legible.body {body : Option Block} (h : ∀ b ∈ body, (Node.block b).Rewritten inTrait) :
    Legible (bodyLexemes parenthesized body) := by
  cases body with
  | none => simp [bodyLexemes]
  | some b => exact Rereads.legible (h b rfl)

/-- A function of a trait whose parts are read back is read back. -/
theorem TraitFunctionDecl.rewritten (hV : V.Writable) {f : TraitFunctionDecl}
    (here : (Node.traitFunction f).Writable V inTrait)
    (parts : ∀ m ∈ (Node.traitFunction f).parts, m.Rewritten inTrait) :
    (Node.traitFunction f).Rewritten inTrait := by
  obtain ⟨pos, isStatic, name, generics, params, result, body⟩ := f
  have hhead : HeadRewritten inTrait generics params result :=
    .of_nodes (fun m hm => parts m (by simp [Node.parts, hm])) (here.wellFormed hV.firm)
  have hbody : ∀ b ∈ body, (Node.block b).Rewritten inTrait := fun b hb =>
    parts (.block b) (by simp_all [Node.parts])
  refine ⟨?_, ?_⟩
  · simpa [TraitFunctionDecl.lexemes] using
      ⟨.flag _ _, hhead.legible (hV.name here.spelled), .body hbody⟩
  rintro c rfl depth hdepth rest -
  obtain ⟨hsuffix, harrow⟩ := not_isTypeSuffix_body body rest
  simp only [TraitFunctionDecl.lexemes, List.length_cons, List.length_append] at hdepth
  dsimp only [TraitFunctionDecl.lexemes]
  rw [List.append_assoc, List.append_assoc, List.cons_append]
  refine Parses.position fun pos' => Parses.eatFlag (fun _ => (by rintro ⟨⟩)) (Parses.mark rfl ?_)
  refine hhead.parses (by omega) hsuffix harrow fun g ps r hg hps hr => ?_
  cases body with
  | none =>
    refine Parses.ifFalse Bool.false_ne_true (Parses.mark rfl (.pure ?_))
    simp only [Copies, TraitFunctionDecl.unplaced, hg, hps, hr]
  | some b =>
    have hb : (Node.block b).Rewritten c.inTrait := hbody b rfl
    rw [bodyLexemes] at hdepth
    refine Parses.ifTrue rfl ?_
    refine (hb.read c rfl depth (by omega) rest trivial).bind fun (b' : Block) hb' => .pure ?_
    have hb' : b'.unplaced = b.unplaced := hb'
    simp only [Copies, TraitFunctionDecl.unplaced, hg, hps, hr, Option.map_some, hb']

/-- The body of a trait whose functions are read back where `self` is a type is read back. -/
theorem Node.rewritten_traitBody (hV : V.Writable) {forType : Option TypeExpr}
    {functions : List TraitFunctionDecl}
    (here : (Node.traitBody forType functions).Writable V inTrait)
    (parts : ∀ m ∈ (Node.traitBody forType functions).parts, m.Rewritten true) :
    (Node.traitBody forType functions).Rewritten inTrait := by
  have hbodies : ∀ f ∈ functions, f.body.isSome ↔ forType.isSome := here.wellFormed hV.firm
  have htype : ∀ t ∈ forType, t.Written true := fun t ht => parts (.type t) (by
    obtain rfl : forType = some t := ht
    simp [Node.parts])
  have hfunctions : ∀ f ∈ functions, (Node.traitFunction f).Rewritten true := fun f hf =>
    parts (.traitFunction f) (by simp [Node.parts, hf])
  refine ⟨?_, ?_⟩
  · have hfor : Legible (forLexemes forType) := by
      cases forType with
      | none => exact .nil
      | some t => simpa [forLexemes] using (htype t rfl).legible
    simpa using ⟨hfor, fun f hf => (hfunctions f hf).legible⟩
  intro c hc depth hdepth rest _
  rw [← hc] at htype
  simp only [inBraces, List.length_cons, List.length_append] at hdepth
  rw [List.append_assoc, inBraces_append]
  have hfor : Parses c (forLexemes forType ++ .mark .lBrace ::
      (functions.flatMap (TraitFunctionDecl.lexemes parenthesized) ++ .mark .rBrace :: rest))
      (Grammar.builtOptionally (Parser.eat Keyword.forKw) (Grammar.upTo depth).builtType)
      (Copies (Option.map TypeExpr.unplaced) forType) (.mark .lBrace ::
        (functions.flatMap (TraitFunctionDecl.lexemes parenthesized) ++
          .mark .rBrace :: rest)) := by
    cases forType with
    | none =>
      refine (Parses.builtAbsent (Parses.notEaten ?_)).mono fun o ho => ?_
      · rintro ⟨⟩
      · exact congrArg (Option.map TypeExpr.unplaced) ho
    | some t =>
      rw [forLexemes, List.length_cons] at hdepth
      refine (Parses.builtPresent (Parses.takeChecked rfl) ((htype t rfl).parses (by omega)
        (not_isTypeSuffix_cons (by decide) _))).mono ?_
      rintro _ ⟨t', rfl, ht'⟩
      exact congrArg some ht'
  refine hfor.bind fun forType' hforType => Parses.mark rfl ?_
  have hforType : forType'.map TypeExpr.unplaced = forType.map TypeExpr.unplaced := hforType
  refine (Parses.builtMembers (u := TraitFunctionDecl.unplaced)
    (fun f _ => f.begins.mono fun k hk => ?_) fun f hf us => ?_).bind fun out hout =>
      Parses.drop (.pure ⟨hforType, hout⟩)
  · rcases hk with rfl | rfl <;> rintro ⟨⟩
  · have hlength := length_le_flatMap (f := TraitFunctionDecl.lexemes parenthesized) hf
    have hbegins := f.begins.headKind us
    have hsome : forType'.isSome = f.body.isSome := by
      rw [← Option.isSome_map (f := TypeExpr.unplaced), hforType, Option.isSome_map,
        Bool.eq_iff_iff]
      exact (hbodies f hf).symm
    refine Parses.kind (Parses.ifTrue (by simpa using hbegins) ?_)
    rw [hsome]
    exact (hfunctions f hf).read c hc depth (by omega) us trivial

/-- What stands in the body of a trait is read where `self` is a type. -/
theorem Parses.inTraitMode {α : Type} {c : Setting} {ts us : List Lexeme} {x : Parse Buffer α}
    {W : α → Prop} (h : Parses (c.inMode true) ts x W us) :
    Parses c ts (Parser.inTraitMode x) W us := by
  intro p hp
  have houtside : Reads (c.inMode c.inTrait) ts p := hp
  have hinside : Reads (c.inMode true) ts { p with inTrait := true } := houtside.withTrait true
  obtain ⟨a, q, hq, ha, hreads⟩ := h hinside
  refine ⟨a, { q with inTrait := p.inTrait }, ?_, ha, ?_⟩
  · rw [run_inTraitMode, hq]
  · have hback := hreads.withTrait p.inTrait
    rw [hp.holds.inTrait_eq] at hback ⊢
    exact hback

/-- A trait whose parts are read back is read back. -/
theorem TraitDecl.rewritten (hV : V.Writable) {d : TraitDecl}
    (here : (Node.trait d).Writable V inTrait)
    (parts : ∀ m ∈ (Node.trait d).parts, m.Rewritten inTrait) :
    (Node.trait d).Rewritten inTrait := by
  obtain ⟨pos, exported, name, generics, forType, functions⟩ := d
  have hname : IsName name := hV.name here.spelled
  have hgenerics : ∀ g ∈ generics, (Node.generics g).Rewritten inTrait := fun g hg =>
    parts (.generics g) (by simp_all [Node.parts])
  have hbody : (Node.traitBody forType functions).Rewritten inTrait :=
    parts (.traitBody forType functions) (by simp [Node.parts])
  refine ⟨?_, ?_⟩
  · have hlegible := hbody.legible
    rw [Legible.append_iff] at hlegible
    simpa [TraitDecl.lexemes] using
      ⟨Lexeme.WellFormed.name hname, GenericDecl.legible hgenerics, by simpa using hlegible⟩
  rintro c rfl depth hdepth rest -
  have hrow : TraitDecl.lexemes parenthesized ⟨pos, exported, name, generics, forType, functions⟩ =
      .word .traitKw :: .name name :: (genericLexemes generics ++ (forLexemes forType ++
        inBraces (functions.flatMap (TraitFunctionDecl.lexemes parenthesized)))) := by
    simp [TraitDecl.lexemes]
  rw [hrow] at hdepth ⊢
  rw [List.length_cons, List.length_cons, List.length_append] at hdepth
  rw [List.cons_append, List.cons_append, List.append_assoc]
  refine Parses.position fun pos' => Parses.mark rfl (Parses.expectIdentifier ?_)
  refine (Parses.generics hgenerics (by omega) ?_).bind fun g hg => ?_
  · cases forType with
    | none => rintro ⟨⟩
    | some t => rintro ⟨⟩
  refine (Parses.inTraitMode (hbody.read _ rfl depth (by omega) rest trivial)).bind
    fun out hout => .pure ?_
  obtain ⟨forType', functions'⟩ := out
  have hg : g.map GenericDecl.unplaced = generics.map GenericDecl.unplaced := hg
  have hforType : forType'.map TypeExpr.unplaced = forType.map TypeExpr.unplaced := hout.1
  have hfunctions : functions'.map TraitFunctionDecl.unplaced =
      functions.map TraitFunctionDecl.unplaced := hout.2
  simp only [Copies, TraitDecl.unplaced, hg, hforType, hfunctions]

/-! ## Enums -/

/-- Types between parentheses. -/
theorem Parses.typeList {c : Setting} {depth : Nat} {types : List TypeExpr} {rest : List Lexeme}
    (htypes : ∀ t ∈ types, t.Written c.inTrait) (hne : types ≠ [])
    (hdepth : (commas (TypeExpr.rows types)).length < depth) :
    Parses c (commas (TypeExpr.rows types) ++ .mark .rParen :: rest)
      (Parser.closedList .rParen ((Grammar.upTo depth).type .build) :
        Parse Buffer (Yield .build (List TypeExpr)))
      (fun out : List TypeExpr => out.map TypeExpr.unplaced =
        types.map TypeExpr.unplaced) rest := by
  rw [TypeExpr.rows_eq_map] at hdepth ⊢
  refine closedList nofun nofun hne (fun t ht => ?_) fun t ht s hs us => ?_
  · obtain ⟨l, more, hrow, -⟩ := (htypes t ht).begins
    rw [hrow]
    exact List.cons_ne_nil _ _
  · have hlength := length_le_commas_map (f := TypeExpr.lexemes) ht
    refine (htypes t ht).parses (by omega) ?_
    rcases hs with rfl | rfl <;> exact not_isTypeSuffix_cons (by decide) _

theorem EnumItemDecl.begins (i : EnumItemDecl) :
    Begins (i.lexemes parenthesized) fun k => k = .identifier := ⟨_, _, rfl, rfl⟩

theorem EnumItemValue.legible {value : EnumItemValue}
    (h : ∀ m ∈ value.nodes, m.Rewritten inTrait) : Legible (value.lexemes parenthesized) := by
  cases value with
  | none => exact .nil
  | value e =>
    have he : e.Rewritten inTrait := h (.expr e) (by simp [EnumItemValue.nodes])
    simpa [EnumItemValue.lexemes] using he.legible
  | data types =>
    have htypes : ∀ t ∈ types, t.Written inTrait := fun t ht =>
      h (.type t) (by simp [EnumItemValue.nodes, ht])
    simpa [EnumItemValue.lexemes, TypeExpr.rows_eq_map] using fun t ht => (htypes t ht).legible

/-- What an item of an enum stands for is read back in front of a comma or of the brace behind the
items. -/
theorem EnumItemValue.parses {c : Setting} {depth : Nat} {value : EnumItemValue}
    {rest : List Lexeme} (hwell : value.WellFormed)
    (h : ∀ m ∈ value.nodes, m.Rewritten c.inTrait)
    (hdepth : 4 * (value.lexemes parenthesized).length < depth) (hrest : EndsItem .rBrace rest) :
    Parses c (value.lexemes parenthesized ++ rest) (Grammar.upTo depth).enumItemValue
      (Copies EnumItemValue.unplaced value) rest := by
  cases value with
  | none =>
    have hbare : headKind rest ≠ Symbol.eq ∧ headKind rest ≠ Symbol.lParen := by
      rcases hrest with hk | hk <;> rw [hk] <;> exact ⟨by rintro ⟨⟩, by rintro ⟨⟩⟩
    exact Parses.kind (Parses.ifFalse hbare.1 (Parses.ifFalse hbare.2 (.pure rfl)))
  | value e =>
    have he : e.Rewritten c.inTrait := h (.expr e) (by simp [EnumItemValue.nodes])
    rw [EnumItemValue.lexemes, List.length_cons] at hdepth
    refine Parses.kind (Parses.ifTrue rfl (Parses.drop ?_))
    refine (he.parses (by omega) (hrest.stops.2.1.mono (by decide))).bind fun e' he' => .pure ?_
    exact congrArg EnumItemValue.value he'
  | data types =>
    have htypes : ∀ t ∈ types, t.Written c.inTrait := fun t ht =>
      h (.type t) (by simp [EnumItemValue.nodes, ht])
    rw [EnumItemValue.lexemes] at hdepth ⊢
    simp only [inParens, List.length_cons, List.length_append] at hdepth
    rw [inParens_append]
    have hne : (Symbol.lParen : TokenKind) ≠ Symbol.eq := (by rintro ⟨⟩)
    refine Parses.kind (Parses.ifFalse hne (Parses.ifTrue rfl (Parses.drop ?_)))
    refine (Parses.typeList htypes hwell (by omega)).bind fun (out : List TypeExpr) hout =>
      .pure ?_
    show EnumItemValue.data (TypeExpr.unplacedAll out) = .data (TypeExpr.unplacedAll types)
    rw [TypeExpr.unplacedAll_eq_map, TypeExpr.unplacedAll_eq_map, hout]

/-- An item of an enum is read back, with the comma behind it if there is one. -/
theorem EnumItemDecl.rewritten (hV : V.Writable) {i : EnumItemDecl}
    (here : (Node.enumItem i).Writable V inTrait)
    (parts : ∀ m ∈ (Node.enumItem i).parts, m.Rewritten inTrait) :
    (Node.enumItem i).Rewritten inTrait := by
  obtain ⟨pos, name, value⟩ := i
  have hname : Lexeme.WellFormed (.name name) := .name (hV.name here.spelled)
  have hwell : value.WellFormed := here.wellFormed hV.firm
  have hlegible : Legible (EnumItemDecl.lexemes parenthesized ⟨pos, name, value⟩) := by
    simpa [EnumItemDecl.lexemes] using ⟨hname, EnumItemValue.legible parts⟩
  have hcopy {pos' : Position} {value' : EnumItemValue}
    (h : Copies EnumItemValue.unplaced value value') :
      Copies EnumItemDecl.unplaced ⟨pos, name, value⟩ ⟨pos', name, value'⟩ :=
    congrArg (EnumItemDecl.mk .start name) h
  refine ⟨⟨hlegible, ?_⟩, ⟨by simpa using hlegible, ?_⟩⟩
  · rintro c rfl depth hdepth rest hrest
    have hne : (Symbol.rBrace : TokenKind) ≠ Symbol.comma := nofun
    simp only [EnumItemDecl.lexemes, List.length_cons] at hdepth
    refine Parses.position fun pos' => Parses.expectIdentifier ?_
    refine (EnumItemValue.parses hwell parts (by omega) (.inr hrest)).bind fun value' hvalue => ?_
    refine Parses.kind ?_
    rw [hrest]
    exact Parses.ifFalse hne (Parses.ifFalse (fun h => h rfl) (.pure (hcopy hvalue)))
  · rintro c rfl depth hdepth rest -
    simp only [EnumItemDecl.lexemes, List.length_append, List.length_cons] at hdepth
    rw [List.append_assoc]
    refine Parses.position fun pos' => Parses.expectIdentifier ?_
    refine (EnumItemValue.parses hwell parts (by omega) (.inl rfl)).bind fun value' hvalue => ?_
    exact Parses.kind (Parses.ifTrue rfl (Parses.drop (.pure (hcopy hvalue))))

/-- An enum whose parts are read back is read back. -/
theorem EnumDecl.rewritten (hV : V.Writable) {d : EnumDecl}
    (here : (Node.enum d).Writable V inTrait)
    (parts : ∀ m ∈ (Node.enum d).parts, m.Rewritten inTrait) :
    (Node.enum d).Rewritten inTrait := by
  obtain ⟨pos, exported, name, generics, items⟩ := d
  have hname : IsName name := hV.name here.spelled
  have hgenerics : ∀ g ∈ generics, (Node.generics g).Rewritten inTrait := fun g hg =>
    parts (.generics g) (by simp_all [Node.parts])
  have hitems : ∀ i ∈ items, (Node.enumItem i).Rewritten inTrait := fun i hi =>
    parts (.enumItem i) (by simp [Node.parts, hi])
  refine ⟨?_, ?_⟩
  · simpa [EnumDecl.lexemes] using ⟨Lexeme.WellFormed.name hname,
      GenericDecl.legible hgenerics, fun i hi => (hitems i hi).last.legible⟩
  rintro c rfl depth hdepth rest -
  simp only [EnumDecl.lexemes, inBraces, List.length_cons, List.length_append] at hdepth
  dsimp only [EnumDecl.lexemes]
  rw [List.append_assoc, inBraces_append]
  have hlength (i : EnumItemDecl) (hi : i ∈ items) :=
    length_le_commas_map (f := EnumItemDecl.lexemes parenthesized) hi
  have hcomma (i : EnumItemDecl) (hi : i ∈ items) (us : List Lexeme) :
      Parses c (i.lexemes parenthesized ++ .mark .comma :: us) (Grammar.upTo depth).enumItem
        (Copies EnumItemDecl.unplaced i) us := by
    have hread := (hitems i hi).comma.read c rfl depth (by
      have := hlength i hi
      rw [List.length_append, List.length_singleton]
      omega) us trivial
    rwa [List.append_assoc] at hread
  have hlast (i : EnumItemDecl) (hi : i ∈ items) (us : List Lexeme) :
      Parses c (i.lexemes parenthesized ++ .mark .rBrace :: us) (Grammar.upTo depth).enumItem
        (Copies EnumItemDecl.unplaced i) (.mark .rBrace :: us) := by
    have := hlength i hi
    exact (hitems i hi).last.read c rfl depth (by omega) _ rfl
  refine Parses.position fun pos' => Parses.mark rfl (Parses.expectIdentifier ?_)
  refine (Parses.genericsBrace hgenerics (by omega)).bind fun g hg => Parses.mark rfl ?_
  refine (Parses.builtCommas (fun i _ => i.begins.mono (by rintro k rfl ⟨⟩)) hcomma hlast).bind
    fun out hout => Parses.drop (.pure ?_)
  simp only [Copies, EnumDecl.unplaced, hg, hout]

end ScriptFront
