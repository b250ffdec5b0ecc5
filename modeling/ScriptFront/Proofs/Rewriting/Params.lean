import ScriptFront.Proofs.Rewriting.Stmts
import ScriptFront.Proofs.Rewriting.TypeTokens

/-!
# Parameters that are written anew

What stands between the name of a function and its body is shared by all kinds of functions.

- `Parses.builtBehindMarks`, `Parses.builtWhile`: lists of parts that are only built.
- `GenericItem.rewritten`, `GenericDecl.rewritten`: type parameters.
- `ParameterDecl.rewritten`, `Parses.parameters`: parameters, of which only the last one is
  variadic.
- `Parses.head`: all that stands between the name of a function and its body.
-/

namespace ScriptFront

open ScriptFront.Parser

/-! ## Parts that are only built -/

namespace Parses

variable {α β : Type} {c : Setting} {rest ts us : List Lexeme} {test : Parse Buffer Bool}
  {item : Parse Buffer α} {V : α → Prop} {u : α → β} {row inner : α → List Lexeme} {as : List α}

theorem builtPresent (htest : Parses c ts test (fun b => b = true) us)
    (h : Parses c us item V rest) :
    Parses c ts (Grammar.builtOptionally test item) (fun o => ∃ a, o = some a ∧ V a) rest :=
  present htest h

theorem builtAbsent (htest : Parses c ts test (fun b => b = false) ts) :
    Parses c ts (Grammar.builtOptionally test item) (fun o => o = none) ts := absent htest

theorem builtWhile (ends : List Lexeme → Prop) (hrows : ∀ a ∈ as, row a ≠ [])
    (hgo : ∀ a ∈ as, ∀ us, ends (row a ++ us) ∧
      Parses c (row a ++ us) test (fun b => b = true) (inner a ++ us))
    (h : ∀ a ∈ as, ∀ us, ends us → Parses c (inner a ++ us) item (Copies u a) us)
    (hends : ends rest) (hstop : Parses c rest test (fun b => b = false) rest) :
    Parses c (as.flatMap row ++ rest) (Grammar.builtWhile test item)
      (fun out => out.map u = as.map u) rest :=
  listWhile hrows hgo h hends hstop

/-- Further parts, each with a mark in front of it. -/
theorem builtBehindMarks {separator : Symbol} (ends : List Lexeme → Prop)
    (hsep : ∀ us, ends (.mark separator :: us))
    (h : ∀ a ∈ as, ∀ us, ends us → Parses c (row a ++ us) item (Copies u a) us) (hends : ends rest)
    (hstop : headKind rest ≠ separator) :
    Parses c ((as.flatMap fun a => .mark separator :: row a) ++ rest)
      (Grammar.builtWhile (Parser.eat separator) item) (fun out => out.map u = as.map u) rest :=
  behindMarks hsep h hends hstop

/-- Parts up to a closing brace. -/
theorem builtMembers (hrows : ∀ a ∈ as, Begins (row a) fun k => k ≠ Symbol.rBrace)
    (h : ∀ a ∈ as, ∀ us, Parses c (row a ++ us) item (Copies u a) us) :
    Parses c (as.flatMap row ++ .mark .rBrace :: rest)
      (Grammar.builtWhile (Parser.checkNot Symbol.rBrace) item)
      (fun out => out.map u = as.map u) (.mark .rBrace :: rest) := by
  refine builtWhile (fun _ => True) (fun a ha => (hrows a ha).ne_nil) (fun a ha us => ?_)
    (fun a ha us _ => h a ha us) trivial (checkedNot.mono fun b hb => hb)
  refine ⟨trivial, checkedNot.mono fun b hb => ?_⟩
  rw [hb, decide_eq_false ((hrows a ha).headKind us), Bool.not_false]

/-- Parts up to a closing brace, each with the comma behind it if there is one. -/
theorem builtCommas (hrows : ∀ a ∈ as, Begins (row a) fun k => k ≠ Symbol.rBrace)
    (h : ∀ a ∈ as, ∀ us, Parses c (row a ++ .mark .comma :: us) item (Copies u a) us)
    (hlast : ∀ a ∈ as, ∀ us,
      Parses c (row a ++ .mark .rBrace :: us) item (Copies u a) (.mark .rBrace :: us)) :
    Parses c (commas (as.map row) ++ .mark .rBrace :: rest)
      (Grammar.builtWhile (Parser.checkNot Symbol.rBrace) item)
      (fun out => out.map u = as.map u) (.mark .rBrace :: rest) := by
  refine listBound fun n hn => ?_
  have hsteps : as.length < n := by
    have hfull : ∀ r ∈ as.map row, r ≠ [] := by simpa using fun a ha => (hrows a ha).ne_nil
    have hle := Feed.length_commas hfull
    rw [List.length_map] at hle
    rw [List.length_append] at hn
    omega
  have hnone : (#[] : Array α).toList.map u = ([] : List α).map u := rfl
  exact (whileCommas hrows h hlast hsteps hnone).bind
    fun out hout => pure hout

end Parses

/-- What ends the first of several parts: a mark in front of a further one, or what ends them
all. -/
theorem ends_behindMarks {α : Type} (ends : List Lexeme → Prop) {separator : Symbol}
    {row : α → List Lexeme} {as : List α} {rest : List Lexeme}
    (hsep : ∀ us, ends (.mark separator :: us)) (hends : ends rest) :
    ends ((as.flatMap fun a => .mark separator :: row a) ++ rest) := by
  cases as with
  | nil => exact hends
  | cons a as =>
    rw [List.flatMap_cons, List.append_assoc]
    exact hsep _

/-! ## Type parameters -/

theorem Legible.barred {ts : List TypeExpr} (h : ∀ t ∈ ts, Legible t.lexemes) :
    Legible (barred ts) := by
  cases ts with
  | nil => exact .nil
  | cons t ts =>
    rw [List.forall_mem_cons] at h
    simpa [barred_cons] using h

/-- What a constraint ends at: a bar, or the end of its type parameter. -/
def EndsConstraint (rest : List Lexeme) : Prop := headKind rest = Symbol.pipe ∨ EndsItem .gt rest

theorem EndsConstraint.not_isTypeSuffix {rest : List Lexeme} (h : EndsConstraint rest) :
    ¬IsTypeSuffix (headKind rest) := by
  rcases h with h | h | h <;> rw [h] <;> decide

section Generics

variable {V : Vocabulary} {inTrait : Bool}

theorem Parses.typeConstraint {c : Setting} {depth : Nat} {t : TypeExpr} {rest : List Lexeme}
    (ht : t.Written c.inTrait) (hnullable : t.nullable = false) (hdepth : t.lexemes.length < depth)
    (hrest : EndsConstraint rest) :
    Parses c (t.lexemes ++ rest) (Grammar.upTo depth).constraint (Copies TypeExpr.unplaced t)
      rest := by
  refine save fun b _ => (ht.parses hdepth hrest.not_isTypeSuffix).bind
    fun (t' : TypeExpr) ht' => ifFalse ?_ (pure ht')
  have ht' : t'.unplaced = t.unplaced := ht'
  rw [← TypeExpr.unplaced_nullable, ht', TypeExpr.unplaced_nullable, hnullable]
  nofun

/-- A type parameter whose constraints are read back is read back. -/
theorem GenericItem.rewritten (hV : V.Writable) {i : GenericItem}
    (here : (Node.genericItem i).Writable V inTrait)
    (parts : ∀ m ∈ (Node.genericItem i).parts, m.Rewritten inTrait) :
    (Node.genericItem i).Rewritten inTrait := by
  obtain ⟨pos, name, constraints⟩ := i
  have hname : Lexeme.WellFormed (.name name) := .name (hV.name here.spelled)
  have hplain : ∀ t ∈ constraints, t.nullable = false := here.wellFormed hV.firm
  have htypes (t : TypeExpr) (ht : t ∈ constraints) : t.Written inTrait :=
    parts (.type t) (List.mem_map_of_mem ht)
  refine ⟨?_, ?_⟩
  · have hconstraints := Legible.barred fun t ht => (htypes t ht).legible
    cases constraints with
    | nil => simpa [GenericItem.lexemes] using hname
    | cons t ts => simpa [GenericItem.lexemes] using ⟨hname, hconstraints⟩
  rintro c rfl depth hdepth rest hrest
  have hbare : headKind rest ≠ Symbol.colon ∧ headKind rest ≠ Keyword.whereKw ∧
      headKind rest ≠ Symbol.pipe := by
    rcases hrest with h | h <;> rw [h] <;> exact ⟨by rintro ⟨⟩, by rintro ⟨⟩, by rintro ⟨⟩⟩
  cases constraints with
  | nil =>
    refine Parses.position fun pos' => Parses.expectIdentifier (Parses.eatNot hbare.1 ?_)
    exact Parses.check (Parses.ifFalse (by simpa using hbare.2.1) (.pure rfl))
  | cons t ts =>
    rw [List.forall_mem_cons] at hplain htypes
    have hrow : GenericItem.lexemes ⟨pos, name, t :: ts⟩ = .name name :: .mark .colon ::
        .word .whereKw :: .name name :: .word .isKw ::
          (t.lexemes ++ ts.flatMap fun t => .mark .pipe :: t.lexemes) := by
      simp [GenericItem.lexemes, barred_cons]
    rw [hrow] at hdepth ⊢
    simp only [List.length_cons, List.length_append] at hdepth
    simp only [List.cons_append, List.append_assoc]
    have hmore (s : TypeExpr) (hs : s ∈ ts) (us : List Lexeme) (hus : EndsConstraint us) :
        Parses c (s.lexemes ++ us) (Grammar.upTo depth).constraint (Copies TypeExpr.unplaced s)
          us := by
      have hlength := length_le_flatMap (f := fun t => Lexeme.mark .pipe :: t.lexemes) hs
      rw [List.length_cons] at hlength
      exact .typeConstraint (htypes.2 s hs) (hplain.2 s hs) (by omega) hus
    have hbar (us : List Lexeme) : EndsConstraint (.mark .pipe :: us) := .inl rfl
    refine Parses.position fun pos' => Parses.expectIdentifier (Parses.eat rfl ?_)
    refine Parses.check (Parses.ifTrue rfl ?_)
    have hconstraints : Parses c (.word .whereKw :: .name name :: .word .isKw :: (t.lexemes ++
        ((ts.flatMap fun t => .mark .pipe :: t.lexemes) ++ rest)))
        ((Grammar.upTo depth).constraints name)
        (fun out => out.map TypeExpr.unplaced = (t :: ts).map TypeExpr.unplaced) rest := by
      refine Parses.mark rfl (Parses.save fun b _ => Parses.expectIdentifier ?_)
      refine Parses.ifFalse (fun h => h rfl) (Parses.mark rfl ?_)
      refine (Parses.typeConstraint htypes.1 hplain.1 (by omega)
        (ends_behindMarks EndsConstraint hbar (.inr hrest))).bind fun t' ht' => ?_
      refine (Parses.builtBehindMarks EndsConstraint hbar hmore (.inr hrest) hbare.2.2).bind
        fun out hout =>
        .pure ?_
      have ht' : t'.unplaced = t.unplaced := ht'
      rw [List.map_cons, List.map_cons, ht', hout]
    refine hconstraints.bind fun out hout => .pure ?_
    show GenericItem.mk .start name (TypeExpr.unplacedAll out) = _
    rw [TypeExpr.unplacedAll_eq_map, hout, ← TypeExpr.unplacedAll_eq_map]
    rfl

/-- Type parameters that are read back one by one are read back. -/
theorem GenericDecl.rewritten (hV : V.Writable) {d : GenericDecl}
    (here : (Node.generics d).Writable V inTrait)
    (parts : ∀ m ∈ (Node.generics d).parts, m.Rewritten inTrait) :
    (Node.generics d).Rewritten inTrait := by
  obtain ⟨pos, items⟩ := d
  have hne : items ≠ [] := here.wellFormed hV.firm
  have hitems (i : GenericItem) (hi : i ∈ items) : (Node.genericItem i).Rewritten inTrait :=
    parts (.genericItem i) (List.mem_map_of_mem hi)
  refine ⟨by simpa [genericLexemes] using fun i hi => (hitems i hi).legible, ?_⟩
  rintro c rfl depth hdepth rest -
  obtain ⟨i, is, rfl⟩ := List.exists_cons_of_ne_nil hne
  rw [List.forall_mem_cons] at hitems
  have hrow : genericLexemes (some ⟨pos, i :: is⟩) ++ rest = .mark .lt :: (i.lexemes ++
      ((is.flatMap fun i => .mark .comma :: i.lexemes) ++ .mark .gt :: rest)) := by
    rw [genericLexemes, commas_map_cons, inAngles, List.append_assoc, List.cons_append,
      List.append_assoc]
    rfl
  have hlength : 4 * (i.lexemes ++ is.flatMap fun i => .mark .comma :: i.lexemes).length + 8 <
      depth := by
    simp only [genericLexemes, inAngles, commas_map_cons, List.length_append, List.length_cons,
      List.length_nil] at hdepth ⊢
    omega
  rw [List.length_append] at hlength
  have hcomma (us : List Lexeme) : EndsItem .gt (.mark .comma :: us) := .inl rfl
  have hgt : EndsItem .gt (.mark .gt :: rest) := .inr rfl
  have hmore (j : GenericItem) (hj : j ∈ is) (us : List Lexeme) (hus : EndsItem .gt us) :
      Parses c (j.lexemes ++ us) (Grammar.upTo depth).genericItem (Copies GenericItem.unplaced j)
        us := by
    have hle := length_le_flatMap (f := fun i => Lexeme.mark .comma :: i.lexemes) hj
    rw [List.length_cons] at hle
    exact (hitems.2 j hj).read c rfl depth (by omega) us hus
  have hsplit : Parses c (.mark .gt :: rest) Grammar.splitClosingAngle (fun _ => True)
      (.mark .gt :: rest) := Parses.kind (Parses.ifFalse Bool.false_ne_true (.pure trivial))
  rw [hrow]
  refine Parses.position fun pos' => Parses.mark rfl ?_
  refine (hitems.1.read c rfl depth (by omega) _ (ends_behindMarks (EndsItem .gt) hcomma hgt)).bind
    fun i' hi' => ?_
  refine (Parses.builtBehindMarks (EndsItem .gt) hcomma hmore hgt
    (by rintro ⟨⟩)).bind fun out hout => ?_
  refine hsplit.bind fun _ _ => Parses.mark rfl (.pure ?_)
  have hi' : i'.unplaced = i.unplaced := hi'
  show GenericDecl.mk .start ((i' :: out).map GenericItem.unplaced) = _
  rw [List.map_cons, hi', hout]
  rfl

/-- Type parameters, if there are some. -/
theorem Parses.generics {c : Setting} {depth : Nat} {rest : List Lexeme} {d : Option GenericDecl}
    (h : ∀ g ∈ d, (Node.generics g).Rewritten c.inTrait)
    (hdepth : 4 * (genericLexemes d).length < depth) (hrest : headKind rest ≠ Symbol.lt) :
    Parses c (genericLexemes d ++ rest) (Grammar.upTo depth).generics
      (Copies (Option.map GenericDecl.unplaced) d) rest := by
  cases d with
  | none =>
    have htest : Parses c rest (Parser.check Symbol.lt) (fun b => b = false) rest :=
      checked.mono fun b hb => by rw [hb, decide_eq_false hrest]
    exact (builtAbsent htest).mono fun o ho => ho ▸ rfl
  | some g =>
    have htest : Parses c (genericLexemes (some g) ++ rest) (Parser.check Symbol.lt)
        (fun b => b = true) (genericLexemes (some g) ++ rest) := checked.mono fun b hb => hb
    have hread := (h g rfl).read c rfl depth hdepth rest trivial
    refine (builtPresent htest (inContext .genericParams hread)).mono ?_
    rintro _ ⟨g', rfl, hg'⟩
    exact congrArg some hg'

/-- Type parameters in front of a brace. -/
theorem Parses.genericsBrace {c : Setting} {depth : Nat} {rest : List Lexeme}
    {d : Option GenericDecl} (h : ∀ g ∈ d, (Node.generics g).Rewritten c.inTrait)
    (hdepth : 4 * (genericLexemes d).length < depth) :
    Parses c (genericLexemes d ++ .mark .lBrace :: rest) (Grammar.upTo depth).generics
      (fun d' => d'.map GenericDecl.unplaced = d.map GenericDecl.unplaced)
      (.mark .lBrace :: rest) := generics h hdepth nofun

theorem GenericDecl.legible {d : Option GenericDecl}
    (h : ∀ g ∈ d, (Node.generics g).Rewritten inTrait) : Legible (genericLexemes d) := by
  cases d with
  | none => exact .nil
  | some g => exact Rereads.legible (h g rfl)

end Generics

/-! ## Parameters -/

section Parameters

variable {V : Vocabulary} {inTrait : Bool}

theorem ParameterDecl.begins_of_declared {p : ParameterDecl} (hdeclared : V.Declared p.binding) :
    Begins (p.lexemes parenthesized) fun k => k ≠ Symbol.rParen := by
  obtain ⟨pos, ownership, binding, type, variadic⟩ := p
  cases ownership with
  | owned =>
    refine ((Binding.begins hdeclared).append _).mono fun k hk => ?_
    rcases hk with rfl | rfl | rfl <;> nofun
  | ref => exact ⟨_, _, rfl, nofun⟩
  | shared => exact ⟨_, _, rfl, nofun⟩

/-- A parameter whose parts are read back is read back. -/
theorem ParameterDecl.rewritten (hV : V.Writable) {p : ParameterDecl}
    (here : (Node.parameter p).Writable V inTrait)
    (parts : ∀ m ∈ (Node.parameter p).parts, m.Rewritten inTrait) :
    (Node.parameter p).Rewritten inTrait := by
  obtain ⟨pos, ownership, binding, type, variadic⟩ := p
  have hdeclared : V.Declared binding := here.spelled
  have hvoid : ∀ t ∈ type, t.isVoid = false := here.voidsPlaced
  obtain ⟨htyped, hnamed, hfields⟩ := here.wellFormed hV.firm
  have htyped : type = none ↔ variadic := htyped
  have hnamed : variadic → binding.IsNamed := hnamed
  have hfields : ∀ p, binding = .destructured p → p.IsFields := hfields
  have hbinding : ∀ m ∈ binding.nodes, m.Rewritten inTrait := fun m hm =>
    parts m (by simp [Node.parts, hm])
  have htype : ∀ t ∈ type, t.Written inTrait := fun t ht => parts (.type t) (by
    obtain rfl : type = some t := ht
    simp [Node.parts])
  have hopen {rest : List Lexeme} := (Binding.begins hdeclared).headKind rest
  have hownership {c : Setting} {rest : List Lexeme} :
      Parses c (ownership.lexemes ++ (binding.lexemes parenthesized ++ rest)) Grammar.ownership
        (fun o => o = ownership) (binding.lexemes parenthesized ++ rest) := by
    refine Parses.ownership ownership fun _ => ?_
    rcases @hopen rest with hk | hk | hk <;> rw [hk] <;> exact ⟨by rintro ⟨⟩, by rintro ⟨⟩⟩
  refine ⟨⟨?_, ?_⟩, ParameterDecl.begins_of_declared hdeclared⟩
  · have hbindingLegible := Binding.legible hV hdeclared hbinding
    cases type with
    | none =>
      rw [ParameterDecl.lexemes, if_pos (htyped.1 rfl)]
      simpa using ⟨ownership.legible, hbindingLegible⟩
    | some t =>
      have hplain : variadic = false := by simpa using htyped
      rw [ParameterDecl.lexemes, hplain]
      simpa [markedType] using ⟨ownership.legible, hbindingLegible, (htype t rfl).legible⟩
  rintro c rfl depth hdepth rest hrest
  rw [ParameterDecl.lexemes] at hdepth ⊢
  simp only [List.length_append] at hdepth
  rw [List.append_assoc, List.append_assoc]
  refine Parses.position fun pos' => hownership.bind fun o ho => ?_
  subst ho
  have hsuffix : ¬IsTypeSuffix (headKind rest) := by
    rcases hrest with h | h <;> rw [h] <;> decide
  cases type with
  | none =>
    have hvariadic : variadic = true := htyped.1 rfl
    subst hvariadic
    cases binding with
    | destructured pattern => exact absurd (hnamed rfl) (by rintro ⟨⟩)
    | named name =>
      refine Parses.kind (Parses.ifTrue rfl ?_)
      exact Parses.expectIdentifier (Parses.eat rfl (.pure rfl))
  | some t =>
    have hplain : variadic = false := by simpa using htyped
    subst hplain
    simp only [Bool.false_eq_true, if_false, markedType, List.length_cons] at hdepth
    have hfinish {b : Binding} (hb : b.unplaced = binding.unplaced) {t' : TypeExpr}
        (ht' : t'.unplaced = t.unplaced) : ParameterDecl.unplaced ⟨pos', o, b, some t', false⟩ =
        ParameterDecl.unplaced ⟨pos, o, binding, some t, false⟩ := by
      simp only [ParameterDecl.unplaced, Option.map_some, hb, ht']
    cases binding with
    | named name =>
      refine Parses.kind (Parses.ifTrue rfl ?_)
      refine Parses.expectIdentifier (Parses.eatNot (by rintro ⟨⟩) (Parses.mark rfl ?_))
      exact ((htype t rfl).parsesValue (hvoid t rfl) _ (by omega) hsuffix).bind fun t' ht' =>
        .pure (hfinish rfl ht')
    | destructured pattern =>
      have hpattern : (Node.pattern pattern).Rewritten c.inTrait :=
        hbinding (.pattern pattern) (by simp [Binding.nodes])
      obtain ⟨items, hitems⟩ := hfields pattern rfl
      have hbrace (us : List Lexeme) :
          headKind (pattern.lexemes parenthesized ++ us) = Symbol.lBrace := by
        obtain ⟨pos, form⟩ := pattern
        obtain rfl : form = .fields items := hitems
        rfl
      rw [Binding.lexemes] at hdepth ⊢
      refine Parses.kind (Parses.ifFalse ?_ (Parses.ifTrue (hbrace _) ?_))
      · rw [hbrace]
        rintro ⟨⟩
      refine (Pattern.parses hpattern (by omega) (.inl hdeclared)).bind
        fun (p : Pattern) hp => Parses.mark rfl ?_
      rw [← bind_assoc]
      exact ((htype t rfl).parsesValue (hvoid t rfl) _ (by omega) hsuffix).bind fun t' ht' =>
        .pure (hfinish (b := .destructured p) (congrArg Binding.destructured hp) ht')

namespace Parses

variable {c : Setting} {depth : Nat} {rest us : List Lexeme} {params done : List ParameterDecl}
  {taken : Array ParameterDecl}

/-- Parameters are read up to the closing parenthesis. -/
theorem parametersOnto (hparams : ∀ p ∈ params, (Node.parameter p).Rewritten c.inTrait)
    (hne : params ≠ []) (hlast : ParameterDecl.VariadicLast params)
    (hdepth : 4 * (commas (params.map (ParameterDecl.lexemes parenthesized))).length < depth)
    {steps : Nat} (hsteps : params.length < steps)
    (hdone : taken.toList.map ParameterDecl.unplaced = done.map ParameterDecl.unplaced) :
    Parses c (commas (params.map (ParameterDecl.lexemes parenthesized)) ++ .mark .rParen :: rest)
      ((Grammar.upTo depth).parametersOnto steps taken)
      (fun out : Array ParameterDecl =>
        out.toList.map ParameterDecl.unplaced = (done ++ params).map ParameterDecl.unplaced)
      rest := by
  induction params generalizing done taken steps with
  | nil => exact absurd rfl hne
  | cons p params ih =>
    obtain ⟨steps, rfl⟩ : ∃ n, steps = n + 1 := ⟨steps - 1, by omega⟩
    rw [List.forall_mem_cons] at hparams
    obtain ⟨hp, hparams⟩ := hparams
    have hvariadic {q : ParameterDecl} (hq : q.unplaced = p.unplaced) :
        q.variadic = p.variadic := by
      have hcopy := congrArg ParameterDecl.variadic hq
      exact hcopy
    cases params with
    | nil =>
      refine (hp.read c rfl depth hdepth _ (.inr rfl)).bind fun q hq => ?_
      have hpush := map_toList_push hdone hq
      by_cases h : q.variadic
      · exact ifTrue h (mark rfl (pure hpush))
      · exact ifFalse h (kind (ifFalse nofun (ifTrue rfl (drop (pure hpush)))))
    | cons p' params =>
      have hrow : commas ((p :: p' :: params).map (ParameterDecl.lexemes parenthesized)) =
          p.lexemes parenthesized ++ .mark .comma ::
            commas ((p' :: params).map (ParameterDecl.lexemes parenthesized)) := by
        rw [List.map_cons, List.map_cons, commas]
        exact nofun
      rw [hrow, List.length_append, List.length_cons] at hdepth
      rw [hrow, List.append_assoc, List.cons_append]
      have hplain : p.variadic = false := hlast p List.mem_cons_self
      refine (hp.read c rfl depth (by omega) _ (.inl rfl)).bind fun q hq => ?_
      refine ifFalse (by simp [hvariadic hq, hplain]) (kind (ifTrue rfl (drop ?_)))
      have hmore := ih hparams (List.cons_ne_nil _ _)
        (fun r hr => hlast r (List.mem_cons_of_mem _ hr)) (by omega)
        (Nat.lt_of_succ_lt_succ hsteps) (map_toList_push hdone hq)
      rw [← List.append_cons] at hmore
      exact hmore

/-- The parameters of a function. -/
theorem parameters (hparams : ∀ p ∈ params, (Node.parameter p).Rewritten c.inTrait)
    (hlast : ParameterDecl.VariadicLast params)
    (hdepth : 4 * (parameterLexemes parenthesized params).length < depth) :
    Parses c (parameterLexemes parenthesized params ++ rest) (Grammar.upTo depth).parameters
      (Copies (List.map ParameterDecl.unplaced) params) rest := by
  rw [parameterLexemes, inParens_append]
  simp only [parameterLexemes, inParens, List.length_cons, List.length_append] at hdepth
  refine mark rfl (inContext .parameters ?_)
  cases params with
  | nil => exact eat rfl (pure rfl)
  | cons p params =>
    have hopen : headKind (commas ((p :: params).map (ParameterDecl.lexemes parenthesized)) ++
        .mark .rParen :: rest) ≠ Symbol.rParen := by
      rw [commas_map_cons, List.append_assoc]
      exact (hparams p List.mem_cons_self).begins.headKind _
    refine eatNot hopen (listBound fun n hn => ?_)
    have hsteps : (p :: params).length < n := by
      have hfull : ∀ row ∈ (p :: params).map (ParameterDecl.lexemes parenthesized), row ≠ [] := by
        simpa using fun q hq => (hparams q hq).begins.ne_nil
      have hle := Feed.length_commas hfull
      rw [List.length_map] at hle
      rw [List.length_append] at hn
      omega
    have hnone : (#[] : Array ParameterDecl).toList.map ParameterDecl.unplaced =
        ([] : List ParameterDecl).map ParameterDecl.unplaced := rfl
    exact (parametersOnto hparams (List.cons_ne_nil _ _) hlast (by omega) hsteps hnone).bind
      fun out hout => pure hout

end Parses

end Parameters

/-! ## Heads of functions -/

/-- What stands between the name of a function and its body is read back. -/
structure HeadRewritten (inTrait : Bool) (generics : Option GenericDecl)
    (params : List ParameterDecl) (result : TypeExpr) : Prop where
  generics : ∀ g ∈ generics, (Node.generics g).Rewritten inTrait
  parameters : ∀ p ∈ params, (Node.parameter p).Rewritten inTrait
  last : ParameterDecl.VariadicLast params
  result : result.Written inTrait

namespace HeadRewritten

variable {inTrait : Bool} {name : String} {generics : Option GenericDecl}
  {params : List ParameterDecl} {result : TypeExpr}

theorem of_nodes (h : ∀ m ∈ headNodes generics params result, m.Rewritten inTrait)
    (hlast : ParameterDecl.VariadicLast params) :
    HeadRewritten inTrait generics params result where
  generics g hg := h (.generics g) (by simp_all [headNodes])
  parameters p hp := h (.parameter p) (by simp [headNodes, hp])
  last := hlast
  result := h (.type result) (by simp [headNodes])

theorem legible (h : HeadRewritten inTrait generics params result) (hname : IsName name) :
    Legible (headLexemes parenthesized name generics params result) := by
  have hparams : Legible (parameterLexemes parenthesized params) := by
    simpa [parameterLexemes] using fun p hp => (h.parameters p hp).legible
  have hresult : Legible (resultLexemes result) := by
    rw [resultLexemes]
    split
    · exact .nil
    · simpa using h.result.legible
  simpa [headLexemes] using
    ⟨Lexeme.WellFormed.name hname, GenericDecl.legible h.generics, hparams, hresult⟩

/-- The head of a function is read back in front of whatever no type goes on with. -/
theorem parses {c : Setting} {depth : Nat} {rest us : List Lexeme} {α : Type} {W : α → Prop}
    {f : String → Option GenericDecl → List ParameterDecl → TypeExpr → Parse Buffer α}
    (h : HeadRewritten c.inTrait generics params result)
    (hdepth : 4 * (headLexemes parenthesized name generics params result).length < depth)
    (hsuffix : ¬IsTypeSuffix (headKind rest)) (harrow : headKind rest ≠ Symbol.arrow)
    (hnext : ∀ generics' params' result',
      generics'.map GenericDecl.unplaced = generics.map GenericDecl.unplaced →
      params'.map ParameterDecl.unplaced = params.map ParameterDecl.unplaced →
      result'.unplaced = result.unplaced →
      Parses c rest (f name generics' params' result') W us) :
    Parses c (headLexemes parenthesized name generics params result ++ rest) (do
      let name ← Parser.expectIdentifier
      let generics ← (Grammar.upTo depth).generics
      let params ← (Grammar.upTo depth).parameters
      let result ← (Grammar.upTo depth).resultType .build
      f name generics params result) W us := by
  have hresult : resultLexemes result =
      if !result.isVoid then .mark .arrow :: result.lexemes else [] := by
    cases hvoid : result.isVoid <;> simp [resultLexemes, hvoid]
  rw [headLexemes, hresult] at hdepth ⊢
  simp only [List.length_cons, List.length_append] at hdepth
  rw [List.append_assoc, List.cons_append, List.cons_append, List.append_assoc]
  refine Parses.expectIdentifier ?_
  refine (Parses.generics h.generics (by omega) ?_).bind fun g hg => ?_
  · exact (nofun : (Symbol.lParen : TokenKind) ≠ Symbol.lt)
  refine (Parses.parameters h.parameters h.last (by omega)).bind fun ps hps => ?_
  refine (Parses.resultType h.result (fun hvoid => by simpa using hvoid) (fun hvoid => ?_) hsuffix
    harrow).bind fun r hr => hnext g ps r hg hps hr
  rw [hvoid, if_pos rfl, List.length_cons] at hdepth
  omega

end HeadRewritten

end ScriptFront
