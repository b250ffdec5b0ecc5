import ScriptFront.Proofs.Rewriting.Decls

/-!
# Classes that are written anew

A member of a class is told by the tokens behind its access modifier. A function that names an
interface in front of its own name is told by a dot that comes before any parenthesis.

- `Parses.namesSourceType`: whether a dot comes first.
- `ClassFunctionDecl.rewritten`, `ConstructorDecl.rewritten`, `DestructorDecl.rewritten`: members.
- `ClassDecl.rewritten`: a class, whose members stand grouped by kind.
-/

namespace ScriptFront

open ScriptFront.Parser

variable {V : Vocabulary} {inTrait : Bool}

/-! ## Which function names an interface -/

namespace Parses

variable {α : Type} {c : Setting} {ts us rest : List Lexeme} {row : List Lexeme}
    {x : Parse Buffer α}
  {W : α → Prop}

/-- Wherever a look ahead leads, it leads back. -/
theorem lookAhead (h : Parses c ts x W us) : Parses c ts (Parser.lookAhead x) W ts := by
  refine save fun b hb => h.attempt.bind fun r hr => ?_
  obtain ⟨a, rfl, ha⟩ := hr
  exact (goBack hb).bind fun _ _ => pure ha

/-- A dot comes behind a row that holds none of what ends the name of a function. -/
theorem dotAhead_true (hrow : ∀ l ∈ row, l.kind ≠ Symbol.lParen ∧ l.kind ≠ Symbol.lBrace ∧
      l.kind ≠ Symbol.semicolon ∧ l.kind ≠ .eof) {steps : Nat} (hsteps : row.length < steps) :
    ∃ us, Parses c (row ++ .mark .dot :: rest) (Grammar.dotAhead steps) (fun b => b = true) us := by
  obtain ⟨steps, rfl⟩ : ∃ n, steps = n + 1 := ⟨steps - 1, by omega⟩
  induction row generalizing steps with
  | nil => exact ⟨_, kind (ifTrue rfl (pure rfl))⟩
  | cons l row ih =>
    obtain ⟨steps, rfl⟩ : ∃ n, steps = n + 1 :=
      ⟨steps - 1, by rw [List.length_cons] at hsteps; omega⟩
    rw [List.forall_mem_cons] at hrow
    by_cases hdot : l.kind = Symbol.dot
    · exact ⟨_, kind (ifTrue hdot (pure rfl))⟩
    · obtain ⟨us, hmore⟩ := ih hrow.2 steps (Nat.lt_of_succ_lt_succ hsteps)
      obtain ⟨hparen, hbrace, hsemicolon, heof⟩ := hrow.1
      refine ⟨us, kind (ifFalse hdot (ifFalse ?_ (drop hmore)))⟩
      simp [hparen, hbrace, hsemicolon, heof]

/-- A parenthesis comes behind a row that holds no dot. -/
theorem dotAhead_false (hrow : ∀ l ∈ row, l.kind ≠ Symbol.dot) {steps : Nat}
    (hsteps : row.length < steps) :
    ∃ us, Parses c (row ++ .mark .lParen :: rest) (Grammar.dotAhead steps) (fun b => b = false)
      us := by
  obtain ⟨steps, rfl⟩ : ∃ n, steps = n + 1 := ⟨steps - 1, by omega⟩
  have hne : (Symbol.lParen : TokenKind) ≠ Symbol.dot := (by rintro ⟨⟩)
  induction row generalizing steps with
  | nil => exact ⟨_, kind (ifFalse hne (ifTrue rfl (pure rfl)))⟩
  | cons l row ih =>
    obtain ⟨steps, rfl⟩ : ∃ n, steps = n + 1 :=
      ⟨steps - 1, by rw [List.length_cons] at hsteps; omega⟩
    rw [List.forall_mem_cons] at hrow
    obtain ⟨us, hmore⟩ := ih hrow.2 steps (Nat.lt_of_succ_lt_succ hsteps)
    rcases Decidable.em ((l.kind = Symbol.lParen || l.kind = Symbol.lBrace ||
      l.kind = Symbol.semicolon || l.kind = .eof : Bool) = true) with hends | hends
    · exact ⟨_, kind (ifFalse hrow.1 (ifTrue hends (pure rfl)))⟩
    · exact ⟨us, kind (ifFalse hrow.1 (ifFalse hends (drop hmore)))⟩

/-- Whether a function names an interface is told by what comes first, a dot or a parenthesis. -/
theorem sourceType {depth : Nat} {source : Option TypeExpr} {name : String}
    {generics : Option GenericDecl} {params : List ParameterDecl} {result : TypeExpr}
    (hsource : ∀ t ∈ source, t.Written c.inTrait)
    (hparens : ∀ t ∈ source, ∀ l ∈ t.lexemes, l.kind ≠ Symbol.lParen)
    (hdepth : (sourceLexemes source).length < depth) :
    Parses c (sourceLexemes source ++ (headLexemes parenthesized name generics params result ++
        rest))
      (Grammar.builtOptionally Grammar.namesSourceType (Grammar.upTo depth).sourceType)
      (fun o => o.map TypeExpr.unplaced = source.map TypeExpr.unplaced)
      (headLexemes parenthesized name generics params result ++ rest) := by
  cases source with
  | none =>
    have hrow : ∀ l ∈ Lexeme.name name :: genericLexemes generics, l.kind ≠ Symbol.dot :=
      List.forall_mem_cons.2 ⟨(by rintro ⟨⟩), ne_dot_genericLexemes generics⟩
    obtain ⟨us, hhead⟩ : ∃ us, headLexemes parenthesized name generics params result ++ rest =
        (.name name :: genericLexemes generics) ++ .mark .lParen :: us := by
      simp [headLexemes, parameterLexemes, inParens]
    have htest : Parses c (headLexemes parenthesized name generics params result ++ rest)
        Grammar.namesSourceType (fun b => b = false)
        (headLexemes parenthesized name generics params result ++ rest) := by
      refine listBound fun n hn => ?_
      rw [hhead] at hn ⊢
      rw [List.length_append] at hn
      have hsteps : (Lexeme.name name :: genericLexemes generics).length < n := by omega
      exact lookAhead (dotAhead_false hrow hsteps).choose_spec
    exact (builtAbsent htest).mono fun o ho => congrArg _ ho
  | some t =>
    have ht : t.Written c.inTrait := hsource t rfl
    rw [sourceLexemes, List.length_append] at hdepth
    rw [sourceLexemes, List.append_assoc, List.singleton_append]
    have hrow (l : Lexeme) (hl : l ∈ t.lexemes) : l.kind ≠ Symbol.lParen ∧
        l.kind ≠ Symbol.lBrace ∧ l.kind ≠ Symbol.semicolon ∧ l.kind ≠ .eof := by
      have htoken := t.isTypeToken l hl
      refine ⟨hparens t rfl l hl, ?_, ?_, ?_⟩ <;>
      · intro hk
        rw [hk] at htoken
        exact absurd htoken (by rintro ⟨⟩)
    have htest (us : List Lexeme) : Parses c (t.lexemes ++ .mark .dot :: us)
        Grammar.namesSourceType (fun b => b = true) (t.lexemes ++ .mark .dot :: us) := by
      refine listBound fun n hn => ?_
      have hsteps : t.lexemes.length < n := by
        rw [List.length_append] at hn
        omega
      exact lookAhead (dotAhead_true hrow hsteps).choose_spec
    have hpart (us : List Lexeme) : Parses c (t.lexemes ++ .mark .dot :: us)
        (Grammar.upTo depth).sourceType (Copies TypeExpr.unplaced t) us :=
      (ht.parses (by omega) (not_isTypeSuffix_cons (by decide) _)).bind fun t' ht' =>
        mark rfl (pure ht')
    refine (builtPresent (htest _) (hpart _)).mono ?_
    rintro _ ⟨t', rfl, ht'⟩
    exact congrArg some ht'

end Parses

/-! ## Functions of classes -/

namespace Parses

variable {c : Setting} {rest : List Lexeme}

/-- At most one modifier stands behind the head of a function. -/
theorem closingModifiers {overrides final isAbstract : Bool} {name : String}
    (hclosing : ¬(overrides ∧ final)) (habstract : isAbstract → overrides = false ∧ final = false)
    (hrest : headKind rest ≠ Keyword.overrideKw ∧ headKind rest ≠ Keyword.finalKw) :
    Parses c (flag .overrideKw overrides ++ (flag .finalKw final ++ rest))
      (Grammar.closingModifiers isAbstract name) (fun out => out = (overrides, final)) rest := by
  have hplain : overrides ∨ final → isAbstract = false := by
    cases isAbstract <;> simp_all
  cases overrides with
  | true =>
    cases final with
    | true => exact absurd ⟨rfl, rfl⟩ hclosing
    | false =>
      obtain rfl := hplain (.inl rfl)
      exact kind (ifTrue rfl (drop (pure rfl)))
  | false =>
    cases final with
    | true =>
      obtain rfl := hplain (.inr rfl)
      exact kind (ifTrue rfl (drop (pure rfl)))
    | false =>
      refine kind (ifFalse ?_ (pure ?_))
      · simp [flag, hrest.1, hrest.2]
      · simp [flag, hrest.1, hrest.2]

/-- An access modifier. -/
theorem accessModifier (access : Access) :
    Parses c (access.lexeme :: rest) Grammar.accessModifier (fun m => m = some access) rest := by
  cases access <;> exact kind (drop (pure rfl))

end Parses

/-- What ends a function is no modifier. -/
theorem ne_modifier_body (body : Option Block) (rest : List Lexeme) :
    headKind (bodyLexemes parenthesized body ++ rest) ≠ Keyword.overrideKw ∧
      headKind (bodyLexemes parenthesized body ++ rest) ≠ Keyword.finalKw := by
  cases body with
  | none => exact ⟨by rintro ⟨⟩, by rintro ⟨⟩⟩
  | some b =>
    rw [bodyLexemes, b.headKind_append]
    exact ⟨by rintro ⟨⟩, by rintro ⟨⟩⟩

/-- No type goes on with what stands behind the head of a function of a class. -/
theorem not_isTypeSuffix_closing (overrides final : Bool) (body : Option Block)
    (rest : List Lexeme) :
    ¬IsTypeSuffix (headKind (flag .overrideKw overrides ++ (flag .finalKw final ++
        (bodyLexemes parenthesized body ++ rest)))) ∧
      headKind (flag .overrideKw overrides ++ (flag .finalKw final ++
        (bodyLexemes parenthesized body ++ rest))) ≠ Symbol.arrow := by
  cases overrides with
  | true => exact ⟨not_isTypeSuffix_cons (by decide) _, nofun⟩
  | false =>
    cases final with
    | true => exact ⟨not_isTypeSuffix_cons (by decide) _, nofun⟩
    | false => exact not_isTypeSuffix_body body rest

theorem Legible.source {source : Option TypeExpr} (h : ∀ t ∈ source, t.Written inTrait) :
    Legible (sourceLexemes source) := by
  cases source with
  | none => exact .nil
  | some t => simpa [sourceLexemes] using (h t rfl).legible

@[simp] theorem Access.wellFormed_lexeme (access : Access) : access.lexeme.WellFormed := by
  cases access <;> exact .word _

/-- What stands behind the modifiers in front of a function of a class. -/
def ClassFunctionDecl.unmodified (f : ClassFunctionDecl) : List Lexeme :=
  .word .fnKw :: (sourceLexemes f.sourceType ++
    (headLexemes parenthesized f.name f.generics f.params f.result ++
      (flag .overrideKw f.isOverride ++
      (flag .finalKw f.isFinal ++ bodyLexemes parenthesized f.body))))

theorem ClassFunctionDecl.lexemes_eq (f : ClassFunctionDecl) :
    f.lexemes parenthesized = f.access.lexeme :: (flag .staticKw f.isStatic ++
      (flag .abstractKw f.isAbstract ++ (flag .virtualKw f.isVirtual ++ f.unmodified))) := by
  simp [ClassFunctionDecl.lexemes, ClassFunctionDecl.unmodified]

/-- Behind its modifiers, the source of a function and its head are read, then what ends it. -/
theorem ClassFunctionDecl.parses_unmodified {c : Setting} {depth : Nat} {rest : List Lexeme}
    {f : ClassFunctionDecl} (hwell : f.WellFormed)
    (hsource : ∀ t ∈ f.sourceType, t.Written c.inTrait)
    (hparens : ∀ t ∈ f.sourceType, ∀ l ∈ t.lexemes, l.kind ≠ Symbol.lParen)
    (hhead : HeadRewritten c.inTrait f.generics f.params f.result)
    (hbody : ∀ b ∈ f.body, (Node.block b).Rewritten c.inTrait)
    (hdepth : 4 * f.unmodified.length < depth) (pos : Position) :
    Parses c (f.unmodified ++ rest)
      ((Grammar.upTo depth).classFunctionBehind pos f.access f.isStatic
      f.isAbstract f.isVirtual) (Copies ClassFunctionDecl.unplaced f) rest := by
  obtain ⟨hsuffix, harrow⟩ := not_isTypeSuffix_closing f.isOverride f.isFinal f.body rest
  simp only [ClassFunctionDecl.unmodified, List.length_append, List.length_cons] at hdepth
  simp only [ClassFunctionDecl.unmodified, List.append_assoc, List.cons_append]
  refine Parses.mark rfl ?_
  refine (Parses.sourceType hsource hparens (by omega)).bind fun s hs => ?_
  refine hhead.parses (by omega) hsuffix harrow fun g ps r hg hps hr => ?_
  refine (Parses.closingModifiers hwell.closing (fun h => (hwell.abstract h).2.2)
    (ne_modifier_body f.body rest)).bind fun out hout => ?_
  subst hout
  have hcopy (o : Option Block) (ho : o.map Block.unplaced = f.body.map Block.unplaced) :
      Copies ClassFunctionDecl.unplaced f ⟨pos, f.access, f.isStatic, f.isAbstract, f.isVirtual,
        f.isOverride, f.isFinal, s, f.name, g, ps, r, o⟩ := by
    simp only [Copies, ClassFunctionDecl.unplaced, hs, hg, hps, hr, ho]
  cases hb : f.body with
  | none =>
    have habstract : f.isAbstract = true := hwell.body.1 hb
    have htest : Parses c (bodyLexemes parenthesized none ++ rest)
        (Pure.pure !f.isAbstract : Parse Buffer Bool) (fun b => b = false)
        (bodyLexemes parenthesized none ++ rest) := .pure (by rw [habstract]; rfl)
    refine (Parses.builtAbsent htest).bind fun o ho => ?_
    exact Parses.ifTrue habstract (Parses.mark rfl (.pure (hcopy o (by rw [hb, ho]; rfl))))
  | some b =>
    have hplain : f.isAbstract = false := by
      cases habstract : f.isAbstract with
      | false => rfl
      | true => exact absurd (hwell.body.2 habstract) (by simp [hb])
    have hbodyRead : (Node.block b).Rewritten c.inTrait := hbody b hb
    rw [hb, bodyLexemes] at hdepth
    have htest : Parses c (bodyLexemes parenthesized (some b) ++ rest)
        (Pure.pure !f.isAbstract : Parse Buffer Bool) (fun b => b = true)
        (bodyLexemes parenthesized (some b) ++ rest) := .pure (by rw [hplain]; rfl)
    refine (Parses.builtPresent htest (hbodyRead.read c rfl depth (by omega) rest trivial)).bind
      fun o ho => Parses.ifFalse (by simp [hplain]) (.pure (hcopy o ?_))
    obtain ⟨b', rfl, hb'⟩ := ho
    rw [hb]
    exact congrArg some hb'

/-- A function of a class whose parts are read back is read back. -/
theorem ClassFunctionDecl.rewritten (hV : V.Writable) {f : ClassFunctionDecl}
    (here : (Node.classFunction f).Writable V inTrait)
    (parts : ∀ m ∈ (Node.classFunction f).parts, m.Rewritten inTrait) :
    (Node.classFunction f).Rewritten inTrait := by
  have hwell : f.WellFormed := here.wellFormed hV.firm
  have hname : IsName f.name := hV.name here.spelled.1
  have hparens : ∀ t ∈ f.sourceType, ∀ l ∈ t.lexemes, l.kind ≠ Symbol.lParen := fun t ht =>
    hV.source (here.spelled.2 t ht)
  have hsource : ∀ t ∈ f.sourceType, t.Written inTrait := fun t ht =>
    parts (.type t) (by simp_all [Node.parts])
  have hhead : HeadRewritten inTrait f.generics f.params f.result :=
    .of_nodes (fun m hm => parts m (by simp [Node.parts, hm])) hwell.params
  have hbody : ∀ b ∈ f.body, (Node.block b).Rewritten inTrait := fun b hb =>
    parts (.block b) (by simp_all [Node.parts])
  refine ⟨?_, ?_⟩
  · simpa [ClassFunctionDecl.lexemes] using ⟨.flag _ _, .flag _ _, .flag _ _, .source hsource,
      hhead.legible hname, .flag _ _, .flag _ _, .body hbody⟩
  rintro c rfl depth hdepth rest -
  rw [f.lexemes_eq] at hdepth ⊢
  simp only [List.length_append, List.length_cons] at hdepth
  simp only [List.append_assoc, List.cons_append]
  have hfn (us : List Lexeme) : headKind (f.unmodified ++ us) = Keyword.fnKw := rfl
  have hfunction : Parses c (flag .abstractKw f.isAbstract ++ (flag .virtualKw f.isVirtual ++
      (f.unmodified ++ rest))) ((Grammar.upTo depth).classFunction f.access f.isStatic)
      (Copies ClassFunctionDecl.unplaced f) rest := by
    refine Parses.position fun pos' => Parses.eatFlag (fun _ => ?_) ?_
    · cases f.isVirtual <;> rintro ⟨⟩
    have hread : Parses c (f.unmodified ++ rest) ((Grammar.upTo depth).classFunctionBehind pos'
        f.access f.isStatic f.isAbstract f.isVirtual) (Copies ClassFunctionDecl.unplaced f) rest :=
      ClassFunctionDecl.parses_unmodified hwell hsource hparens hhead hbody (by omega) pos'
    cases habstract : f.isAbstract with
    | true =>
      rw [(hwell.abstract habstract).2.1] at hread ⊢
      rwa [habstract] at hread
    | false =>
      rw [habstract] at hread
      exact Parses.eatFlag (fun _ => (by rintro ⟨⟩)) hread
  have hmember : Parses c (flag .abstractKw f.isAbstract ++ (flag .virtualKw f.isVirtual ++
      (f.unmodified ++ rest))) ((Grammar.upTo depth).classFunction f.access f.isStatic >>= fun f =>
        Pure.pure (Grammar.ClassMember.function f))
      (Copies Grammar.ClassMember.unplaced (.function f)) rest :=
    hfunction.bind fun f hf => .pure (congrArg Grammar.ClassMember.function hf)
  refine (Parses.accessModifier f.access).bind fun m hm => ?_
  subst hm
  refine Parses.eatFlag (fun _ => ?_) (Parses.kind ?_)
  · cases f.isAbstract <;> cases f.isVirtual <;> rintro ⟨⟩
  cases habstract : f.isAbstract with
  | true =>
    rw [habstract] at hmember
    rw [(hwell.abstract habstract).1] at hmember ⊢
    exact hmember
  | false =>
    rw [habstract] at hmember
    cases hvirtual : f.isVirtual with
    | true =>
      rw [hvirtual] at hmember
      rw [hwell.virtual hvirtual] at hmember ⊢
      exact hmember
    | false =>
      rw [hvirtual] at hmember
      exact hmember

/-! ## Constructors and destructors -/

theorem FieldInit.begins (i : FieldInit) :
    Begins (i.lexemes parenthesized) fun k => k = .identifier := ⟨_, _, rfl, rfl⟩

/-- The value of a field is read back. -/
theorem FieldInit.rewritten (hV : V.Writable) {i : FieldInit}
    (here : (Node.fieldInit i).Writable V inTrait)
    (parts : ∀ m ∈ (Node.fieldInit i).parts, m.Rewritten inTrait) :
    (Node.fieldInit i).Rewritten inTrait := by
  obtain ⟨pos, name, value⟩ := i
  have hname : Lexeme.WellFormed (.name name) := .name (hV.name here.spelled)
  have hvalue : value.Rewritten inTrait := parts (.expr value) (by simp [Node.parts])
  refine ⟨by simpa [FieldInit.lexemes] using ⟨hname, hvalue.legible⟩, ?_⟩
  rintro c rfl depth hdepth rest -
  simp only [FieldInit.lexemes, inParens, List.length_cons, List.length_append] at hdepth
  dsimp only [FieldInit.lexemes]
  rw [List.cons_append, inParens_append]
  refine Parses.position fun pos' => Parses.expectIdentifier (Parses.mark rfl ?_)
  refine (hvalue.parses (by omega) (.of_none rfl _)).bind fun e he => Parses.mark rfl (.pure ?_)
  exact congrArg (FieldInit.mk .start name) he

section Constructors

variable {c : Setting} {depth : Nat} {rest : List Lexeme}

theorem initLexemes_none (i : FieldInit) (inits : List FieldInit) :
    initLexemes parenthesized none (i :: inits) = .mark .colon :: (i.lexemes parenthesized ++
      inits.flatMap fun i => .mark .comma :: i.lexemes parenthesized) := by
  simp only [initLexemes, Option.toList_none, List.map_nil, List.nil_append, List.map_cons,
    List.isEmpty_cons, Bool.false_eq_true, if_false]
  rw [← List.map_cons, commas_map_cons]

theorem initLexemes_some (args : List Expr) (inits : List FieldInit) :
    initLexemes parenthesized (some args) inits = .mark .colon ::
      (superLexemes parenthesized args ++
      inits.flatMap fun i => .mark .comma :: i.lexemes parenthesized) := by
  have hrows := commas_map_cons id (superLexemes parenthesized args)
    (inits.map (FieldInit.lexemes parenthesized))
  rw [List.map_id, List.flatMap_map] at hrows
  simp only [initLexemes, Option.toList_some, List.map_cons, List.map_nil, List.singleton_append,
    List.isEmpty_cons, Bool.false_eq_true, if_false]
  rw [hrows]
  rfl

/-- Further fields in front of the body of a constructor. -/
theorem Parses.fieldInits {inits : List FieldInit}
    (hinits : ∀ i ∈ inits, (Node.fieldInit i).Rewritten c.inTrait)
    (hdepth : 4 * (inits.flatMap fun i => .mark .comma :: i.lexemes parenthesized).length < depth)
    (hrest : headKind rest = Symbol.lBrace) :
    Parses c ((inits.flatMap fun i => .mark .comma :: i.lexemes parenthesized) ++ rest)
      (Grammar.builtWhile (Parser.eat Symbol.comma) (Grammar.upTo depth).fieldInit)
      (fun out => out.map FieldInit.unplaced = inits.map FieldInit.unplaced) rest := by
  refine builtBehindMarks (fun _ => True) (fun _ => trivial) (fun i hi us _ => ?_) trivial ?_
  · have hlength := length_le_flatMap
      (f := fun i : FieldInit => Lexeme.mark .comma :: i.lexemes parenthesized) hi
    rw [List.length_cons] at hlength
    exact (hinits i hi).read c rfl depth (by omega) us trivial
  · rw [hrest]
    exact nofun

/-- What is said of the values of a base class and of fields. -/
def CopiesInits (superArgs : Option (List Expr)) (inits : List FieldInit)
    (out : Option (List Expr) × List FieldInit) : Prop :=
  out.1.map (List.map Expr.unplaced) = superArgs.map (List.map Expr.unplaced) ∧
    out.2.map FieldInit.unplaced = inits.map FieldInit.unplaced

/-- Behind a colon, the arguments for the base class and the values of fields are read back. -/
theorem Parses.constructorInits {superArgs : Option (List Expr)} {inits : List FieldInit}
    (hcommas : ∀ args ∈ superArgs, ∀ a ∈ args, a.isComma = false)
    (hargs : ∀ args ∈ superArgs, ∀ a ∈ args, a.Rewritten c.inTrait)
    (hinits : ∀ i ∈ inits, (Node.fieldInit i).Rewritten c.inTrait)
    (hdepth : 4 * (initLexemes parenthesized superArgs inits).length < depth)
    (hrest : headKind rest = Symbol.lBrace) (hsome : superArgs = none → inits ≠ []) :
    ∃ row, initLexemes parenthesized superArgs inits = .mark .colon :: row ∧
      Parses c (row ++ rest) (Grammar.upTo depth).constructorInits (CopiesInits superArgs inits)
        rest := by
  cases superArgs with
  | none =>
    obtain ⟨i, inits, rfl⟩ := List.exists_cons_of_ne_nil (hsome rfl)
    rw [List.forall_mem_cons] at hinits
    rw [initLexemes_none] at hdepth ⊢
    simp only [List.length_cons, List.length_append] at hdepth
    refine ⟨_, rfl, ?_⟩
    rw [List.append_assoc]
    have hopen : headKind (i.lexemes parenthesized ++
        ((inits.flatMap fun i => .mark .comma :: i.lexemes parenthesized) ++ rest)) ≠
        Keyword.superKw := by
      rw [i.begins.headKind]
      exact nofun
    refine eatNot hopen ((hinits.1.read c rfl depth (by omega) _ trivial).bind fun i' hi' => ?_)
    refine (Parses.fieldInits hinits.2 (by omega) hrest).bind fun out hout => .pure ⟨rfl, ?_⟩
    have hi' : i'.unplaced = i.unplaced := hi'
    show i'.unplaced :: out.map FieldInit.unplaced = _
    rw [hi', hout, List.map_cons]
  | some args =>
    rw [initLexemes_some] at hdepth ⊢
    simp only [superLexemes, inParens, List.length_cons, List.length_append] at hdepth
    refine ⟨_, rfl, ?_⟩
    rw [List.append_assoc, superLexemes, List.cons_append, inParens_append]
    refine eat rfl (mark rfl ?_)
    refine ((Expr.Rewritten.args (hcommas args rfl) (hargs args rfl) (by omega)) _).bind
      fun (es : List Expr) hes => ?_
    refine (Parses.fieldInits hinits (by omega) hrest).bind fun out hout => .pure ⟨?_, hout⟩
    exact congrArg some hes

theorem Legible.inits {superArgs : Option (List Expr)} {inits : List FieldInit}
    (hargs : ∀ args ∈ superArgs, ∀ a ∈ args, a.Rewritten inTrait)
    (hinits : ∀ i ∈ inits, (Node.fieldInit i).Rewritten inTrait) :
    Legible (initLexemes parenthesized superArgs inits) := by
  have hfields : ∀ i ∈ inits, Legible (i.lexemes parenthesized) := fun i hi =>
    (hinits i hi).legible
  cases superArgs with
  | none =>
    cases inits with
    | nil => exact .nil
    | cons i inits => simpa [initLexemes_none] using hfields
  | some args =>
    simpa [initLexemes_some, superLexemes] using
      ⟨fun a ha => (hargs args rfl a ha).legible, hfields⟩

end Constructors

/-- A constructor whose parts are read back is read back. -/
theorem ConstructorDecl.rewritten (hV : V.Writable) {d : ConstructorDecl}
    (here : (Node.constructor d).Writable V inTrait)
    (parts : ∀ m ∈ (Node.constructor d).parts, m.Rewritten inTrait) :
    (Node.constructor d).Rewritten inTrait := by
  have hlast : ParameterDecl.VariadicLast d.params := here.wellFormed hV.firm
  have hcommas : ∀ args ∈ d.superArgs, ∀ a ∈ args, a.isComma = false := here.spelled
  have hparams : ∀ p ∈ d.params, (Node.parameter p).Rewritten inTrait := fun p hp =>
    parts (.parameter p) (by simp [Node.parts, hp])
  have hargs : ∀ args ∈ d.superArgs, ∀ a ∈ args, a.Rewritten inTrait := fun args hargs a ha =>
    parts (.expr a) (by simp_all [Node.parts])
  have hinits : ∀ i ∈ d.inits, (Node.fieldInit i).Rewritten inTrait := fun i hi =>
    parts (.fieldInit i) (by simp [Node.parts, hi])
  have hbody : (Node.block d.body).Rewritten inTrait := parts (.block d.body) (by simp [Node.parts])
  refine ⟨?_, ?_⟩
  · simpa [ConstructorDecl.lexemes, parameterLexemes] using
      ⟨fun p hp => (hparams p hp).legible, .inits hargs hinits, hbody.legible⟩
  rintro c rfl depth hdepth rest -
  have hrow : d.lexemes parenthesized ++ rest = d.access.lexeme :: .word .constructorKw ::
      (parameterLexemes parenthesized d.params ++ (initLexemes parenthesized d.superArgs d.inits ++
        (d.body.lexemes parenthesized ++ rest))) := by
    simp [ConstructorDecl.lexemes]
  simp only [ConstructorDecl.lexemes, List.length_cons, List.length_append] at hdepth
  rw [hrow]
  have hbrace := d.body.headKind_append parenthesized rest
  have hfinish (pos : Position) {params : List ParameterDecl}
      (hps : params.map ParameterDecl.unplaced = d.params.map ParameterDecl.unplaced)
      (out : Option (List Expr) × List FieldInit) (hout : CopiesInits d.superArgs d.inits out) :
      Parses c (d.body.lexemes parenthesized ++ rest)
        (Grammar.block (Grammar.upTo depth) .build >>= fun body =>
          Pure.pure (⟨pos, d.access, params, out.1, out.2, body⟩ : ConstructorDecl))
        (Copies ConstructorDecl.unplaced d) rest := by
    refine (hbody.read c rfl depth (by omega) rest trivial).bind fun (b : Block) hb => .pure ?_
    have hb : b.unplaced = d.body.unplaced := hb
    have hall : Expr.unplacedAll = List.map Expr.unplaced := funext Expr.unplacedAll_eq_map
    simp only [Copies, ConstructorDecl.unplaced, hall, hps, hout.1, hout.2, hb]
  have hread : Parses c (.word .constructorKw :: (parameterLexemes parenthesized d.params ++
      (initLexemes parenthesized d.superArgs d.inits ++ (d.body.lexemes parenthesized ++ rest))))
      ((Grammar.upTo depth).constructorDecl d.access) (Copies ConstructorDecl.unplaced d) rest := by
    refine Parses.position fun pos' => Parses.mark rfl ?_
    refine (Parses.parameters hparams hlast (by omega)).bind fun ps hps => ?_
    by_cases hnone : d.superArgs = none ∧ d.inits = []
    · rw [hnone.1, hnone.2]
      refine Parses.eatNot ?_ ?_
      · show headKind (d.body.lexemes parenthesized ++ rest) ≠ _
        rw [hbrace]
        rintro ⟨⟩
      · exact hfinish pos' hps (none, []) ⟨by rw [hnone.1], by rw [hnone.2]⟩
    · obtain ⟨row, hinit, hread⟩ : ∃ row,
          initLexemes parenthesized d.superArgs d.inits = .mark .colon :: row ∧
          Parses c (row ++ (d.body.lexemes parenthesized ++ rest))
            (Grammar.upTo depth).constructorInits (CopiesInits d.superArgs d.inits)
            (d.body.lexemes parenthesized ++ rest) :=
        Parses.constructorInits hcommas hargs hinits (by omega) hbrace fun h hnil =>
          hnone ⟨h, hnil⟩
      rw [hinit, List.cons_append]
      exact Parses.eat rfl (hread.bind fun out hout => hfinish pos' hps out hout)
  refine (Parses.accessModifier d.access).bind fun m hm => ?_
  subst hm
  refine Parses.eatNot (by rintro ⟨⟩) (Parses.kind ?_)
  exact hread.bind fun d' hd' => .pure (congrArg Grammar.ClassMember.constructor hd')

/-- A destructor whose body is read back is read back. -/
theorem DestructorDecl.rewritten {d : DestructorDecl}
    (parts : ∀ m ∈ (Node.destructor d).parts, m.Rewritten inTrait) :
    (Node.destructor d).Rewritten inTrait := by
  obtain ⟨pos, body⟩ := d
  have hbody : (Node.block body).Rewritten inTrait := parts (.block body) (by simp [Node.parts])
  refine ⟨by simpa [DestructorDecl.lexemes] using hbody.legible, ?_⟩
  rintro c rfl depth hdepth rest -
  simp only [DestructorDecl.lexemes, inParens, List.length_cons, List.length_append] at hdepth
  have hrow : DestructorDecl.lexemes parenthesized ⟨pos, body⟩ ++ rest = .word .destructorKw ::
      .mark .lParen :: .mark .rParen :: (body.lexemes parenthesized ++ rest) := by
    simp [DestructorDecl.lexemes, inParens]
  rw [hrow]
  have hread : Parses c (.word .destructorKw :: .mark .lParen :: .mark .rParen ::
      (body.lexemes parenthesized ++ rest)) (Grammar.upTo depth).destructorDecl
      (Copies DestructorDecl.unplaced ⟨pos, body⟩) rest := by
    refine Parses.position fun pos' => Parses.mark rfl (Parses.mark rfl (Parses.mark rfl ?_))
    refine (hbody.read c rfl depth (by omega) rest trivial).bind fun b hb => .pure ?_
    exact congrArg (DestructorDecl.mk .start) hb
  have hmodifier : Parses c (.word .destructorKw :: .mark .lParen :: .mark .rParen ::
      (body.lexemes parenthesized ++ rest)) Grammar.accessModifier (fun m => m = none)
      (.word .destructorKw :: .mark .lParen :: .mark .rParen ::
        (body.lexemes parenthesized ++ rest)) := Parses.kind (.pure rfl)
  refine hmodifier.bind fun m hm => ?_
  subst hm
  refine Parses.eatNot (by rintro ⟨⟩) (Parses.kind ?_)
  exact hread.bind fun d hd => .pure (congrArg Grammar.ClassMember.destructor hd)

/-! ## Classes -/

/-- A member of a class, in front of which its access stands. -/
def memberLexemes : Grammar.ClassMember → List Lexeme
  | .function decl => decl.lexemes parenthesized
  | .variable decl => decl.lexemes parenthesized
  | .constructor decl => decl.lexemes parenthesized
  | .destructor decl => decl.lexemes parenthesized

/-- The members of a class, grouped by kind. -/
def ClassDecl.members (d : ClassDecl) : List Grammar.ClassMember :=
  d.functions.map .function ++ d.fields.map .variable ++ d.constructors.map .constructor ++
    d.destructors.map .destructor

theorem ClassDecl.row_members (d : ClassDecl) : d.members.flatMap memberLexemes =
    d.functions.flatMap (ClassFunctionDecl.lexemes parenthesized) ++
      d.fields.flatMap (ClassVariableDecl.lexemes parenthesized) ++
      d.constructors.flatMap (ConstructorDecl.lexemes parenthesized) ++
      d.destructors.flatMap (DestructorDecl.lexemes parenthesized) := by
  simp only [ClassDecl.members, List.flatMap_append, List.flatMap_map]
  rfl

/-- The members of each kind are told apart again. -/
theorem ClassDecl.picked_members (d : ClassDecl) :
    d.members.filterMap Grammar.ClassMember.asFunction? = d.functions ∧
      d.members.filterMap Grammar.ClassMember.asVariable? = d.fields ∧
      d.members.filterMap Grammar.ClassMember.asConstructor? = d.constructors ∧
      d.members.filterMap Grammar.ClassMember.asDestructor? = d.destructors := by
  refine ⟨?_, ?_, ?_, ?_⟩ <;>
    simp [ClassDecl.members, List.filterMap_map, Function.comp_def, Grammar.ClassMember.asFunction?,
      Grammar.ClassMember.asVariable?, Grammar.ClassMember.asConstructor?,
      Grammar.ClassMember.asDestructor?]

theorem begins_memberLexemes (m : Grammar.ClassMember) :
    Begins (memberLexemes m) fun k => k ≠ Symbol.rBrace := by
  cases m with
  | destructor d => exact ⟨_, _, rfl, nofun⟩
  | function d =>
    refine ⟨d.access.lexeme, _, d.lexemes_eq, ?_⟩
    cases d.access <;> nofun
  | «variable» d =>
    refine ⟨d.access.lexeme, _, rfl, ?_⟩
    cases d.access <;> nofun
  | constructor d =>
    refine ⟨d.access.lexeme, _, rfl, ?_⟩
    cases d.access <;> nofun

/-- A variable of a class is read back as a member. -/
theorem ClassVariableDecl.rereads {v : ClassVariableDecl}
    (h : (Node.variable v.decl).Rewritten inTrait) (hexported : v.decl.exported = false)
    (hnamed : v.decl.binding.IsNamed) :
    Rereads inTrait (v.lexemes parenthesized) (·.classMember)
      (Copies Grammar.ClassMember.unplaced (.variable v)) fun _ => True := by
  have hvariable := h false fun _ => hnamed
  rw [hexported] at hvariable
  refine ⟨by simpa [ClassVariableDecl.lexemes] using ⟨.flag _ _, hvariable.legible⟩, ?_⟩
  rintro c rfl depth hdepth rest -
  simp only [ClassVariableDecl.lexemes, List.length_cons, List.length_append] at hdepth
  rw [ClassVariableDecl.lexemes, List.append_assoc, List.cons_append]
  have hread : Parses c (v.decl.lexemes parenthesized ++ rest)
      (Grammar.variableDecl (Grammar.upTo depth) .build false false >>= fun decl =>
        Pure.pure (Grammar.ClassMember.variable ⟨v.access, v.isStatic, decl⟩))
      (Copies Grammar.ClassMember.unplaced (.variable v)) rest :=
    (hvariable.read c rfl depth (by omega) rest trivial).bind fun decl hdecl => .pure
      (congrArg (fun d => Grammar.ClassMember.variable ⟨v.access, v.isStatic, d⟩) hdecl)
  refine (Parses.accessModifier v.access).bind fun m hm => ?_
  subst hm
  have hbegins := v.decl.begins.headKind rest
  refine Parses.eatFlag (fun _ => ?_) (Parses.kind ?_)
  · rcases hbegins with hk | hk <;> rw [hk] <;> nofun
  · rcases hbegins with hk | hk <;> rw [hk] <;> exact hread

/-- Named types behind a keyword. -/
theorem Parses.namedType {c : Setting} {depth : Nat} {t : TypeExpr} {rest : List Lexeme}
    {fault : SyntaxFault} (ht : t.Written c.inTrait) (hnamed : t.isNamed)
    (hdepth : t.lexemes.length < depth) (hrest : ¬IsTypeSuffix (headKind rest)) :
    Parses c (t.lexemes ++ rest) ((Grammar.upTo depth).namedType fault)
      (Copies TypeExpr.unplaced t) rest := by
  refine save fun b _ => (ht.parses hdepth hrest).bind fun (t' : TypeExpr) ht' =>
    ifTrue ?_ (pure ht')
  have ht' : t'.unplaced = t.unplaced := ht'
  rw [← TypeExpr.unplaced_isNamed, ht', TypeExpr.unplaced_isNamed, hnamed]

/-- The base of a class, if it has one. -/
theorem Parses.base {c : Setting} {depth : Nat} {base : Option TypeExpr} {rest : List Lexeme}
    {fault : SyntaxFault} (h : ∀ t ∈ base, t.Written c.inTrait) (hnamed : ∀ t ∈ base, t.isNamed)
    (hdepth : (namedLexemes .extendsKw base.toList).length < depth)
    (hrest : headKind rest = Keyword.implementsKw ∨ headKind rest = Symbol.lBrace) :
    Parses c (namedLexemes .extendsKw base.toList ++ rest)
      (Grammar.builtOptionally (Parser.eat Keyword.extendsKw)
        ((Grammar.upTo depth).namedType fault))
      (fun o => o.map TypeExpr.unplaced = base.map TypeExpr.unplaced) rest := by
  cases base with
  | none =>
    have hextends : headKind rest ≠ Keyword.extendsKw := by
      rcases hrest with hk | hk <;> rw [hk] <;> nofun
    exact (builtAbsent (notEaten hextends)).mono fun o ho => congrArg _ ho
  | some t =>
    have hrow : namedLexemes .extendsKw (some t).toList = .word .extendsKw :: t.lexemes := rfl
    rw [hrow, List.length_cons] at hdepth
    have hsuffix : ¬IsTypeSuffix (headKind rest) := by
      rcases hrest with hk | hk <;> rw [hk] <;> decide
    rw [hrow]
    refine (builtPresent (takeChecked rfl)
      (namedType (h t rfl) (hnamed t rfl) (by omega) hsuffix)).mono ?_
    rintro _ ⟨t', rfl, ht'⟩
    exact congrArg some ht'

/-- The interfaces of a class in front of the brace. -/
theorem Parses.interfaces {c : Setting} {depth : Nat} {name : String} {types : List TypeExpr}
    {rest : List Lexeme} (h : ∀ t ∈ types, t.Written c.inTrait) (hnamed : ∀ t ∈ types, t.isNamed)
    (hdepth : (namedLexemes .implementsKw types).length < depth) :
    Parses c (namedLexemes .implementsKw types ++ .mark .lBrace :: rest)
      ((Grammar.upTo depth).interfaces name)
      (fun out => out.map TypeExpr.unplaced = types.map TypeExpr.unplaced)
      (.mark .lBrace :: rest) := by
  cases types with
  | nil => exact eatNot nofun (pure rfl)
  | cons t types =>
    have hrow : namedLexemes .implementsKw (t :: types) = .word .implementsKw :: (t.lexemes ++
        types.flatMap fun t => .mark .comma :: t.lexemes) := by
      rw [namedLexemes, List.isEmpty_cons, if_neg Bool.false_ne_true, TypeExpr.rows_eq_map,
        commas_map_cons]
    rw [List.forall_mem_cons] at h hnamed
    rw [hrow, List.length_cons, List.length_append] at hdepth
    rw [hrow, List.cons_append, List.append_assoc]
    have hcomma (us : List Lexeme) : ¬IsTypeSuffix (headKind (Lexeme.mark .comma :: us)) :=
      not_isTypeSuffix_cons (by decide) us
    have hbrace : ¬IsTypeSuffix (headKind (Lexeme.mark .lBrace :: rest)) :=
      not_isTypeSuffix_cons (by decide) rest
    have hmore (s : TypeExpr) (hs : s ∈ types) (us : List Lexeme)
        (hus : ¬IsTypeSuffix (headKind us)) : Parses c (s.lexemes ++ us)
        ((Grammar.upTo depth).namedType (.notAnInterface name))
          (Copies TypeExpr.unplaced s) us := by
      have hlength := length_le_flatMap (f := fun t => Lexeme.mark .comma :: t.lexemes) hs
      rw [List.length_cons] at hlength
      exact namedType (h.2 s hs) (hnamed.2 s hs) (by omega) hus
    refine eat rfl ((namedType h.1 hnamed.1 (by omega)
      (ends_behindMarks (fun us => ¬IsTypeSuffix (headKind us)) hcomma hbrace)).bind
        fun t' ht' => ?_)
    refine (builtBehindMarks (fun us => ¬IsTypeSuffix (headKind us)) hcomma hmore hbrace
      nofun).bind fun out hout => pure ?_
    have ht' : t'.unplaced = t.unplaced := ht'
    rw [List.map_cons, List.map_cons, ht', hout]

/-- A class whose parts are read back is read back. -/
theorem ClassDecl.rewritten (hV : V.Writable) {d : ClassDecl}
    (here : (Node.class d).Writable V inTrait)
    (parts : ∀ m ∈ (Node.class d).parts, m.Rewritten inTrait) :
    (Node.class d).Rewritten inTrait := by
  have hwell : d.WellFormed := here.wellFormed hV.firm
  have hname : IsName d.name := hV.name here.spelled.1
  have hgenerics : ∀ g ∈ d.generics, (Node.generics g).Rewritten inTrait := fun g hg =>
    parts (.generics g) (by simp_all [Node.parts])
  have hbase : ∀ t ∈ d.base, t.Written inTrait := fun t ht =>
    parts (.type t) (by simp_all [Node.parts])
  have hinterfaces : ∀ t ∈ d.interfaces, t.Written inTrait := fun t ht =>
    parts (.type t) (by simp [Node.parts, ht])
  have hmembers : ∀ m ∈ d.members, Rereads inTrait (memberLexemes m) (·.classMember)
      (Copies Grammar.ClassMember.unplaced m) fun _ => True := by
    simp only [ClassDecl.members, List.forall_mem_append, List.forall_mem_map]
    refine ⟨⟨⟨fun f hf => ?_, fun v hv => ?_⟩, fun k hk => ?_⟩, fun k hk => ?_⟩
    · exact parts (.classFunction f) (by simp [Node.parts, hf])
    · have hvariable := parts (.variable v.decl) (by
        simp only [Node.parts, List.mem_append, List.mem_map]
        exact .inl (.inl (.inr ⟨v, hv, rfl⟩)))
      exact v.rereads hvariable (here.spelled.2 v hv) (hwell.fields v hv)
    · exact parts (.constructor k) (by simp [Node.parts, hk])
    · exact parts (.destructor k) (by simp [Node.parts, hk])
  have hrow : d.lexemes parenthesized = .word .classKw :: .name d.name ::
    (genericLexemes d.generics ++
      (namedLexemes .extendsKw d.base.toList ++ (namedLexemes .implementsKw d.interfaces ++
        inBraces (d.members.flatMap memberLexemes)))) := by
    rw [d.row_members]
    simp [ClassDecl.lexemes]
  have hnamedLegible {k : Keyword} {types : List TypeExpr} (h : ∀ t ∈ types, t.Written inTrait) :
      Legible (namedLexemes k types) := by
    rw [namedLexemes]
    split
    · exact .nil
    · simpa [TypeExpr.rows_eq_map] using fun t ht => (h t ht).legible
  refine ⟨?_, ?_⟩
  · rw [hrow]
    simpa using ⟨Lexeme.WellFormed.name hname, GenericDecl.legible hgenerics,
      hnamedLegible (by simpa using hbase), hnamedLegible hinterfaces,
      fun m hm => (hmembers m hm).legible⟩
  rintro c rfl depth hdepth rest -
  rw [hrow] at hdepth ⊢
  simp only [inBraces, List.length_cons, List.length_append] at hdepth
  simp only [List.cons_append, List.append_assoc, inBraces_append]
  have himplements (us : List Lexeme) :
      headKind (namedLexemes .implementsKw d.interfaces ++ .mark .lBrace :: us) =
        Keyword.implementsKw ∨
      headKind (namedLexemes .implementsKw d.interfaces ++ .mark .lBrace :: us) =
        Symbol.lBrace := by
    cases d.interfaces with
    | nil => exact .inr rfl
    | cons t types => exact .inl rfl
  refine Parses.position fun pos' => Parses.mark rfl (Parses.expectIdentifier ?_)
  refine (Parses.generics hgenerics (by omega) ?_).bind fun g hg => ?_
  · cases d.base with
    | some t => rintro ⟨⟩
    | none =>
      rcases himplements _ with hk | hk <;> exact fun h => absurd (hk.symm.trans h) (by rintro ⟨⟩)
  refine (Parses.base hbase hwell.base (by omega) (himplements _)).bind fun b hb => ?_
  refine (Parses.interfaces hinterfaces hwell.interfaces (by omega)).bind fun is his =>
    Parses.mark rfl ?_
  refine (Parses.builtMembers (u := Grammar.ClassMember.unplaced)
    (fun m _ => begins_memberLexemes m) fun m hm us => ?_).bind fun out hout =>
      Parses.drop (.pure ?_)
  · have hlength := length_le_flatMap (f := memberLexemes) hm
    exact (hmembers m hm).read c rfl depth (by omega) us trivial
  · have hg : g.map GenericDecl.unplaced = d.generics.map GenericDecl.unplaced := hg
    have hall : TypeExpr.unplacedAll = List.map TypeExpr.unplaced :=
      funext TypeExpr.unplacedAll_eq_map
    obtain ⟨hfunctions, hfields, hconstructors, hdestructors⟩ := d.picked_members
    have hfunctions' := Alike.filterMap (f := Grammar.ClassMember.asFunction?)
      (v := ClassFunctionDecl.unplaced) (fun m => by cases m <;> rfl) hout
    have hfields' := Alike.filterMap (f := Grammar.ClassMember.asVariable?)
      (v := ClassVariableDecl.unplaced) (fun m => by cases m <;> rfl) hout
    have hconstructors' := Alike.filterMap (f := Grammar.ClassMember.asConstructor?)
      (v := ConstructorDecl.unplaced) (fun m => by cases m <;> rfl) hout
    have hdestructors' := Alike.filterMap (f := Grammar.ClassMember.asDestructor?)
      (v := DestructorDecl.unplaced) (fun m => by cases m <;> rfl) hout
    rw [hfunctions, Alike] at hfunctions'
    rw [hfields, Alike] at hfields'
    rw [hconstructors, Alike] at hconstructors'
    rw [hdestructors, Alike] at hdestructors'
    simp only [Copies, ClassDecl.unplaced, hall, hg, hb, his, hfunctions', hfields',
      hconstructors', hdestructors']

end ScriptFront
