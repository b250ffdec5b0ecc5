import ScriptFront.Proofs.Rewriting.Exprs

/-!
# Atoms and prefixed forms that are written anew

Atoms can be read without parentheses at the start of a `::` chain. An operator in front of its
operand, and a `match`, can be read without parentheses where nothing goes on behind the operand.

- `Expr.Rewritten.ofAtom`, `Expr.Rewritten.ofPrefixed`: what has to be told of such forms.
- `Expr.Rewritten.literal`, `Expr.Rewritten.new`, …: one theorem for each form.
- `Expr.rewritten`: an expression whose parts are read back is read back.
-/

namespace ScriptFront

open ScriptFront.Parser

/-- An item that is read back is read back in a list. -/
theorem Rereads.item {α : Type} {inTrait : Bool} {row : List Lexeme}
    {x : Grammar Buffer → Parse Buffer (Yield .build α)} {V : α → Prop} {close : Symbol}
    (h : Rereads inTrait row x V (EndsItem close)) {c : Setting} (hc : c.inTrait = inTrait)
    {depth : Nat} (hdepth : 4 * row.length < depth) :
    Parses.Item c close (x (Grammar.upTo depth)) V row := by
  rintro s (rfl | rfl) us
  · exact h.read c hc depth hdepth _ (.inl rfl)
  · exact h.read c hc depth hdepth _ (.inr rfl)

theorem NewItem.begins (i : NewItem) :
    Begins (i.lexemes parenthesized) fun k => k = .identifier := by
  obtain ⟨pos, name, _ | value⟩ := i
  · exact ⟨_, _, rfl, rfl⟩
  · exact ⟨_, _, rfl, rfl⟩

theorem ExprArm.begins (a : ExprArm) :
    Begins (a.lexemes parenthesized) fun k => k = Keyword.whenKw := by
  obtain ⟨pos, pattern, body⟩ := a
  exact ⟨_, _, rfl, rfl⟩

namespace Expr.Rewritten

variable {inTrait : Bool} {pos : Position} {e : Expr} {form : ExprForm}

/-! ## Atoms -/

theorem chain_eq (h : form.isAtom ∨ form.isPrefixed) :
    Expr.chain parenthesized ⟨pos, form⟩ = form.lexemes parenthesized := by
  cases form <;> first | rfl | rcases h with h | h <;> cases h

theorem isPrefixed_of_isAtom (h : form.isAtom) : form.isPrefixed = false := by
  cases form <;> first | rfl | cases h

/-- An atom is read back at the start of any `::` chain. -/
theorem ofAtom (hatom : form.isAtom) (hlegible : Legible (form.lexemes parenthesized))
    (hcalm : ∀ d, Calm (d + 1) (form.lexemes parenthesized))
    (hbegins : Begins (form.lexemes parenthesized) fun k => k ≠ Symbol.lParen ∧ k ≠ Symbol.lBrace)
    (hspine : Throughout inTrait (form.lexemes parenthesized) fun c depth =>
      Spine c depth (form.lexemes parenthesized) (Expr.Alike ⟨pos, form⟩) Level.path Detached) :
    Expr.Rewritten inTrait ⟨pos, form⟩ where
  legible := hlegible
  calm := hcalm
  whole := by
    rintro c rfl depth hdepth
    exact ((hspine c rfl depth hdepth).whole (by decide)).mono fun rest hrest =>
      ⟨.rParen hrest, .rParen hrest⟩
  chain _ := by
    have hrow : Expr.chain parenthesized ⟨pos, form⟩ = form.lexemes parenthesized :=
      chain_eq (.inl hatom)
    exact ⟨hrow ▸ hlegible, hrow ▸ hbegins, hrow ▸ hspine⟩
  prefixed h := by
    rw [isPrefixed_of_isAtom hatom] at h
    exact absurd h Bool.false_ne_true

/-- A single token. -/
theorem token {l : Lexeme} {make : String → ExprForm}
    (hl : Grammar.tokenForm? l.kind = some make) (hrow : (make l.text).lexemes parenthesized = [l])
    (hatom : (make l.text).isAtom) (hlegible : l.WellFormed)
    (hcalm : ∀ d, prospect d l.kind = .none ∨ prospect d l.kind = .go d)
    (hbegins : l.kind ≠ Symbol.lParen ∧ l.kind ≠ Symbol.lBrace) :
    Expr.Rewritten inTrait ⟨pos, make l.text⟩ := by
  refine ofAtom hatom ?_ (fun d => ?_) (hrow ▸ ⟨l, [], rfl, hbegins⟩) ?_
  · simpa [hrow] using hlegible
  · rw [hrow]
    exact .cons (hcalm _) .nil
  · rintro c - depth -
    rw [hrow]
    have hoperand : Operand c depth [l] (Expr.Alike ⟨pos, make l.text⟩) :=
      Operand.token hl fun _ => rfl
    exact hoperand.spine.mono fun _ _ => trivial

theorem literal {value : Literal} (h : value.lexeme.WellFormed) :
    Expr.Rewritten inTrait ⟨pos, .literal value⟩ := by
  rcases value with (_ | _) | ⟨form, text⟩ | ⟨form, text⟩ | text | text | _
  all_goals
    refine token (l := Literal.lexeme _) rfl rfl rfl h (fun d => ?_) ⟨nofun, nofun⟩
    first | exact .inl rfl | exact .inr rfl

theorem identifier {name : String} {root : Bool} (h : IsName name) :
    Expr.Rewritten inTrait ⟨pos, .identifier name root⟩ := by
  cases root with
  | false => exact token (l := .name name) rfl rfl rfl (.name h) (fun d => .inr rfl) ⟨nofun, nofun⟩
  | true =>
    refine ofAtom rfl ?_ (fun d => ?_) ⟨_, _, rfl, nofun, nofun⟩ ?_
    · simpa [ExprForm.lexemes] using Lexeme.WellFormed.name h
    · exact .cons (.inr rfl) (.cons (.inr rfl) .nil)
    · rintro c - depth -
      have hoperand : Operand c depth [.mark .colonColon, .name name]
          (Expr.Alike ⟨pos, .identifier name true⟩) := Operand.rootName fun _ => rfl
      exact hoperand.spine.mono fun _ _ => trivial

theorem array {items : List Expr} (h : ∀ e ∈ items, e.Rewritten inTrait) :
    Expr.Rewritten inTrait ⟨pos, .array items⟩ := by
  refine ofAtom rfl ?_ (fun d => (args_calm h _).brackets)
    ⟨_, _, rfl, (by rintro ⟨⟩), (by rintro ⟨⟩)⟩ ?_
  · rw [ExprForm.lexemes]
    simpa using fun e he => (h e he).legible
  · rintro c rfl depth hdepth
    rw [ExprForm.lexemes, Expr.rows_eq_map] at hdepth ⊢
    simp only [inBrackets, List.length_append, List.length_cons] at hdepth
    have hitems (e : Expr) (he : e ∈ items) : Parses.Item c .rBracket
        ((Grammar.upTo depth).expr .build Level.single) (Copies Expr.unplaced e)
        (e.part parenthesized Level.single) := by
      have hlength := length_le_commas_map (f := Expr.part parenthesized Level.single) he
      exact (h e he).item (by omega) (by decide) rfl
    have hread (rest : List Lexeme) (_ : Detached rest) :
        Parses c (.mark .lBracket :: (commas (items.map (Expr.part parenthesized Level.single)) ++
          [.mark .rBracket] ++ rest)) ((Grammar.upTo depth).atomForm .build)
          (fun form => ∃ es : List Expr, es.map Expr.unplaced = items.map Expr.unplaced ∧
            form = .array es) rest := by
      rw [List.append_assoc]
      refine Parses.kind ?_
      have hliteral : Parses c (.mark .lBracket ::
          (commas (items.map (Expr.part parenthesized Level.single)) ++ .mark .rBracket :: rest))
          ((Grammar.upTo depth).arrayLiteral .build)
          (fun form : ExprForm => ∃ es : List Expr, es.map Expr.unplaced = items.map Expr.unplaced ∧
            form = .array es) rest :=
        Parses.mark rfl ((Parses.openListOrEmpty (by decide : Symbol.rBracket ≠ .comma)
          (fun e _ => begins.mono (by rintro k rfl ⟨⟩)) hitems).bind fun es hes =>
            .pure ⟨es, hes, rfl⟩)
      exact hliteral
    refine Spine.ofAtom rfl (by rintro ⟨⟩) (by rintro ⟨⟩) hread ?_
    rintro pos' _ ⟨es, hes, rfl⟩
    rw [Expr.alike_mk, ExprForm.unplaced, ExprForm.unplaced, Expr.unplacedAll_eq_map,
      Expr.unplacedAll_eq_map, hes]

/-- Type arguments do not end in the name of a primitive type or in its dimensions. -/
theorem calm_primitive {t : TypeExpr} (h : t.StartsPrimitive) (hvoid : t.isVoid = false)
    (hwritten : t.Written inTrait) (d : Nat) : Calm d t.lexemes := by
  have hquestion (nullable : Bool) : Calm d (if nullable then [.mark .question] else []) := by
    cases nullable with
    | false => exact .nil
    | true => exact .cons (.inr rfl) .nil
  have hword {type : PrimitiveType} (htype : type ≠ .void) :
      Calm d [.word (.primitive type)] := by
    refine .cons (.inr ?_) .nil
    cases type <;> first | rfl | exact absurd rfl htype
  have hdims (dims : List ArrayDim) : Calm d (dims.flatMap ArrayDim.lexemes) := by
    induction dims with
    | nil => exact .nil
    | cons dim dims ih =>
      rw [List.flatMap_cons]
      refine Calm.append ?_ ih
      cases dim with
      | unsized => exact Calm.nil.brackets
      | sized n => exact (Calm.cons (.inr rfl) .nil).brackets
  obtain ⟨pos, nullable, form⟩ := t
  rcases h with ⟨type, hform⟩ | ⟨⟨pos', nullable', form'⟩, dims, type, hform, helement⟩
  · obtain rfl : form = .primitive type := hform
    refine (hword ?_).append (hquestion nullable)
    rintro rfl
    exact absurd hvoid nofun
  · obtain rfl : form = .array ⟨pos', nullable', form'⟩ dims := hform
    obtain rfl : form' = .primitive type := helement
    refine (Calm.append (.append (hword ?_) (hquestion nullable')) (hdims dims)).append
      (hquestion nullable)
    rintro rfl
    obtain ⟨base, -, hbase, -⟩ := hwritten.form_row
    cases hbase with
    | array _ hvoid' => exact absurd hvoid' nofun

theorem primitive {t : TypeExpr} (hprimitive : t.StartsPrimitive) (hvoid : t.isVoid = false)
    (h : t.Written inTrait) : Expr.Rewritten inTrait ⟨pos, .primitive t⟩ := by
  refine ofAtom rfl h.legible (fun d => calm_primitive hprimitive hvoid h _) ?_ ?_
  · obtain ⟨type, more, hrow⟩ := hprimitive.eq_word
    exact ⟨_, more, hrow, nofun, nofun⟩
  rintro c rfl depth hdepth
  rw [ExprForm.lexemes] at hdepth ⊢
  have hlength : 0 < t.lexemes.length := by
    obtain ⟨type, more, hrow⟩ := hprimitive.eq_word
    rw [hrow, List.length_cons]
    omega
  refine (Spine.primitive hprimitive h (by omega) fun pos' t' ht' => ?_).mono fun _ h => h.bare
  have ht' : t'.unplaced = t.unplaced := ht'
  rw [Expr.alike_mk, ExprForm.unplaced, ExprForm.unplaced, ht']

theorem lambda {params : List LambdaParam} {result : TypeExpr} {inference : Inference}
    {body : Block}
    (hparams : ∀ p ∈ params, p.Written inTrait) (hwell : LambdaParam.AllWellFormed params)
    (hresult : result.Written inTrait) (hfits : inference.Fits params result)
    (hbody : (Node.block body).Rewritten inTrait) :
    Expr.Rewritten inTrait ⟨pos, .lambda params result inference body⟩ := by
  refine ofAtom rfl ?_ (fun d => .stop rfl) ⟨_, _, rfl, (by rintro ⟨⟩), (by rintro ⟨⟩)⟩ ?_
  · have hlegible : Legible (commas (params.map LambdaParam.lexemes)) := by
      simpa using fun p hp => (hparams p hp).legible
    have harrow : Legible (if inference.hasResult then .mark .arrow :: result.lexemes else []) := by
      split
      · simpa using hresult.legible
      · exact .nil
    rw [ExprForm.lexemes]
    simp only [Legible.append_iff, Legible.cons_iff, Lexeme.WellFormed.mark, true_and]
    exact ⟨⟨hlegible, harrow⟩, hbody.legible⟩
  · rintro c rfl depth hdepth
    obtain ⟨more, hrow⟩ : ∃ more, ExprForm.lexemes parenthesized
        (.lambda params result inference body) = .mark .pipe :: more := ⟨_, rfl⟩
    have hread (rest : List Lexeme) (_ : Detached rest) : Parses c (.mark .pipe :: (more ++ rest))
        ((Grammar.upTo depth).atomForm .build) (fun form : ExprForm => form.unplaced =
          (ExprForm.lambda params result inference body).unplaced) rest := by
      rw [← List.cons_append, ← hrow]
      refine Parses.kind ?_
      rw [hrow, List.cons_append, headKind_cons, ← List.cons_append, ← hrow]
      exact Parses.inContext .lambda (Parses.lambda hparams hwell hresult hfits hbody hdepth)
    rw [hrow]
    exact Spine.ofAtom rfl (by rintro ⟨⟩) (by rintro ⟨⟩) hread fun pos' form hform =>
      Expr.alike_mk.2 hform

/-- The fields that a `new` expression sets, if it has braces. -/
theorem newItems {c : Setting} {depth : Nat} {rest : List Lexeme} {init : Option (List NewItem)}
    (h : ∀ items ∈ init, ∀ i ∈ items, (Node.newItem i).Rewritten c.inTrait)
    (hdepth : 4 * (NewItem.lexemes? parenthesized init).length ≤ depth)
    (hrest : headKind rest ≠ Symbol.lBrace) :
    Parses c (NewItem.lexemes? parenthesized init ++ rest)
      (Parser.optionally (Parser.eat Symbol.lBrace)
        (Parser.openListOrEmpty .rBrace ((Grammar.upTo depth).newItem .build)) :
          Parse Buffer (Yield .build (Option (List NewItem))))
      (Copies NewItem.unplaced? init) rest := by
  cases init with
  | none => exact (Parses.absent (Parses.notEaten hrest)).mono fun o ho => ho ▸ rfl
  | some items =>
    have h := h items rfl
    rw [NewItem.lexemes?, NewItem.rows_eq_map] at hdepth ⊢
    simp only [inBraces, List.length_append, List.length_cons] at hdepth
    rw [inBraces_append]
    have hitems (i : NewItem) (hi : i ∈ items) : Parses.Item c .rBrace
        ((Grammar.upTo depth).newItem .build) (Copies NewItem.unplaced i)
        (i.lexemes parenthesized) := by
      have hlength := length_le_commas_map (f := NewItem.lexemes parenthesized) hi
      exact (h i hi).item rfl (by omega)
    refine (Parses.present (Parses.takeChecked rfl)
      (Parses.openListOrEmpty (by decide : Symbol.rBrace ≠ .comma)
        (fun i _ => i.begins.mono (by rintro k rfl ⟨⟩)) hitems)).mono ?_
    rintro _ ⟨out, rfl, hout⟩
    show NewItem.unplaced? (some out) = NewItem.unplaced? (some items)
    rw [NewItem.unplaced?, NewItem.unplaced?, NewItem.unplacedAll_eq_map,
      NewItem.unplacedAll_eq_map, hout]

theorem new {t : TypeExpr} {args : List Expr} {init : Option (List NewItem)}
    (ht : t.Written inTrait) (hcommas : ∀ a ∈ args, a.isComma = false)
    (hargs : ∀ a ∈ args, a.Rewritten inTrait)
    (hinit : ∀ items ∈ init, ∀ i ∈ items, (Node.newItem i).Rewritten inTrait) :
    Expr.Rewritten inTrait ⟨pos, .new t args init⟩ := by
  refine ofAtom rfl ?_ (fun d => .stop rfl) ⟨_, _, rfl, (by rintro ⟨⟩), (by rintro ⟨⟩)⟩ ?_
  · have hitems : Legible (NewItem.lexemes? parenthesized init) := by
      cases init with
      | none => exact .nil
      | some items =>
        simpa [NewItem.lexemes?, NewItem.rows_eq_map] using fun i hi =>
          (hinit items rfl i hi).legible
    rw [ExprForm.lexemes]
    simp only [Legible.append_iff, Legible.cons_iff, Lexeme.WellFormed.word, true_and]
    exact ⟨⟨ht.legible, args_legible hargs⟩, hitems⟩
  · rintro c rfl depth hdepth
    let more := t.lexemes ++ inParens (commas (Expr.rows parenthesized Level.single args)) ++
      NewItem.lexemes? parenthesized init
    have hrow : ExprForm.lexemes parenthesized (.new t args init) = .word .newKw :: more := rfl
    have hlength : more.length = t.lexemes.length +
        ((commas (Expr.rows parenthesized Level.single args)).length + 2) +
          (NewItem.lexemes? parenthesized init).length := by
      simp only [more, inParens, List.length_append, List.length_cons]
      rfl
    rw [hrow] at hdepth ⊢
    rw [List.length_cons, hlength] at hdepth
    have hread (rest : List Lexeme) (hrest : Detached rest) :
        Parses c (.word .newKw :: (more ++ rest)) ((Grammar.upTo depth).atomForm .build)
          (fun form => ∃ t' args' init', Copies TypeExpr.unplaced t t' ∧
            args'.map Expr.unplaced = args.map Expr.unplaced ∧
            Copies NewItem.unplaced? init init' ∧ form = ExprForm.new t' args' init') rest := by
      have hsplit : more ++ rest = t.lexemes ++ (.mark .lParen ::
          (commas (Expr.rows parenthesized Level.single args) ++ .mark .rParen ::
            (NewItem.lexemes? parenthesized init ++ rest))) := by
        simp only [more, List.append_assoc, List.cons_append, inParens_append]
      rw [hsplit]
      refine Parses.kind (Parses.inContext .new (Parses.mark rfl ?_))
      refine (ht.parses (by omega) (not_isTypeSuffix_cons (by decide) _)).bind fun t' ht' =>
        Parses.mark rfl ?_
      refine (Rewritten.args hcommas hargs (by omega) _).bind fun args' hargs' => ?_
      refine (newItems hinit (by omega) hrest.brace).bind fun init' hinit' => ?_
      exact .pure ⟨t', args', init', ht', hargs', hinit', rfl⟩
    refine Spine.ofAtom rfl (by rintro ⟨⟩) (by rintro ⟨⟩) hread ?_
    rintro pos' _ ⟨t', args', init', ht', hargs', hinit', rfl⟩
    have ht' : t'.unplaced = t.unplaced := ht'
    have hinit' : NewItem.unplaced? init' = NewItem.unplaced? init := hinit'
    rw [Expr.alike_mk, ExprForm.unplaced, ExprForm.unplaced, ht', hinit', Expr.unplacedAll_eq_map,
      Expr.unplacedAll_eq_map, hargs']

/-! ## Prefixed forms -/

/-- A prefixed form is read back wherever nothing goes on behind its operand. -/
theorem ofPrefixed (hprefixed : form.isPrefixed) (hlegible : Legible (form.lexemes parenthesized))
    (hcalm : ∀ d, Calm (d + 1) (form.lexemes parenthesized))
    (hwhole : ∀ least, Throughout inTrait (form.lexemes parenthesized) fun c depth =>
      Whole c depth (form.lexemes parenthesized) (Expr.Alike ⟨pos, form⟩) least fun rest =>
        Stops Level.operand rest ∧ Stops least rest) :
    Expr.Rewritten inTrait ⟨pos, form⟩ where
  legible := hlegible
  calm := hcalm
  whole := by
    rintro c rfl depth hdepth
    exact (hwhole _ c rfl depth hdepth).mono fun rest hrest => ⟨.rParen hrest, .rParen hrest⟩
  chain h := by
    have hhead : Expr.head ⟨pos, form⟩ = form := by
      cases form <;> first | rfl | cases hprefixed
    rw [hhead] at h
    rw [isPrefixed_of_isAtom h] at hprefixed
    exact absurd hprefixed Bool.false_ne_true
  prefixed _ := by
    rintro c rfl depth hdepth
    exact (hwhole _ c rfl depth hdepth).mono fun rest hrest => ⟨hrest, hrest.mono (by decide)⟩

theorem before {op : UnaryOp} (h : e.Rewritten inTrait) :
    Expr.Rewritten inTrait ⟨pos, .unary op .before e⟩ := by
  refine ofPrefixed rfl ?_ (fun d => ?_) fun least => ?_
  · rw [ExprForm.lexemes]
    simpa using ⟨op.wellFormed_lexeme, h.legible⟩
  · rw [ExprForm.lexemes]
    exact .stop (by cases op <;> rfl)
  · rintro c rfl depth hdepth
    rw [ExprForm.lexemes, List.length_cons] at hdepth
    rw [ExprForm.lexemes]
    obtain ⟨depth, rfl⟩ : ∃ d, depth = d + 1 := ⟨depth - 1, by omega⟩
    refine Whole.prefixed (h.wholePart (by omega)) fun pos' e' he' => ?_
    rw [Expr.alike_mk, ExprForm.unplaced, ExprForm.unplaced, he']

theorem select {subject : Expr} {arms : List ExprArm} (hsubject : subject.Rewritten inTrait)
    (hne : arms ≠ []) (harms : ∀ a ∈ arms, (Node.exprArm a).Rewritten inTrait) :
    Expr.Rewritten inTrait ⟨pos, .select subject arms⟩ := by
  have harms (a : ExprArm) (ha : a ∈ arms) : RereadsItem inTrait (a.lexemes parenthesized)
      (·.exprArm .build) (Copies ExprArm.unplaced a) := harms a ha
  refine ofPrefixed rfl ?_ (fun d => .stop rfl) fun least => ?_
  · rw [ExprForm.lexemes, ExprArm.rows_eq_map]
    simpa using ⟨hsubject.legible, fun a ha => (harms a ha).last.legible⟩
  · rintro c rfl depth hdepth
    rw [ExprForm.lexemes, ExprArm.rows_eq_map] at hdepth ⊢
    simp only [inBraces, List.length_append, List.length_cons] at hdepth
    have hlength (a : ExprArm) (ha : a ∈ arms) :
        4 * ((a.lexemes parenthesized).length + 1) < depth := by
      have hle := length_le_commas_map (f := ExprArm.lexemes parenthesized) ha
      omega
    have hcomma (a : ExprArm) (ha : a ∈ arms) (us : List Lexeme) :
        Parses c (a.lexemes parenthesized ++ .mark .comma :: us)
          ((Grammar.upTo depth).exprArm .build) (Copies ExprArm.unplaced a) us := by
      have hdepth : 4 * (a.lexemes parenthesized ++ [Lexeme.mark .comma]).length < depth := by
        rw [List.length_append]
        exact hlength a ha
      have hread := (harms a ha).comma.read c rfl depth hdepth us trivial
      rwa [List.append_assoc] at hread
    have hlast (a : ExprArm) (ha : a ∈ arms) (us : List Lexeme) :
        Parses c (a.lexemes parenthesized ++ .mark .rBrace :: us)
          ((Grammar.upTo depth).exprArm .build) (Copies ExprArm.unplaced a)
          (.mark .rBrace :: us) :=
      (harms a ha).last.read c rfl depth (by have := hlength a ha; omega) _ rfl
    have hread (rest : List Lexeme) : Parses c (.word .matchKw ::
        (subject.part parenthesized Level.operand ++
          inBraces (commas (arms.map (ExprArm.lexemes parenthesized))) ++ rest))
        ((Grammar.upTo depth).selectExpr .build)
        (fun form => ∃ (e : Expr) (arms' : List ExprArm), subject.Alike e ∧
          arms'.map ExprArm.unplaced = arms.map ExprArm.unplaced ∧
            form = .select e arms') rest := by
      rw [List.append_assoc, inBraces_append]
      refine Parses.mark rfl ((hsubject.parses (by omega) (.of_none rfl _)).bind fun e he => ?_)
      refine Parses.mark rfl ((Parses.onceAndCommas hne
        (fun a _ => a.begins.mono (by rintro k rfl ⟨⟩)) hcomma hlast).bind fun arms' harms' => ?_)
      exact Parses.mark rfl (.pure ⟨e, arms', he, harms', rfl⟩)
    refine (Whole.select hread ?_).mono fun rest hrest => hrest.2
    rintro pos' _ ⟨e, arms', he, harms', rfl⟩
    rw [Expr.alike_mk, ExprForm.unplaced, ExprForm.unplaced, he, ExprArm.unplacedAll_eq_map,
      ExprArm.unplacedAll_eq_map, harms']

/-! ## Other forms with types -/

theorem typed (o : TypeOp) {t : TypeExpr} (h : e.Rewritten inTrait) (ht : t.Written inTrait) :
    Expr.Rewritten inTrait ⟨pos, o.form e t⟩ := by
  have hrow : (o.form e t).lexemes parenthesized =
      e.part parenthesized Level.operand ++ .word o.keyword :: t.lexemes := by cases o <;> rfl
  have hhead : Expr.head ⟨pos, o.form e t⟩ = o.form e t := by cases o <;> rfl
  refine ofWhole ?_ ?_ ?_ (fun d => ?_) ?_
  · rw [hhead]
    cases o <;> rfl
  · cases o <;> rfl
  · rw [Expr.lexemes, hrow]
    simpa using ⟨h.legible, ht.legible⟩
  · rw [Expr.lexemes, hrow]
    exact (h.calm_part _).append (.stop (by cases o <;> rfl))
  · rintro c rfl depth hdepth
    rw [Expr.lexemes, hrow] at hdepth ⊢
    rw [List.length_append, List.length_cons] at hdepth
    obtain ⟨depth, rfl⟩ : ∃ d, depth = d + 1 := ⟨depth - 1, by omega⟩
    have hspine : Spine c (depth + 1)
        (e.part parenthesized Level.operand ++ .word o.keyword :: t.lexemes)
        (Expr.Alike ⟨pos, o.form e t⟩) Level.operand (EndsAt t.GoesOn) := by
      refine Spine.typed o (h.operand (by omega)) ht (by omega) fun pos' e' t' he' ht' => ?_
      rw [Expr.alike_mk, o.unplaced_form, o.unplaced_form, he', ht']
    refine (hspine.whole (by decide)).mono fun rest hrest => ⟨?_, .rParen hrest⟩
    refine EndsType.endsAt (.of_headKind ?_) t
    rw [hrest]
    decide

theorem genericCall {callee : Expr} {generics : List TypeExpr} {args : List Expr}
    (hcallee : callee.Rewritten inTrait) (hne : generics ≠ [])
    (hgenerics : ∀ t ∈ generics, t.Written inTrait) (hvoid : ∀ t ∈ generics, t.isVoid = false)
    (hcommas : ∀ a ∈ args, a.isComma = false) (hargs : ∀ a ∈ args, a.Rewritten inTrait) :
    Expr.Rewritten inTrait ⟨pos, .genericCall callee generics args⟩ := by
  have hspelled : TypeExpr.AllSpelledBy inTrait generics (TypeExpr.rows generics) :=
    .of_written hgenerics hvoid
  refine ofWhole rfl rfl ?_ (fun d => ?_) ?_
  · rw [Expr.lexemes, ExprForm.lexemes]
    simp only [Legible.append_iff, Legible.part_iff]
    refine ⟨⟨hcallee.legible, ?_⟩, args_legible hargs⟩
    simpa using hspelled.legible
  · -- Behind a closing parenthesis, an angle is calm.
    rw [Expr.lexemes, ExprForm.lexemes, Expr.part_parenthesized]
    intro rest _
    have hopen (us : List Lexeme) : noCall (d + 1)
        (inParens (callee.lexemes parenthesized) ++ .mark .lt :: us) := by
      rw [inParens_append, noCall_go rfl]
      exact hcallee.calm _ _ rfl
    rw [List.append_assoc, List.append_assoc]
    exact hopen _
  · rintro c rfl depth hdepth
    rw [Expr.lexemes, ExprForm.lexemes] at hdepth ⊢
    simp only [inParens, inAngles, List.length_append, List.length_cons] at hdepth
    have hspine : Spine c depth (callee.part parenthesized Level.access ++
        inAngles (commas (TypeExpr.rows generics)) ++
          inParens (commas (Expr.rows parenthesized Level.single args)))
        (Expr.Alike ⟨pos, .genericCall callee generics args⟩) Level.access fun _ => True := by
      refine Spine.genericCall (hcallee.operand (by omega)) hspelled hne (by omega)
        (Rewritten.args hcommas hargs (by omega)) fun pos' e ts es he hts hes => ?_
      rw [Expr.alike_mk, ExprForm.unplaced, ExprForm.unplaced, he, TypeExpr.unplacedAll_eq_map,
        TypeExpr.unplacedAll_eq_map, hts, Expr.unplacedAll_eq_map, Expr.unplacedAll_eq_map, hes]
    exact (hspine.whole (by decide)).mono fun rest hrest => ⟨trivial, .rParen hrest⟩

end Expr.Rewritten

/-! ## All forms -/

/-- A constant can be written. -/
theorem Vocabulary.Writable.lexeme {V : Vocabulary} (hV : V.Writable) {value : Literal}
    (h : V.Constant value) : value.lexeme.WellFormed := by
  rcases value with (_ | _) | ⟨form, text⟩ | ⟨form, text⟩ | text | text | _
  · exact .word .falseKw
  · exact .word .trueKw
  · exact hV.wellFormed h nofun nofun
  · exact hV.wellFormed h nofun nofun
  · exact hV.wellFormed h nofun nofun
  · exact hV.wellFormed h nofun nofun
  · exact .word .nullKw

/-- An expression whose parts are read back is read back. -/
theorem Expr.rewritten {V : Vocabulary} (hV : V.Writable) {inTrait : Bool} {e : Expr}
    (here : (Node.expr e).Writable V inTrait) (parts : ∀ m ∈ e.form.nodes, m.Rewritten inTrait) :
    e.Rewritten inTrait := by
  obtain ⟨pos, form⟩ := e
  have hwell : form.WellFormed := here.wellFormed hV.firm
  have hvoids : form.VoidsPlaced := here.voidsPlaced
  have hwords : V.OfExpr form := here.spelled
  have hvalue : ∀ type, form = .primitive type → type.isVoid = false := here.noVoidValue
  cases form with
  | ternary condition consequence alternative =>
    exact .ternary (parts (.expr condition) (by simp [ExprForm.nodes]))
      (parts (.expr consequence) (by simp [ExprForm.nodes]))
      (parts (.expr alternative) (by simp [ExprForm.nodes]))
  | binary op left right =>
    have hleft : left.Rewritten inTrait := parts (.expr left) (by simp [ExprForm.nodes])
    have hright : right.Rewritten inTrait := parts (.expr right) (by simp [ExprForm.nodes])
    by_cases hop : op = .scope
    · subst hop
      exact .scope hleft hright
    · exact .binary hleft hright hop
  | unary op fixity operand =>
    have hoperand : operand.Rewritten inTrait := parts (.expr operand) (by simp [ExprForm.nodes])
    cases fixity with
    | before => exact .before hoperand
    | behind => exact .count hwords hoperand
  | cast operand type =>
    exact .typed .cast (parts (.expr operand) (by simp [ExprForm.nodes]))
      (parts (.type type) (by simp [ExprForm.nodes]))
  | typeTest operand type =>
    exact .typed .typeTest (parts (.expr operand) (by simp [ExprForm.nodes]))
      (parts (.type type) (by simp [ExprForm.nodes]))
  | select subject arms =>
    exact .select (parts (.expr subject) (by simp [ExprForm.nodes])) hwell fun a ha =>
      parts (.exprArm a) (by simp [ExprForm.nodes, ha])
  | lambda params result inference body =>
    exact .lambda (fun p hp => parts (.lambdaParam p) (by simp [ExprForm.nodes, hp])) hwell.1
      (parts (.type result) (by simp [ExprForm.nodes])) hwell.2
      (parts (.block body) (by simp [ExprForm.nodes]))
  | call callee args =>
    exact .call (parts (.expr callee) (by simp [ExprForm.nodes])) hwords fun a ha =>
      parts (.expr a) (by simp [ExprForm.nodes, ha])
  | genericCall callee generics args =>
    exact .genericCall (parts (.expr callee) (by simp [ExprForm.nodes])) hwell
      (fun t ht => parts (.type t) (by simp [ExprForm.nodes, ht])) hvoids hwords fun a ha =>
        parts (.expr a) (by simp [ExprForm.nodes, ha])
  | index target position =>
    exact .index (parts (.expr target) (by simp [ExprForm.nodes]))
      (parts (.expr position) (by simp [ExprForm.nodes]))
  | new type args init =>
    refine .new (parts (.type type) (by simp [ExprForm.nodes])) hwords
      (fun a ha => parts (.expr a) (by simp [ExprForm.nodes, ha])) fun items hitems i hi =>
        parts (.newItem i) ?_
    obtain rfl : init = some items := hitems
    simp [ExprForm.nodes, hi]
  | literal value => exact .literal (hV.lexeme hwords)
  | this =>
    exact .token (l := .word .thisKw) rfl rfl rfl (.word _) (fun d => .inl rfl) ⟨nofun, nofun⟩
  | super =>
    exact .token (l := .word .superKw) rfl rfl rfl (.word _) (fun d => .inl rfl) ⟨nofun, nofun⟩
  | primitive type =>
    exact .primitive hwords (hvalue type rfl) (parts (.type type) (by simp [ExprForm.nodes]))
  | identifier name root => exact .identifier (hV.name hwords)
  | array items => exact .array fun e he => parts (.expr e) (by simp [ExprForm.nodes, he])

end ScriptFront
