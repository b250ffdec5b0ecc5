import ScriptFront.Proofs.Rewriting.Nodes

/-!
# Lambdas

The first parameter tells whether all of them have types, and an arrow tells whether the result has
one. What is written of a lambda tells the same as the lambda itself.

- `Parses.lambdaParam`: one parameter, in front of a comma or of the closing bar.
- `Parses.lambdaParams`: all of them.
- `Parses.lambda`: a whole lambda.
-/

namespace ScriptFront

open ScriptFront.Parser

namespace LambdaParam

variable {inTrait : Bool} {p : LambdaParam}

/-- All parameters but variadic ones have types, or none. -/
def Typed (typed : Bool) (p : LambdaParam) : Prop :=
  if p.variadic then p.type = none else p.type.isSome = typed

theorem Written.legible (h : p.Written inTrait) : Legible p.lexemes := by
  obtain ⟨pos, name, type, variadic⟩ := p
  have hname : Lexeme.WellFormed (.name name) := .name h.name
  cases variadic with
  | true => simpa [LambdaParam.lexemes] using hname
  | false =>
    cases type with
    | none => simpa [LambdaParam.lexemes, markedType] using hname
    | some t => simpa [LambdaParam.lexemes, markedType] using ⟨hname, (h.type t rfl).1.legible⟩

theorem lexemes_variadic (h : p.variadic) : p.lexemes = [.name p.name, .mark .ellipsis] := by
  rw [LambdaParam.lexemes, if_pos h]

theorem lexemes_plain (h : p.variadic = false) :
    p.lexemes = .name p.name :: markedType .colon p.type := by
  rw [LambdaParam.lexemes, h, if_neg Bool.false_ne_true]

theorem copies {q : LambdaParam} (hname : q.name = p.name)
    (htype : Copies (Option.map TypeExpr.unplaced) p.type q.type)
    (hvariadic : q.variadic = p.variadic) :
    Copies LambdaParam.unplaced p q := by
  have htype : q.type.map TypeExpr.unplaced = p.type.map TypeExpr.unplaced := htype
  show LambdaParam.mk .start q.name (q.type.map TypeExpr.unplaced) q.variadic = _
  rw [hname, htype, hvariadic]
  rfl

end LambdaParam

/-- What a lambda leaves open is told by what is written of it. -/
theorem Inference.Fits.eq_inferenceOf {params : List LambdaParam}
    {result : TypeExpr} {inference : Inference} (h : inference.Fits params result) {untyped : Bool}
    (huntyped : untyped = true ↔ ∃ p more, params = p :: more ∧ p.type = Option.none) :
    Grammar.inferenceOf untyped inference.hasResult = inference := by
  have hparams : untyped = true ↔ inference = .full ∨ inference = .onlyParams :=
    huntyped.trans h.params.symm
  cases inference <;> cases untyped <;> simp [Inference.hasResult, Grammar.inferenceOf] at hparams ⊢

theorem Block.headKind_append (b : Block) (wraps : Wrapping) (rest : List Lexeme) :
    headKind (b.lexemes wraps ++ rest) = Symbol.lBrace := by
  obtain ⟨pos, statements⟩ := b
  rfl

namespace Parses

variable {c : Setting} {depth : Nat} {rest us : List Lexeme} {typed : Bool} {p : LambdaParam}
  {params done : List LambdaParam} {taken : Array LambdaParam}

/-- The type of a parameter, if it has one. -/
theorem lambdaParamType (hp : p.Written c.inTrait) (htyped : p.type.isSome = typed)
    (hdepth : (markedType .colon p.type).length ≤ depth) (hrest : ¬IsTypeSuffix (headKind rest)) :
    Parses c (markedType .colon p.type ++ rest)
      (Parser.optionally (return typed) (do
        Parser.mark Symbol.colon
        (Grammar.upTo depth).parameterType .build p.name) :
          Parse Buffer (Yield .build (Option TypeExpr)))
      (Copies (Option.map TypeExpr.unplaced) p.type) rest := by
  cases htype : p.type with
  | none =>
    rw [htype] at htyped
    exact (absent (pure htyped.symm)).mono fun o ho => ho ▸ rfl
  | some t =>
    rw [htype] at htyped hdepth
    obtain ⟨ht, hvoid⟩ := hp.type t htype
    have htype := ht.parsesValue hvoid (.parameter (some p.name))
      (Nat.lt_of_succ_le hdepth) hrest
    have hmark : Parses c (.mark .colon :: (t.lexemes ++ rest)) (do
        Parser.mark Symbol.colon
        (Grammar.upTo depth).parameterType .build p.name : Parse Buffer (Yield .build TypeExpr))
        (Copies TypeExpr.unplaced t) rest := mark rfl htype
    refine (present (pure htyped.symm) hmark).mono ?_
    rintro o ⟨t', rfl, ht'⟩
    exact congrArg some ht'

/-- The parameters of a lambda are read up to the bar behind them. -/
theorem lambdaParamsOnto (hparams : ∀ p ∈ params, p.Written c.inTrait) (hne : params ≠ [])
    (hlast : ∀ p ∈ params.dropLast, p.variadic = false) (htyped : ∀ p ∈ params, p.Typed typed)
    (hdepth : (commas (params.map LambdaParam.lexemes)).length ≤ depth) {steps : Nat}
    (hsteps : params.length < steps)
    (hdone : taken.toList.map LambdaParam.unplaced = done.map LambdaParam.unplaced) :
    Parses c (commas (params.map LambdaParam.lexemes) ++ .mark .pipe :: rest)
      ((Grammar.upTo depth).lambdaParamsOnto .build typed steps taken)
      (fun out : Array LambdaParam =>
        out.toList.map LambdaParam.unplaced = (done ++ params).map LambdaParam.unplaced)
      (.mark .pipe :: rest) := by
  induction params generalizing done taken steps with
  | nil => exact absurd rfl hne
  | cons p params ih =>
    obtain ⟨steps, rfl⟩ : ∃ n, steps = n + 1 := ⟨steps - 1, by omega⟩
    rw [List.forall_mem_cons] at hparams htyped
    obtain ⟨hp, hparams⟩ := hparams
    obtain ⟨hptyped, htyped⟩ := htyped
    have hpush {p' : LambdaParam} (h : Copies LambdaParam.unplaced p p') :
        (taken.push p').toList.map LambdaParam.unplaced =
          (done ++ [p]).map LambdaParam.unplaced := map_toList_push hdone h
    by_cases hvariadic : p.variadic
    · -- A variadic parameter is the last one.
      obtain rfl : params = [] := by
        by_contra hmore
        have hmem : p ∈ (p :: params).dropLast := by
          rw [List.dropLast_cons_of_ne_nil hmore]
          exact List.mem_cons_self
        exact absurd (hlast p hmem) (by simp [hvariadic])
      have hrow : commas ([p].map LambdaParam.lexemes) = [.name p.name, .mark .ellipsis] :=
        LambdaParam.lexemes_variadic hvariadic
      rw [hrow]
      have htype : p.type = none := by simpa [LambdaParam.Typed, hvariadic] using hptyped
      refine position fun pos => expectIdentifier (eat rfl (.pure (hpush ?_)))
      exact LambdaParam.copies rfl (congrArg _ htype.symm) hvariadic.symm
    · have hplain : p.variadic = false := by simpa using hvariadic
      have htype : p.type.isSome = typed := by simpa [LambdaParam.Typed, hplain] using hptyped
      have hcopy {pos : Position} {type : Option TypeExpr}
          (h : Copies (Option.map TypeExpr.unplaced) p.type type) :
          Copies LambdaParam.unplaced p ⟨pos, p.name, type, false⟩ :=
        LambdaParam.copies rfl h hplain.symm
      have hthis (us : List Lexeme) (hus : headKind us = Symbol.comma ∨ headKind us = Symbol.pipe)
          (hlength : (markedType .colon p.type).length ≤ depth)
          (hmore : ∀ p', Copies LambdaParam.unplaced p p' → Parses c us (do
            if ← Parser.eat Symbol.comma then
              (Grammar.upTo depth).lambdaParamsOnto .build typed steps (taken.push p')
            else if ← Parser.check Symbol.pipe then return taken.push p'
            else Parser.expectedOneOf [Symbol.comma, Symbol.pipe] :
              Parse Buffer (Yield .build (Array LambdaParam)))
            (fun out : Array LambdaParam => out.toList.map LambdaParam.unplaced =
              (done ++ p :: params).map LambdaParam.unplaced) (.mark .pipe :: rest)) :
          Parses c (p.lexemes ++ us)
            ((Grammar.upTo depth).lambdaParamsOnto .build typed (steps + 1) taken)
            (fun out : Array LambdaParam => out.toList.map LambdaParam.unplaced =
              (done ++ p :: params).map LambdaParam.unplaced) (.mark .pipe :: rest) := by
        rw [LambdaParam.lexemes_plain hplain, List.cons_append]
        refine position fun pos => expectIdentifier (eatNot ?_ ?_)
        · cases htype : p.type with
          | none =>
            show headKind us ≠ _
            rcases hus with hus | hus <;> rw [hus] <;> nofun
          | some t => nofun
        · have hsuffix : ¬IsTypeSuffix (headKind us) := by
            rcases hus with hus | hus <;> rw [hus] <;> decide
          exact (lambdaParamType hp htype hlength hsuffix).bind fun type htype' =>
            hmore _ (hcopy htype')
      cases params with
      | nil =>
        refine hthis _ (.inr rfl) ?_ fun p' hp' => ?_
        · have hrow : commas ([p].map LambdaParam.lexemes) = p.lexemes := rfl
          rw [hrow, LambdaParam.lexemes_plain hplain, List.length_cons] at hdepth
          omega
        · exact eatNot nofun (check (ifTrue (decide_eq_true rfl) (.pure (hpush hp'))))
      | cons q params =>
        have hrow : commas ((p :: q :: params).map LambdaParam.lexemes) =
            p.lexemes ++ .mark .comma :: commas ((q :: params).map LambdaParam.lexemes) := by
          rw [List.map_cons, List.map_cons, commas]
          exact nofun
        rw [hrow, List.length_append, LambdaParam.lexemes_plain hplain, List.length_cons,
          List.length_cons] at hdepth
        rw [hrow, List.append_assoc, List.cons_append]
        refine hthis _ (.inl rfl) (by omega) fun p' hp' => eat rfl ?_
        have hmore := ih hparams (List.cons_ne_nil _ _)
          (fun r hr => hlast r (List.mem_cons_of_mem _ hr)) htyped (by omega)
          (Nat.lt_of_succ_lt_succ hsteps) (hpush hp')
        rw [← List.append_cons] at hmore
        exact hmore

/-- The parameters between the bars. -/
theorem lambdaParams (hparams : ∀ p ∈ params, p.Written c.inTrait)
    (hwell : LambdaParam.AllWellFormed params)
    (hdepth : (commas (params.map LambdaParam.lexemes)).length ≤ depth) :
    Parses c (commas (params.map LambdaParam.lexemes) ++ .mark .pipe :: rest)
      ((Grammar.upTo depth).lambdaParams .build)
      (fun out : List LambdaParam × Bool =>
        out.1.map LambdaParam.unplaced = params.map LambdaParam.unplaced ∧
        (out.2 = true ↔ ∃ p more, params = p :: more ∧ p.type = none)) (.mark .pipe :: rest) := by
  cases params with
  | nil => exact check (ifFalse Bool.false_ne_true (.pure ⟨rfl, by simp⟩))
  | cons p params =>
    obtain ⟨more, hmore⟩ : ∃ more, commas ((p :: params).map LambdaParam.lexemes) =
        .name p.name :: more := by
      rw [commas_map_cons]
      exact ⟨_, rfl⟩
    -- The token behind the first name is a colon if and only if there is a type.
    have hsecond : headKind (more ++ .mark .pipe :: rest) = Symbol.colon ↔ p.type.isSome := by
      have hrow : commas ((p :: params).map LambdaParam.lexemes) ++ .mark .pipe :: rest =
          p.lexemes ++ ((params.flatMap fun a => .mark .comma :: a.lexemes) ++
            .mark .pipe :: rest) := by
        rw [commas_map_cons, List.append_assoc]
      have hbehind : headKind ((params.flatMap fun a => .mark .comma :: a.lexemes) ++
          .mark .pipe :: rest) ≠ Symbol.colon := by cases params <;> exact nofun
      rw [hmore, List.cons_append] at hrow
      by_cases hvariadic : p.variadic
      · rw [LambdaParam.lexemes_variadic hvariadic] at hrow
        rw [(List.cons.inj hrow).2, hwell.untyped p List.mem_cons_self hvariadic]
        simp [Lexeme.mark]
      · rw [LambdaParam.lexemes_plain (by simpa using hvariadic)] at hrow
        rw [(List.cons.inj hrow).2]
        cases p.type with
        | none => simpa [markedType] using hbehind
        | some t => simp [markedType, Lexeme.mark]
    have htyped : ∀ q ∈ p :: params, q.Typed p.type.isSome := by
      intro q hq
      unfold LambdaParam.Typed
      split
      · next hvariadic => exact hwell.untyped q hq hvariadic
      · next hplain =>
        have hplain : q.variadic = false := by simpa using hplain
        by_cases hfirst : p.variadic
        · -- If the first parameter is variadic, it is the only one.
          cases params with
          | nil =>
            obtain rfl := List.mem_singleton.1 hq
            exact absurd hfirst (by simp [hplain])
          | cons r params =>
            have hplain := hwell.last p List.mem_cons_self
            exact absurd hfirst (by simp [hplain])
        · have hfirst : p.variadic = false := by simpa using hfirst
          rcases hwell.uniform with hall | hall
          · rw [hall q hq hplain, hall p List.mem_cons_self hfirst]
          · rw [hall q hq hplain, hall p List.mem_cons_self hfirst]
    have hnone : (#[] : Array LambdaParam).toList.map LambdaParam.unplaced =
        ([] : List LambdaParam).map LambdaParam.unplaced := rfl
    have hread {steps : Nat} (hsteps : (p :: params).length < steps) :
        Parses c (commas ((p :: params).map LambdaParam.lexemes) ++ .mark .pipe :: rest)
          ((Grammar.upTo depth).lambdaParamsOnto .build p.type.isSome steps #[])
          (fun out : Array LambdaParam => out.toList.map LambdaParam.unplaced =
            (p :: params).map LambdaParam.unplaced) (.mark .pipe :: rest) :=
      lambdaParamsOnto hparams (List.cons_ne_nil _ _) hwell.last htyped hdepth hsteps hnone
    have hlength : (p :: params).length ≤
        (commas ((p :: params).map LambdaParam.lexemes)).length := by
      have hfull : ∀ row ∈ (p :: params).map LambdaParam.lexemes, row ≠ [] := by
        simp [LambdaParam.lexemes]
      have hle := Feed.length_commas hfull
      rwa [List.length_map] at hle
    rw [hmore] at hlength
    rw [hmore, List.cons_append] at hread ⊢
    refine check (ifTrue rfl (peek fun token htoken => listBound fun n hn => ?_))
    have htold : decide (token.kind = Symbol.colon) = p.type.isSome := by
      rw [htoken, Bool.eq_iff_iff, decide_eq_true_iff]
      exact hsecond
    have hsteps : (p :: params).length < n := by
      simp only [List.length_cons, List.length_append] at hn hlength ⊢
      omega
    rw [htold]
    refine (hread hsteps).bind fun out hout => .pure ⟨hout, ?_⟩
    simp

/-- A result behind an arrow, or `void` in its place. -/
theorem resultType {result : TypeExpr} {explicit : Bool} (hresult : result.Written c.inTrait)
    (hvoid : explicit = false → result.isVoid)
    (hdepth : explicit = true → result.lexemes.length < depth)
    (hrest : ¬IsTypeSuffix (headKind rest)) (harrow : headKind rest ≠ Symbol.arrow) :
    Parses c ((if explicit then .mark .arrow :: result.lexemes else []) ++ rest)
      ((Grammar.upTo depth).resultType .build) (Copies TypeExpr.unplaced result) rest := by
  cases explicit with
  | true => exact eat rfl (hresult.parses (hdepth rfl) hrest)
  | false =>
    obtain ⟨pos, rfl⟩ := hresult.eq_voidAt (hvoid rfl)
    exact eatNot harrow (position fun pos' => .pure rfl)

/-- A whole lambda. -/
theorem lambda {result : TypeExpr} {inference : Inference} {body : Block}
    (hparams : ∀ p ∈ params, p.Written c.inTrait) (hwell : LambdaParam.AllWellFormed params)
    (hresult : result.Written c.inTrait) (hfits : inference.Fits params result)
    (hbody : (Node.block body).Rewritten c.inTrait)
    (hdepth : 4 * (ExprForm.lexemes parenthesized (.lambda params result inference body)).length ≤
      depth) :
    Parses c (ExprForm.lexemes parenthesized (.lambda params result inference body) ++ rest)
      ((Grammar.upTo depth).lambda .build)
      (fun form : ExprForm => form.unplaced =
        (ExprForm.lambda params result inference body).unplaced) rest := by
  let arrow := if inference.hasResult then .mark .arrow :: result.lexemes else []
  have hrow : ExprForm.lexemes parenthesized (.lambda params result inference body) ++ rest =
      .mark .pipe :: (commas (params.map LambdaParam.lexemes) ++
        .mark .pipe :: (arrow ++ (body.lexemes parenthesized ++ rest))) := by
    simp [ExprForm.lexemes, arrow]
  simp only [ExprForm.lexemes, List.length_append, List.length_cons] at hdepth
  have hbodyRead := hbody.read c rfl depth (by omega) rest trivial
  have hbrace := body.headKind_append parenthesized rest
  have harrow : decide (headKind (arrow ++ (body.lexemes parenthesized ++ rest)) = Symbol.arrow) =
      inference.hasResult := by
    cases hhas : inference.hasResult with
    | true => simp [arrow, hhas, Lexeme.mark]
    | false => simp [arrow, hhas, hbrace]
  have hresultRead : Parses c (arrow ++ (body.lexemes parenthesized ++ rest))
      ((Grammar.upTo depth).resultType .build) (Copies TypeExpr.unplaced result)
      (body.lexemes parenthesized ++ rest) := by
    refine resultType hresult (fun hhas => ?_) (fun hhas => ?_) ?_ ?_
    · refine (hfits.result ?_).1
      cases inference <;> simp [Inference.hasResult] at hhas ⊢
    · rw [hhas, if_pos rfl, List.length_cons] at hdepth
      omega
    · rw [hbrace]
      decide
    · rw [hbrace]
      decide
  rw [hrow]
  have hsplit : Parses c (.mark .pipe :: (commas (params.map LambdaParam.lexemes) ++
      .mark .pipe :: (arrow ++ (body.lexemes parenthesized ++ rest)))) Grammar.splitBars
      (fun _ => True) (.mark .pipe :: (commas (params.map LambdaParam.lexemes) ++
        .mark .pipe :: (arrow ++ (body.lexemes parenthesized ++ rest)))) :=
    check (ifFalse Bool.false_ne_true (.pure trivial))
  refine hsplit.bind fun _ _ => mark rfl ?_
  refine (lambdaParams hparams hwell (by omega)).bind fun out hout => mark rfl (check ?_)
  rw [harrow]
  refine hresultRead.bind fun result' hresult' => hbodyRead.bind fun body' hbody' => .pure ?_
  show ExprForm.lambda (out.1.map LambdaParam.unplaced) result'.unplaced _ body'.unplaced = _
  rw [hout.1, hfits.eq_inferenceOf hout.2, show result'.unplaced = _ from hresult',
    show body'.unplaced = _ from hbody', ExprForm.unplaced]

end Parses

end ScriptFront
