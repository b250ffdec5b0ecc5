import ScriptFront.Proofs.Rewriting.Atoms

/-!
# Patterns and arms that are written anew

A pattern that begins with a name is read twice: whether a parenthesis follows the path tells a
variant apart. What is written of any other pattern tells by its first token what it is.

- `Parses.pathOpensParen`: the look ahead.
- `Pattern.rewritten`, `FieldPattern.rewritten`: patterns.
- `ExprArm.rewritten`, `NewItem.rewritten`: what lists in expressions are made of.
-/

namespace ScriptFront

open ScriptFront.Parser

/-! ## Paths -/

/-- A `::` chain begins as its leftmost operand does. -/
theorem Expr.chain_eq_head (e : Expr) :
    ∃ more, e.chain parenthesized = e.head.lexemes parenthesized ++ more := by
  induction e using Expr.head.induct with
  | case1 pos left right ih =>
    obtain ⟨more, hmore⟩ := ih
    rw [Expr.chain, Expr.head, hmore, List.append_assoc]
    exact ⟨_, rfl⟩
  | case2 pos form hform =>
    refine ⟨[], ?_⟩
    rw [Expr.chain, Expr.head, List.append_nil]
    · exact hform
    · exact hform

theorem Expr.IsNamePath.begins {e : Expr} (h : e.IsNamePath) :
    Begins (e.chain parenthesized) fun k => k = .identifier ∨ k = Symbol.colonColon := by
  obtain ⟨name, root, hhead⟩ := h
  obtain ⟨more, hrow⟩ := e.chain_eq_head
  rw [hrow, hhead]
  refine Begins.append ?_ more
  cases root with
  | false => exact ⟨_, _, rfl, .inl rfl⟩
  | true => exact ⟨_, _, rfl, .inr rfl⟩

theorem Expr.IsNamePath.isAtom {e : Expr} (h : e.IsNamePath) : e.head.isAtom := by
  obtain ⟨name, root, hhead⟩ := h
  rw [hhead]
  rfl

theorem Expr.IsConstant.isPath {e : Expr} (h : e.IsConstant) : e.IsPath := by
  rcases h with ⟨value, hhead⟩ | ⟨operand, hform⟩
  · exact .inl (hhead ▸ rfl)
  · exact .inr (hform ▸ rfl)

theorem Expr.IsConstant.begins {e : Expr} (h : e.IsConstant) :
    Begins (e.chain parenthesized) fun k => Grammar.startsLiteral k := by
  rcases h with ⟨value, hhead⟩ | ⟨operand, hform⟩
  · obtain ⟨more, hrow⟩ := e.chain_eq_head
    rw [hrow, hhead]
    refine Begins.append ⟨_, _, rfl, ?_⟩ more
    rcases value with (_ | _) | ⟨form, text⟩ | ⟨form, text⟩ | text | text | _ <;> rfl
  · obtain ⟨pos, form⟩ := e
    obtain rfl : form = .unary .neg .before operand := hform
    exact ⟨_, _, rfl, rfl⟩

namespace Expr.Rewritten

variable {c : Setting} {depth : Nat} {e : Expr} {rest : List Lexeme}

/-- A `::` chain is read back at the level of paths. -/
theorem chainParses (h : e.Rewritten c.inTrait) (hatom : e.head.isAtom)
    (hdepth : 4 * (e.chain parenthesized).length < depth) (hdetached : Detached rest)
    (hrest : Stops Level.path rest) :
    Parses c (e.chain parenthesized ++ rest) ((Grammar.upTo depth).expr .build Level.path)
      (Copies Expr.unplaced e) rest := by
  obtain ⟨depth, rfl⟩ : ∃ d, depth = d + 1 := ⟨depth - 1, by omega⟩
  have hspine := (h.chain hatom).spine c rfl depth (by omega)
  exact hspine.whole (Nat.le_refl _) ⟨hdetached, hrest⟩

/-- An expression that is a path is read back where paths are read. -/
theorem pathParses (h : e.Rewritten c.inTrait) (hpath : e.IsPath)
    (hdepth : 4 * (e.chain parenthesized).length < depth) (hdetached : Detached rest)
    (hrest : Stops Level.operand rest) :
    Parses c (e.chain parenthesized ++ rest) ((Grammar.upTo depth).expr .build Level.path)
      (Copies Expr.unplaced e) rest := by
  rcases hpath with hatom | hprefixed
  · exact h.chainParses hatom hdepth hdetached (hrest.mono (by decide))
  · obtain ⟨pos, form⟩ := e
    have hrow : Expr.chain parenthesized ⟨pos, form⟩ = Expr.lexemes parenthesized ⟨pos, form⟩ :=
      chain_eq (.inr hprefixed)
    rw [hrow] at hdepth ⊢
    obtain ⟨depth, rfl⟩ : ∃ d, depth = d + 1 := ⟨depth - 1, by omega⟩
    exact h.prefixed hprefixed c rfl depth (by omega) hrest

theorem legible_path {inTrait : Bool} (h : e.Rewritten inTrait) (hpath : e.IsPath) :
    Legible (e.chain parenthesized) := by
  rcases hpath with hatom | hprefixed
  · exact (h.chain hatom).legible
  · obtain ⟨pos, form⟩ := e
    have hrow : Expr.chain parenthesized ⟨pos, form⟩ = Expr.lexemes parenthesized ⟨pos, form⟩ :=
      chain_eq (.inr hprefixed)
    exact hrow ▸ h.legible

/-- A path is told apart from a pattern between brackets. -/
theorem begins_path {inTrait : Bool} (h : e.Rewritten inTrait) (hpath : e.IsPath) :
    Begins (e.chain parenthesized) fun k => k ≠ Symbol.lParen ∧ k ≠ Symbol.lBrace := by
  rcases hpath with hatom | hprefixed
  · exact (h.chain hatom).begins
  · obtain ⟨pos, form⟩ := e
    cases form with
    | unary op fixity operand =>
      cases fixity with
      | before => exact ⟨_, _, rfl, by cases op <;> exact ⟨nofun, nofun⟩⟩
      | behind => cases hprefixed
    | select subject arms => exact ⟨_, _, rfl, nofun, nofun⟩
    | _ => cases hprefixed

end Expr.Rewritten

/-! ## Patterns -/

section Rules

variable {c : Setting} {depth : Nat} {ts us rest : List Lexeme}

/-- The path at the current token is read, and the parser goes back to it. -/
theorem Parses.pathOpensParen {V : Expr → Prop}
    (h : Parses c ts ((Grammar.upTo depth).expr .build Level.path) V us) :
    Parses c ts (Grammar.upTo depth).pathOpensParen
      (fun opens => opens = decide (headKind us = Symbol.lParen)) ts := by
  refine Parses.save fun b hb => (checkedPart (.expr Level.path) h).attempt.bind fun r hr => ?_
  obtain ⟨a, rfl, -⟩ := hr
  exact Parses.check ((goBack hb).bind fun _ _ => .pure rfl)

/-- A pattern that begins with a name. -/
theorem Parses.namePattern {path : Expr} (hpath : path.Rewritten c.inTrait)
    (hname : path.IsNamePath)
    (hdepth : 4 * (path.chain parenthesized).length < depth) (hdetached : Detached rest)
    (hrest : Stops Level.path rest) {V : PatternForm → Prop}
    (hvariant : headKind rest = Symbol.lParen →
      Parses c (path.chain parenthesized ++ rest) ((Grammar.upTo depth).variantPattern .build) V us)
    (hliteral : headKind rest ≠ Symbol.lParen →
      Parses c (path.chain parenthesized ++ rest)
        ((Grammar.upTo depth).literalPattern .build) V us) :
    Parses c (path.chain parenthesized ++ rest) ((Grammar.upTo depth).patternForm .build) V us := by
  have hread := hpath.chainParses hname.isAtom hdepth hdetached hrest
  have hboth : Parses c (path.chain parenthesized ++ rest) (do
      if ← (Grammar.upTo depth).pathOpensParen then (Grammar.upTo depth).variantPattern .build
      else (Grammar.upTo depth).literalPattern .build : Parse Buffer (Yield .build PatternForm))
      V us := by
    refine (Parses.pathOpensParen hread).bind fun opens hopens => ?_
    subst hopens
    by_cases hparen : headKind rest = Symbol.lParen
    · exact Parses.ifTrue (decide_eq_true hparen) (hvariant hparen)
    · exact Parses.ifFalse (by simpa using hparen) (hliteral hparen)
  refine Parses.kind ?_
  rcases hname.begins.headKind rest with hk | hk
  · rw [hk]
    exact hboth
  · rw [hk]
    exact hboth

/-- A pattern that begins with a constant. -/
theorem Parses.constantPattern {V : PatternForm → Prop} (hk : Grammar.startsLiteral (headKind ts))
    (h : Parses c ts ((Grammar.upTo depth).literalPattern .build) V us) :
    Parses c ts ((Grammar.upTo depth).patternForm .build) V us := by
  refine Parses.kind ?_
  split
  case h_5 => exact Parses.ifTrue hk h
  all_goals
    next hkind =>
      rw [hkind] at hk
      exact absurd hk Bool.false_ne_true

/-- The items between the parentheses of a pattern. -/
theorem Parses.patternItems {items : List Expr} (h : ∀ e ∈ items, e.Rewritten c.inTrait)
    (hne : items ≠ [])
    (hdepth : 4 * (commas (Expr.rows parenthesized Level.path items)).length ≤ depth) :
    Parses c (commas (Expr.rows parenthesized Level.path items) ++ .mark .rParen :: rest)
      ((Grammar.upTo depth).patternItems .build)
      (fun out : List Expr => out.map Expr.unplaced = items.map Expr.unplaced) rest := by
  rw [Expr.rows_eq_map] at hdepth ⊢
  refine Parses.closedList (by decide) (by decide) hne (fun e _ => Expr.Rewritten.begins.ne_nil)
    fun e he => ?_
  have hlength := length_le_commas_map (f := Expr.part parenthesized Level.path) he
  exact (h e he).item (by omega) (by decide) rfl

end Rules

theorem FieldPattern.rows_eq_map (items : List FieldPattern) :
    FieldPattern.rows parenthesized items = items.map (FieldPattern.lexemes parenthesized) := by
  induction items with
  | nil => rfl
  | cons i items ih => rw [FieldPattern.rows, ih, List.map_cons]

theorem FieldPattern.begins (f : FieldPattern) :
    Begins (f.lexemes parenthesized) fun k => k = .identifier := by
  obtain ⟨pos, field, binding⟩ := f
  exact ⟨_, _, rfl, rfl⟩

theorem Pattern.IsBracketed.begins {p : Pattern} (h : p.IsBracketed) :
    Begins (p.lexemes parenthesized) fun k => k = Symbol.lBrace ∨ k = Symbol.lParen := by
  obtain ⟨pos, form⟩ := p
  rcases h with ⟨items, hform⟩ | ⟨items, hform⟩
  · obtain rfl : form = .fields items := hform
    exact ⟨_, _, rfl, .inl rfl⟩
  · obtain rfl : form = .tuple items := hform
    exact ⟨_, _, rfl, .inr rfl⟩

namespace Pattern

variable {inTrait : Bool} {pos : Position} {form : PatternForm} {c : Setting} {depth : Nat}
  {rest : List Lexeme}

/-- A pattern is read back if its form is. -/
theorem rewritten_of_form (hlegible : Legible (form.lexemes parenthesized))
    (h : ∀ c : Setting, c.inTrait = inTrait → ∀ depth, 4 * (form.lexemes parenthesized).length <
      depth → ∀ rest, Pattern.Ends ⟨pos, form⟩ rest → Parses c (form.lexemes parenthesized ++ rest)
        ((Grammar.upTo depth).patternForm .build) (Copies PatternForm.unplaced form) rest) :
    (Node.pattern ⟨pos, form⟩).Rewritten inTrait := by
  refine ⟨hlegible, fun c hc depth hdepth rest hrest => Parses.position fun pos' => ?_⟩
  refine (h c hc depth hdepth rest hrest).bind fun form' hform' => .pure ?_
  exact congrArg (Pattern.mk .start) hform'

/-- What follows a pattern without brackets ends an expression, too. -/
theorem Ends.stops (hrest : headKind rest = Symbol.arrow ∨ headKind rest = Symbol.eq) :
    Detached rest ∧ Stops Level.operand rest ∧ headKind rest ≠ Symbol.lParen := by
  refine ⟨⟨?_, ?_, ?_⟩, ⟨fun k hk => ?_, fun hlt => ?_⟩, ?_⟩
  all_goals rcases hrest with hrest | hrest
  all_goals first
    | rw [hrest]
      exact ⟨nofun, nofun⟩
    | rw [hrest]
      exact nofun
    | rw [hrest] at hlt
      exact absurd hlt nofun
    | skip
  · rw [hrest] at hk
    exact absurd hk nofun
  · rw [hrest] at hk
    obtain rfl : Continuation.binary .assign = k := Option.some.inj hk
    decide

theorem literal {value : Expr} (h : value.Rewritten inTrait)
    (hvalue : value.IsNamePath ∨ value.IsConstant) :
    (Node.pattern ⟨pos, .literal value⟩).Rewritten inTrait := by
  have hpath : value.IsPath := by
    rcases hvalue with hname | hconstant
    · exact .inl hname.isAtom
    · exact hconstant.isPath
  refine rewritten_of_form (h.legible_path hpath) ?_
  rintro c rfl depth hdepth rest hends
  have hrest : headKind rest = Symbol.arrow ∨ headKind rest = Symbol.eq := by
    rcases hends with (⟨items, hitems⟩ | ⟨items, hitems⟩) | hrest
    · cases hitems
    · cases hitems
    · exact hrest
  obtain ⟨hdetached, hstops, hparen⟩ := Ends.stops hrest
  have hread := h.pathParses hpath hdepth hdetached hstops
  have hliteral : Parses c (value.chain parenthesized ++ rest)
      ((Grammar.upTo depth).literalPattern .build) (Copies PatternForm.unplaced (.literal value))
      rest := hread.bind fun e he => .pure (congrArg PatternForm.literal he)
  rcases hvalue with hname | hconstant
  · exact Parses.namePattern h hname hdepth hdetached (hstops.mono (by decide))
      (fun hlParen => absurd hlParen hparen) fun _ => hliteral
  · exact Parses.constantPattern (hconstant.begins.headKind rest) hliteral

theorem variant {path : Expr} {items : List Expr} (hpath : path.Rewritten inTrait)
    (hname : path.IsNamePath) (hitems : ∀ e ∈ items, e.Rewritten inTrait) :
    (Node.pattern ⟨pos, .variant path items⟩).Rewritten inTrait := by
  refine rewritten_of_form ?_ ?_
  · rw [PatternForm.lexemes]
    simpa using ⟨hpath.legible_path (.inl hname.isAtom), fun e he => (hitems e he).legible⟩
  · rintro c rfl depth hdepth rest -
    rw [PatternForm.lexemes] at hdepth ⊢
    simp only [inParens, List.length_append, List.length_cons] at hdepth
    rw [List.append_assoc, inParens_append]
    have hdetached (us : List Lexeme) : Detached (.mark .lParen :: us) :=
      ⟨⟨nofun, nofun⟩, nofun, nofun⟩
    have hstops (us : List Lexeme) : Stops Level.path (.mark .lParen :: us) := by
      refine ⟨fun k hk => ?_, nofun⟩
      obtain rfl : Continuation.call = k := Option.some.inj hk
      decide
    refine Parses.namePattern hpath hname (by omega) (hdetached _) (hstops _) (fun _ => ?_)
      fun hparen => absurd rfl hparen
    refine (hpath.chainParses hname.isAtom (by omega) (hdetached _) (hstops _)).bind
      fun path' hpath' => Parses.mark rfl ?_
    have hpath' : path'.unplaced = path.unplaced := hpath'
    cases items with
    | nil =>
      refine Parses.eat rfl (.pure ?_)
      show PatternForm.variant path'.unplaced [] = _
      rw [hpath', PatternForm.unplaced]
      rfl
    | cons e items =>
      have hne : headKind (commas (Expr.rows parenthesized Level.path (e :: items)) ++
          .mark .rParen :: rest) ≠ Symbol.rParen := by
        rw [commas_rows, List.append_assoc, Expr.Rewritten.begins.headKind]
        exact nofun
      refine Parses.eatNot hne ?_
      refine (Parses.patternItems hitems (List.cons_ne_nil _ _) (by omega)).bind
        fun (out : List Expr) hout => .pure ?_
      show PatternForm.variant path'.unplaced (Expr.unplacedAll out) = _
      rw [PatternForm.unplaced, hpath', Expr.unplacedAll_eq_map, Expr.unplacedAll_eq_map, hout]

theorem tuple {items : List Expr} (h : ∀ e ∈ items, e.Rewritten inTrait) (hne : items ≠ []) :
    (Node.pattern ⟨pos, .tuple items⟩).Rewritten inTrait := by
  refine rewritten_of_form ?_ ?_
  · rw [PatternForm.lexemes]
    simpa using fun e he => (h e he).legible
  · rintro c rfl depth hdepth rest -
    rw [PatternForm.lexemes] at hdepth ⊢
    simp only [inParens, List.length_append, List.length_cons] at hdepth
    rw [inParens_append]
    refine Parses.kind (Parses.drop ?_)
    refine (Parses.patternItems h hne (by omega)).bind
      fun (out : List Expr) hout => .pure ?_
    show PatternForm.tuple (Expr.unplacedAll out) = _
    rw [PatternForm.unplaced, Expr.unplacedAll_eq_map, Expr.unplacedAll_eq_map, hout]

theorem fields {items : List FieldPattern}
    (h : ∀ f ∈ items, (Node.fieldPattern f).Rewritten inTrait) :
    (Node.pattern ⟨pos, .fields items⟩).Rewritten inTrait := by
  refine rewritten_of_form ?_ ?_
  · rw [PatternForm.lexemes, FieldPattern.rows_eq_map]
    simpa using fun f hf => (h f hf).legible
  · rintro c rfl depth hdepth rest -
    rw [PatternForm.lexemes, FieldPattern.rows_eq_map] at hdepth ⊢
    simp only [inBraces, List.length_append, List.length_cons] at hdepth
    rw [inBraces_append]
    have hitems (f : FieldPattern) (hf : f ∈ items) : Parses.Item c .rBrace
        ((Grammar.upTo depth).fieldPattern .build) (Copies FieldPattern.unplaced f)
        (f.lexemes parenthesized) := by
      have hlength := length_le_commas_map (f := FieldPattern.lexemes parenthesized) hf
      exact (h f hf).item rfl (by omega)
    refine Parses.kind (Parses.drop ?_)
    refine (Parses.openListOrEmpty (by decide : Symbol.rBrace ≠ .comma)
      (fun f _ => f.begins.mono (by rintro k rfl ⟨⟩)) hitems).bind
        fun (out : List FieldPattern) hout => .pure ?_
    show PatternForm.fields (FieldPattern.unplacedAll out) = _
    rw [PatternForm.unplaced, FieldPattern.unplacedAll_eq_map,
      FieldPattern.unplacedAll_eq_map, hout]

/-- A pattern is read back one step deeper in the grammar. -/
theorem parses {p : Pattern} (h : (Node.pattern p).Rewritten c.inTrait)
    (hdepth : 4 * (p.lexemes parenthesized).length + 1 < depth) (hrest : p.Ends rest) :
    Parses c (p.lexemes parenthesized ++ rest) ((Grammar.upTo depth).pattern .build)
      (Copies Pattern.unplaced p) rest := by
  obtain ⟨depth, rfl⟩ : ∃ d, depth = d + 1 := ⟨depth - 1, by omega⟩
  exact h.read c rfl depth (by omega) rest hrest

/-- A pattern whose parts are read back is read back. -/
theorem rewritten {V : Vocabulary} (hV : V.Writable) {p : Pattern}
    (here : (Node.pattern p).Writable V inTrait) (parts : ∀ m ∈ p.form.nodes, m.Rewritten inTrait) :
    (Node.pattern p).Rewritten inTrait := by
  obtain ⟨pos, form⟩ := p
  have hwell : form.WellFormed := here.wellFormed hV.firm
  have hwords : V.OfPattern form := here.spelled
  cases form with
  | literal value =>
    exact literal (parts (.expr value) (by simp [PatternForm.nodes])) (hwords hV.firm)
  | tuple items =>
    exact tuple (fun e he => parts (.expr e) (by simp [PatternForm.nodes, he])) hwell
  | variant path items =>
    exact variant (parts (.expr path) (by simp [PatternForm.nodes])) (hwords hV.firm) fun e he =>
      parts (.expr e) (by simp [PatternForm.nodes, he])
  | fields items =>
    exact fields fun f hf => parts (.fieldPattern f) (by simp [PatternForm.nodes, hf])

end Pattern

/-! ## What lists are made of -/

/-- Nothing that ends an item goes on with a path. -/
theorem EndsItem.stops {rest : List Lexeme} (h : EndsItem .rBrace rest) :
    Detached rest ∧ Stops Level.single rest ∧ headKind rest ≠ Symbol.colon := by
  refine ⟨⟨?_, ?_, ?_⟩, ⟨fun k hk => ?_, fun hlt => ?_⟩, ?_⟩
  all_goals rcases h with h | h
  all_goals first
    | rw [h]
      exact ⟨nofun, nofun⟩
    | rw [h]
      exact nofun
    | rw [h] at hlt
      exact absurd hlt nofun
    | skip
  · rw [h] at hk
    obtain rfl : Continuation.binary .comma = k := Option.some.inj hk
    decide
  · rw [h] at hk
    exact absurd hk nofun

section Items

variable {V : Vocabulary} {inTrait : Bool}

/-- A field whose pattern is read back is read back. -/
theorem FieldPattern.rewritten (hV : V.Writable) {f : FieldPattern}
    (here : (Node.fieldPattern f).Writable V inTrait)
    (parts : ∀ m ∈ f.binding.nodes, m.Rewritten inTrait) :
    (Node.fieldPattern f).Rewritten inTrait := by
  obtain ⟨pos, field, binding⟩ := f
  obtain ⟨hfield, htold⟩ := here.spelled
  have hname : Lexeme.WellFormed (.name field) := .name (hV.name hfield)
  have hplain {c : Setting} {depth : Nat} {rest : List Lexeme} (target : List Lexeme)
      (hcolon : headKind (target ++ rest) = Symbol.colon → ∃ more, target = .mark .colon :: more ∧
        Parses c (more ++ rest) ((Grammar.upTo depth).fieldTarget .build)
          (Copies FieldBinding.unplaced binding) rest)
      (hdirect : headKind (target ++ rest) ≠ Symbol.colon → target = [] ∧ binding = .direct) :
      Parses c (.name field :: target ++ rest) ((Grammar.upTo depth).fieldPattern .build)
        (Copies FieldPattern.unplaced ⟨pos, field, binding⟩) rest := by
    refine Parses.position fun pos' => Parses.expectIdentifier ?_
    by_cases hk : headKind (target ++ rest) = Symbol.colon
    · obtain ⟨more, rfl, hread⟩ := hcolon hk
      refine Parses.eat rfl (hread.bind fun target' htarget' => .pure ?_)
      exact congrArg (FieldPattern.mk .start field) htarget'
    · obtain ⟨rfl, rfl⟩ := hdirect hk
      exact Parses.eatNot hk (.pure rfl)
  cases binding with
  | direct =>
    refine ⟨by simpa [FieldPattern.lexemes, FieldBinding.lexemes] using hname, ?_⟩
    rintro c rfl depth hdepth rest hrest
    have hcolon := hrest.stops.2.2
    exact hplain [] (fun hk => absurd hk hcolon) fun _ => ⟨rfl, rfl⟩
  | indirect target =>
    have htarget : target.Rewritten inTrait := parts (.expr target) (by simp [FieldBinding.nodes])
    refine ⟨?_, ?_⟩
    · simpa [FieldPattern.lexemes, FieldBinding.lexemes] using ⟨hname, htarget.legible_path htold⟩
    rintro c rfl depth hdepth rest hrest
    simp only [FieldPattern.lexemes, FieldBinding.lexemes, List.length_cons] at hdepth
    obtain ⟨hdetached, hstops, -⟩ := hrest.stops
    refine hplain (.mark .colon :: target.chain parenthesized) (fun _ => ⟨_, rfl, ?_⟩)
      fun hk => absurd rfl hk
    obtain ⟨hlParen, hlBrace⟩ := (htarget.begins_path htold).headKind rest
    refine Parses.kind (Parses.ifFalse (by simp [hlParen, hlBrace]) ?_)
    refine (htarget.pathParses htold (by omega) hdetached (hstops.mono (by decide))).bind ?_
    exact fun e he => .pure (congrArg FieldBinding.indirect he)
  | nested pattern =>
    have hpattern : (Node.pattern pattern).Rewritten inTrait :=
      parts (.pattern pattern) (by simp [FieldBinding.nodes])
    refine ⟨?_, ?_⟩
    · simpa [FieldPattern.lexemes, FieldBinding.lexemes] using ⟨hname, hpattern.legible⟩
    rintro c rfl depth hdepth rest hrest
    simp only [FieldPattern.lexemes, FieldBinding.lexemes, List.length_cons] at hdepth
    refine hplain (.mark .colon :: pattern.lexemes parenthesized) (fun _ => ⟨_, rfl, ?_⟩)
      fun hk => absurd rfl hk
    have hopen := (Pattern.IsBracketed.begins htold).headKind rest
    refine Parses.kind (Parses.ifTrue (by simpa using hopen) ?_)
    refine (Pattern.parses hpattern (by omega) (.inl htold)).bind ?_
    exact fun p hp => .pure (congrArg FieldBinding.nested hp)

/-- A field whose value is read back is read back. -/
theorem NewItem.rewritten (hV : V.Writable) {i : NewItem}
    (here : (Node.newItem i).Writable V inTrait)
    (parts : ∀ m ∈ (Node.newItem i).parts, m.Rewritten inTrait) :
    (Node.newItem i).Rewritten inTrait := by
  obtain ⟨pos, name, value⟩ := i
  have hname : Lexeme.WellFormed (.name name) := .name (hV.name here.spelled)
  cases value with
  | none =>
    refine ⟨by simpa [NewItem.lexemes] using hname, ?_⟩
    rintro c rfl depth hdepth rest hrest
    refine Parses.position fun pos' => Parses.expectIdentifier ?_
    refine (Parses.absent (Parses.notEaten hrest.stops.2.2)).bind fun o ho => .pure ?_
    subst ho
    rfl
  | some value =>
    have hvalue : value.Rewritten inTrait := parts (.expr value) (by simp [Node.parts])
    refine ⟨by simpa [NewItem.lexemes] using ⟨hname, hvalue.legible⟩, ?_⟩
    rintro c rfl depth hdepth rest hrest
    simp only [NewItem.lexemes, List.length_cons] at hdepth
    refine Parses.position fun pos' => Parses.expectIdentifier ?_
    refine (Parses.present (Parses.takeChecked rfl)
      (hvalue.parses (by omega) (hrest.stops.2.1.mono (by decide)))).bind fun o ho => .pure ?_
    obtain ⟨e, rfl, he⟩ := ho
    have he : e.unplaced = value.unplaced := he
    show NewItem.mk .start name (some e.unplaced) = _
    rw [he, NewItem.unplaced]

/-- What an arm yields is read back. -/
theorem ArmBody.parses {c : Setting} {depth : Nat} {rest : List Lexeme} {body : ArmBody}
    (h : body.node.Rewritten c.inTrait) (hdepth : 4 * (body.lexemes parenthesized).length < depth)
    (hrest : Stops Level.single rest) :
    Parses c (body.lexemes parenthesized ++ rest) ((Grammar.upTo depth).armBody .build)
      (Copies ArmBody.unplaced body) rest := by
  cases body with
  | block body =>
    have hbrace := body.headKind_append parenthesized rest
    refine Parses.check (Parses.ifTrue (decide_eq_true hbrace) ?_)
    have hblock : (Node.block body).Rewritten c.inTrait := h
    exact (hblock.read c rfl depth hdepth rest trivial).bind fun b hb =>
      .pure (congrArg ArmBody.block hb)
  | expr value =>
    have hvalue : value.Rewritten c.inTrait := h
    have hparen : headKind (value.part parenthesized Level.single ++ rest) = Symbol.lParen :=
      Expr.Rewritten.begins.headKind rest
    have hbrace : ¬decide (headKind (value.part parenthesized Level.single ++ rest) =
        Symbol.lBrace) = true := by
      rw [hparen]
      decide
    refine Parses.check (Parses.ifFalse hbrace ?_)
    have hread := hvalue.parses (Nat.le_of_lt hdepth) hrest
    exact hread.bind fun e he => .pure (congrArg ArmBody.expr he)

theorem ArmBody.legible {body : ArmBody} (h : body.node.Rewritten inTrait) :
    Legible (body.lexemes parenthesized) := by
  cases body with
  | block body => exact Rereads.legible h
  | expr value =>
    have hvalue : value.Rewritten inTrait := h
    simpa [ArmBody.lexemes] using hvalue.legible

/-- An arm whose pattern and body are read back is read back. -/
theorem ExprArm.rewritten {a : ExprArm}
    (parts : ∀ m ∈ (Node.exprArm a).parts, m.Rewritten inTrait) :
    (Node.exprArm a).Rewritten inTrait := by
  obtain ⟨pos, pattern, body⟩ := a
  have hpattern : (Node.pattern pattern).Rewritten inTrait :=
    parts (.pattern pattern) (by simp [Node.parts])
  have hbody : body.node.Rewritten inTrait := parts body.node (by simp [Node.parts])
  have hlegible : Legible (ExprArm.lexemes parenthesized ⟨pos, pattern, body⟩) := by
    simpa [ExprArm.lexemes] using ⟨hpattern.legible, ArmBody.legible hbody⟩
  have hread {c : Setting} (hc : c.inTrait = inTrait) {depth : Nat}
      (hdepth : 4 * (ExprArm.lexemes parenthesized ⟨pos, pattern, body⟩).length < depth)
      {rest us : List Lexeme} (hrest : Stops Level.single rest)
      (hcomma : Parses c rest (Parser.eat Symbol.comma) (fun _ => True) us) :
      Parses c (ExprArm.lexemes parenthesized ⟨pos, pattern, body⟩ ++ rest)
        ((Grammar.upTo depth).exprArm .build)
          (Copies ExprArm.unplaced ⟨pos, pattern, body⟩) us := by
    subst hc
    simp only [ExprArm.lexemes, List.length_cons, List.length_append] at hdepth
    rw [ExprArm.lexemes, List.append_assoc, List.cons_append, List.cons_append]
    refine Parses.position fun pos' => Parses.mark rfl ?_
    refine (Pattern.parses hpattern (by omega) (.inr (.inl rfl))).bind fun p hp =>
      Parses.mark rfl ?_
    refine (ArmBody.parses hbody (by omega) hrest).bind fun b hb => ?_
    refine hcomma.bind fun _ _ => .pure ?_
    exact congr_arg₂ (ExprArm.mk .start) hp hb
  have hstops {rest : List Lexeme} (hrest : EndsItem .rBrace rest) := hrest.stops.2.1
  refine ⟨⟨hlegible, fun c hc depth hdepth rest hrest => ?_⟩,
    ⟨?_, fun c hc depth hdepth rest _ => ?_⟩⟩
  · refine hread hc hdepth (hstops (.inr hrest)) ((Parses.notEaten ?_).mono fun _ _ => trivial)
    rw [hrest]
    rintro ⟨⟩
  · simpa using hlegible
  · rw [List.length_append] at hdepth
    rw [List.append_assoc]
    exact hread hc (by omega) (hstops (.inl rfl)) ((Parses.takeChecked rfl).mono fun _ _ => trivial)

end Items

end ScriptFront
