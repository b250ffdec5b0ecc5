import ScriptFront.Proofs.Rewriting.Patterns

/-!
# Statements that are written anew

The conditions and values of statements stand in parentheses, so no statement begins with a name but
a label, and none that takes a value apart is mistaken for another one.

- `Parses.elseBlock`, `Parses.optionalExpr`, `Parses.variableBinding`, …: parts of statements.
- `VariableDecl.rewritten`: variables, wherever they are declared.
- `Stmt.rewritten`, `Block.rewritten`, …: a statement whose parts are read back is read back.
-/

namespace ScriptFront

open ScriptFront.Parser

/-! ## Rows -/

theorem StmtArm.rows_eq_map (arms : List StmtArm) :
    StmtArm.rows parenthesized arms = arms.map (StmtArm.lexemes parenthesized) := by
  induction arms with
  | nil => rfl
  | cons a arms ih => rw [StmtArm.rows, ih, List.map_cons]

theorem Stmt.row_eq_flatMap (statements : List Stmt) :
    Stmt.row parenthesized statements = statements.flatMap (Stmt.lexemes parenthesized) := by
  induction statements with
  | nil => rfl
  | cons s statements ih => rw [Stmt.row, ih, List.flatMap_cons]

theorem CatchClause.row_eq_flatMap (handlers : List CatchClause) :
    CatchClause.row parenthesized handlers =
      handlers.flatMap (CatchClause.lexemes parenthesized) := by
  induction handlers with
  | nil => rfl
  | cons h handlers ih => rw [CatchClause.row, ih, List.flatMap_cons]

theorem StmtArm.begins (a : StmtArm) :
    Begins (a.lexemes parenthesized) fun k => k = Keyword.whenKw := by
  obtain ⟨pos, pattern, body⟩ := a
  exact ⟨_, _, rfl, rfl⟩

theorem CatchClause.begins (h : CatchClause) :
    Begins (h.lexemes parenthesized) fun k => k = Keyword.catchKw := by
  obtain ⟨pos, type, name, body⟩ := h
  exact ⟨_, _, rfl, rfl⟩

theorem VariableDecl.begins (d : VariableDecl) :
    Begins (d.lexemes parenthesized) fun k => k = Keyword.letKw ∨ k = Keyword.constKw := by
  obtain ⟨pos, exported, constant, ownership, binding, type, init⟩ := d
  cases constant with
  | false => exact ⟨_, _, rfl, .inl rfl⟩
  | true => exact ⟨_, _, rfl, .inr rfl⟩

/-- No statement goes on with what stands in front of it, and none ends a block. -/
theorem Stmt.begins (s : Stmt) : Begins (s.lexemes parenthesized) fun k =>
    k ≠ Symbol.rBrace ∧ k ≠ Keyword.elseKw ∧ k ≠ Keyword.catchKw := by
  obtain ⟨pos, form⟩ := s
  cases form with
  | «variable» decl =>
    exact decl.begins.mono fun k hk => by rcases hk with rfl | rfl <;> exact ⟨nofun, nofun, nofun⟩
  | expr value =>
    exact (Expr.Rewritten.begins.append _).mono fun k hk => hk ▸ ⟨nofun, nofun, nofun⟩
  | _ => exact ⟨_, _, rfl, nofun, nofun, nofun⟩

/-! ## Parts of statements -/

namespace Parses

variable {c : Setting} {depth : Nat} {rest us : List Lexeme} {V : Vocabulary}

/-- The block behind `else`, if there is one. -/
theorem elseBlock {body : Option Block} (h : ∀ b ∈ body, (Node.block b).Rewritten c.inTrait)
    (hdepth : 4 * (Block.elseLexemes parenthesized body).length < depth)
    (hrest : headKind rest ≠ Keyword.elseKw) :
    Parses c (Block.elseLexemes parenthesized body ++ rest) ((Grammar.upTo depth).elseBlock .build)
      (Copies Block.unplaced? body) rest := by
  cases body with
  | none => exact (absent (notEaten hrest)).mono fun o ho => ho ▸ rfl
  | some b =>
    have hb := h b rfl
    rw [Block.elseLexemes, List.length_cons] at hdepth
    refine (present (takeChecked rfl) (hb.read c rfl depth (by omega) rest trivial)).mono ?_
    rintro _ ⟨b', rfl, hb'⟩
    exact congrArg some hb'

/-- An expression in front of a token that no expression goes on with, if there is one. -/
theorem optionalExpr {value : Option Expr} {k : TokenKind}
    (h : ∀ e ∈ value, e.Rewritten c.inTrait)
    (hdepth : 4 * (Expr.lexemes? parenthesized value).length ≤ depth) (hrest : headKind rest = k)
    (hnone : Continuation.ofKind? k = none) :
    Parses c (Expr.lexemes? parenthesized value ++ rest)
      (Parser.optionally (Parser.checkNot k) ((Grammar.upTo depth).expr .build Level.chain) :
        Parse Buffer (Yield .build (Option Expr))) (Copies Expr.unplaced? value) rest := by
  cases value with
  | none =>
    have htest : Parses c rest (Parser.checkNot k) (fun b => b = false) rest :=
      checkedNot.mono fun b hb => by rw [hb, decide_eq_true hrest, Bool.not_true]
    exact (absent htest).mono fun o ho => ho ▸ rfl
  | some e =>
    have he := h e rfl
    have hopen : headKind (e.part parenthesized Level.chain ++ rest) ≠ k := by
      rw [Expr.Rewritten.begins.headKind rest]
      rintro rfl
      exact absurd hnone nofun
    have htest : Parses c (e.part parenthesized Level.chain ++ rest) (Parser.checkNot k)
        (fun b => b = true) (e.part parenthesized Level.chain ++ rest) :=
      checkedNot.mono fun b hb => by rw [hb, decide_eq_false hopen, Bool.not_false]
    refine (present htest (he.parses hdepth (.of_none (hrest ▸ hnone) _))).mono ?_
    rintro _ ⟨e', rfl, he'⟩
    exact congrArg some he'

/-- `ref`, `shared`, or neither. -/
theorem ownership (o : Ownership) (hrest : o = .owned →
    headKind rest ≠ Keyword.refKw ∧ headKind rest ≠ Keyword.sharedKw) :
    Parses c (o.lexemes ++ rest) Grammar.ownership (fun o' => o' = o) rest := by
  cases o with
  | ref => exact kind (drop (pure rfl))
  | shared => exact kind (drop (pure rfl))
  | owned =>
    obtain ⟨href, hshared⟩ := hrest rfl
    refine kind ?_
    show Parses c rest _ _ rest
    split
    · next hk => exact absurd hk href
    · next hk => exact absurd hk hshared
    · exact pure rfl

/-- What a declaration names. -/
theorem variableBinding {b : Binding} {destructures : Bool}
    (hdeclared : V.Declared b) (hnamed : destructures = false → b.IsNamed)
    (h : ∀ m ∈ b.nodes, m.Rewritten c.inTrait)
    (hdepth : 4 * (b.lexemes parenthesized).length + 1 < depth) :
    Parses c (b.lexemes parenthesized ++ rest)
      ((Grammar.upTo depth).variableBinding .build destructures) (Copies Binding.unplaced b)
      rest := by
  cases b with
  | named name =>
    refine kind (ifTrue rfl ?_)
    have htake : Parses c (.name name :: rest) Parser.expectIdentifier (fun a => a = name) rest :=
      takeName
    exact htake.bind fun a ha => pure (ha ▸ rfl)
  | destructured pattern =>
    have hpattern : (Node.pattern pattern).Rewritten c.inTrait :=
      h (.pattern pattern) (by simp [Binding.nodes])
    have hopen := (Pattern.IsBracketed.begins hdeclared).headKind rest
    have hdestructures : destructures = true := by
      cases destructures with
      | true => rfl
      | false => exact absurd (hnamed rfl) (by rintro ⟨⟩)
    rw [Binding.lexemes]
    refine kind (ifFalse ?_ (ifFalse (by simp [hdestructures]) (ifTrue (by simpa using hopen) ?_)))
    · rcases hopen with hopen | hopen
      · exact fun hk => absurd (hk.symm.trans hopen) (by rintro ⟨⟩)
      · exact fun hk => absurd (hk.symm.trans hopen) (by rintro ⟨⟩)
    · refine (Pattern.parses hpattern hdepth (.inl hdeclared)).bind fun p hp => pure ?_
      exact congrArg Binding.destructured hp

/-- A token of one of some kinds. -/
theorem expectOneOf {α : Type} {l : Lexeme} {kinds : List TokenKind} {f : Token → Parse Buffer α}
    {W : α → Prop} (hl : kinds.contains l.kind)
    (h : ∀ token, token.kind = l.kind → Parses c rest (f token) W us) :
    Parses c (l :: rest) (Parser.expectOneOf kinds >>= f) W us := by
  have htake : Parses c (l :: rest) (Parser.expectOneOf kinds) (fun t => t.kind = l.kind) rest :=
    kind (ifTrue hl (take.mono fun t ht => ht.1))
  exact htake.bind h

/-- The value of a variable, which there has to be if it is needed. -/
theorem initialValue {init : Option Expr} {needed : Bool} (h : ∀ e ∈ init, e.Rewritten c.inTrait)
    (hneeded : init = none → needed = false)
    (hdepth : 4 * (Expr.initLexemes parenthesized init).length ≤ depth) :
    Parses c (Expr.initLexemes parenthesized init ++ .mark .semicolon :: rest)
      (Parser.optionally (return needed || decide (headKind
          (Expr.initLexemes parenthesized init ++ .mark .semicolon :: rest) = Symbol.eq))
        ((Grammar.upTo depth).initialValue .build) : Parse Buffer (Yield .build (Option Expr)))
      (Copies Expr.unplaced? init) (.mark .semicolon :: rest) := by
  cases init with
  | none =>
    rw [hneeded rfl]
    exact (absent (pure rfl)).mono fun o ho => ho ▸ rfl
  | some e =>
    have he := h e rfl
    rw [Expr.initLexemes, List.length_cons] at hdepth
    have hread : Parses c (.mark .eq :: (e.part parenthesized Level.single ++
        .mark .semicolon :: rest)) ((Grammar.upTo depth).initialValue .build)
        (Copies Expr.unplaced e) (.mark .semicolon :: rest) :=
      mark rfl (he.parses (by omega) (.of_none rfl _))
    refine (present (pure (Bool.or_true needed)) hread).mono ?_
    rintro _ ⟨e', rfl, he'⟩
    exact congrArg some he'

/-- A type that a colon stands before, and where `void` is rejected. -/
theorem variableType {t : TypeExpr} (ht : t.Written c.inTrait) (hvoid : t.isVoid = false)
    (hdepth : t.lexemes.length < depth) (hrest : ¬IsTypeSuffix (headKind rest)) :
    Parses c (t.lexemes ++ rest) ((Grammar.upTo depth).variableType .build)
      (Copies TypeExpr.unplaced t) rest := ht.parsesValue hvoid .variable hdepth hrest

/-- What a `for` loop starts with. -/
theorem forInit {init : Option ForInit} (h : ∀ i ∈ init, i.value.Rewritten c.inTrait)
    (hdepth : 4 * (ForInit.lexemes? parenthesized init).length ≤ depth) :
    Parses c (ForInit.lexemes? parenthesized init ++ .mark .semicolon :: rest)
      ((Grammar.upTo depth).forInit .build) (Copies ForInit.unplaced? init)
      (.mark .semicolon :: rest) := by
  rcases init with _ | ⟨pos, name, value⟩ | value
  · exact kind (ifTrue rfl (pure rfl))
  · have hvalue : value.Rewritten c.inTrait := h _ rfl
    simp only [ForInit.lexemes?, ForInit.lexemes, List.length_cons] at hdepth
    have hne : (Keyword.letKw : TokenKind) ≠ Symbol.semicolon := nofun
    refine kind (ifFalse hne (ifTrue rfl (position fun pos' => drop ?_)))
    refine expectIdentifier (mark rfl ?_)
    refine (hvalue.parses (by omega) (.of_none rfl _)).bind fun e he => pure ?_
    exact congrArg (fun value => some (ForInit.bind .start name value)) he
  · have hvalue : value.Rewritten c.inTrait := h _ rfl
    simp only [ForInit.lexemes?, ForInit.lexemes] at hdepth ⊢
    have hopen : headKind (value.part parenthesized Level.chain ++ .mark .semicolon :: rest) =
        Symbol.lParen := Expr.Rewritten.begins.headKind _
    refine kind (ifFalse ?_ (ifFalse ?_ ?_))
    · rw [hopen]
      exact nofun
    · rw [hopen]
      exact nofun
    · refine (hvalue.parses hdepth (.of_none rfl _)).bind fun e he => pure ?_
      exact congrArg (fun value => some (ForInit.expr value)) he

end Parses

/-! ## Variables -/

section Variables

variable {V : Vocabulary} {inTrait : Bool}

theorem Binding.legible (hV : V.Writable) {b : Binding} (hdeclared : V.Declared b)
    (h : ∀ m ∈ b.nodes, m.Rewritten inTrait) : Legible (b.lexemes parenthesized) := by
  cases b with
  | named name => simpa [Binding.lexemes] using Lexeme.WellFormed.name (hV.name hdeclared)
  | destructured pattern => exact Rereads.legible (h (.pattern pattern) (by simp [Binding.nodes]))

theorem Ownership.legible (o : Ownership) : Legible o.lexemes := by
  cases o <;> simp [Ownership.lexemes]

theorem Binding.begins {b : Binding} (hdeclared : V.Declared b) :
    ScriptFront.Begins (b.lexemes parenthesized) fun k =>
      k = .identifier ∨ k = Symbol.lBrace ∨ k = Symbol.lParen := by
  cases b with
  | named name => exact ⟨_, _, rfl, .inl rfl⟩
  | destructured pattern => exact (Pattern.IsBracketed.begins hdeclared).mono fun k hk => .inr hk

/-- A variable whose parts are read back is read back. -/
theorem VariableDecl.rewritten (hV : V.Writable) {d : VariableDecl}
    (here : (Node.variable d).Writable V inTrait)
    (parts : ∀ m ∈ (Node.variable d).parts, m.Rewritten inTrait) :
    (Node.variable d).Rewritten inTrait := by
  obtain ⟨pos, exported, constant, ownership, binding, type, init⟩ := d
  have hdeclared : V.Declared binding := here.spelled
  have hvoid : ∀ t ∈ type, t.isVoid = false := here.voidsPlaced
  have hwell : constant ∨ type = none → init.isSome := here.wellFormed hV.firm
  have hbinding : ∀ m ∈ binding.nodes, m.Rewritten inTrait := fun m hm =>
    parts m (by simp [Node.parts, hm])
  have htype : ∀ t ∈ type, t.Written inTrait := fun t ht => parts (.type t) (by
    obtain rfl : type = some t := ht
    simp [Node.parts])
  have hinit : ∀ e ∈ init, e.Rewritten inTrait := fun e he => parts (.expr e) (by
    obtain rfl : init = some e := he
    simp [Node.parts])
  intro destructures hnamed
  refine ⟨?_, ?_⟩
  · have htypeLegible : Legible (markedType .colon type) := by
      cases type with
      | none => exact .nil
      | some t => simpa [markedType] using (htype t rfl).legible
    have hinitLegible : Legible (Expr.initLexemes parenthesized init) := by
      cases init with
      | none => exact .nil
      | some e => simpa [Expr.initLexemes] using (hinit e rfl).legible
    rw [VariableDecl.lexemes]
    simp only [Legible.append_iff, Legible.cons_iff, Lexeme.WellFormed.word, Lexeme.WellFormed.mark,
      true_and, Legible.nil, and_true]
    exact ⟨⟨⟨ownership.legible, Binding.legible hV hdeclared hbinding⟩, htypeLegible⟩, hinitLegible⟩
  · rintro c rfl depth hdepth rest -
    simp only [VariableDecl.lexemes, List.length_append, List.length_cons] at hdepth
    have hrow : VariableDecl.lexemes parenthesized
        ⟨pos, exported, constant, ownership, binding, type, init⟩ ++ rest =
        .word (if constant then .constKw else .letKw) :: (ownership.lexemes ++
          (binding.lexemes parenthesized ++ (markedType .colon type ++
            (Expr.initLexemes parenthesized init ++ .mark .semicolon :: rest)))) := by
      simp [VariableDecl.lexemes]
    have hkeyword : [(Keyword.letKw : TokenKind), Keyword.constKw].contains
        (Lexeme.word (if constant then .constKw else .letKw)).kind := by cases constant <;> decide
    have hconstant : decide ((Lexeme.word (if constant then .constKw else .letKw)).kind =
        Keyword.constKw) = constant := by cases constant <;> decide
    have hopen := (Binding.begins hdeclared).headKind (markedType .colon type ++
      (Expr.initLexemes parenthesized init ++ .mark .semicolon :: rest))
    rw [hrow]
    refine Parses.position fun pos' => Parses.expectOneOf hkeyword fun token htoken => ?_
    rw [htoken]
    dsimp only
    rw [hconstant]
    refine (Parses.ownership ownership fun _ => ?_).bind fun o ho => ?_
    · rcases hopen with hk | hk | hk <;> rw [hk] <;> exact ⟨by rintro ⟨⟩, by rintro ⟨⟩⟩
    subst ho
    refine (Parses.variableBinding hdeclared hnamed hbinding (by omega)).bind fun b hb => ?_
    have hb : b.unplaced = binding.unplaced := hb
    have hfinish {needed : Bool} (hneeded : init = none → needed = false) (type' : Option TypeExpr)
        (htype' : type'.map TypeExpr.unplaced = type.map TypeExpr.unplaced) :
        Parses c (Expr.initLexemes parenthesized init ++ .mark .semicolon :: rest) (do
          let assigned ← Parser.check Symbol.eq
          let init ← Parser.optionally (return needed || assigned)
            ((Grammar.upTo depth).initialValue .build)
          Parser.mark Symbol.semicolon
          return VariableDecl.mk pos' exported constant o <$> b <*> Pure.pure type' <*> init :
            Parse Buffer (Yield .build VariableDecl))
          (Copies VariableDecl.unplaced
            ⟨pos, exported, constant, o, binding, type, init⟩) rest := by
      refine Parses.check ((Parses.initialValue hinit hneeded (by omega)).bind fun i hi =>
        Parses.mark rfl (.pure ?_))
      have hi : Expr.unplaced? i = Expr.unplaced? init := hi
      show VariableDecl.mk .start exported constant o b.unplaced (type'.map TypeExpr.unplaced)
        (Expr.unplaced? i) = _
      rw [hb, htype', hi, VariableDecl.unplaced]
    cases type with
    | none =>
      have hsome := hwell (.inr rfl)
      have hcolon : headKind (Expr.initLexemes parenthesized init ++ .mark .semicolon :: rest) ≠
          Symbol.colon := by
        cases init with
        | none => rintro ⟨⟩
        | some e => rintro ⟨⟩
      refine Parses.eatNot hcolon ((Parses.absent (.pure rfl)).bind fun t ht => ?_)
      subst ht
      exact hfinish (fun hnone => absurd hsome (by simp [hnone])) none rfl
    | some t =>
      have hsuffix : ¬IsTypeSuffix (headKind (Expr.initLexemes parenthesized init ++
          .mark .semicolon :: rest)) := by
        cases init with
        | none => exact not_isTypeSuffix_cons (by decide) _
        | some e => exact not_isTypeSuffix_cons (by decide) _
      rw [markedType, List.length_cons] at hdepth
      refine Parses.eat rfl ((Parses.present (.pure rfl) (Parses.variableType (htype t rfl)
        (hvoid t rfl) (by omega) hsuffix)).bind fun o ho => ?_)
      obtain ⟨t', rfl, ht'⟩ := ho
      refine hfinish (fun hnone => ?_) (some t') (congrArg some ht')
      cases constant with
      | false => rfl
      | true => exact absurd (hwell (.inl rfl)) (by simp [hnone])

end Variables

/-! ## Blocks -/

/-- No expression goes on with a block. -/
theorem Block.stops (b : Block) (rest : List Lexeme) (level : Nat) :
    Stops level (b.lexemes parenthesized ++ rest) :=
  .of_none (by rw [b.headKind_append]; rfl) level

/-- A block whose statements are read back is read back. -/
theorem Block.rewritten {inTrait : Bool} {b : Block}
    (parts : ∀ s ∈ b.statements, (Node.stmt s).Rewritten inTrait) :
    (Node.block b).Rewritten inTrait := by
  obtain ⟨pos, statements⟩ := b
  refine ⟨?_, ?_⟩
  · rw [Block.lexemes, Stmt.row_eq_flatMap]
    simpa using fun s hs => (parts s hs).legible
  · rintro c rfl depth hdepth rest -
    rw [Block.lexemes, Stmt.row_eq_flatMap] at hdepth ⊢
    simp only [inBraces, List.length_append, List.length_cons] at hdepth
    obtain ⟨depth, rfl⟩ : ∃ d, depth = d + 1 := ⟨depth - 1, by omega⟩
    rw [inBraces_append]
    have htest (ts : List Lexeme) : Parses c ts (Parser.checkNot Symbol.rBrace)
        (fun b => b = !decide (headKind ts = Symbol.rBrace)) ts := Parses.checkedNot
    have hgo (s : Stmt) (_ : s ∈ statements) (us : List Lexeme) :
        EndsStmt (s.lexemes parenthesized ++ us) ∧
        Parses c (s.lexemes parenthesized ++ us) (Parser.checkNot Symbol.rBrace)
          (fun b => b = true) (s.lexemes parenthesized ++ us) := by
      obtain ⟨hbrace, hends⟩ := s.begins.headKind us
      exact ⟨hends, (htest _).mono fun b hb => by rw [hb, decide_eq_false hbrace, Bool.not_false]⟩
    have hread (s : Stmt) (hs : s ∈ statements) (us : List Lexeme) (hus : EndsStmt us) :
        Parses c (s.lexemes parenthesized ++ us) ((Grammar.upTo (depth + 1)).statement .build)
          (Copies Stmt.unplaced s) us := by
      have hlength := length_le_flatMap (f := Stmt.lexemes parenthesized) hs
      exact (parts s hs).read c rfl depth (by omega) us hus
    have hstop : Parses c (.mark .rBrace :: rest) (Parser.checkNot Symbol.rBrace)
        (fun b => b = false) (.mark .rBrace :: rest) := (htest _).mono fun b hb => hb
    have hends : EndsStmt (.mark .rBrace :: rest) := ⟨by rintro ⟨⟩, by rintro ⟨⟩⟩
    refine Parses.position fun pos' => Parses.mark rfl ?_
    refine (Parses.listWhile (fun s _ => s.begins.ne_nil) hgo hread hends hstop).bind
      fun (out : List Stmt) hout => Parses.drop (.pure ?_)
    show Block.mk .start (Stmt.unplacedAll out) = _
    rw [Block.unplaced, Stmt.unplacedAll_eq_map, Stmt.unplacedAll_eq_map, hout]

/-! ## Arms and handlers -/

/-- An arm whose pattern and block are read back is read back. -/
theorem StmtArm.rewritten {inTrait : Bool} {a : StmtArm}
    (parts : ∀ m ∈ (Node.stmtArm a).parts, m.Rewritten inTrait) :
    (Node.stmtArm a).Rewritten inTrait := by
  obtain ⟨pos, pattern, body⟩ := a
  have hpattern : (Node.pattern pattern).Rewritten inTrait :=
    parts (.pattern pattern) (by simp [Node.parts])
  have hbody : (Node.block body).Rewritten inTrait := parts (.block body) (by simp [Node.parts])
  refine ⟨by simpa [StmtArm.lexemes] using ⟨hpattern.legible, hbody.legible⟩, ?_⟩
  rintro c rfl depth hdepth rest -
  simp only [StmtArm.lexemes, List.length_cons, List.length_append] at hdepth
  rw [StmtArm.lexemes, List.append_assoc, List.cons_append, List.cons_append]
  refine Parses.position fun pos' => Parses.mark rfl ?_
  refine (Pattern.parses hpattern (by omega) (.inr (.inl rfl))).bind fun p hp => Parses.mark rfl ?_
  refine (hbody.read c rfl depth (by omega) rest trivial).bind fun b hb => .pure ?_
  exact congr_arg₂ (StmtArm.mk .start) hp hb

/-- A handler whose type and block are read back is read back. -/
theorem CatchClause.rewritten {V : Vocabulary} (hV : V.Writable) {inTrait : Bool} {h : CatchClause}
    (here : (Node.handler h).Writable V inTrait)
    (parts : ∀ m ∈ (Node.handler h).parts, m.Rewritten inTrait) :
    (Node.handler h).Rewritten inTrait := by
  obtain ⟨pos, type, name, body⟩ := h
  have hvoid : type.isVoid = false := here.voidsPlaced
  have hname : Lexeme.WellFormed (.name name) := .name (hV.name here.spelled)
  have htype : type.Written inTrait := parts (.type type) (by simp [Node.parts])
  have hbody : (Node.block body).Rewritten inTrait := parts (.block body) (by simp [Node.parts])
  refine ⟨by simpa [CatchClause.lexemes] using ⟨⟨htype.legible, hname⟩, hbody.legible⟩, ?_⟩
  rintro c rfl depth hdepth rest -
  simp only [CatchClause.lexemes, inParens, List.length_cons, List.length_append] at hdepth
  have hrow : CatchClause.lexemes parenthesized ⟨pos, type, name, body⟩ ++ rest =
      .word .catchKw :: .mark .lParen :: (type.lexemes ++ .name name :: .mark .rParen ::
        (body.lexemes parenthesized ++ rest)) := by
    simp [CatchClause.lexemes, inParens]
  rw [hrow]
  refine Parses.position fun pos' => Parses.mark rfl (Parses.mark rfl ?_)
  refine (htype.parsesValue hvoid .value (by omega) (not_isTypeSuffix_cons ?_ _)).bind fun t ht =>
    Parses.expectIdentifier (Parses.mark rfl ?_)
  · exact (by decide : ¬IsTypeSuffix .identifier)
  · refine (hbody.read c rfl depth (by omega) rest trivial).bind fun b hb => .pure ?_
    have ht : t.unplaced = type.unplaced := ht
    have hb : b.unplaced = body.unplaced := hb
    show CatchClause.mk .start t.unplaced name b.unplaced = _
    rw [ht, hb, CatchClause.unplaced]

/-! ## Statements -/

section Legible

variable {inTrait : Bool}

theorem Block.legible_else {body : Option Block}
    (h : ∀ b ∈ body, (Node.block b).Rewritten inTrait) :
    Legible (Block.elseLexemes parenthesized body) := by
  cases body with
  | none => exact .nil
  | some b => simpa [Block.elseLexemes] using (h b rfl).legible

theorem Expr.legible_optional {value : Option Expr} (h : ∀ e ∈ value, e.Rewritten inTrait) :
    Legible (Expr.lexemes? parenthesized value) := by
  cases value with
  | none => exact .nil
  | some e => simpa [Expr.lexemes?] using (h e rfl).legible

theorem ForInit.legible {V : Vocabulary} (hV : V.Writable) {init : Option ForInit}
    (hname : ∀ i ∈ init, V.OfInit i) (h : ∀ i ∈ init, i.value.Rewritten inTrait) :
    Legible (ForInit.lexemes? parenthesized init) := by
  rcases init with _ | ⟨pos, name, value⟩ | value
  · exact .nil
  · have hname : V.Name name := hname _ rfl
    have hvalue : value.Rewritten inTrait := h _ rfl
    simpa [ForInit.lexemes?, ForInit.lexemes] using ⟨Lexeme.WellFormed.name (hV.name hname),
      hvalue.legible⟩
  · have hvalue : value.Rewritten inTrait := h _ rfl
    simpa [ForInit.lexemes?, ForInit.lexemes] using hvalue.legible

end Legible

/-- A form of statement is read back. -/
abbrev StmtForm.Rewritten (inTrait : Bool) (form : StmtForm) : Prop :=
  Rereads inTrait (form.lexemes parenthesized) (·.stmtForm .build) (Copies StmtForm.unplaced form)
    EndsStmt

namespace StmtForm.Rewritten

variable {inTrait : Bool}

-- Each form below is read from a row of its own: the rows are unfolded once, for all of them.
attribute [local simp] StmtForm.lexemes

theorem branch {condition : Expr} {consequence : Block} {alternative : Option Block}
    (hcondition : condition.Rewritten inTrait)
    (hconsequence : (Node.block consequence).Rewritten inTrait)
    (halternative : ∀ b ∈ alternative, (Node.block b).Rewritten inTrait) :
    StmtForm.Rewritten inTrait (.branch condition consequence alternative) := by
  refine ⟨by simpa using
    ⟨hcondition.legible, hconsequence.legible, Block.legible_else halternative⟩, ?_⟩
  rintro c rfl depth hdepth rest hrest
  simp only [StmtForm.lexemes, List.length_cons, List.length_append] at hdepth
  rw [StmtForm.lexemes, List.append_assoc, List.append_assoc, List.cons_append]
  refine Parses.kind (Parses.peek fun token htoken => Parses.ifFalse ?_ (Parses.mark rfl ?_))
  · rw [htoken, Expr.Rewritten.begins.headKind]
    exact nofun
  · refine (hcondition.parses (by omega) (consequence.stops _ _)).bind fun e he => ?_
    refine (hconsequence.read c rfl depth (by omega) _ trivial).bind fun b hb => ?_
    refine (Parses.elseBlock halternative (by omega) hrest.1).bind fun o ho => .pure ?_
    have he : e.unplaced = condition.unplaced := he
    have hb : b.unplaced = consequence.unplaced := hb
    have ho : Block.unplaced? o = Block.unplaced? alternative := ho
    show StmtForm.branch e.unplaced b.unplaced (Block.unplaced? o) = _
    rw [he, hb, ho, StmtForm.unplaced]

theorem branchOn {pattern : Pattern} {value : Expr} {consequence : Block}
    {alternative : Option Block} (hpattern : (Node.pattern pattern).Rewritten inTrait)
    (hvalue : value.Rewritten inTrait)
    (hconsequence : (Node.block consequence).Rewritten inTrait)
    (halternative : ∀ b ∈ alternative, (Node.block b).Rewritten inTrait) :
    StmtForm.Rewritten inTrait (.branchOn pattern value consequence alternative) := by
  refine ⟨by simpa using
    ⟨hpattern.legible, hvalue.legible, hconsequence.legible, Block.legible_else halternative⟩, ?_⟩
  rintro c rfl depth hdepth rest hrest
  simp only [StmtForm.lexemes, List.length_cons, List.length_append] at hdepth
  have hrow : StmtForm.lexemes parenthesized (.branchOn pattern value consequence alternative) ++
      rest = .word .ifKw :: .word .letKw :: (pattern.lexemes parenthesized ++ .mark .eq ::
        (value.part parenthesized Level.chain ++ (consequence.lexemes parenthesized ++
          (Block.elseLexemes parenthesized alternative ++ rest)))) := by
    simp
  rw [hrow]
  refine Parses.kind (Parses.peek fun token htoken => Parses.ifTrue htoken ?_)
  refine Parses.mark rfl (Parses.mark rfl ?_)
  refine (Pattern.parses hpattern (by omega) (.inr (.inr rfl))).bind fun p hp => Parses.mark rfl ?_
  refine (hvalue.parses (by omega) (consequence.stops _ _)).bind fun e he => ?_
  refine (hconsequence.read c rfl depth (by omega) _ trivial).bind fun b hb => ?_
  refine (Parses.elseBlock halternative (by omega) hrest.1).bind fun o ho => .pure ?_
  have hp : p.unplaced = pattern.unplaced := hp
  have he : e.unplaced = value.unplaced := he
  have hb : b.unplaced = consequence.unplaced := hb
  have ho : Block.unplaced? o = Block.unplaced? alternative := ho
  show StmtForm.branchOn p.unplaced e.unplaced b.unplaced (Block.unplaced? o) = _
  rw [hp, he, hb, ho, StmtForm.unplaced]

theorem forLoop {init : Option ForInit} {condition update : Option Expr} {body : Block}
    (hinits : Legible (ForInit.lexemes? parenthesized init))
    (hinit : ∀ i ∈ init, i.value.Rewritten inTrait)
    (hcondition : ∀ e ∈ condition, e.Rewritten inTrait)
    (hupdate : ∀ e ∈ update, e.Rewritten inTrait)
    (hbody : (Node.block body).Rewritten inTrait) :
    StmtForm.Rewritten inTrait (.forLoop init condition update body) := by
  refine ⟨by simpa using
    ⟨hinits, Expr.legible_optional hcondition, Expr.legible_optional hupdate, hbody.legible⟩, ?_⟩
  rintro c rfl depth hdepth rest -
  simp only [StmtForm.lexemes, List.length_cons, List.length_append] at hdepth
  have hrow : StmtForm.lexemes parenthesized (.forLoop init condition update body) ++ rest =
      .word .forKw :: (ForInit.lexemes? parenthesized init ++ .mark .semicolon ::
        (Expr.lexemes? parenthesized condition ++ .mark .semicolon ::
          (Expr.lexemes? parenthesized update ++ (body.lexemes parenthesized ++ rest)))) := by
    simp
  rw [hrow]
  refine Parses.kind (Parses.mark rfl ?_)
  refine (Parses.forInit hinit (by omega)).bind fun i hi => Parses.mark rfl ?_
  refine (Parses.optionalExpr hcondition (by omega) rfl rfl).bind fun e he => Parses.mark rfl ?_
  refine (Parses.optionalExpr hupdate (by omega) (body.headKind_append _ _) rfl).bind fun u hu => ?_
  refine (hbody.read c rfl depth (by omega) rest trivial).bind fun b hb => .pure ?_
  have hi : ForInit.unplaced? i = ForInit.unplaced? init := hi
  have he : Expr.unplaced? e = Expr.unplaced? condition := he
  have hu : Expr.unplaced? u = Expr.unplaced? update := hu
  have hb : b.unplaced = body.unplaced := hb
  show StmtForm.forLoop (ForInit.unplaced? i) (Expr.unplaced? e) (Expr.unplaced? u) b.unplaced = _
  rw [hi, he, hu, hb, StmtForm.unplaced]

theorem whileLoop {condition : Expr} {body : Block} (hcondition : condition.Rewritten inTrait)
    (hbody : (Node.block body).Rewritten inTrait) :
    StmtForm.Rewritten inTrait (.whileLoop condition body) := by
  refine ⟨by simpa using ⟨hcondition.legible, hbody.legible⟩, ?_⟩
  rintro c rfl depth hdepth rest -
  simp only [StmtForm.lexemes, List.length_cons, List.length_append] at hdepth
  rw [StmtForm.lexemes, List.append_assoc, List.cons_append]
  refine Parses.kind (Parses.drop ?_)
  refine (hcondition.parses (by omega) (body.stops _ _)).bind fun e he => ?_
  refine (hbody.read c rfl depth (by omega) rest trivial).bind fun b hb => .pure ?_
  exact congr_arg₂ StmtForm.whileLoop he hb

theorem doWhile {body : Block} {condition : Expr} (hbody : (Node.block body).Rewritten inTrait)
    (hcondition : condition.Rewritten inTrait) :
    StmtForm.Rewritten inTrait (.doWhile body condition) := by
  refine ⟨by simpa using ⟨hbody.legible, hcondition.legible⟩, ?_⟩
  rintro c rfl depth hdepth rest -
  simp only [StmtForm.lexemes, List.length_cons, List.length_append] at hdepth
  have hrow : StmtForm.lexemes parenthesized (.doWhile body condition) ++ rest =
      .word .doKw :: (body.lexemes parenthesized ++ .word .whileKw ::
        (condition.part parenthesized Level.chain ++ .mark .semicolon :: rest)) := by
    simp
  rw [hrow]
  refine Parses.kind (Parses.drop ?_)
  refine (hbody.read c rfl depth (by omega) _ trivial).bind fun b hb => Parses.mark rfl ?_
  refine (hcondition.parses (by omega) (.of_none rfl _)).bind fun e he => Parses.mark rfl (.pure ?_)
  exact congr_arg₂ StmtForm.doWhile hb he

theorem select {subject : Expr} {arms : List StmtArm} (hsubject : subject.Rewritten inTrait)
    (hne : arms ≠ []) (harms : ∀ a ∈ arms, (Node.stmtArm a).Rewritten inTrait) :
    StmtForm.Rewritten inTrait (.select subject arms) := by
  refine ⟨by simpa [StmtArm.rows_eq_map] using
    ⟨hsubject.legible, fun a ha => (harms a ha).legible⟩, ?_⟩
  rintro c rfl depth hdepth rest -
  rw [StmtForm.lexemes, StmtArm.rows_eq_map] at hdepth ⊢
  simp only [inBraces, List.length_cons, List.length_append] at hdepth
  rw [List.append_assoc, inBraces_append, List.cons_append]
  have hitems (a : StmtArm) (ha : a ∈ arms) : Parses.Item c .rBrace
      ((Grammar.upTo depth).stmtArm .build) (Copies StmtArm.unplaced a)
      (a.lexemes parenthesized) := by
    intro s _ us
    have hlength := length_le_commas_map (f := StmtArm.lexemes parenthesized) ha
    exact (harms a ha).read c rfl depth (by omega) _ trivial
  refine Parses.kind (Parses.inContext .select (Parses.mark rfl ?_))
  refine (hsubject.parses (by omega) (.of_none rfl _)).bind fun e he => Parses.mark rfl ?_
  refine (Parses.openList (by decide : Symbol.rBrace ≠ .comma) hne
    (fun a _ => a.begins.mono (by rintro k rfl ⟨⟩)) hitems).bind
      fun (out : List StmtArm) hout => .pure ?_
  have he : e.unplaced = subject.unplaced := he
  show StmtForm.select e.unplaced (StmtArm.unplacedAll out) = _
  rw [he, StmtForm.unplaced, StmtArm.unplacedAll_eq_map, StmtArm.unplacedAll_eq_map, hout]

theorem giveBack {value : Option Expr} (hvalue : ∀ e ∈ value, e.Rewritten inTrait) :
    StmtForm.Rewritten inTrait (.giveBack value) := by
  refine ⟨by simpa using Expr.legible_optional hvalue, ?_⟩
  rintro c rfl depth hdepth rest -
  simp only [StmtForm.lexemes, List.length_cons, List.length_append] at hdepth
  rw [StmtForm.lexemes, List.append_assoc]
  refine Parses.kind (Parses.drop ((Parses.optionalExpr hvalue (by omega) rfl rfl).bind fun e he =>
    Parses.mark rfl (.pure ?_)))
  exact congrArg StmtForm.giveBack he

theorem attempt {body : Block} {handlers : List CatchClause}
    (hbody : (Node.block body).Rewritten inTrait) (hne : handlers ≠ [])
    (hhandlers : ∀ h ∈ handlers, (Node.handler h).Rewritten inTrait) :
    StmtForm.Rewritten inTrait (.attempt body handlers) := by
  refine ⟨by simpa [CatchClause.row_eq_flatMap] using
    ⟨hbody.legible, fun h hh => (hhandlers h hh).legible⟩, ?_⟩
  rintro c rfl depth hdepth rest hrest
  rw [StmtForm.lexemes, CatchClause.row_eq_flatMap] at hdepth ⊢
  simp only [List.length_cons, List.length_append] at hdepth
  rw [List.append_assoc]
  have hgo (h : CatchClause) (_ : h ∈ handlers) (us : List Lexeme) : True ∧
      Parses c (h.lexemes parenthesized ++ us) (Parser.check Keyword.catchKw)
        (fun b => b = true) (h.lexemes parenthesized ++ us) :=
    ⟨trivial, Parses.checked.mono fun b hb => by rw [hb, decide_eq_true (h.begins.headKind us)]⟩
  have hread (h : CatchClause) (hh : h ∈ handlers) (us : List Lexeme) (_ : True) :
      Parses c (h.lexemes parenthesized ++ us) ((Grammar.upTo depth).catchClause .build)
        (Copies CatchClause.unplaced h) us := by
    have hlength := length_le_flatMap (f := CatchClause.lexemes parenthesized) hh
    exact (hhandlers h hh).read c rfl depth (by omega) us trivial
  have hstop : Parses c rest (Parser.check Keyword.catchKw) (fun b => b = false) rest :=
    Parses.checked.mono fun b hb => by rw [hb, decide_eq_false hrest.2]
  refine Parses.kind (Parses.mark rfl ?_)
  refine (hbody.read c rfl depth (by omega) _ trivial).bind fun b hb => ?_
  refine (Parses.listOnceAndWhile hne (fun h _ => h.begins.ne_nil) hgo hread trivial hstop).bind
    fun (out : List CatchClause) hout => .pure ?_
  have hb : b.unplaced = body.unplaced := hb
  show StmtForm.attempt b.unplaced (CatchClause.unplacedAll out) = _
  rw [hb, StmtForm.unplaced, CatchClause.unplacedAll_eq_map, CatchClause.unplacedAll_eq_map, hout]

theorem panic {value : Expr} (hvalue : value.Rewritten inTrait) :
    StmtForm.Rewritten inTrait (.panic value) := by
  refine ⟨by simpa using hvalue.legible, ?_⟩
  rintro c rfl depth hdepth rest -
  simp only [StmtForm.lexemes, inParens, List.length_cons, List.length_append] at hdepth
  rw [StmtForm.lexemes, List.append_assoc, List.cons_append, inParens_append]
  refine Parses.kind (Parses.drop (Parses.mark rfl ?_))
  refine (hvalue.parses (by omega) (.of_none rfl _)).bind fun e he => ?_
  exact Parses.mark rfl (Parses.mark rfl (.pure (congrArg StmtForm.panic he)))

theorem expr {value : Expr} (hvalue : value.Rewritten inTrait) :
    StmtForm.Rewritten inTrait (.expr value) := by
  refine ⟨by simpa using hvalue.legible, ?_⟩
  rintro c rfl depth hdepth rest -
  simp only [StmtForm.lexemes, List.length_append] at hdepth
  rw [StmtForm.lexemes, List.append_assoc]
  have hopen : headKind (value.part parenthesized Level.chain ++ ([.mark .semicolon] ++ rest)) =
      Symbol.lParen := Expr.Rewritten.begins.headKind _
  refine Parses.kind ?_
  rw [hopen]
  refine (hvalue.parses (by omega) (.of_none rfl _)).bind fun e he => Parses.mark rfl (.pure ?_)
  exact congrArg StmtForm.expr he

theorem «variable» {decl : VariableDecl} (hdecl : (Node.variable decl).Rewritten inTrait)
    (hexported : decl.exported = false) : StmtForm.Rewritten inTrait (.variable decl) := by
  have hrereads := hdecl true nofun
  refine ⟨hrereads.legible, ?_⟩
  rintro c rfl depth hdepth rest -
  have hread := hrereads.read c rfl depth hdepth rest trivial
  rw [hexported] at hread
  have hvariable : Parses c (decl.lexemes parenthesized ++ rest) (do
      return StmtForm.variable <$> (← (Grammar.upTo depth).variableDecl .build false true) :
        Parse Buffer (Yield .build StmtForm)) (Copies StmtForm.unplaced (.variable decl)) rest :=
    hread.bind fun d hd => .pure (congrArg StmtForm.variable hd)
  refine .kind ?_
  rcases decl.begins.headKind rest with hk | hk
  · rw [StmtForm.lexemes, hk]
    exact hvariable
  · rw [StmtForm.lexemes, hk]
    exact hvariable

theorem next : StmtForm.Rewritten inTrait .next :=
  ⟨by simp, fun _ _ _ _ _ _ => .kind (.drop (.mark rfl (.pure rfl)))⟩

theorem leave : StmtForm.Rewritten inTrait .leave :=
  ⟨by simp, fun _ _ _ _ _ _ => .kind (.drop (.mark rfl (.pure rfl)))⟩

theorem goto {label : String} (hlabel : IsName label) :
    StmtForm.Rewritten inTrait (.goto label) := by
  refine ⟨by simpa using Lexeme.WellFormed.name hlabel, ?_⟩
  exact fun _ _ _ _ _ _ => .kind (.drop (.expectIdentifier (.mark rfl (.pure rfl))))

theorem label {name : String} (hname : IsName name) :
    StmtForm.Rewritten inTrait (.label name) := by
  refine ⟨by simpa using Lexeme.WellFormed.name hname, ?_⟩
  exact fun _ _ _ _ _ _ => .kind (.peek fun token htoken =>
    .ifTrue htoken (.expectIdentifier (.drop (.pure rfl))))

end StmtForm.Rewritten

/-- A form of statement whose parts are read back is read back. -/
theorem StmtForm.rewritten {V : Vocabulary} (hV : V.Writable) {inTrait : Bool} {form : StmtForm}
    (hwell : form.WellFormed) (hwords : V.OfStmt form)
    (parts : ∀ m ∈ form.nodes, m.Rewritten inTrait) : form.Rewritten inTrait := by
  have hexpr (e : Expr) (he : .expr e ∈ form.nodes) : e.Rewritten inTrait :=
    parts (.expr e) he
  have hblock (b : Block) (hb : .block b ∈ form.nodes) : (Node.block b).Rewritten inTrait :=
    parts (.block b) hb
  cases form with
  | branch condition consequence alternative =>
    exact .branch (hexpr _ (by simp [nodes])) (hblock _ (by simp [nodes]))
      fun b hb => hblock b (by simp_all [nodes])
  | branchOn pattern value consequence alternative =>
    exact .branchOn (parts (.pattern pattern) (by simp [nodes])) (hexpr _ (by simp [nodes]))
      (hblock _ (by simp [nodes])) fun b hb => hblock b (by simp_all [nodes])
  | forLoop init condition update body =>
    have hinit (i : ForInit) (hi : i ∈ init) : i.value.Rewritten inTrait :=
      hexpr _ (by simp_all [nodes])
    exact .forLoop (ForInit.legible hV hwords hinit) hinit
      (fun e he => hexpr e (by simp_all [nodes])) (fun e he => hexpr e (by simp_all [nodes]))
      (hblock _ (by simp [nodes]))
  | whileLoop condition body =>
    exact .whileLoop (hexpr _ (by simp [nodes])) (hblock _ (by simp [nodes]))
  | doWhile body condition =>
    exact .doWhile (hblock _ (by simp [nodes])) (hexpr _ (by simp [nodes]))
  | select subject arms =>
    exact .select (hexpr _ (by simp [nodes])) hwell fun a ha =>
      parts (.stmtArm a) (by simp [nodes, ha])
  | giveBack value => exact .giveBack fun e he => hexpr e (by simp_all [nodes])
  | next => exact .next
  | leave => exact .leave
  | goto label => exact .goto (hV.name hwords)
  | label name => exact .label (hV.name hwords)
  | attempt body handlers =>
    exact .attempt (hblock _ (by simp [nodes])) hwell fun h hh =>
      parts (.handler h) (by simp [nodes, hh])
  | panic value => exact .panic (hexpr _ (by simp [nodes]))
  | «variable» decl => exact .variable (parts (.variable decl) (by simp [nodes])) hwords
  | expr value => exact .expr (hexpr _ (by simp [nodes]))

/-- A statement whose parts are read back is read back. -/
theorem Stmt.rewritten {V : Vocabulary} (hV : V.Writable) {inTrait : Bool} {s : Stmt}
    (here : (Node.stmt s).Writable V inTrait) (parts : ∀ m ∈ s.form.nodes, m.Rewritten inTrait) :
    (Node.stmt s).Rewritten inTrait := by
  obtain ⟨pos, form⟩ := s
  have hform := StmtForm.rewritten hV (here.wellFormed hV.firm) here.spelled parts
  refine ⟨hform.legible, fun c hc depth hdepth rest hrest => Parses.position fun pos' => ?_⟩
  refine (hform.read c hc depth hdepth rest hrest).bind fun form' hform' => .pure ?_
  exact congrArg (Stmt.mk .start) hform'

end ScriptFront
