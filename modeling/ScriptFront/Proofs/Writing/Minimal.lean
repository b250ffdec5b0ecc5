import ScriptFront.Proofs.Writing.Operands

/-!
# As few parentheses as possible

An expression whose operands stand in parentheses only where they bind less tightly than their place
asks for is read back as it was.

- `ExprForm.level`: how tightly a form binds.
- `minimal`: which operands stand in parentheses.
- `Expr.Plain`: the expressions that atoms, operators, calls and indices make.
- `Expr.Plain.parse_minimal`: what is written of such an expression is read as the expression.
-/

namespace ScriptFront

/-! ## Levels of forms -/

namespace ExprForm

/-- How tightly the outermost part of a form binds. -/
def level : ExprForm → Nat
  | .binary op _ _ => op.level
  | .ternary _ _ _ => Level.single
  | .unary _ .before _ | .cast _ _ | .typeTest _ _ | .select _ _ => Level.operand
  | .unary _ .behind _ | .call _ _ | .genericCall _ _ _ | .index _ _ => Level.access
  | .lambda _ _ _ _ | .new _ _ _ | .literal _ | .this | .super | .primitive _ | .identifier _ _
  | .array _ => Level.path + 1

/-- Whether a form stands in parentheses wherever it is an operand: it goes as far as it can, or it
is an angle. -/
def isLoose : ExprForm → Bool
  | .ternary _ _ _ | .unary _ .before _ | .binary .lt _ _ => true
  | _ => false

theorem level_pos (form : ExprForm) : 0 < form.level := by
  cases form with
  | binary op left right => exact op.level_pos
  | unary op fixity operand => cases fixity <;> exact Nat.succ_pos _
  | _ => exact Nat.succ_pos _

end ExprForm

/-- Parentheses around operands that bind less tightly than their place asks for, and around loose
ones. -/
def minimal : Wrapping := fun least form => form.isLoose || decide (form.level < least)

/-- Expressions that atoms, operators, calls and indices make. No argument is a chain of commas,
which the call would take apart. -/
inductive Expr.Plain : Expr → Prop
  | literal (pos : Position) {value : Literal} (h : value.lexeme.WellFormed) :
    Plain ⟨pos, .literal value⟩
  | identifier (pos : Position) {name : String} (root : Bool) (h : IsName name) :
    Plain ⟨pos, .identifier name root⟩
  | this (pos : Position) : Plain ⟨pos, .this⟩
  | super (pos : Position) : Plain ⟨pos, .super⟩
  | binary (pos : Position) (op : BinaryOp) {left right : Expr} (hleft : Plain left)
    (hright : Plain right) : Plain ⟨pos, .binary op left right⟩
  | before (pos : Position) (op : UnaryOp) {operand : Expr} (h : Plain operand) :
    Plain ⟨pos, .unary op .before operand⟩
  | count (pos : Position) {op : UnaryOp} {operand : Expr} (hop : op = .increment ∨ op = .decrement)
    (h : Plain operand) : Plain ⟨pos, .unary op .behind operand⟩
  | call (pos : Position) {callee : Expr} {args : List Expr} (hcallee : Plain callee)
    (hargs : ∀ a ∈ args, Plain a) (hcommas : ∀ a ∈ args, a.isComma = false) :
    Plain ⟨pos, .call callee args⟩
  | index (pos : Position) {target position : Expr} (htarget : Plain target)
    (hposition : Plain position) : Plain ⟨pos, .index target position⟩
  | ternary (pos : Position) {condition consequence alternative : Expr}
    (hcondition : Plain condition) (hconsequence : Plain consequence)
    (halternative : Plain alternative) :
    Plain ⟨pos, .ternary condition consequence alternative⟩

/-! ## The lexemes of an expression -/

theorem Expr.part_minimal (least : Nat) (e : Expr) :
    e.part minimal least =
      if minimal least e.form then inParens (e.lexemes minimal) else e.lexemes minimal := by
  obtain ⟨pos, form⟩ := e
  rfl

theorem Expr.rows_eq_map (wraps : Wrapping) (least : Nat) (es : List Expr) :
    Expr.rows wraps least es = es.map (Expr.part wraps least) := by
  induction es with
  | nil => rfl
  | cons e es ih => rw [Expr.rows, ih, List.map_cons]

theorem UnaryOp.wellFormed_lexeme (op : UnaryOp) : op.lexeme.WellFormed := by
  cases op with
  | ref => exact .word .refKw
  | shared => exact .word .sharedKw
  | not => exact .mark .bang
  | bitNot => exact .mark .tilde
  | neg => exact .mark .minus
  | plus => exact .mark .plus
  | increment => exact .mark .plusPlus
  | decrement => exact .mark .minusMinus

theorem wellFormed_inParens {row : List Lexeme} (h : ∀ l ∈ row, l.WellFormed) :
    ∀ l ∈ inParens row, l.WellFormed := by
  rw [inParens, List.forall_mem_append, List.forall_mem_cons, List.forall_mem_singleton]
  exact ⟨⟨.mark .lParen, h⟩, .mark .rParen⟩

theorem wellFormed_inBrackets {row : List Lexeme} (h : ∀ l ∈ row, l.WellFormed) :
    ∀ l ∈ inBrackets row, l.WellFormed := by
  rw [inBrackets, List.forall_mem_append, List.forall_mem_cons, List.forall_mem_singleton]
  exact ⟨⟨.mark .lBracket, h⟩, .mark .rBracket⟩

theorem wellFormed_commas {rows : List (List Lexeme)} (h : ∀ row ∈ rows, ∀ l ∈ row, l.WellFormed) :
    ∀ l ∈ commas rows, l.WellFormed := by
  induction rows with
  | nil => rintro _ ⟨⟩
  | cons row rows ih =>
    rw [List.forall_mem_cons] at h
    cases rows with
    | nil => exact h.1
    | cons row' rows =>
      rw [commas, List.forall_mem_append, List.forall_mem_cons]
      · exact ⟨h.1, .mark .comma, ih h.2⟩
      · rintro ⟨⟩

theorem wellFormed_part {e : Expr} (h : ∀ l ∈ e.lexemes minimal, l.WellFormed) (least : Nat) :
    ∀ l ∈ e.part minimal least, l.WellFormed := by
  rw [Expr.part_minimal]
  split
  · exact wellFormed_inParens h
  · exact h

/-- All that is written of a plain expression can be read. -/
theorem Expr.Plain.wellFormed {e : Expr} (h : e.Plain) : ∀ l ∈ e.lexemes minimal, l.WellFormed := by
  induction h with
  | literal pos h => exact List.forall_mem_singleton.2 h
  | identifier pos root h =>
    cases root with
    | false => exact List.forall_mem_singleton.2 (.name h)
    | true =>
      exact List.forall_mem_cons.2 ⟨.mark .colonColon, List.forall_mem_singleton.2 (.name h)⟩
  | this pos => exact List.forall_mem_singleton.2 (.word .thisKw)
  | super pos => exact List.forall_mem_singleton.2 (.word .superKw)
  | binary pos op hleft hright ihLeft ihRight =>
    rw [Expr.lexemes, ExprForm.lexemes, List.forall_mem_append, List.forall_mem_cons]
    exact ⟨wellFormed_part ihLeft _, .mark op.symbol, wellFormed_part ihRight _⟩
  | before pos op h ih =>
    rw [Expr.lexemes, ExprForm.lexemes, List.forall_mem_cons]
    exact ⟨op.wellFormed_lexeme, wellFormed_part ih _⟩
  | @count pos op operand hop h ih =>
    rw [Expr.lexemes, ExprForm.lexemes, List.forall_mem_append, List.forall_mem_singleton]
    exact ⟨wellFormed_part ih _, op.wellFormed_lexeme⟩
  | call pos hcallee hargs hcommas ihCallee ihArgs =>
    rw [Expr.lexemes, ExprForm.lexemes, List.forall_mem_append, Expr.rows_eq_map]
    refine ⟨wellFormed_part ihCallee _, wellFormed_inParens (wellFormed_commas fun row hrow => ?_)⟩
    obtain ⟨a, ha, rfl⟩ := List.mem_map.1 hrow
    exact wellFormed_part (ihArgs a ha) _
  | index pos htarget hposition ihTarget ihPosition =>
    rw [Expr.lexemes, ExprForm.lexemes, List.forall_mem_append]
    exact ⟨wellFormed_part ihTarget _, wellFormed_inBrackets (wellFormed_part ihPosition _)⟩
  | ternary pos hcondition hconsequence halternative ihCondition ihConsequence ihAlternative =>
    rw [Expr.lexemes, ExprForm.lexemes, List.forall_mem_append, List.forall_mem_append,
      List.forall_mem_cons, List.forall_mem_cons]
    exact ⟨⟨wellFormed_part ihCondition _, .mark .question, wellFormed_part ihConsequence _⟩,
      .mark .colon, wellFormed_part ihAlternative _⟩

/-! ## No call inside an expression -/

/-- A row that no type arguments end in: what is read of them from its start on goes wrong, or it
goes on behind the row at the same depth of brackets. -/
def Calm (d : Nat) (row : List Lexeme) : Prop :=
  ∀ rest, noCall d rest → noCall d (row ++ rest)

namespace Calm

variable {d least : Nat} {row more : List Lexeme} {l : Lexeme} {e : Expr}

theorem append (h : Calm d row) (hmore : Calm d more) : Calm d (row ++ more) := by
  intro rest hrest
  rw [List.append_assoc]
  exact h _ (hmore rest hrest)

theorem cons (h : prospect d l.kind = .none ∨ prospect d l.kind = .go d) (hrow : Calm d row) :
    Calm d (l :: row) := by
  intro rest hrest
  rcases h with h | h
  · exact noCall_none h
  · rw [List.cons_append, noCall_go h]
    exact hrow rest hrest

theorem nil : Calm d [] := fun _ hrest => hrest

theorem parens (h : Calm (d + 1) row) : Calm d (inParens row) := by
  intro rest hrest
  have hopen : noCall d (inParens row ++ rest) =
      noCall (d + 1) (row ++ [.mark .rParen] ++ rest) := noCall_go rfl
  rw [hopen, List.append_assoc]
  refine h _ ?_
  rw [List.singleton_append, noCall_rParen, hrest, Bool.or_true]

theorem brackets (h : Calm (d + 1) row) : Calm d (inBrackets row) := by
  intro rest hrest
  have hopen : noCall d (inBrackets row ++ rest) =
      noCall (d + 1) (row ++ [.mark .rBracket] ++ rest) := noCall_go rfl
  rw [hopen, List.append_assoc]
  refine h _ ?_
  rw [List.singleton_append, noCall_go rfl]
  exact hrest

theorem commas {rows : List (List Lexeme)} (h : ∀ row ∈ rows, Calm d row) :
    Calm d (commas rows) := by
  induction rows with
  | nil => exact nil
  | cons row rows ih =>
    rw [List.forall_mem_cons] at h
    cases rows with
    | nil => exact h.1
    | cons row' rows => exact h.1.append (cons (.inr rfl) (ih h.2))

/-- Outside all brackets, an operand that binds tightly enough holds no angle. -/
theorem part (h : ∀ d, (d = 0 → e.form.isLoose = false ∧ 10 ≤ e.form.level) →
    Calm d (e.lexemes minimal)) (hleast : d = 0 → 10 ≤ least) : Calm d (e.part minimal least) := by
  rw [Expr.part_minimal]
  split
  · exact (h (d + 1) nofun).parens
  · next hbare =>
    simp only [minimal, Bool.or_eq_true, decide_eq_true_eq, not_or, Bool.not_eq_true,
      Nat.not_lt] at hbare
    exact h d fun hd => ⟨hbare.1, Nat.le_trans (hleast hd) hbare.2⟩

/-- Inside brackets all operators are calm, and outside those that bind tighter than angles. -/
theorem prospect_symbol (op : BinaryOp) (h : d = 0 → 10 ≤ op.level) :
    prospect d (Lexeme.mark op.symbol).kind = .none ∨
      prospect d (Lexeme.mark op.symbol).kind = .go d := by
  by_cases hd : d = 0
  · subst hd
    cases op <;> first | exact .inl rfl | exact .inr rfl | exact absurd (h rfl) (by decide)
  · cases op <;> first | exact .inl rfl | exact .inr rfl | exact .inr (if_neg hd)

end Calm

/-- Type arguments do not end in a plain expression: inside brackets, and outside if it binds
tighter than an angle. -/
theorem Expr.Plain.calm {e : Expr} (h : e.Plain) :
    ∀ d, (d = 0 → e.form.isLoose = false ∧ 10 ≤ e.form.level) → Calm d (e.lexemes minimal) := by
  induction h with
  | @literal pos value h =>
    intro d hd
    refine .cons ?_ .nil
    rcases value with (_ | _) | ⟨form, text⟩ | ⟨form, text⟩ | text | text | _
    all_goals first | exact .inl rfl | exact .inr rfl
  | identifier pos root h =>
    intro d hd
    cases root with
    | false => exact .cons (.inr rfl) .nil
    | true => exact .cons (.inr rfl) (.cons (.inr rfl) .nil)
  | this pos => exact fun d hd => .cons (.inl rfl) .nil
  | super pos => exact fun d hd => .cons (.inl rfl) .nil
  | binary pos op hleft hright ihLeft ihRight =>
    intro d hd
    have hlevel (h : d = 0) : 10 ≤ op.level := (hd h).2
    have hleft (h : d = 0) : 10 ≤ op.leftLevel := Nat.le_trans (hlevel h) op.level_le_leftLevel
    have hright (h : d = 0) : 10 ≤ op.rightLevel := Nat.le_trans (hlevel h) op.level_le_rightLevel
    exact (Calm.part ihLeft hleft).append
      (.cons (Calm.prospect_symbol op hlevel) (Calm.part ihRight hright))
  | before pos op h ih =>
    intro d hd
    have hinside : d ≠ 0 := fun h => Bool.false_ne_true (hd h).1.symm
    refine .cons ?_ (Calm.part ih fun h => absurd h hinside)
    cases op <;> exact .inl rfl
  | @count pos op operand hop h ih =>
    intro d hd
    refine (Calm.part ih fun _ => by decide).append (.cons ?_ .nil)
    rcases hop with rfl | rfl <;> exact .inl rfl
  | call pos hcallee hargs hcommas ihCallee ihArgs =>
    intro d hd
    refine (Calm.part ihCallee fun _ => by decide).append (.parens ?_)
    rw [Expr.rows_eq_map]
    refine .commas fun row hrow => ?_
    obtain ⟨a, ha, rfl⟩ := List.mem_map.1 hrow
    exact .part (ihArgs a ha) nofun
  | index pos htarget hposition ihTarget ihPosition =>
    intro d hd
    exact (Calm.part ihTarget fun _ => by decide).append (.brackets (.part ihPosition nofun))
  | ternary pos hcondition hconsequence halternative ihCondition ihConsequence ihAlternative =>
    intro d hd
    have hinside : d ≠ 0 := fun h => Bool.false_ne_true (hd h).1.symm
    refine ((Calm.part ihCondition fun h => absurd h hinside).append (.cons (.inr rfl) ?_)).append
      (.cons (.inl rfl) (.part ihAlternative fun h => absurd h hinside))
    exact .part ihConsequence fun h => absurd h hinside

/-! ## Reading a plain expression back -/

/-- A row that does not begin with a closing parenthesis. -/
def Opens (row : List Lexeme) : Prop := ∃ l more, row = l :: more ∧ l.kind ≠ Symbol.rParen

theorem Opens.append {row : List Lexeme} (h : Opens row) (more : List Lexeme) :
    Opens (row ++ more) := by
  obtain ⟨l, rest, rfl, hl⟩ := h
  exact ⟨l, rest ++ more, rfl, hl⟩

theorem Opens.part {e : Expr} (h : Opens (e.lexemes minimal)) (least : Nat) :
    Opens (e.part minimal least) := by
  rw [Expr.part_minimal]
  split
  · exact ⟨_, _, rfl, nofun⟩
  · exact h

/-- No expression begins with a closing parenthesis. -/
theorem Expr.Plain.opens {e : Expr} (h : e.Plain) : Opens (e.lexemes minimal) := by
  induction h with
  | @literal pos value h =>
    refine ⟨_, _, rfl, ?_⟩
    rcases value with (_ | _) | ⟨form, text⟩ | ⟨form, text⟩ | text | text | _ <;> exact nofun
  | identifier pos root h => cases root <;> exact ⟨_, _, rfl, nofun⟩
  | this pos => exact ⟨_, _, rfl, nofun⟩
  | super pos => exact ⟨_, _, rfl, nofun⟩
  | before pos op h ih => exact ⟨_, _, rfl, by cases op <;> exact nofun⟩
  | binary pos op hleft hright ihLeft ihRight => exact (ihLeft.part _).append _
  | count pos hop h ih => exact (ih.part _).append _
  | call pos hcallee hargs hcommas ihCallee ihArgs => exact (ihCallee.part _).append _
  | index pos htarget hposition ihTarget ihPosition => exact (ihTarget.part _).append _
  | ternary pos hcondition hconsequence halternative ihCondition ihConsequence ihAlternative =>
    exact ((ihCondition.part _).append _).append _

/-- What may follow a whole expression: nothing that goes on behind it, and no call. -/
structure Final (rest : List Lexeme) : Prop where
  stops : Stops Level.chain rest
  noCall : noCall 0 rest

/-- An expression is read back from its row: as a whole, and as an operand if it is not loose. -/
structure Restores (c : Setting) (depth : Nat) (e : Expr) : Prop where
  whole : Whole c depth (e.lexemes minimal) e.Alike Level.chain Final
  stands : e.form.isLoose = false →
    Stands c depth (e.lexemes minimal) e.Alike e.form.level

/-- An expression is read back by every grammar that nests as deep as the row is long. -/
def Restored (c : Setting) (e : Expr) : Prop :=
  ∀ depth, (e.lexemes minimal).length ≤ depth → Restores c depth e

namespace Restored

variable {c : Setting} {depth least : Nat} {pos : Position} {e left right : Expr}

theorem ofStands (h : ∀ depth, (e.lexemes minimal).length ≤ depth →
    Stands c depth (e.lexemes minimal) e.Alike e.form.level) :
    Restored c e :=
  fun depth hdepth => ⟨fun _ hrest => (h depth hdepth).whole e.form.level_pos hrest.stops,
    fun _ => h depth hdepth⟩

theorem ofWhole (hloose : e.form.isLoose = true)
    (h : ∀ depth, (e.lexemes minimal).length ≤ depth →
      Whole c depth (e.lexemes minimal) e.Alike Level.chain Final) :
    Restored c e := by
  refine fun depth hdepth => ⟨h depth hdepth, fun hbare => ?_⟩
  rw [hloose] at hbare
  exact absurd hbare nofun

/-- In parentheses or not, an expression stands at the level of its place. -/
theorem part (h : Restored c e) (hdepth : (e.part minimal least).length ≤ depth) :
    Stands c depth (e.part minimal least) e.Alike least := by
  rw [Expr.part_minimal] at hdepth ⊢
  split at hdepth
  · next hwraps =>
    rw [if_pos hwraps]
    rw [inParens, List.cons_append, List.length_cons, List.length_append] at hdepth
    obtain ⟨depth, rfl⟩ : ∃ k, depth = k + 1 := ⟨depth - 1, by omega⟩
    refine .inl (Operand.parens (h depth (by omega)).whole ?_ fun pos e' he' => ?_)
    · exact fun rest => ⟨.of_none rfl _, noCall_none rfl⟩
    · obtain ⟨pos', form⟩ := e'
      exact he'
  · next hbare =>
    rw [if_neg hbare]
    simp only [minimal, Bool.or_eq_true, decide_eq_true_eq, not_or, Bool.not_eq_true,
      Nat.not_lt] at hbare
    exact ((h depth hdepth).stands hbare.1).mono hbare.2

/-- An expression is read at a place of a lower level, too. -/
theorem whole {lower : Nat} (h : Restored c e) (hdepth : (e.part minimal least).length ≤ depth)
    (hle : lower ≤ least) : Whole c depth (e.part minimal least)
      e.Alike lower (Stops lower) :=
  (h.part hdepth).whole hle

theorem token {l : Lexeme} {make : String → ExprForm}
    (hl : Grammar.tokenForm? l.kind = some make) (hform : e.form = make l.text)
    (hrow : e.lexemes minimal = [l]) : Restored c e := by
  refine ofStands fun depth _ => .inl ?_
  obtain ⟨pos, form⟩ := e
  obtain rfl : form = make l.text := hform
  rw [hrow]
  exact Operand.token hl fun pos' => rfl

theorem literal {value : Literal} : Restored c ⟨pos, .literal value⟩ := by
  refine ofStands fun depth _ => .inl ?_
  rcases value with (_ | _) | ⟨form, text⟩ | ⟨form, text⟩ | text | text | _
  all_goals exact Operand.token rfl fun _ => rfl

theorem identifier {name : String} {root : Bool} : Restored c ⟨pos, .identifier name root⟩ := by
  refine ofStands fun depth _ => .inl ?_
  cases root with
  | false => exact Operand.token rfl fun _ => rfl
  | true => exact Operand.rootName fun _ => rfl

theorem binary {op : BinaryOp} (hleft : Restored c left) (hright : Restored c right)
    (hcalm : op = .lt → Calm 0 (right.part minimal op.rightLevel)) :
    Restored c ⟨pos, .binary op left right⟩ := by
  have hlike (pos' : Position) (l r : Expr) (hl : left.Alike l) (hr : right.Alike r) :
      Expr.Alike ⟨pos, .binary op left right⟩ ⟨pos', .binary op l r⟩ := by
    rw [Expr.alike_mk, ExprForm.unplaced, ExprForm.unplaced, hl, hr]
  have hparts (depth : Nat)
      (hdepth : (Expr.lexemes minimal ⟨pos, .binary op left right⟩).length ≤ depth + 1) :
      Stands c (depth + 1) (left.part minimal op.leftLevel) left.Alike op.leftLevel ∧
        Whole c depth (right.part minimal op.rightLevel) right.Alike op.rightLevel
          (Stops op.rightLevel) := by
    rw [Expr.lexemes, ExprForm.lexemes, List.length_append, List.length_cons] at hdepth
    exact ⟨hleft.part (by omega), hright.whole (by omega) (Nat.le_refl _)⟩
  have hlength : 0 < (Expr.lexemes minimal ⟨pos, .binary op left right⟩).length := by
    rw [Expr.lexemes, ExprForm.lexemes, List.length_append, List.length_cons]
    omega
  by_cases hop : op = .lt
  · refine ofWhole (by rw [hop]; rfl) fun depth hdepth rest hrest => ?_
    obtain ⟨depth, rfl⟩ : ∃ k, depth = k + 1 := ⟨depth - 1, by omega⟩
    obtain ⟨hl, hr⟩ := hparts depth hdepth
    have hstops : Stops (Level.behind op.level) rest :=
      hrest.stops.mono (Nat.le_trans op.level_pos (Level.le_behind _))
    exact (Spine.binary hl hr hlike).whole op.level_pos
      ⟨⟨hstops, fun _ => hcalm hop rest hrest.noCall⟩, hrest.stops⟩
  · refine ofStands fun depth hdepth => ?_
    obtain ⟨depth, rfl⟩ : ∃ k, depth = k + 1 := ⟨depth - 1, by omega⟩
    obtain ⟨hl, hr⟩ := hparts depth hdepth
    exact Stands.binary op hl hr hop hlike

theorem before {op : UnaryOp} (h : Restored c e) : Restored c ⟨pos, .unary op .before e⟩ := by
  refine ofWhole rfl fun depth hdepth => ?_
  rw [Expr.lexemes, ExprForm.lexemes, List.length_cons] at hdepth
  obtain ⟨depth, rfl⟩ : ∃ k, depth = k + 1 := ⟨depth - 1, by omega⟩
  have hoperand : Whole c depth (e.part minimal Level.access)
      e.Alike Level.operand (Stops Level.operand) :=
    h.whole (Nat.le_of_succ_le_succ hdepth) (by decide)
  have hread : Whole c (depth + 1) (op.lexeme :: e.part minimal Level.access)
      (Expr.Alike ⟨pos, .unary op .before e⟩) Level.chain
      (Stops Level.chain) := by
    refine Whole.before hoperand (by decide) fun pos' e' he' => ?_
    rw [Expr.alike_mk, ExprForm.unplaced, ExprForm.unplaced, he']
  exact fun rest hrest => hread hrest.stops

theorem count {op : UnaryOp} (hop : op = .increment ∨ op = .decrement) (h : Restored c e) :
    Restored c ⟨pos, .unary op .behind e⟩ := by
  refine ofStands fun depth hdepth => ?_
  rw [Expr.lexemes, ExprForm.lexemes, List.length_append, List.length_singleton] at hdepth
  obtain ⟨depth, rfl⟩ : ∃ k, depth = k + 1 := ⟨depth - 1, by omega⟩
  refine Stands.count (h.part (Nat.le_of_add_right_le hdepth)) hop fun pos' e' he' => ?_
  rw [Expr.alike_mk, ExprForm.unplaced, ExprForm.unplaced, he']

theorem index {target position : Expr} (htarget : Restored c target)
    (hposition : Restored c position) : Restored c ⟨pos, .index target position⟩ := by
  refine ofStands fun depth hdepth => ?_
  rw [Expr.lexemes, ExprForm.lexemes, List.length_append, inBrackets, List.cons_append,
    List.length_cons, List.length_append] at hdepth
  obtain ⟨depth, rfl⟩ : ∃ k, depth = k + 1 := ⟨depth - 1, by omega⟩
  have hinside : Whole c depth (position.part minimal Level.chain) position.Alike Level.chain
      (Stops Level.chain) := hposition.whole (by omega) (Nat.le_refl _)
  refine Stands.index (htarget.part (by omega)) hinside fun pos' e i he hi => ?_
  rw [Expr.alike_mk, ExprForm.unplaced, ExprForm.unplaced, he, hi]

/-- The arguments of a call are read back as the operands of a chain of commas. -/
theorem args {args : List Expr}
    (hargs : ∀ a ∈ args, Opens (a.lexemes minimal) ∧ a.isComma = false ∧ Restored c a)
    (hdepth : (commas (Expr.rows minimal Level.single args)).length + 1 ≤ depth) :
    Args c depth (commas (Expr.rows minimal Level.single args))
      fun es => es.map Expr.unplaced = args.map Expr.unplaced := by
  cases args with
  | nil => exact Args.none rfl
  | cons a args =>
    rw [List.forall_mem_cons] at hargs
    obtain ⟨⟨hopens, hcomma, ha⟩, hargs⟩ := hargs
    have hpart := hopens.part Level.single
    rw [commas_rows] at hdepth ⊢
    have hhead (rest : List Lexeme) : headKind ((a.part minimal Level.single ++
        args.flatMap fun a => .mark .comma :: a.part minimal Level.single) ++ rest) ≠
          Symbol.rParen := by
      obtain ⟨l, more, hrow, hl⟩ := (hpart.append _).append rest
      rw [hrow, headKind_cons]
      exact hl
    obtain ⟨l, more, hrow, -⟩ := hpart
    have hlength : (a.part minimal Level.single).length = more.length + 1 := by
      rw [hrow, List.length_cons]
    rw [List.length_append] at hdepth
    obtain ⟨depth, rfl⟩ : ∃ k, depth = k + 2 := ⟨depth - 2, by omega⟩
    have hfirst : Stands c (depth + 1) (a.part minimal Level.single)
        (fun e => e.commaList.map Expr.unplaced = [a].map Expr.unplaced) Level.chain := by
      refine ((ha.part (by omega)).mono (by decide)).imp fun e he => ?_
      have hsingle : e.isComma = false := by rw [he.isComma_eq, hcomma]
      rw [Expr.commaList_single hsingle, List.map_singleton, List.map_singleton, he]
    refine Args.chain hhead (Stands.whole (Stands.commas hfirst fun b hb => ?_) (Nat.le_refl _))
    obtain ⟨-, hbcomma, hb'⟩ := hargs b hb
    refine ⟨hbcomma, hb'.whole ?_ (Nat.le_refl _)⟩
    obtain ⟨s, t, rfl⟩ := List.append_of_mem hb
    rw [List.flatMap_append, List.flatMap_cons, List.length_append, List.length_append,
      List.length_cons] at hdepth
    omega

theorem call {callee : Expr} {args : List Expr} (hcallee : Restored c callee)
    (hargs : ∀ a ∈ args, Opens (a.lexemes minimal) ∧ a.isComma = false ∧ Restored c a) :
    Restored c ⟨pos, .call callee args⟩ := by
  refine ofStands fun depth hdepth => ?_
  rw [Expr.lexemes, ExprForm.lexemes, List.length_append, inParens, List.cons_append,
    List.length_cons, List.length_append] at hdepth
  refine Stands.call (hcallee.part (by omega))
    (Restored.args hargs (by omega)) fun pos' e es he hes => ?_
  rw [Expr.alike_mk, ExprForm.unplaced, ExprForm.unplaced, he,
    Expr.unplacedAll_eq_map, Expr.unplacedAll_eq_map, hes]

theorem ternary {condition consequence alternative : Expr} (hcondition : Restored c condition)
    (hconsequence : Restored c consequence) (halternative : Restored c alternative) :
    Restored c ⟨pos, .ternary condition consequence alternative⟩ := by
  refine ofWhole rfl fun depth hdepth rest hrest => ?_
  rw [Expr.lexemes, ExprForm.lexemes, List.length_append, List.length_append, List.length_cons,
    List.length_cons] at hdepth
  obtain ⟨depth, rfl⟩ : ∃ k, depth = k + 1 := ⟨depth - 1, by omega⟩
  have hyes : Whole c depth (consequence.part minimal Level.single) consequence.Alike Level.single
      (Stops Level.single) := hconsequence.whole (by omega) (Nat.le_refl _)
  have hno : Whole c depth (alternative.part minimal Level.chain) alternative.Alike Level.chain
      (Stops Level.chain) := halternative.whole (by omega) (Nat.le_refl _)
  refine Whole.ternary (hcondition.part (by omega)) hyes hno ?_ hrest.stops
  intro pos' e y n he hy hn
  rw [Expr.alike_mk, ExprForm.unplaced, ExprForm.unplaced, he, hy, hn]

end Restored

/-- Plain expressions are read back, along with all that they are made of. -/
theorem Expr.Plain.restored {c : Setting} {e : Expr} (h : e.Plain) : Restored c e := by
  induction h with
  | literal pos h => exact .literal
  | identifier pos root h => exact .identifier
  | this pos => exact .token rfl rfl rfl
  | super pos => exact .token rfl rfl rfl
  | binary pos op hleft hright ihLeft ihRight =>
    refine .binary ihLeft ihRight fun hop => .part hright.calm fun _ => ?_
    subst hop
    decide
  | before pos op h ih => exact .before ih
  | count pos hop h ih => exact .count hop ih
  | call pos hcallee hargs hcommas ihCallee ihArgs =>
    exact .call ihCallee fun a ha => ⟨(hargs a ha).opens, hcommas a ha, ihArgs a ha⟩
  | index pos htarget hposition ihTarget ihPosition => exact .index ihTarget ihPosition
  | ternary pos hcondition hconsequence halternative ihCondition ihConsequence ihAlternative =>
    exact .ternary ihCondition ihConsequence ihAlternative

/-- An expression that is written with as few parentheses as possible is read back as it was, up to
the places of its parts, and nothing is left of the text. -/
theorem Expr.parse_minimal {e : Expr} (h : e.Plain) :
    (Expr.parse (writeLexemes (e.lexemes minimal))).map Expr.unplaced = .ok e.unplaced := by
  let c : Setting := .ofText (writeLexemes (e.lexemes minimal)) anonymousName
  have hexpr : Parses c (e.lexemes minimal) Parser.parseExpr e.Alike [] := by
    refine Parses.grammar fun depth hdepth => ?_
    have hfinal : Final [] := ⟨.of_none rfl _, rfl⟩
    have hread := (h.restored (c := c) depth hdepth).whole hfinal
    rw [List.append_nil] at hread
    exact hread
  have hread := hexpr.bind fun a ha => Parses.markEnd.bind fun _ _ => .pure ha
  obtain ⟨a, hrun, ha⟩ := hread.run h.wellFormed anonymousName defaultTabWidth
  have hparse : Expr.parse (writeLexemes (e.lexemes minimal)) = .ok a := hrun
  rw [hparse]
  exact congrArg Except.ok ha

/-- `x = (a - (b - a) < f((-x), a++))` with all the parentheses that are needed, and no others. -/
theorem Expr.parse_minimal_assignment :
    let name (text : String) : Expr := ⟨.start, .identifier text false⟩
    let difference : Expr := ⟨.start, .binary .sub (name "a")
      ⟨.start, .binary .sub (name "b") (name "a")⟩⟩
    let call : Expr := ⟨.start, .call (name "f")
      [⟨.start, .unary .neg .before (name "x")⟩, ⟨.start, .unary .increment .behind (name "a")⟩]⟩
    let e : Expr := ⟨.start, .binary .assign (name "x") ⟨.start, .binary .lt difference call⟩⟩
    writeLexemes (e.lexemes minimal) = "x = ( a - ( b - a ) < f ( ( - x ) , a ++ ) )" ∧
      (Expr.parse (writeLexemes (e.lexemes minimal))).map Expr.unplaced = .ok e.unplaced := by
  intro name difference call e
  have ha : (name "a").Plain :=
    .identifier _ _ ⟨byteOf 'a', [], by decide, by decide, nofun, by decide⟩
  have hb : (name "b").Plain :=
    .identifier _ _ ⟨byteOf 'b', [], by decide, by decide, nofun, by decide⟩
  have hf : (name "f").Plain :=
    .identifier _ _ ⟨byteOf 'f', [], by decide, by decide, nofun, by decide⟩
  have hx : (name "x").Plain :=
    .identifier _ _ ⟨byteOf 'x', [], by decide, by decide, nofun, by decide⟩
  have hcall : call.Plain := by
    refine .call _ hf ?_ (by decide)
    rw [List.forall_mem_cons, List.forall_mem_singleton]
    exact ⟨.before _ _ hx, .count _ (.inl rfl) ha⟩
  refine ⟨by decide, Expr.parse_minimal ?_⟩
  exact .binary _ _ hx (.binary _ _ (.binary _ _ ha (.binary _ _ hb ha)) hcall)

end ScriptFront
