import ScriptFront.Proofs.Rewriting.Lambdas

/-!
# Expressions that are written anew

An expression is read back if its parts are. Each part stands in parentheses, so it is an operand
wherever it is; the atoms are the forms that can be read without parentheses, too.

- `Expr.Rewritten.operand`, `Expr.Rewritten.parses`: a part at a place of any level.
- `Expr.Rewritten.args`: the arguments of a call.
- `Expr.Rewritten.binary`, `Expr.Rewritten.ternary`, …: one theorem for each form.
- `Expr.rewritten`: any expression.
-/

namespace ScriptFront

open ScriptFront.Parser

/-! ## Rows of lists -/

theorem ExprArm.rows_eq_map (arms : List ExprArm) :
    ExprArm.rows parenthesized arms = arms.map (ExprArm.lexemes parenthesized) := by
  induction arms with
  | nil => rfl
  | cons a arms ih => rw [ExprArm.rows, ih, List.map_cons]

theorem NewItem.rows_eq_map (items : List NewItem) :
    NewItem.rows parenthesized items = items.map (NewItem.lexemes parenthesized) := by
  induction items with
  | nil => rfl
  | cons i items ih => rw [NewItem.rows, ih, List.map_cons]

/-! ## No call inside -/

theorem Calm.stop {d : Nat} {l : Lexeme} {row : List Lexeme} (h : prospect d l.kind = .none) :
    Calm d (l :: row) := fun _ _ => noCall_none h

section Rules

variable {c : Setting} {depth level least : Nat} {row : List Lexeme} {like : Expr → Prop}
  {ends stop : List Lexeme → Prop}

theorem Spine.mono (h : Spine c depth row like level ends) (hends : ∀ rest, stop rest → ends rest) :
    Spine c depth row like level stop :=
  fun _ _ _ _ hleast hstop hfinal => h hleast (hends _ hstop) hfinal

theorem Whole.mono (h : Whole c depth row like level ends) (hends : ∀ rest, stop rest → ends rest) :
    Whole c depth row like level stop :=
  fun _ hstop => h (hends _ hstop)

/-- Nothing goes on behind a closing parenthesis. -/
theorem Stops.rParen {rest : List Lexeme} (h : headKind rest = Symbol.rParen) : Stops level rest :=
  .of_none (by rw [h]; rfl) level

theorem Detached.rParen {rest : List Lexeme} (h : headKind rest = Symbol.rParen) :
    Detached rest := by
  constructor
  · rw [h]
    exact ⟨nofun, nofun⟩
  · rw [h]
    exact nofun
  · rw [h]
    exact nofun

end Rules

/-! ## Parts -/

@[simp] theorem Legible.part_iff {e : Expr} {least : Nat} :
    Legible (e.part parenthesized least) ↔ Legible (e.lexemes parenthesized) := by
  rw [Expr.part_parenthesized, inParens_iff]

@[simp] theorem Legible.rows_iff {es : List Expr} {least : Nat} :
    (∀ row ∈ Expr.rows parenthesized least es, Legible row) ↔
      ∀ e ∈ es, Legible (e.lexemes parenthesized) := by
  simp [Expr.rows_eq_map]

namespace Expr.Rewritten

variable {inTrait : Bool} {c : Setting} {depth level least : Nat} {pos : Position} {e : Expr}
  {rest : List Lexeme}

theorem calm_part (h : e.Rewritten inTrait) (d : Nat) : Calm d (e.part parenthesized least) := by
  rw [Expr.part_parenthesized]
  exact (h.calm d).parens

theorem length_part :
    (e.part parenthesized least).length = (e.lexemes parenthesized).length + 2 := by
  rw [Expr.part_parenthesized, inParens, List.length_append, List.length_cons]
  rfl

/-- A part is an operand. -/
theorem operand (h : e.Rewritten c.inTrait)
    (hdepth : 4 * (e.part parenthesized least).length ≤ depth + 1) :
    Operand c depth (e.part parenthesized least) e.Alike := by
  rw [length_part] at hdepth
  obtain ⟨depth, rfl⟩ : ∃ d, depth = d + 1 := ⟨depth - 1, by omega⟩
  rw [Expr.part_parenthesized]
  refine Operand.parens (h.whole c rfl depth (by omega)) (fun _ => rfl) fun pos e' he' => ?_
  obtain ⟨pos', form⟩ := e'
  exact he'

theorem stands (h : e.Rewritten c.inTrait)
    (hdepth : 4 * (e.part parenthesized least).length ≤ depth + 1) :
    Stands c depth (e.part parenthesized least) e.Alike level := .inl (h.operand hdepth)

theorem wholePart (h : e.Rewritten c.inTrait)
    (hdepth : 4 * (e.part parenthesized least).length ≤ depth + 1) :
    Whole c depth (e.part parenthesized least) e.Alike level (Stops level) :=
  (h.operand hdepth).whole

/-- A part of a tree is read back at whatever level. -/
theorem parses (h : e.Rewritten c.inTrait)
    (hdepth : 4 * (e.part parenthesized least).length ≤ depth) (hrest : Stops level rest) :
    Parses c (e.part parenthesized least ++ rest) ((Grammar.upTo depth).expr .build level)
      (Copies Expr.unplaced e) rest := by
  have hlength : (e.part parenthesized least).length = _ := length_part
  obtain ⟨depth, rfl⟩ : ∃ d, depth = d + 1 := ⟨depth - 1, by omega⟩
  exact h.wholePart hdepth hrest

theorem begins : Begins (e.part parenthesized least) fun k => k = Symbol.lParen := by
  rw [Expr.part_parenthesized]
  exact ⟨_, _, rfl, rfl⟩

/-- A part is read back as an item of a list. -/
theorem item (h : e.Rewritten c.inTrait)
    (hdepth : 4 * (e.part parenthesized least).length ≤ depth) {close : Symbol}
    (hcomma : Level.chain < level) (hclose : Continuation.ofKind? close = none) :
    Parses.Item c close ((Grammar.upTo depth).expr .build level) (Copies Expr.unplaced e)
      (e.part parenthesized least) := by
  rintro s (rfl | rfl) us
  · refine h.parses hdepth ⟨fun k hk => ?_, nofun⟩
    obtain rfl : Continuation.binary .comma = k := Option.some.inj hk
    exact hcomma
  · refine h.parses hdepth (.of_none ?_ _)
    exact hclose

/-- The arguments of a call are read back as the operands of a chain of commas. -/
theorem args {args : List Expr} (hcommas : ∀ a ∈ args, a.isComma = false)
    (hargs : ∀ a ∈ args, a.Rewritten c.inTrait)
    (hdepth : 4 * (commas (Expr.rows parenthesized Level.single args)).length ≤ depth) :
    Args c depth (commas (Expr.rows parenthesized Level.single args))
      fun es => es.map Expr.unplaced = args.map Expr.unplaced := by
  cases args with
  | nil => exact Args.none rfl
  | cons a args =>
    rw [List.forall_mem_cons] at hcommas hargs
    rw [commas_rows] at hdepth ⊢
    have hhead (rest : List Lexeme) : headKind ((a.part parenthesized Level.single ++
        args.flatMap fun a => .mark .comma :: a.part parenthesized Level.single) ++ rest) ≠
          Symbol.rParen := by
      rw [List.append_assoc, begins.headKind]
      exact nofun
    have hlength : (a.part parenthesized Level.single).length = _ := length_part
    rw [List.length_append] at hdepth
    obtain ⟨depth, rfl⟩ : ∃ k, depth = k + 2 := ⟨depth - 2, by omega⟩
    have hfirst : Stands c (depth + 1) (a.part parenthesized Level.single)
        (fun e => e.commaList.map Expr.unplaced = [a].map Expr.unplaced) Level.chain := by
      refine (hargs.1.stands (by omega)).imp fun e he => ?_
      have hsingle : e.isComma = false := by rw [he.isComma_eq, hcommas.1]
      rw [Expr.commaList_single hsingle, List.map_singleton, List.map_singleton, he]
    refine Args.chain hhead (Stands.whole (Stands.commas hfirst fun b hb => ?_) (Nat.le_refl _))
    refine ⟨hcommas.2 b hb, (hargs.2 b hb).wholePart ?_⟩
    have hitem := length_le_flatMap
      (f := fun a : Expr => Lexeme.mark .comma :: a.part parenthesized Level.single) hb
    rw [List.length_cons] at hitem
    omega

/-! ## Forms that are not atoms -/

/-- A form that no prefix and no atom begins is read back between parentheses. -/
theorem ofWhole (hatom : e.head.isAtom = false) (hprefixed : e.form.isPrefixed = false)
    (hlegible : Legible (e.lexemes parenthesized))
    (hcalm : ∀ d, Calm (d + 1) (e.lexemes parenthesized))
    (hwhole : Throughout inTrait (e.lexemes parenthesized) fun c depth =>
      Whole c depth (e.lexemes parenthesized) e.Alike Level.chain fun rest =>
        headKind rest = Symbol.rParen) : e.Rewritten inTrait where
  legible := hlegible
  calm := hcalm
  whole := hwhole
  chain h := by
    rw [hatom] at h
    exact absurd h Bool.false_ne_true
  prefixed h := by
    rw [hprefixed] at h
    exact absurd h Bool.false_ne_true

section Binary

variable {op : BinaryOp} {left right : Expr}

theorem alike_binary {pos' : Position} {l r : Expr} (hl : left.Alike l) (hr : right.Alike r) :
    Expr.Alike ⟨pos, .binary op left right⟩ ⟨pos', .binary op l r⟩ := by
  rw [Expr.alike_mk, ExprForm.unplaced, ExprForm.unplaced, hl, hr]

/-- Between parentheses, the operands of an operator are. -/
theorem binary_whole (hleft : left.Rewritten c.inTrait) (hright : right.Rewritten c.inTrait)
    (hdepth : 4 * (Expr.lexemes parenthesized ⟨pos, .binary op left right⟩).length ≤ depth) :
    Whole c depth (Expr.lexemes parenthesized ⟨pos, .binary op left right⟩)
      (Expr.Alike ⟨pos, .binary op left right⟩) Level.chain fun rest =>
        headKind rest = Symbol.rParen := by
  rw [Expr.lexemes, ExprForm.lexemes] at hdepth ⊢
  rw [List.length_append, List.length_cons] at hdepth
  obtain ⟨depth, rfl⟩ : ∃ d, depth = d + 1 := ⟨depth - 1, by omega⟩
  have hspine : Spine c (depth + 1) (left.part parenthesized op.leftLevel ++
      .mark op.symbol :: right.part parenthesized op.rightLevel)
      (Expr.Alike ⟨pos, .binary op left right⟩) op.level fun rest =>
        Stops (Level.behind op.level) rest ∧
          (op = .lt → noCall 0 (right.part parenthesized op.rightLevel ++ rest)) :=
    Spine.binary (hleft.stands (by omega)) (hright.wholePart (by omega))
      fun pos' l r hl hr => alike_binary hl hr
  refine (hspine.whole op.level_pos).mono fun rest hrest => ?_
  refine ⟨⟨.rParen hrest, fun _ => ?_⟩, .rParen hrest⟩
  refine hright.calm_part 0 rest ?_
  cases rest with
  | nil => rfl
  | cons l rest => exact noCall_none (by rw [show l.kind = _ from hrest]; rfl)

theorem binary_legible (hleft : left.Rewritten inTrait) (hright : right.Rewritten inTrait) :
    Legible (Expr.lexemes parenthesized ⟨pos, .binary op left right⟩) := by
  rw [Expr.lexemes, ExprForm.lexemes]
  simpa using ⟨hleft.legible, hright.legible⟩

theorem binary_calm (hleft : left.Rewritten inTrait) (hright : right.Rewritten inTrait) (d : Nat) :
    Calm (d + 1) (Expr.lexemes parenthesized ⟨pos, .binary op left right⟩) := by
  rw [Expr.lexemes, ExprForm.lexemes]
  exact (hleft.calm_part _).append
    (.cons (Calm.prospect_symbol op (by rintro ⟨⟩)) (hright.calm_part _))

theorem binary (hleft : left.Rewritten inTrait) (hright : right.Rewritten inTrait)
    (hop : op ≠ .scope) : Expr.Rewritten inTrait ⟨pos, .binary op left right⟩ := by
  have hhead : Expr.head ⟨pos, .binary op left right⟩ = .binary op left right := by
    cases op <;> first | rfl | exact absurd rfl hop
  refine ofWhole (by rw [hhead]; rfl) rfl (binary_legible hleft hright)
    (binary_calm hleft hright) ?_
  rintro c rfl depth hdepth
  exact binary_whole hleft hright hdepth

/-- Along a `::` chain, only the names behind the first one stand in parentheses. -/
theorem scope (hleft : left.Rewritten inTrait) (hright : right.Rewritten inTrait) :
    Expr.Rewritten inTrait ⟨pos, .binary .scope left right⟩ where
  legible := binary_legible hleft hright
  calm := binary_calm hleft hright
  whole := by
    rintro c rfl depth hdepth
    exact binary_whole hleft hright hdepth
  chain := by
    intro hatom
    obtain ⟨hlegible, hbegins, hspine⟩ := hleft.chain hatom
    have hrow : Expr.chain parenthesized ⟨pos, .binary .scope left right⟩ =
        left.chain parenthesized ++ .mark .colonColon ::
          right.part parenthesized (Level.path + 1) := by rw [Expr.chain]
    refine ⟨?_, hrow ▸ hbegins.append _, ?_⟩
    · rw [hrow]
      simpa using ⟨hlegible, hright.legible⟩
    rintro c rfl depth hdepth
    rw [hrow] at hdepth ⊢
    rw [List.length_append, List.length_cons] at hdepth
    obtain ⟨depth, rfl⟩ : ∃ d, depth = d + 1 := ⟨depth - 1, by omega⟩
    have hform (rest : List Lexeme) (l : Yield .build Expr) (hrest : Detached rest)
        (hl : left.Alike l) :
        Parses c (.mark .colonColon :: (right.part parenthesized (Level.path + 1) ++ rest))
          ((Grammar.upTo (depth + 1)).continuation .build l (.binary .scope))
          (fun form => ∃ l r, left.Alike l ∧ right.Alike r ∧ form = ExprForm.binary .scope l r)
          rest :=
      Parses.drop ((hright.parses (by omega) hrest.stops).bind fun r hr =>
        .pure ⟨l, r, hl, hr, rfl⟩)
    refine (hspine c rfl (depth + 1) (by omega)).goOn (k := .binary .scope) rfl (Nat.le_refl _)
      nofun (fun rest _ => ⟨⟨nofun, nofun⟩, nofun, nofun⟩) nofun hform ?_
    rintro pos' form ⟨l, r, hl, hr, rfl⟩
    exact alike_binary hl hr
  prefixed := nofun

end Binary

theorem ternary {condition consequence alternative : Expr}
    (hcondition : condition.Rewritten inTrait)
    (hconsequence : consequence.Rewritten inTrait) (halternative : alternative.Rewritten inTrait) :
    Expr.Rewritten inTrait ⟨pos, .ternary condition consequence alternative⟩ := by
  refine ofWhole rfl rfl ?_ (fun d => ?_) ?_
  · rw [Expr.lexemes, ExprForm.lexemes]
    simpa using ⟨hcondition.legible, hconsequence.legible, halternative.legible⟩
  · rw [Expr.lexemes, ExprForm.lexemes]
    exact ((hcondition.calm_part _).append (.cons (.inr rfl) (hconsequence.calm_part _))).append
      (.stop rfl)
  · rintro c rfl depth hdepth
    rw [Expr.lexemes, ExprForm.lexemes] at hdepth ⊢
    simp only [List.length_append, List.length_cons] at hdepth
    obtain ⟨depth, rfl⟩ : ∃ d, depth = d + 1 := ⟨depth - 1, by omega⟩
    refine Whole.mono (Whole.ternary (hcondition.stands (by omega))
      (hconsequence.wholePart (by omega)) (halternative.wholePart (by omega))
      fun pos' e y n he hy hn => ?_) fun rest hrest => .rParen hrest
    rw [Expr.alike_mk, ExprForm.unplaced, ExprForm.unplaced, he, hy, hn]

theorem count {op : UnaryOp} (hop : op = .increment ∨ op = .decrement) (h : e.Rewritten inTrait) :
    Expr.Rewritten inTrait ⟨pos, .unary op .behind e⟩ := by
  refine ofWhole rfl rfl ?_ (fun d => ?_) ?_
  · rw [Expr.lexemes, ExprForm.lexemes]
    simpa using ⟨h.legible, op.wellFormed_lexeme⟩
  · rw [Expr.lexemes, ExprForm.lexemes]
    refine (h.calm_part _).append (.stop ?_)
    rcases hop with rfl | rfl <;> rfl
  · rintro c rfl depth hdepth
    rw [Expr.lexemes, ExprForm.lexemes] at hdepth ⊢
    rw [List.length_append, List.length_singleton] at hdepth
    obtain ⟨depth, rfl⟩ : ∃ d, depth = d + 1 := ⟨depth - 1, by omega⟩
    have hread : Stands c (depth + 1) (e.part parenthesized Level.access ++ [op.lexeme])
        (Expr.Alike ⟨pos, .unary op .behind e⟩) Level.access := by
      refine Stands.count (h.stands (by omega)) hop fun pos' e' he' => ?_
      rw [Expr.alike_mk, ExprForm.unplaced, ExprForm.unplaced, he']
    exact (hread.whole (by decide)).mono fun rest hrest => .rParen hrest

theorem index {target position : Expr} (htarget : target.Rewritten inTrait)
    (hposition : position.Rewritten inTrait) :
    Expr.Rewritten inTrait ⟨pos, .index target position⟩ := by
  refine ofWhole rfl rfl ?_ (fun d => ?_) ?_
  · rw [Expr.lexemes, ExprForm.lexemes]
    simpa using ⟨htarget.legible, hposition.legible⟩
  · rw [Expr.lexemes, ExprForm.lexemes]
    exact (htarget.calm_part _).append (hposition.calm_part _).brackets
  · rintro c rfl depth hdepth
    rw [Expr.lexemes, ExprForm.lexemes] at hdepth ⊢
    simp only [inBrackets, List.length_append, List.length_cons] at hdepth
    obtain ⟨depth, rfl⟩ : ∃ d, depth = d + 1 := ⟨depth - 1, by omega⟩
    have hread : Stands c (depth + 1) (target.part parenthesized Level.access ++
        inBrackets (position.part parenthesized Level.chain))
        (Expr.Alike ⟨pos, .index target position⟩) Level.access := by
      refine Stands.index (htarget.stands (by omega)) (hposition.wholePart (by omega))
        fun pos' e i he hi => ?_
      rw [Expr.alike_mk, ExprForm.unplaced, ExprForm.unplaced, he, hi]
    exact (hread.whole (by decide)).mono fun rest hrest => .rParen hrest

theorem args_legible {args : List Expr} (hargs : ∀ a ∈ args, a.Rewritten inTrait) :
    Legible (inParens (commas (Expr.rows parenthesized Level.single args))) := by
  simpa using fun a ha => (hargs a ha).legible

theorem args_calm {args : List Expr} (hargs : ∀ a ∈ args, a.Rewritten inTrait) (d : Nat) :
    Calm d (commas (Expr.rows parenthesized Level.single args)) := by
  rw [Expr.rows_eq_map]
  refine .commas fun row hrow => ?_
  obtain ⟨a, ha, rfl⟩ := List.mem_map.1 hrow
  exact (hargs a ha).calm_part d

theorem call {callee : Expr} {args : List Expr} (hcallee : callee.Rewritten inTrait)
    (hcommas : ∀ a ∈ args, a.isComma = false) (hargs : ∀ a ∈ args, a.Rewritten inTrait) :
    Expr.Rewritten inTrait ⟨pos, .call callee args⟩ := by
  refine ofWhole rfl rfl ?_ (fun d => ?_) ?_
  · rw [Expr.lexemes, ExprForm.lexemes, Legible.append_iff, Legible.part_iff]
    exact ⟨hcallee.legible, args_legible hargs⟩
  · rw [Expr.lexemes, ExprForm.lexemes]
    exact (hcallee.calm_part _).append (args_calm hargs _).parens
  · rintro c rfl depth hdepth
    rw [Expr.lexemes, ExprForm.lexemes] at hdepth ⊢
    simp only [inParens, List.length_append, List.length_cons] at hdepth
    have hread : Stands c depth (callee.part parenthesized Level.access ++
        inParens (commas (Expr.rows parenthesized Level.single args)))
        (Expr.Alike ⟨pos, .call callee args⟩) Level.access := by
      refine Stands.call (hcallee.stands (by omega)) (Rewritten.args hcommas hargs (by omega))
        fun pos' e es he hes => ?_
      rw [Expr.alike_mk, ExprForm.unplaced, ExprForm.unplaced, he, Expr.unplacedAll_eq_map,
        Expr.unplacedAll_eq_map, hes]
    exact (hread.whole (by decide)).mono fun rest hrest => .rParen hrest

end Expr.Rewritten

end ScriptFront
