import ScriptFront.Proofs.Rewriting.Rows
import ScriptFront.Proofs.Shapes.Types

/-!
# Types that are written anew

What is known of every type that a text was read as tells that it can be written, so it is read
back.

- `Vocabulary.Writable`: the words of a text can be written down again.
- `Node.Writable`: what is known of every node of a tree that is to be written.
- `TypeExpr.Written`: a type is spelled by the row that is written of it.
-/

namespace ScriptFront

open ScriptFront.Parser

/-! ## What is known of a tree -/

/-- The words of a text can be written, and types that stand before the name of a function hold no
parentheses. -/
structure Vocabulary.Writable (V : Vocabulary) : Prop where
  wellFormed {kind : TokenKind} {text : String} (h : V.text kind text) (heof : kind ≠ .eof)
    (hsymbol : ∀ s : Symbol, kind ≠ s) : Lexeme.WellFormed ⟨kind, text⟩
  firm : V.firm
  source {t : TypeExpr} (h : V.source t) : ∀ l ∈ t.lexemes, l.kind ≠ Symbol.lParen

theorem Vocabulary.Writable.name {V : Vocabulary} (hV : V.Writable) {text : String}
    (h : V.Name text) : IsName text := by
  cases hV.wellFormed h nofun nofun with
  | name h => exact h

/-- No `void` stands in the place of a value. -/
def Node.NoVoidValue : Node → Prop
  | .expr e => ∀ type, e.form = .primitive type → type.isVoid = false
  | _ => True

/-- A node of a tree that a text was read as, and that is to be written. -/
structure Node.Writable (V : Vocabulary) (inTrait : Bool) (n : Node) : Prop
    extends Node.Parsed V inTrait n where
  noVoidValue : n.NoVoidValue

/-- A type is spelled by the row that is written of it. -/
abbrev TypeExpr.Written (inTrait : Bool) (t : TypeExpr) : Prop :=
  TypeExpr.SpelledBy inTrait t t.lexemes

/-! ## Types are spelled by their rows -/

section Spelling

variable {V : Vocabulary} {inTrait : Bool}

theorem TypeExpr.rows_eq_map (ts : List TypeExpr) : TypeExpr.rows ts = ts.map TypeExpr.lexemes := by
  induction ts with
  | nil => rfl
  | cons t ts ih => rw [TypeExpr.rows, ih, List.map_cons]

theorem TypeExpr.AllSpelledBy.of_written {ts : List TypeExpr}
    (h : ∀ t ∈ ts, t.Written inTrait) (hvoid : ∀ t ∈ ts, t.isVoid = false) :
    TypeExpr.AllSpelledBy inTrait ts (TypeExpr.rows ts) := by
  induction ts with
  | nil => exact .nil
  | cons t ts ih =>
    rw [List.forall_mem_cons] at h hvoid
    exact .cons h.1 hvoid.1 (ih h.2 hvoid.2)

theorem PathSegment.spelled {s : PathSegment} (hname : IsName s.name)
    (h : ∀ t ∈ s.generics, t.Written inTrait) (hvoid : ∀ t ∈ s.generics, t.isVoid = false) :
    PathSegment.SpelledBy inTrait s s.lexemes := by
  obtain ⟨pos, name, root, generics⟩ := s
  cases generics with
  | nil => exact .plain hname
  | cons t ts => exact .generic hname (.of_written h hvoid) (List.cons_ne_nil t ts)

theorem PathSegment.allSpelled {segments : List PathSegment}
    (hroot : ∀ s ∈ segments, s.root = false)
    (h : ∀ s ∈ segments, PathSegment.SpelledBy inTrait s s.lexemes) :
    PathSegment.AllSpelledBy inTrait segments (PathSegment.furtherLexemes segments) := by
  induction segments with
  | nil => exact .nil
  | cons s segments ih =>
    rw [List.forall_mem_cons] at hroot h
    exact .cons hroot.1 h.1 (ih hroot.2 h.2)

/-- A type that is spelled as `void` is no more than that. -/
theorem TypeExpr.SpelledBy.eq_voidAt {t : TypeExpr} {row : List Lexeme}
    (h : TypeExpr.SpelledBy inTrait t row) (hvoid : t.isVoid) : ∃ pos, t = .voidAt pos := by
  have hform := TypeExpr.form_of_isVoid hvoid
  cases h with
  | @plain pos form row h =>
    obtain rfl : form = .primitive .void := hform
    exact ⟨pos, rfl⟩
  | absent h hne => exact absurd hform hne

/-- A type whose parts are spelled by their rows is spelled by its row. -/
theorem TypeExpr.written (hV : V.Writable) {t : TypeExpr}
    (here : (Node.type t).Writable V inTrait) (parts : ∀ s ∈ t.form.types, s.Written inTrait) :
    t.Written inTrait := by
  obtain ⟨pos, nullable, form⟩ := t
  have hwell : form.WellFormed := here.wellFormed hV.firm
  obtain ⟨hnullable, hvoid⟩ := here.voidsPlaced
  have hwords : V.OfType inTrait form := here.spelled
  have hform : TypeForm.SpelledBy inTrait form form.lexemes := by
    cases form with
    | primitive type => exact .primitive type
    | selfType => exact .selfType hwords
    | array element dims =>
      exact .array (parts element List.mem_cons_self) hvoid hwell.1 hwell.2 hwords
    | function params result =>
      have hparams : TypeExpr.AllSpelledBy inTrait params (TypeExpr.rows params) :=
        .of_written (fun s hs => parts s (List.mem_cons_of_mem _ hs)) hvoid
      rw [TypeForm.lexemes]
      by_cases hresult : result.isVoid
      · obtain ⟨pos, rfl⟩ := (parts result List.mem_cons_self).eq_voidAt hresult
        rw [if_pos hresult, List.append_nil]
        exact .procedure hparams
      · rw [if_neg hresult]
        exact .function hparams (parts result List.mem_cons_self)
    | tuple members => exact .tuple (.of_written parts hvoid) hwell
    | named path =>
      have hsegments (s : PathSegment) (hs : s ∈ path.segments) :
          PathSegment.SpelledBy inTrait s s.lexemes :=
        PathSegment.spelled (hV.name (hwords s hs))
          (fun t ht => parts t (List.mem_flatMap.2 ⟨s, hs, ht⟩)) (hvoid s hs)
      obtain ⟨head, tail⟩ := path
      exact .named (.mk (hsegments head List.mem_cons_self)
        (PathSegment.allSpelled hwell fun s hs => hsegments s (List.mem_cons_of_mem _ hs)))
  rw [TypeExpr.Written, TypeExpr.lexemes]
  cases nullable with
  | false =>
    rw [if_neg Bool.false_ne_true, List.append_nil]
    exact .plain hform
  | true =>
    refine .absent hform ?_
    rintro rfl
    exact absurd (hnullable rfl) Bool.true_eq_false.mp

end Spelling

/-! ## Types are read back -/

section Reading

variable {c : Setting} {t : TypeExpr} {row rest : List Lexeme} {depth : Nat}

instance (k : TokenKind) : Decidable (IsTypeSuffix k) :=
  inferInstanceAs (Decidable (_ ∨ _ ∨ _ ∨ _))

theorem not_isTypeSuffix_cons {l : Lexeme} (h : ¬IsTypeSuffix l.kind) (ls : List Lexeme) :
    ¬IsTypeSuffix (headKind (l :: ls)) := h

theorem EndsType.of_headKind (h : ¬IsTypeSuffix (headKind rest)) : EndsType rest := by
  cases rest with
  | nil => exact fun _ hk => hk
  | cons l rest =>
    by_cases hl : l = .mark .gt
    · subst hl
      exact .of_mark .gt (.inr (.inl rfl)) rest
    · intro k hk
      rw [Fronts, if_neg hl] at hk
      exact hk ▸ h

namespace TypeExpr.SpelledBy

theorem parses (h : TypeExpr.SpelledBy c.inTrait t row) (hdepth : row.length < depth)
    (hrest : ¬IsTypeSuffix (headKind rest)) :
    Parses c (row ++ rest) ((Grammar.upTo depth).type .build) (Copies TypeExpr.unplaced t) rest :=
  (h.read c.feed).1.inGrammar hdepth (.of_headKind hrest)

theorem readsValue (h : TypeExpr.SpelledBy c.inTrait t row) (hvoid : t.isVoid = false) :
    ReadsValue (Reads c) t row := ⟨(h.read c.feed).1, h.begins, hvoid⟩

/-- A type where `void` is rejected. -/
theorem parsesValue (h : TypeExpr.SpelledBy c.inTrait t row) (hvoid : t.isVoid = false)
    (use : VoidUse) (hdepth : row.length < depth) (hrest : ¬IsTypeSuffix (headKind rest)) :
    Parses c (row ++ rest) (do
        Grammar.rejectVoid use
        (Grammar.upTo depth).type .build : Parse Buffer (Yield .build TypeExpr))
      (Copies TypeExpr.unplaced t) rest :=
  (h.readsValue hvoid).rejectVoid c.feed (h.parses hdepth hrest)

end TypeExpr.SpelledBy

/-- The type arguments of a path or call. -/
theorem TypeExpr.AllSpelledBy.parses {ts : List TypeExpr} {rows : List (List Lexeme)}
    (h : TypeExpr.AllSpelledBy c.inTrait ts rows) (hne : ts ≠ [])
    (hdepth : (commas rows).length < depth) :
    Parses c (inAngles (commas rows) ++ rest) ((Grammar.upTo depth).genericArgs .build)
      (fun out : List TypeExpr => out.map TypeExpr.unplaced = ts.map TypeExpr.unplaced) rest := by
  have hread := ReadsValue.genericArgs c.feed (h.read c.feed) hne hdepth rest
  refine Parses.mono (V := fun out : List TypeExpr => List.Forall₂ TypeExpr.Alike ts out) hread ?_
  intro out hout
  rw [← TypeExpr.unplacedAll_eq_map, ← TypeExpr.unplacedAll_eq_map,
    TypeExpr.unplacedAll_of_alike hout]

/-- A type is spelled by its form, and by a question mark if it may be absent. -/
theorem TypeExpr.SpelledBy.form_row {inTrait : Bool} (h : TypeExpr.SpelledBy inTrait t row) :
    ∃ base, row = base ++ questionMark t.nullable ∧ TypeForm.SpelledBy inTrait t.form base ∧
      (t.nullable → t.form ≠ .primitive .void) := by
  cases h with
  | plain h => exact ⟨row, (List.append_nil row).symm, h, nofun⟩
  | absent h hvoid => exact ⟨_, rfl, h, fun _ => hvoid⟩

/-- The name of a primitive type and its dimensions are read whatever stands behind them but
further ones. -/
theorem TypeExpr.StartsPrimitive.parses (hprimitive : t.StartsPrimitive)
    (h : TypeExpr.SpelledBy c.inTrait t row) (hdepth : row.length < depth)
    (hrest : IsBare (headKind rest)) :
    Parses c (row ++ rest) ((Grammar.upTo depth).type .build)
      (Copies TypeExpr.unplaced t) rest := by
  obtain ⟨depth, rfl⟩ : ∃ d, depth = d + 1 := ⟨depth - 1, by omega⟩
  have hdepth := Nat.le_of_lt_succ hdepth
  have hbare : ∀ p, Reads c rest p → IsBare p.current.kind := fun p hp => hp.kind_eq ▸ hrest
  have hword (type : PrimitiveType) : ReadsUpTo (fun _ => True) (Reads c) (.primitive type)
      [.word (.primitive type)] := .primitive c.feed type
  obtain ⟨base, rfl, hbase, hvoid⟩ := h.form_row
  obtain ⟨pos, nullable, form⟩ := t
  rcases hprimitive with ⟨type, hform⟩ | ⟨⟨pos', nullable', form'⟩, dims, type, hform, helement⟩
  · obtain rfl : form = .primitive type := hform
    have hbegins := hbase.begins
    cases hbase
    exact (hword type).typeStep c.feed hbegins pos hvoid hdepth trivial
      (fun _ p hp => (hbare p hp).1) fun p hp => (hbare p hp).2
  · obtain rfl : form = .array ⟨pos', nullable', form'⟩ dims := hform
    obtain rfl : form' = .primitive type := helement
    cases hbase with
    | array helement hvoid' _ hdims hsizes =>
      obtain ⟨word, rfl, helement, -⟩ := helement.form_row
      have hbegins := helement.begins
      cases helement
      have hvalue : TypeForm.primitive type ≠ .primitive .void := by
        rintro ⟨⟩
        exact absurd hvoid' nofun
      refine (hword type).arrayStep c.feed hbegins hvalue pos' nullable' hdims hsizes pos nullable
        ?_ (fun _ _ _ => trivial) fun _ => hbare
      simp only [List.length_append] at hdepth ⊢
      omega

end Reading

end ScriptFront
