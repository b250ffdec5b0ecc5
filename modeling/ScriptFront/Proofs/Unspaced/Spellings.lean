import ScriptFront.Proofs.Shapes.Properties
import ScriptFront.Proofs.Unspaced.Feeds
import ScriptFront.Proofs.Writing.Legible
import ScriptFront.Proofs.Writing.Numerals

/-!
# How types are spelled

- `TypeExpr.SpelledBy`: the types that can be written, each with the rows of lexemes that spell it.
  The result of a function type may be left out if it is `void`.
- `TypeExpr.SpelledBy.legible`, `TypeExpr.SpelledBy.begins`: such rows can be read, and begin as
  types do.
- `TypeExpr.GoesOn`: the tokens that are taken for a part of a type where they stand behind it.
-/

namespace ScriptFront

open ScriptFront.Parser

/-! ## Spellings -/

section Spellings

variable (inTrait : Bool)

mutual

/-- A row of lexemes spells a type. -/
inductive TypeExpr.SpelledBy : TypeExpr → List Lexeme → Prop where
  | plain {pos : Position} {form : TypeForm} {row : List Lexeme}
    (h : TypeForm.SpelledBy form row) : TypeExpr.SpelledBy ⟨pos, false, form⟩ row
  | absent {pos : Position} {form : TypeForm} {row : List Lexeme}
    (h : TypeForm.SpelledBy form row) (hvoid : form ≠ .primitive .void) :
    TypeExpr.SpelledBy ⟨pos, true, form⟩ (row ++ [.mark .question])

/-- A row of lexemes spells a form of type. -/
inductive TypeForm.SpelledBy : TypeForm → List Lexeme → Prop where
  | primitive (type : PrimitiveType) :
    TypeForm.SpelledBy (.primitive type) [.word (.primitive type)]
  | selfType (h : inTrait = true) : TypeForm.SpelledBy .selfType [.word .selfKw]
  | array {element : TypeExpr} {dims : List ArrayDim} {row : List Lexeme}
    (h : TypeExpr.SpelledBy element row) (hvoid : element.isVoid = false)
    (helement : ¬element.IsArray) (hdims : dims ≠ [])
    (hsizes : ∀ size, .sized size ∈ dims → size < Grammar.arraySizeLimit) :
    TypeForm.SpelledBy (.array element dims) (row ++ dims.flatMap ArrayDim.lexemes)
  | function {params : List TypeExpr} {result : TypeExpr} {rows : List (List Lexeme)}
    {row : List Lexeme} (hparams : TypeExpr.AllSpelledBy params rows)
    (hresult : TypeExpr.SpelledBy result row) :
    TypeForm.SpelledBy (.function params result)
      (.word .fnKw :: inParens (commas rows ++ .mark .arrow :: row))
  | procedure {params : List TypeExpr} {rows : List (List Lexeme)} {pos : Position}
    (hparams : TypeExpr.AllSpelledBy params rows) :
    TypeForm.SpelledBy (.function params (.voidAt pos)) (.word .fnKw :: inParens (commas rows))
  | tuple {members : List TypeExpr} {rows : List (List Lexeme)}
    (hmembers : TypeExpr.AllSpelledBy members rows) (hne : members ≠ []) :
    TypeForm.SpelledBy (.tuple members) (inParens (commas rows))
  | named {path : TypePath} {row : List Lexeme} (h : TypePath.SpelledBy path row) :
    TypeForm.SpelledBy (.named path) row

/-- A row of lexemes spells a path, which begins with a mark if it is one from the root. -/
inductive TypePath.SpelledBy : TypePath → List Lexeme → Prop where
  | mk {head : PathSegment} {tail : List PathSegment} {row more : List Lexeme}
    (hhead : PathSegment.SpelledBy head row) (htail : PathSegment.AllSpelledBy tail more) :
    TypePath.SpelledBy ⟨head, tail⟩
      ((if head.root then [.mark .colonColon] else []) ++ row ++ more)

/-- A row of lexemes spells a name of a path with its type arguments. -/
inductive PathSegment.SpelledBy : PathSegment → List Lexeme → Prop where
  | plain {pos : Position} {name : String} {root : Bool} (h : IsName name) :
    PathSegment.SpelledBy ⟨pos, name, root, []⟩ [.name name]
  | generic {pos : Position} {name : String} {root : Bool} {generics : List TypeExpr}
    {rows : List (List Lexeme)} (h : IsName name)
    (hgenerics : TypeExpr.AllSpelledBy generics rows) (hne : generics ≠ []) :
    PathSegment.SpelledBy ⟨pos, name, root, generics⟩ (.name name :: inAngles (commas rows))

/-- A row of lexemes spells the further names of a path, each with the mark before it; none of them
is one from the root. -/
inductive PathSegment.AllSpelledBy : List PathSegment → List Lexeme → Prop where
  | nil : PathSegment.AllSpelledBy [] []
  | cons {segment : PathSegment} {segments : List PathSegment} {row more : List Lexeme}
    (hroot : segment.root = false) (h : PathSegment.SpelledBy segment row)
    (hmore : PathSegment.AllSpelledBy segments more) :
    PathSegment.AllSpelledBy (segment :: segments) (.mark .colonColon :: (row ++ more))

/-- Rows of lexemes spell types of values. -/
inductive TypeExpr.AllSpelledBy : List TypeExpr → List (List Lexeme) → Prop where
  | nil : TypeExpr.AllSpelledBy [] []
  | cons {type : TypeExpr} {types : List TypeExpr} {row : List Lexeme} {rows : List (List Lexeme)}
    (h : TypeExpr.SpelledBy type row) (hvoid : type.isVoid = false)
    (hmore : TypeExpr.AllSpelledBy types rows) :
    TypeExpr.AllSpelledBy (type :: types) (row :: rows)

end

end Spellings

/-! ## Spellings can be read -/

theorem ArrayDim.legible (d : ArrayDim) : Legible d.lexemes := by
  cases d with
  | unsized => simp [ArrayDim.lexemes]
  | sized n => simpa [ArrayDim.lexemes] using Lexeme.WellFormed.integer (isInteger_toString n)

mutual

theorem TypeExpr.SpelledBy.legible {inTrait : Bool} : {t : TypeExpr} → {row : List Lexeme} →
    TypeExpr.SpelledBy inTrait t row → Legible row
  | _, _, .plain h => h.legible
  | _, _, .absent h _ => by simpa using h.legible

theorem TypeForm.SpelledBy.legible {inTrait : Bool} : {form : TypeForm} → {row : List Lexeme} →
    TypeForm.SpelledBy inTrait form row → Legible row
  | _, _, .primitive _ => by simp
  | _, _, .selfType _ => by simp
  | _, _, .array h _ _ _ _ => by simpa using ⟨h.legible, fun d _ => d.legible⟩
  | _, _, .function hparams hresult => by simpa using ⟨hparams.legible, hresult.legible⟩
  | _, _, .procedure hparams => by simpa using hparams.legible
  | _, _, .tuple hmembers _ => by simpa using hmembers.legible
  | _, _, .named h => h.legible

theorem TypePath.SpelledBy.legible {inTrait : Bool} : {path : TypePath} → {row : List Lexeme} →
    TypePath.SpelledBy inTrait path row → Legible row
  | ⟨head, _⟩, _, .mk hhead htail => by
    have hroot : Legible (if head.root then [.mark .colonColon] else []) := by
      cases head.root <;> simp
    simpa using ⟨hroot, hhead.legible, htail.legible⟩

theorem PathSegment.SpelledBy.legible {inTrait : Bool} : {s : PathSegment} → {row : List Lexeme} →
    PathSegment.SpelledBy inTrait s row → Legible row
  | _, _, .plain hname => by simpa using Lexeme.WellFormed.name hname
  | _, _, .generic hname hgenerics _ => by
    simpa using ⟨Lexeme.WellFormed.name hname, hgenerics.legible⟩

theorem PathSegment.AllSpelledBy.legible {inTrait : Bool} : {segments : List PathSegment} →
    {row : List Lexeme} → PathSegment.AllSpelledBy inTrait segments row → Legible row
  | _, _, .nil => .nil
  | _, _, .cons _ h hmore => by simpa using ⟨h.legible, hmore.legible⟩

theorem TypeExpr.AllSpelledBy.legible {inTrait : Bool} : {ts : List TypeExpr} →
    {rows : List (List Lexeme)} → TypeExpr.AllSpelledBy inTrait ts rows →
    ∀ row ∈ rows, Legible row
  | _, _, .nil => nofun
  | _, _, .cons h _ hmore => by simpa using ⟨h.legible, hmore.legible⟩

end

/-! ## How rows begin -/

/-- The lexemes that a type begins with. -/
inductive StartsType : Lexeme → Prop where
  | primitive (type : PrimitiveType) : StartsType (.word (.primitive type))
  | selfType : StartsType (.word .selfKw)
  | function : StartsType (.word .fnKw)
  | paren : StartsType (.mark .lParen)
  | root : StartsType (.mark .colonColon)
  | name {text : String} (h : IsName text) : StartsType (.name text)

/-- A row begins as types do; only `void` begins with its name. -/
def BeginsType (form : TypeForm) (row : List Lexeme) : Prop :=
  ∃ l more, row = l :: more ∧ StartsType l ∧
    (l.kind = .primitive .void → form = .primitive .void)

theorem BeginsType.append {form : TypeForm} {row : List Lexeme} (h : BeginsType form row)
    (more : List Lexeme) : BeginsType form (row ++ more) := by
  obtain ⟨l, rest, rfl, hl, hvoid⟩ := h
  exact ⟨l, rest ++ more, rfl, hl, hvoid⟩

theorem PathSegment.SpelledBy.eq_name {inTrait : Bool} {segment : PathSegment} {row : List Lexeme}
    (h : PathSegment.SpelledBy inTrait segment row) :
    ∃ more, row = .name segment.name :: more ∧ IsName segment.name := by
  cases h with
  | plain hname => exact ⟨_, rfl, hname⟩
  | generic hname hgenerics hne => exact ⟨_, rfl, hname⟩

theorem TypePath.SpelledBy.begins {inTrait : Bool} {path : TypePath} {row : List Lexeme}
    (h : TypePath.SpelledBy inTrait path row) : BeginsType (.named path) row := by
  cases h with
  | @mk head tail row more hhead htail =>
    cases head.root with
    | true => exact ⟨_, _, rfl, .root, nofun⟩
    | false =>
      obtain ⟨more, rfl, hname⟩ := hhead.eq_name
      exact ⟨_, _, rfl, .name hname, nofun⟩

mutual

theorem TypeExpr.SpelledBy.begins {inTrait : Bool} : {type : TypeExpr} → {row : List Lexeme} →
    TypeExpr.SpelledBy inTrait type row → BeginsType type.form row
  | _, _, .plain h => h.begins
  | _, _, .absent h _ => h.begins.append _

theorem TypeForm.SpelledBy.begins {inTrait : Bool} : {form : TypeForm} → {row : List Lexeme} →
    TypeForm.SpelledBy inTrait form row → BeginsType form row
  | _, _, .primitive type => by
    refine ⟨_, _, rfl, .primitive type, fun hvoid => ?_⟩
    rw [Keyword.primitive.inj (TokenKind.keyword.inj hvoid)]
  | _, _, .selfType _ => ⟨_, _, rfl, .selfType, nofun⟩
  | _, _, .array h hvoid _ _ _ => by
    obtain ⟨l, more, hrow, hl, helement⟩ := h.begins
    refine ⟨l, _, by rw [hrow]; rfl, hl, fun hkind => ?_⟩
    rw [TypeExpr.isVoid, helement hkind] at hvoid
    nomatch hvoid
  | _, _, .function _ _ => ⟨_, _, rfl, .function, nofun⟩
  | _, _, .procedure _ => ⟨_, _, rfl, .function, nofun⟩
  | _, _, .tuple _ _ => ⟨_, _, rfl, .paren, nofun⟩
  | _, _, .named h => h.begins

end

theorem StartsType.ne_angle {l : Lexeme} (h : StartsType l) : l ≠ .mark .gt := by
  cases h with
  | name h => exact Feed.name_ne _
  | _ => exact fun h => absurd (congrArg Lexeme.kind h) nofun

/-! ## What types go on with -/

/-- The name of a path goes on with type arguments if it has none. -/
def PathSegment.GoesOn (segment : PathSegment) (k : TokenKind) : Prop :=
  k = Symbol.lt ∧ segment.generics = []

/-- A path goes on with a further name, or as its last name does. -/
def TypePath.GoesOn (path : TypePath) (k : TokenKind) : Prop :=
  k = Symbol.colonColon ∨ ∃ last ∈ path.segments.getLast?, last.GoesOn k

/-- What is part of a form and of no question mark or dimension behind it. -/
def TypeForm.GoesOn : TypeForm → TokenKind → Prop
  | .named path, k => path.GoesOn k
  | _, _ => False

/-- A token is taken for a part of a type where it stands behind the type. Behind a question mark,
only dimensions are, and none if there are some before the mark. -/
def TypeExpr.GoesOn (t : TypeExpr) (k : TokenKind) : Prop :=
  if t.nullable then k = Symbol.lBracket ∧ ¬t.IsArray
  else k = Symbol.question ∨ k = Symbol.lBracket ∨ t.form.GoesOn k

/-- Nothing stands in front that something goes on with. -/
def EndsAt (goesOn : TokenKind → Prop) (us : List Lexeme) : Prop := ∀ k, Fronts us k → ¬goesOn k

/-- No type goes on with what stands in front. -/
def EndsType (us : List Lexeme) : Prop := ∀ k, Fronts us k → ¬IsTypeSuffix k

theorem TypeForm.GoesOn.isTypeSuffix {form : TypeForm} {k : TokenKind} (h : form.GoesOn k) :
    IsTypeSuffix k := by
  cases form with
  | named path =>
    rcases h with rfl | ⟨last, -, rfl, -⟩
    · exact .inr (.inr (.inl rfl))
    · exact .inr (.inr (.inr rfl))
  | _ => exact h.elim

theorem TypeExpr.GoesOn.isTypeSuffix {t : TypeExpr} {k : TokenKind} (h : t.GoesOn k) :
    IsTypeSuffix k := by
  unfold TypeExpr.GoesOn at h
  split at h
  · exact .inr (.inl h.1)
  · rcases h with rfl | rfl | h
    · exact .inl rfl
    · exact .inr (.inl rfl)
    · exact h.isTypeSuffix

theorem EndsType.endsAt {us : List Lexeme} (h : EndsType us) (t : TypeExpr) : EndsAt t.GoesOn us :=
  fun k hk hgo => h k hk hgo.isTypeSuffix

theorem EndsType.of_mark (s : Symbol) (hs : s = .comma ∨ s = .gt ∨ s = .rParen ∨ s = .arrow)
    (us : List Lexeme) : EndsType (.mark s :: us) := by
  intro k hk
  rcases hs with rfl | rfl | rfl | rfl
  · obtain rfl : k = Symbol.comma := hk
    simp [IsTypeSuffix]
  · have hk : IsCloser k := hk
    rcases hk with rfl | rfl | rfl | rfl <;> simp [IsTypeSuffix]
  · obtain rfl : k = Symbol.rParen := hk
    simp [IsTypeSuffix]
  · obtain rfl : k = Symbol.arrow := hk
    simp [IsTypeSuffix]

/-- No form goes on with what may stand behind any type. -/
theorem EndsAt.of_mark (form : TypeForm) (s : Symbol) (hs : s = .question ∨ s = .lBracket)
    (us : List Lexeme) : EndsAt form.GoesOn (.mark s :: us) := by
  intro k hk hgo
  cases form with
  | named path =>
    rcases hs with rfl | rfl
    · obtain rfl : k = Symbol.question := hk
      rcases hgo with hscope | ⟨last, -, hangle, -⟩
      · exact absurd hscope nofun
      · exact absurd hangle nofun
    · obtain rfl : k = Symbol.lBracket := hk
      rcases hgo with hscope | ⟨last, -, hangle, -⟩
      · exact absurd hscope nofun
      · exact absurd hangle nofun
  | _ => exact hgo.elim

end ScriptFront
