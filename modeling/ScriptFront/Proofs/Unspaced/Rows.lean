import ScriptFront.Proofs.Unspaced.Tokens
import ScriptFront.Proofs.Unspaced.Types

/-!
# Types lexeme by lexeme

Of the lexemes of a type, only closing angles are ever taken together with what stands behind them:
whatever else a type is made of, the next lexeme keeps it apart.

- `KeptApart.bracket`, `KeptApart.word`, …: one lexeme in front of others.
- `TypeExpr.SpelledBy.keptApart`: all lexemes of a type.
-/

namespace ScriptFront

open ScriptFront.Parser
open Walker

-- What a reading comes to is told by the rules; nothing is to be run to find out.
attribute [local irreducible] Ends

/-! ## Lexemes -/

namespace KeptApart

variable {tail : List UInt8} {ls : List Lexeme}

/-- A mark that nothing in front of it goes on with. -/
theorem apart_mark (s : Symbol) (hs : s.bytes.head?.all fun b => !isNumberByte b)
    (ls : List Lexeme) : Apart isNumberByte (unspaced (.mark s :: ls) ++ tail) := by
  obtain ⟨b, more, hbytes⟩ := List.exists_cons_of_ne_nil s.bytes_ne_nil
  rw [hbytes] at hs
  rw [unspaced_cons, Takes.bytes_mark, hbytes]
  simpa [Apart] using hs

theorem mark (s : Symbol) (hslash : s.bytes.head? ≠ some (byteOf '/'))
    (hs : ∀ b ∈ (unspaced ls ++ tail).head?, b ∉ s.furtherBytes) (h : KeptApart tail ls) :
    KeptApart tail (.mark s :: ls) := by
  refine .token ?_ h
  rw [Takes.bytes_mark]
  exact Lexes.mark s hslash hs

/-- A mark that no longer symbol begins with. -/
theorem bracket (s : Symbol) (hslash : s.bytes.head? ≠ some (byteOf '/'))
    (hs : s.furtherBytes = []) (h : KeptApart tail ls) : KeptApart tail (.mark s :: ls) := by
  refine mark s hslash (fun b _ => ?_) h
  rw [hs]
  exact List.not_mem_nil

theorem word (k : Keyword) (htail : Apart isNumberByte (unspaced ls ++ tail))
    (h : KeptApart tail ls) : KeptApart tail (.word k :: ls) :=
  .token (Lexes.word k (htail.mono fun b hb => by simp [isNumberByte, hb])) h

theorem name {text : String} (hname : IsName text)
    (htail : Apart isNumberByte (unspaced ls ++ tail)) (h : KeptApart tail ls) :
    KeptApart tail (.name text :: ls) :=
  .token (Lexes.name hname (htail.mono fun b hb => by simp [isNumberByte, hb])) h

/-- A question mark goes on with a point only. -/
theorem question (htail : Apart isNumberByte (unspaced ls ++ tail)) (h : KeptApart tail ls) :
    KeptApart tail (.mark .question :: ls) := by
  refine mark .question (by decide) (fun b hb hmem => ?_) h
  obtain rfl : b = byteOf '.' := by
    have hfurther : Symbol.question.furtherBytes = [byteOf '.'] := by decide
    rw [hfurther] at hmem
    exact List.mem_singleton.1 hmem
  refine htail.ne (b := byteOf '.') rfl ?_
  rw [List.head?_eq_getElem?] at hb
  rw [hb]
  rfl

end KeptApart

/-- No opening angle goes on with what a type begins with. -/
theorem StartsType.not_mem_furtherBytes {l : Lexeme} (h : StartsType l) (more : List UInt8) :
    ∀ b ∈ (l.bytes ++ more).head?, b ∉ Symbol.lt.furtherBytes := by
  have hletter {bytes : List UInt8} (h : ∃ b more, bytes = b :: more ∧ isLetter b) :
      ∀ b ∈ (bytes ++ more).head?, b ∉ Symbol.lt.furtherBytes := by
    obtain ⟨b, rest, rfl, hb⟩ := h
    intro b' hb' hmem
    obtain rfl : b = b' := Option.some.inj hb'
    have hall : ∀ b ∈ Symbol.lt.furtherBytes, ¬isLetter b = true := List.any_eq_false.1 (by decide)
    exact hall b hmem hb
  cases h with
  | primitive | selfType | function => exact hletter (Takes.bytes_word_cons _)
  | name h => exact hletter (Takes.bytes_name_cons h)
  | paren =>
    intro b hb
    obtain rfl : byteOf '(' = b := Option.some.inj hb
    decide
  | root =>
    intro b hb
    obtain rfl : byteOf ':' = b := Option.some.inj hb
    decide

/-- A list of types begins as its first type does. -/
theorem TypeExpr.AllSpelledBy.first_byte {inTrait : Bool} {ts : List TypeExpr}
    {rows : List (List Lexeme)} (h : TypeExpr.AllSpelledBy inTrait ts rows) (hne : ts ≠ [])
    (us : List Lexeme) (tail : List UInt8) :
    ∀ b ∈ (unspaced (commas rows ++ us) ++ tail).head?, b ∉ Symbol.lt.furtherBytes := by
  cases h with
  | nil => exact absurd rfl hne
  | @cons t ts row rows h hvoid hmore =>
    obtain ⟨l, more, rfl, hl, -⟩ := h.begins
    obtain ⟨rest, hrest⟩ : ∃ rest, commas ((l :: more) :: rows) = l :: rest := by
      cases rows with
      | nil => exact ⟨more, rfl⟩
      | cons => exact ⟨_, rfl⟩
    rw [hrest, List.cons_append, unspaced_cons, List.append_assoc]
    exact hl.not_mem_furtherBytes _

/-! ## Types -/

section Rows

variable {tail : List UInt8} {inTrait : Bool}

theorem ArrayDim.keptApart (d : ArrayDim) {us : List Lexeme} (hus : KeptApart tail us) :
    KeptApart tail (d.lexemes ++ us) := by
  have hclose : KeptApart tail (.mark .rBracket :: us) :=
    .bracket .rBracket (by decide) (by decide) hus
  cases d with
  | unsized => exact .bracket .lBracket (by decide) (by decide) hclose
  | sized size =>
    have hapart : Apart isNumberByte (unspaced (.mark .rBracket :: us) ++ tail) :=
      KeptApart.apart_mark .rBracket (by decide) us
    have hsize : KeptApart tail (⟨.integer .i32, toString size⟩ :: .mark .rBracket :: us) :=
      .token (Lexes.integer (isInteger_toString size) hapart) hclose
    exact .bracket .lBracket (by decide) (by decide) hsize

theorem ArrayDim.all_keptApart (dims : List ArrayDim) {us : List Lexeme}
    (hus : KeptApart tail us) : KeptApart tail (dims.flatMap ArrayDim.lexemes ++ us) := by
  induction dims with
  | nil => exact hus
  | cons d dims ih =>
    rw [List.flatMap_cons, List.append_assoc]
    exact d.keptApart ih

/-- What a list of dimensions begins with keeps apart what is in front of it. -/
theorem ArrayDim.all_apart {dims : List ArrayDim} (hdims : dims ≠ []) (us : List Lexeme) :
    Apart isNumberByte (unspaced (dims.flatMap ArrayDim.lexemes ++ us) ++ tail) := by
  obtain ⟨d, dims, rfl⟩ := List.exists_cons_of_ne_nil hdims
  rw [List.flatMap_cons, lexemes_eq, List.append_assoc, List.cons_append]
  exact KeptApart.apart_mark .lBracket (by decide) _

mutual

/-- In a type without spaces, all lexemes but closing angles are taken for themselves. -/
theorem TypeExpr.SpelledBy.keptApart : {t : TypeExpr} → {row : List Lexeme} →
    TypeExpr.SpelledBy inTrait t row → {us : List Lexeme} → KeptApart tail us →
    Apart isNumberByte (unspaced us ++ tail) → KeptApart tail (row ++ us)
  | _, _, .plain h, _, hus, hapart => h.keptApart hus hapart
  | _, _, .absent h _, _, hus, hapart => by
    rw [List.append_assoc]
    exact h.keptApart (.question hapart hus) (KeptApart.apart_mark .question (by decide) _)

theorem TypeForm.SpelledBy.keptApart : {form : TypeForm} → {row : List Lexeme} →
    TypeForm.SpelledBy inTrait form row → {us : List Lexeme} → KeptApart tail us →
    Apart isNumberByte (unspaced us ++ tail) → KeptApart tail (row ++ us)
  | _, _, .primitive type, _, hus, hapart => .word _ hapart hus
  | _, _, .selfType _, _, hus, hapart => .word _ hapart hus
  | _, _, .array h _ _ hdims _, _, hus, hapart => by
    rw [List.append_assoc]
    exact h.keptApart (ArrayDim.all_keptApart _ hus) (ArrayDim.all_apart hdims _)
  | _, _, .function hparams hresult, us, hus, _ => by
    have hclose : KeptApart tail (.mark .rParen :: us) :=
      .bracket .rParen (by decide) (by decide) hus
    have hresult := hresult.keptApart hclose (KeptApart.apart_mark .rParen (by decide) us)
    have harrow := KeptApart.bracket .arrow (by decide) (by decide) hresult
    have hrows := hparams.keptApart harrow (KeptApart.apart_mark .arrow (by decide) _)
    have hopen := KeptApart.bracket .lParen (by decide) (by decide) hrows
    have hfn := KeptApart.word .fnKw (KeptApart.apart_mark .lParen (by decide) _) hopen
    simpa [inParens] using hfn
  | _, _, .procedure hparams, us, hus, _ => by
    have hclose : KeptApart tail (.mark .rParen :: us) :=
      .bracket .rParen (by decide) (by decide) hus
    have hrows := hparams.keptApart hclose (KeptApart.apart_mark .rParen (by decide) us)
    have hopen := KeptApart.bracket .lParen (by decide) (by decide) hrows
    have hfn := KeptApart.word .fnKw (KeptApart.apart_mark .lParen (by decide) _) hopen
    simpa [inParens] using hfn
  | _, _, .tuple hmembers _, us, hus, _ => by
    have hclose : KeptApart tail (.mark .rParen :: us) :=
      .bracket .rParen (by decide) (by decide) hus
    have hrows := hmembers.keptApart hclose (KeptApart.apart_mark .rParen (by decide) us)
    rw [inParens_append]
    exact .bracket .lParen (by decide) (by decide) hrows
  | _, _, .named h, _, hus, hapart => h.keptApart hus hapart

theorem TypePath.SpelledBy.keptApart : {path : TypePath} → {row : List Lexeme} →
    TypePath.SpelledBy inTrait path row → {us : List Lexeme} → KeptApart tail us →
    Apart isNumberByte (unspaced us ++ tail) → KeptApart tail (row ++ us)
  | ⟨head, _⟩, _, .mk hhead htail, _, hus, hapart => by
    obtain ⟨hmore, hbehind⟩ := htail.keptApart hus hapart
    have hnames := hhead.keptApart hmore hbehind
    rw [List.append_assoc, List.append_assoc]
    cases head.root with
    | true => exact .bracket .colonColon (by decide) (by decide) hnames
    | false => exact hnames

theorem PathSegment.SpelledBy.keptApart : {segment : PathSegment} → {row : List Lexeme} →
    PathSegment.SpelledBy inTrait segment row → {us : List Lexeme} → KeptApart tail us →
    Apart isNumberByte (unspaced us ++ tail) → KeptApart tail (row ++ us)
  | _, _, .plain hname, _, hus, hapart => .name hname hapart hus
  | _, _, .generic hname hgenerics hne, us, hus, _ => by
    have hclose : KeptApart tail (.mark .gt :: us) := .angle hus
    have hrows := hgenerics.keptApart hclose (KeptApart.apart_mark .gt (by decide) us)
    have hfirst := hgenerics.first_byte hne (.mark .gt :: us) tail
    have hopen := KeptApart.mark .lt (by decide) hfirst hrows
    rw [List.cons_append, inAngles_append]
    exact .name hname (KeptApart.apart_mark .lt (by decide) _) hopen

theorem PathSegment.AllSpelledBy.keptApart : {segments : List PathSegment} → {row : List Lexeme} →
    PathSegment.AllSpelledBy inTrait segments row → {us : List Lexeme} → KeptApart tail us →
    Apart isNumberByte (unspaced us ++ tail) →
    KeptApart tail (row ++ us) ∧ Apart isNumberByte (unspaced (row ++ us) ++ tail)
  | _, _, .nil, _, hus, hapart => ⟨hus, hapart⟩
  | _, _, .cons _ h hmore, _, hus, hapart => by
    obtain ⟨hrest, hbehind⟩ := hmore.keptApart hus hapart
    have hname := h.keptApart hrest hbehind
    rw [List.cons_append, List.append_assoc]
    exact ⟨.bracket .colonColon (by decide) (by decide) hname,
      KeptApart.apart_mark .colonColon (by decide) _⟩

theorem TypeExpr.AllSpelledBy.keptApart : {ts : List TypeExpr} → {rows : List (List Lexeme)} →
    TypeExpr.AllSpelledBy inTrait ts rows → {us : List Lexeme} → KeptApart tail us →
    Apart isNumberByte (unspaced us ++ tail) → KeptApart tail (commas rows ++ us)
  | _, _, .nil, _, hus, _ => hus
  | _, _, .cons h _ .nil, _, hus, hapart => h.keptApart hus hapart
  | _, _, .cons h _ (.cons h' hvoid' hmore'), _, hus, hapart => by
    have hrows := (TypeExpr.AllSpelledBy.cons h' hvoid' hmore').keptApart hus hapart
    have hcomma := KeptApart.bracket .comma (by decide) (by decide) hrows
    have hrow := h.keptApart hcomma (KeptApart.apart_mark .comma (by decide) _)
    rw [commas, List.append_assoc]
    · exact hrow
    · exact nofun

end

end Rows

end ScriptFront
