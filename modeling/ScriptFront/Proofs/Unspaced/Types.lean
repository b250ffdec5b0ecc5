import ScriptFront.Proofs.Unspaced.Parts

/-!
# Types read from their spelling

- `ReadsUpTo.typeStep`, `ReadsUpTo.arrayStep`: a form with the question mark and the dimensions that
  stand behind it.
- `TypeExpr.SpelledBy.read`: whatever feeds such a row to a parser, the type is read back, if it
  does not go on with what stands behind it.
-/

namespace ScriptFront

open ScriptFront.Parser

/-! ## Dimensions and question marks -/

section Parts

variable {R : List Lexeme → Parser Buffer → Prop} {inTrait : Bool} {row : List Lexeme}
  {rows : List (List Lexeme)} {t : TypeExpr} {ts : List TypeExpr} {depth : Nat}
  {us : List Lexeme}

/-! ### Dimensions -/

/-- What stands behind the bracket that opens a dimension. -/
def ArrayDim.inner : ArrayDim → List Lexeme
  | .unsized => [.mark .rBracket]
  | .sized length => [⟨.integer .i32, toString length⟩, .mark .rBracket]

theorem ArrayDim.lexemes_eq (d : ArrayDim) : d.lexemes = .mark .lBracket :: d.inner := by
  cases d <;> rfl

theorem ArrayDim.inner_reads (hR : Feed R inTrait) {d : ArrayDim}
    (hsize : ∀ size, d = .sized size → size < Grammar.arraySizeLimit) (us : List Lexeme) :
    Leads (R (d.inner ++ us)) Grammar.arrayDim (fun other => other = d) (R us) := by
  have hbracket : Lexeme.mark .rBracket ≠ .mark .gt := by decide
  cases d with
  | unsized => exact hR.check hbracket (.ifTrue rfl (hR.drop hbracket (.pure rfl)))
  | sized size =>
    have hint : Lexeme.mk (.integer .i32) (toString size) ≠ .mark .gt := fun h =>
      absurd (congrArg Lexeme.kind h) nofun
    have hread : Leads (R (⟨.integer .i32, toString size⟩ :: .mark .rBracket :: us))
        Grammar.arraySize (fun other => other = size) (R (.mark .rBracket :: us)) := by
      refine .save fun start => .kind (fun p => hR.kind_eq hint) ?_
      refine (hR.take hint).bind fun token htoken => ?_
      have hvalue : Digits.read? IntegerForm.i32.radix token.text = some size := by
        rw [htoken.2]
        exact Digits.read?_toString size
      dsimp only
      rw [hvalue]
      exact .ifTrue (hsize size rfl) (.pure rfl)
    refine hR.check hint (.ifFalse Bool.false_ne_true (hread.bind fun other hother => ?_))
    exact hR.mark hbracket rfl (.pure (congrArg ArrayDim.sized hother))

/-- All dimensions are read. -/
theorem ArrayDim.all_read (hR : Feed R inTrait) {dims : List ArrayDim}
    (hsizes : ∀ size, .sized size ∈ dims → size < Grammar.arraySizeLimit)
    (hus : ∀ p, R us p → p.current.kind ≠ Symbol.lBracket) :
    Leads (R (dims.flatMap ArrayDim.lexemes ++ us)) (Grammar.arrayDims .build)
      (fun others : List ArrayDim => others = dims) (R us) := by
  have hrow : dims.flatMap ArrayDim.lexemes =
      (dims.map ArrayDim.inner).flatMap fun row => .mark .lBracket :: row := by
    rw [List.flatMap_map]
    exact congrArg (List.flatMap · dims) (funext lexemes_eq)
  have hitems : List.Forall₂ (fun (d : ArrayDim) row => ∀ us, True →
      Leads (R (row ++ us))
        (do return pure (← Grammar.arrayDim) : Parse Buffer (Yield .build ArrayDim))
        (fun other : ArrayDim => other = d) (R us)) dims (dims.map ArrayDim.inner) := by
    rw [List.forall₂_map_right_iff, List.forall₂_same]
    intro d hd us _
    have hsize (size : Nat) (h : d = .sized size) : size < Grammar.arraySizeLimit :=
      hsizes size (h ▸ hd)
    exact (inner_reads hR hsize us).bind fun other hother => .pure hother
  have hmark : Lexeme.mark .lBracket ≠ .mark .gt := by decide
  rw [hrow]
  have hlist := hR.listWhile hmark (fun _ _ => trivial) hitems (fun _ _ => trivial) hus
  refine hlist.mono fun others hothers => ?_
  have hsame : List.Forall₂ Eq dims others := hothers.imp fun _ _ h => h.symm
  rw [List.forall₂_eq_eq_eq] at hsame
  exact hsame.symm

/-! ### What stands behind any type -/

/-- What stands behind a type is neither a question mark nor a dimension. -/
def IsBare (k : TokenKind) : Prop := k ≠ Symbol.question ∧ k ≠ Symbol.lBracket

/-- A question mark, if there is one. -/
def questionMark (nullable : Bool) : List Lexeme := if nullable then [.mark .question] else []

/-- A question mark is read if there is one. -/
theorem Leads.absenceSuffix (hR : Feed R inTrait) (start : Bookmark) {isVoid nullable : Bool}
    (hvoid : nullable → isVoid = false) (t : TypeExpr) (ht : t.nullable = false)
    (hus : nullable = false → ∀ p, R us p → p.current.kind ≠ Symbol.question) :
    Leads (R (questionMark nullable ++ us))
      (Grammar.absenceSuffix .build start isVoid t : Parse Buffer (Yield .build TypeExpr))
      (fun other : TypeExpr => other = { t with nullable }) (R us) := by
  have hquestion : Lexeme.mark .question ≠ .mark .gt := by decide
  cases nullable with
  | true =>
    obtain rfl := hvoid rfl
    exact hR.check hquestion (.ifTrue rfl (.ifFalse Bool.false_ne_true
      (hR.drop hquestion (.pure rfl))))
  | false =>
    have hnone : ∀ p, R us p → decide (p.current.kind = Symbol.question) = false := fun p hp =>
      decide_eq_false (hus rfl p hp)
    refine .check hnone (.ifFalse Bool.false_ne_true (.pure ?_))
    cases t
    cases ht
    rfl

/-- Where no bracket stands, a type is no array. -/
theorem Leads.noArray (start : Bookmark) (isVoid : Bool) (t : TypeExpr)
    (hus : ∀ p, R us p → p.current.kind ≠ Symbol.lBracket) :
    Leads (R us) (Grammar.arraySuffix .build start isVoid t : Parse Buffer (Yield .build TypeExpr))
      (fun other : TypeExpr => other = t) (R us) :=
  .check (fun p hp => decide_eq_false (hus p hp)) (.ifFalse Bool.false_ne_true (.pure rfl))

/-- Dimensions are read, and the question mark behind them. -/
theorem Leads.arraySuffix (hR : Feed R inTrait) (start : Bookmark) (t : TypeExpr)
    {dims : List ArrayDim} (hdims : dims ≠ [])
    (hsizes : ∀ size, .sized size ∈ dims → size < Grammar.arraySizeLimit) (nullable : Bool)
    (hus : nullable = false → ∀ p, R us p → IsBare p.current.kind) :
    Leads (R (dims.flatMap ArrayDim.lexemes ++ (questionMark nullable ++ us)))
      (Grammar.arraySuffix .build start false t : Parse Buffer (Yield .build TypeExpr))
      (fun other : TypeExpr => other = ⟨start.position, nullable, .array t dims⟩) (R us) := by
  have hquestion : Lexeme.mark .question ≠ .mark .gt := by decide
  have hbracket : Lexeme.mark .lBracket ≠ .mark .gt := by decide
  obtain ⟨more, hmore⟩ : ∃ more, dims.flatMap ArrayDim.lexemes = .mark .lBracket :: more := by
    obtain ⟨d, dims, rfl⟩ := List.exists_cons_of_ne_nil hdims
    rw [List.flatMap_cons, ArrayDim.lexemes_eq]
    exact ⟨_, rfl⟩
  have hends : ∀ p, R (questionMark nullable ++ us) p → p.current.kind ≠ Symbol.lBracket := by
    intro p hp
    cases nullable with
    | true =>
      rw [hR.kind_eq hquestion hp]
      exact nofun
    | false => exact (hus rfl p hp).2
  have hopen : ∀ p, R (dims.flatMap ArrayDim.lexemes ++ (questionMark nullable ++ us)) p →
      decide (p.current.kind = Symbol.lBracket) = true := by
    intro p hp
    rw [hmore] at hp
    exact decide_eq_true (hR.kind_eq hbracket hp)
  refine .check hopen (.ifTrue rfl (.ifFalse Bool.false_ne_true ?_))
  refine (ArrayDim.all_read hR hsizes hends).bind fun others hothers => ?_
  subst hothers
  cases nullable with
  | true => exact hR.eat hquestion rfl (.ifTrue rfl (.pure rfl))
  | false =>
    refine .eatNot (fun p hp => (hus rfl p hp).1) ?_
    exact .ifFalse Bool.false_ne_true (.pure rfl)

/-- The first token tells whether `void` comes. -/
theorem BeginsType.void_eq (hR : Feed R inTrait) {form : TypeForm} (h : BeginsType form row)
    (hvoid : form ≠ .primitive .void) (p : Parser Buffer) (hp : R (row ++ us) p) :
    decide (p.current.kind = .primitive .void) = false := by
  obtain ⟨l, more, rfl, hl, hform⟩ := h
  rw [hR.kind_eq hl.ne_angle hp]
  exact decide_eq_false fun hkind => hvoid (hform hkind)

/-- A type that is no array, perhaps with a question mark. -/
theorem ReadsUpTo.typeStep (hR : Feed R inTrait) {ends : List Lexeme → Prop} {form : TypeForm}
    (h : ReadsUpTo ends R form row) (hrow : BeginsType form row) (pos : Position) {nullable : Bool}
    (hvoid : nullable → form ≠ .primitive .void)
    (hdepth : (row ++ questionMark nullable).length ≤ depth)
    (hends : ends (questionMark nullable ++ us))
    (hmark : nullable = false → ∀ p, R us p → p.current.kind ≠ Symbol.question)
    (hbracket : ∀ p, R us p → p.current.kind ≠ Symbol.lBracket) :
    Leads (R (row ++ questionMark nullable ++ us)) (Grammar.typeStep (Grammar.upTo depth) .build)
      (TypeExpr.Alike ⟨pos, nullable, form⟩) (R us) := by
  have hlength : row.length ≤ depth := by
    rw [List.length_append] at hdepth
    omega
  rw [List.append_assoc]
  intro p hp
  -- Whether the type is `void` matters only where something stands behind it.
  let isVoid := decide (p.current.kind = .primitive .void)
  have hisVoid : nullable → isVoid = false := fun hnullable =>
    hrow.void_eq hR (hvoid hnullable) p hp
  have hread : Leads (R (row ++ (questionMark nullable ++ us)))
      (do
        let form ← Grammar.baseType (Grammar.upTo depth) .build
        let type ← Grammar.absenceSuffix .build ⟨p.start⟩ isVoid
          (TypeExpr.plain p.start.toPosition <$> form)
        Grammar.arraySuffix .build ⟨p.start⟩ isVoid type : Parse Buffer (Yield .build TypeExpr))
      (TypeExpr.Alike ⟨pos, nullable, form⟩) (R us) := by
    refine (h depth hlength _ hends).bind fun other hother => ?_
    have habsence := Leads.absenceSuffix hR ⟨p.start⟩ hisVoid
      (TypeExpr.plain p.start.toPosition other) rfl hmark
    refine habsence.bind fun t ht => ?_
    refine (Leads.noArray ⟨p.start⟩ isVoid t hbracket).mono fun t' ht' => ?_
    subst ht' ht
    exact congrArg (TypeExpr.mk .start nullable) hother
  exact hread hp

/-- An array type, perhaps with question marks behind its elements and behind itself. -/
theorem ReadsUpTo.arrayStep (hR : Feed R inTrait) {ends : List Lexeme → Prop} {form : TypeForm}
    (h : ReadsUpTo ends R form row) (hrow : BeginsType form row) (hvoid : form ≠ .primitive .void)
    (pos : Position) (nullable : Bool) {dims : List ArrayDim} (hdims : dims ≠ [])
    (hsizes : ∀ size, .sized size ∈ dims → size < Grammar.arraySizeLimit) (pos' : Position)
    (nullable' : Bool) (hdepth : row.length ≤ depth)
    (hends : ∀ s, s = .question ∨ s = .lBracket → ∀ us, ends (.mark s :: us))
    (hus : nullable' = false → ∀ p, R us p → IsBare p.current.kind) :
    Leads (R (row ++ questionMark nullable ++ dims.flatMap ArrayDim.lexemes ++
        questionMark nullable' ++ us)) (Grammar.typeStep (Grammar.upTo depth) .build)
      (TypeExpr.Alike ⟨pos', nullable', .array ⟨pos, nullable, form⟩ dims⟩) (R us) := by
  obtain ⟨more, hmore⟩ : ∃ more, dims.flatMap ArrayDim.lexemes = .mark .lBracket :: more := by
    obtain ⟨d, dims, rfl⟩ := List.exists_cons_of_ne_nil hdims
    rw [List.flatMap_cons, ArrayDim.lexemes_eq]
    exact ⟨_, rfl⟩
  let tail := dims.flatMap ArrayDim.lexemes ++ (questionMark nullable' ++ us)
  have htail : tail = .mark .lBracket :: (more ++ (questionMark nullable' ++ us)) := by
    show dims.flatMap ArrayDim.lexemes ++ _ = _
    rw [hmore, List.cons_append]
  have hbase : ends (questionMark nullable ++ tail) := by
    cases nullable with
    | true => exact hends .question (.inl rfl) tail
    | false =>
      rw [htail]
      exact hends .lBracket (.inr rfl) _
  have hquestion : ∀ p, R tail p → p.current.kind ≠ Symbol.question := by
    intro p hp
    rw [htail] at hp
    rw [hR.kind_eq (by decide) hp]
    exact nofun
  have hrow' : row ++ questionMark nullable ++ dims.flatMap ArrayDim.lexemes ++
      questionMark nullable' ++ us = row ++ (questionMark nullable ++ tail) := by
    simp only [List.append_assoc, tail]
  rw [hrow']
  refine .save fun start => .check (hrow.void_eq hR hvoid) ?_
  refine (h depth hdepth _ hbase).bind fun other hother => ?_
  refine (Leads.absenceSuffix hR start (fun _ => rfl) _ rfl fun _ => hquestion).bind fun t ht => ?_
  refine (Leads.arraySuffix hR start t hdims hsizes nullable' hus).mono fun t' ht' => ?_
  subst ht' ht
  show TypeExpr.mk .start nullable' (.array ⟨.start, nullable, other.unplaced⟩ dims) = _
  rw [hother]
  rfl

theorem ReadsBase.readsType (hR : Feed R inTrait) {form : TypeForm} (h : ReadsBase R form row)
    (harray : ¬∃ element dims, form = .array element dims) (hrow : BeginsType form row)
    (pos : Position) {nullable : Bool} (hvoid : nullable → form ≠ .primitive .void) :
    ReadsType R ⟨pos, nullable, form⟩ (row ++ questionMark nullable) := by
  intro depth hdepth us hus
  cases nullable with
  | true =>
    refine ReadsUpTo.typeStep hR h hrow pos hvoid hdepth
      (.of_mark form .question (.inl rfl) us) nofun ?_
    exact fun p hp hbracket => hus _ (hR.fronts hp) ⟨hbracket, harray⟩
  | false =>
    have hends {k : TokenKind} {p : Parser Buffer} (hp : R us p)
        (hk : k = Symbol.question ∨ k = Symbol.lBracket ∨ form.GoesOn k) : p.current.kind ≠ k :=
      fun hkind => hus _ (hR.fronts hp) (hkind ▸ hk)
    refine ReadsUpTo.typeStep hR h hrow pos hvoid hdepth ?_ ?_ ?_
    · exact fun k hk hgo => hus k hk (.inr (.inr hgo))
    · exact fun _ p hp => hends hp (.inl rfl)
    · exact fun p hp => hends hp (.inr (.inl rfl))

theorem ReadsBase.readsArray (hR : Feed R inTrait) {form : TypeForm} (h : ReadsBase R form row)
    (hrow : BeginsType form row) (hvoid : form ≠ .primitive .void) (pos : Position)
    (nullable : Bool) {dims : List ArrayDim} (hdims : dims ≠ [])
    (hsizes : ∀ size, .sized size ∈ dims → size < Grammar.arraySizeLimit) (pos' : Position)
    (nullable' : Bool) :
    ReadsType R ⟨pos', nullable', .array ⟨pos, nullable, form⟩ dims⟩
      (row ++ questionMark nullable ++ dims.flatMap ArrayDim.lexemes ++
        questionMark nullable') := by
  intro depth hdepth us hus
  have hlength : row.length ≤ depth := by
    simp only [List.length_append] at hdepth
    omega
  refine ReadsUpTo.arrayStep hR h hrow hvoid pos nullable hdims hsizes pos' nullable' hlength
    (fun s hs us => .of_mark form s hs us) fun hplain p hp => ?_
  subst hplain
  have hends := hus _ (hR.fronts hp)
  exact ⟨fun hkind => hends (.inl hkind), fun hkind => hends (.inr (.inl hkind))⟩

end Parts

/-! ## Reading types -/

/-- A form is read with any question mark behind it; if it is no array, it is read for itself. -/
structure ReadsForm (R : List Lexeme → Parser Buffer → Prop) (form : TypeForm)
    (row : List Lexeme) : Prop where
  whole (pos : Position) (nullable : Bool) (hvoid : nullable → form ≠ .primitive .void) :
    ReadsType R ⟨pos, nullable, form⟩ (row ++ questionMark nullable)
  base (harray : ¬∃ element dims, form = .array element dims) : ReadsBase R form row

section Reading

variable {R : List Lexeme → Parser Buffer → Prop} {inTrait : Bool} {row : List Lexeme}
  {form : TypeForm}

theorem ReadsBase.readsForm (hR : Feed R inTrait) (h : ReadsBase R form row)
    (harray : ¬∃ element dims, form = .array element dims) (hrow : BeginsType form row) :
    ReadsForm R form row where
  whole pos _ hvoid := h.readsType hR harray hrow pos hvoid
  base _ := h

/-- The name of a primitive type is read whatever stands behind it. -/
theorem ReadsUpTo.primitive {ends : List Lexeme → Prop} (hR : Feed R inTrait)
    (type : PrimitiveType) : ReadsUpTo ends R (.primitive type) [.word (.primitive type)] := by
  intro depth _ us _
  have hword : Lexeme.word (.primitive type) ≠ .mark .gt := (StartsType.primitive type).ne_angle
  exact .kind (fun p => hR.kind_eq hword) (hR.drop hword (.pure rfl))

theorem ReadsBase.selfType (hR : Feed R inTrait) (htrait : inTrait = true) :
    ReadsBase R .selfType [.word .selfKw] := by
  intro depth _ us _
  have hword : Lexeme.word .selfKw ≠ .mark .gt := StartsType.selfType.ne_angle
  have hselfType : Leads (R (.word .selfKw :: us)) (Grammar.selfType .build)
      (fun other : TypeForm => other.unplaced = TypeForm.selfType.unplaced) (R us) := by
    have hmode : ∀ p, R (.word .selfKw :: us) p → p.inTrait = inTrait := fun p => hR.inTrait_eq
    let reading (inTrait : Bool) : Parse Buffer (Yield .build TypeForm) := do
      if inTrait then
        Parser.drop
        return pure .selfType
      else Parser.failAtStart .selfOutsideTrait
    exact Leads.inTrait (f := reading) hmode (.ifTrue htrait (hR.drop hword (.pure rfl)))
  exact .kind (fun p => hR.kind_eq hword) hselfType

theorem ReadsValue.tupleBase (hR : Feed R inTrait) {rows : List (List Lexeme)}
    {members : List TypeExpr} (h : List.Forall₂ (ReadsValue R) members rows) (hne : members ≠ []) :
    ReadsBase R (.tuple members) (inParens (commas rows)) := by
  intro depth hdepth us _
  have hlength : (commas rows).length < depth := by
    simp [inParens] at hdepth
    omega
  refine .kind (k := Symbol.lParen) (fun p hp => ?_) (ReadsValue.tupleType hR h hne hlength us)
  rw [inParens_append] at hp
  exact hR.kind_eq (by decide) hp

/-- A function type, given how what stands behind its parameters is read. -/
theorem ReadsValue.partsBase (hR : Feed R inTrait) {rows : List (List Lexeme)}
    {params : List TypeExpr} {result : TypeExpr} {closing : List Lexeme}
    (h : List.Forall₂ (ReadsValue R) params rows) {s : Symbol} (hs : s = .rParen ∨ s = .arrow)
    (hend : ∀ depth, closing.length < depth → ∀ us steps (taken : Array TypeExpr),
      Leads (R (.mark s :: (closing ++ us)))
        (Grammar.functionPartsOnto (Grammar.upTo depth) .build (steps + 1) taken)
        (fun out : Array TypeExpr × TypeExpr => out.1 = taken ∧ result.Alike out.2) (R us)) :
    ReadsBase R (.function params result)
      (.word .fnKw :: .mark .lParen :: (commas rows ++ .mark s :: closing)) := by
  intro depth hdepth us _
  have hword : Lexeme.word .fnKw ≠ .mark .gt := StartsType.function.ne_angle
  simp only [List.length_cons, List.length_append] at hdepth
  have hdepths : ∀ row ∈ rows, row.length < depth := by
    intro row hmem
    have hle := length_le_commas hmem
    omega
  have hrow : .word .fnKw :: .mark .lParen :: (commas rows ++ .mark s :: closing) ++ us =
      .word .fnKw :: .mark .lParen :: (commas rows ++ .mark s :: (closing ++ us)) := by simp
  rw [hrow]
  refine .kind (fun p => hR.kind_eq hword) ?_
  refine (functionType hR h hdepths hs (hend depth (by omega) us)).mono fun other hother => ?_
  obtain ⟨params', result', hparams, hresult, rfl⟩ := hother
  show TypeForm.function (TypeExpr.unplacedAll params') result'.unplaced = _
  rw [TypeExpr.unplacedAll_of_alike hparams, hresult]
  rfl

theorem ReadsValue.functionBase (hR : Feed R inTrait) {rows : List (List Lexeme)}
    {params : List TypeExpr} {result : TypeExpr} (h : List.Forall₂ (ReadsValue R) params rows)
    (hresult : ReadsType R result row) :
    ReadsBase R (.function params result)
      (.word .fnKw :: inParens (commas rows ++ .mark .arrow :: row)) := by
  have hrow : inParens (commas rows ++ .mark .arrow :: row) =
      .mark .lParen :: (commas rows ++ .mark .arrow :: (row ++ [.mark .rParen])) := by
    simp [inParens]
  rw [hrow]
  refine partsBase hR h (.inr rfl) fun depth hdepth us steps taken => ?_
  have hlength : row.length < depth := by
    rw [List.length_append] at hdepth
    omega
  rw [List.append_assoc]
  exact hresult.result hR hlength steps taken

theorem ReadsValue.procedureBase (hR : Feed R inTrait) {rows : List (List Lexeme)}
    {params : List TypeExpr} (h : List.Forall₂ (ReadsValue R) params rows) (pos : Position) :
    ReadsBase R (.function params (.voidAt pos)) (.word .fnKw :: inParens (commas rows)) :=
  partsBase hR h (.inl rfl) fun _ _ _ steps taken => .noResult hR steps taken

/-- An array, given how its elements are read. -/
theorem ReadsForm.array (hR : Feed R inTrait) {element : TypeExpr} {base : List Lexeme}
    (h : ReadsBase R element.form base) (hbase : BeginsType element.form base)
    (hvoid : element.isVoid = false) {dims : List ArrayDim} (hdims : dims ≠ [])
    (hsizes : ∀ size, .sized size ∈ dims → size < Grammar.arraySizeLimit) :
    ReadsForm R (.array element dims)
      (base ++ questionMark element.nullable ++ dims.flatMap ArrayDim.lexemes) where
  whole pos nullable _ := by
    obtain ⟨pos', nullable', form⟩ := element
    have helement : form ≠ .primitive .void := by
      rintro rfl
      exact absurd hvoid nofun
    exact h.readsArray hR hbase helement pos' nullable' hdims hsizes pos nullable
  base harray := absurd ⟨element, dims, rfl⟩ harray

mutual

/-- A type is read; if it is no array, it is a base and perhaps a question mark. -/
theorem TypeExpr.SpelledBy.read (hR : Feed R inTrait) : {t : TypeExpr} → {row : List Lexeme} →
    TypeExpr.SpelledBy inTrait t row → ReadsType R t row ∧
      (¬t.IsArray → ∃ base, row = base ++ questionMark t.nullable ∧ ReadsBase R t.form base ∧
        BeginsType t.form base)
  | ⟨pos, _, _⟩, _, .plain h => by
    refine ⟨?_, fun harray => ⟨_, (List.append_nil _).symm, (h.read hR).base harray, h.begins⟩⟩
    have hwhole := (h.read hR).whole pos false nofun
    rw [questionMark, if_neg Bool.false_ne_true, List.append_nil] at hwhole
    exact hwhole
  | _, _, .absent h hvoid =>
    ⟨(h.read hR).whole _ true fun _ => hvoid,
      fun harray => ⟨_, rfl, (h.read hR).base harray, h.begins⟩⟩

theorem TypeForm.SpelledBy.read (hR : Feed R inTrait) : {form : TypeForm} → {row : List Lexeme} →
    TypeForm.SpelledBy inTrait form row → ReadsForm R form row
  | _, _, .primitive type =>
    ReadsBase.readsForm hR (.primitive hR type) nofun
      (@TypeForm.SpelledBy.primitive inTrait type).begins
  | _, _, .selfType htrait =>
    (ReadsBase.selfType hR htrait).readsForm hR nofun (TypeForm.SpelledBy.selfType htrait).begins
  | _, _, .array h hvoid helement hdims hsizes => by
    obtain ⟨base, rfl, hbase, hbegins⟩ := (h.read hR).2 helement
    exact .array hR hbase hbegins hvoid hdims hsizes
  | _, _, .function hparams hresult =>
    (ReadsValue.functionBase hR (hparams.read hR) (hresult.read hR).1).readsForm hR nofun
      (TypeForm.SpelledBy.function hparams hresult).begins
  | _, _, .procedure hparams =>
    (ReadsValue.procedureBase hR (hparams.read hR) _).readsForm hR nofun
      (TypeForm.SpelledBy.procedure hparams).begins
  | _, _, .tuple hmembers hne =>
    (ReadsValue.tupleBase hR (hmembers.read hR) hne).readsForm hR nofun
      (TypeForm.SpelledBy.tuple hmembers hne).begins
  | _, _, .named h => (h.read hR).readsForm hR nofun h.begins

theorem TypePath.SpelledBy.read (hR : Feed R inTrait) : {path : TypePath} → {row : List Lexeme} →
    TypePath.SpelledBy inTrait path row → ReadsBase R (.named path) row
  | _, _, .mk hhead htail => by
    obtain ⟨rows, rfl, hroot, hnames⟩ := htail.read hR
    obtain ⟨more, hname, -⟩ := hhead.eq_name
    exact ReadsSegment.typePath hR (hhead.read hR) ⟨more, hname⟩ hnames hroot

theorem PathSegment.SpelledBy.read (hR : Feed R inTrait) : {segment : PathSegment} →
    {row : List Lexeme} → PathSegment.SpelledBy inTrait segment row → ReadsSegment R segment row
  | _, _, .plain _ => .plain hR _ _ _
  | _, _, .generic _ hgenerics hne => .generic hR _ _ _ (hgenerics.read hR) hne

theorem PathSegment.AllSpelledBy.read (hR : Feed R inTrait) : {segments : List PathSegment} →
    {row : List Lexeme} → PathSegment.AllSpelledBy inTrait segments row →
    ∃ rows, row = rows.flatMap (fun row => .mark .colonColon :: row) ∧
      (∀ segment ∈ segments, segment.root = false) ∧ List.Forall₂ (ReadsSegment R) segments rows
  | _, _, .nil => ⟨[], rfl, nofun, .nil⟩
  | _, _, .cons hroot h hmore => by
    obtain ⟨rows, rfl, hroots, hnames⟩ := hmore.read hR
    exact ⟨_ :: rows, rfl, List.forall_mem_cons.2 ⟨hroot, hroots⟩, .cons (h.read hR) hnames⟩

theorem TypeExpr.AllSpelledBy.read (hR : Feed R inTrait) : {ts : List TypeExpr} →
    {rows : List (List Lexeme)} → TypeExpr.AllSpelledBy inTrait ts rows →
    List.Forall₂ (ReadsValue R) ts rows
  | _, _, .nil => .nil
  | _, _, .cons h hvoid hmore => .cons ⟨(h.read hR).1, h.begins, hvoid⟩ (hmore.read hR)

end

end Reading

end ScriptFront
