import ScriptFront.Proofs.Unspaced.Spellings

/-!
# Parts of types read from their spelling

- `ReadsType`, `ReadsBase`, `ReadsSegment`: a row that spells something is read as that, wherever it
  is before the parser.
- `ReadsValue.genericArgs`, `ReadsValue.tupleType`, `ReadsValue.functionType`: lists of types.
- `ReadsSegment.typePath`: paths.
-/

namespace ScriptFront

open ScriptFront.Parser

/-! ## Reading the parts of a type -/

/-- A tree is another one up to the places of its parts. -/
def TypeExpr.Alike (t other : TypeExpr) : Prop := other.unplaced = t.unplaced

/-- Where a row is before the parser, the type that it spells is read. -/
def ReadsType (R : List Lexeme → Parser Buffer → Prop) (t : TypeExpr) (row : List Lexeme) : Prop :=
  ∀ depth, row.length ≤ depth → ∀ us, EndsAt t.GoesOn us →
    Leads (R (row ++ us)) (Grammar.typeStep (Grammar.upTo depth) .build) t.Alike (R us)

/-- Where a row is before the parser and what ends it is behind it, the type that it spells is read,
up to what may stand behind any type. -/
def ReadsUpTo (ends : List Lexeme → Prop) (R : List Lexeme → Parser Buffer → Prop)
    (form : TypeForm) (row : List Lexeme) : Prop :=
  ∀ depth, row.length ≤ depth → ∀ us, ends us →
    Leads (R (row ++ us)) (Grammar.baseType (Grammar.upTo depth) .build)
      (fun other : TypeForm => other.unplaced = form.unplaced) (R us)

/-- The same in front of all that the form does not go on with. -/
abbrev ReadsBase (R : List Lexeme → Parser Buffer → Prop) (form : TypeForm) (row : List Lexeme) :
    Prop := ReadsUpTo (EndsAt form.GoesOn) R form row

/-- A row spells the type of a value, which is read where the row is before the parser. -/
structure ReadsValue (R : List Lexeme → Parser Buffer → Prop) (t : TypeExpr) (row : List Lexeme) :
    Prop where
  reads : ReadsType R t row
  begins : BeginsType t.form row
  value : t.isVoid = false

/-- Where a row is before the parser, the name of a path that it spells is read. -/
def ReadsSegment (R : List Lexeme → Parser Buffer → Prop) (segment : PathSegment)
    (row : List Lexeme) : Prop :=
  ∀ depth, row.length ≤ depth → ∀ us, EndsAt segment.GoesOn us →
    Leads (R (row ++ us)) (Grammar.pathSegment (Grammar.upTo depth) .build segment.root)
      (fun other : PathSegment => other.unplaced = segment.unplaced) (R us)

section Parts

variable {R : List Lexeme → Parser Buffer → Prop} {inTrait : Bool} {row : List Lexeme}
  {rows : List (List Lexeme)} {t : TypeExpr} {ts : List TypeExpr} {depth : Nat}
  {us : List Lexeme}

/-! ### Types of values -/

theorem ReadsType.inGrammar (h : ReadsType R t row) (hdepth : row.length < depth)
    (hus : EndsType us) :
    Leads (R (row ++ us)) ((Grammar.upTo depth).type .build) t.Alike (R us) := by
  obtain ⟨depth, rfl⟩ : ∃ d, depth = d + 1 := ⟨depth - 1, by omega⟩
  exact h depth (Nat.le_of_lt_succ hdepth) us (hus.endsAt t)

namespace ReadsValue

/-- `void` is rejected, and the type is not `void`. -/
theorem rejectVoid {α : Type} {use : VoidUse} {f : Unit → Parse Buffer α} {V : α → Prop}
    {Q : Parser Buffer → Prop} (h : ReadsValue R t row) (hR : Feed R inTrait)
    (hf : Leads (R (row ++ us)) (f ()) V Q) :
    Leads (R (row ++ us)) (Grammar.rejectVoid use >>= f) V Q := by
  obtain ⟨l, more, rfl, hl, hform⟩ := h.begins
  have hkind : l.kind ≠ .primitive .void := by
    intro hkind
    have hvalue := h.value
    rw [TypeExpr.isVoid, hform hkind] at hvalue
    cases hvalue
  have hreject : Leads (R (l :: more ++ us)) (Grammar.rejectVoid use) (fun _ => True)
      (R (l :: more ++ us)) := by
    refine hR.check hl.ne_angle (.ifFalse ?_ (.pure trivial))
    simpa using hkind
  exact hreject.bind fun _ _ => hf

theorem valueType (h : ReadsValue R t row) (hR : Feed R inTrait) (hdepth : row.length < depth)
    (hus : EndsType us) :
    Leads (R (row ++ us)) (Grammar.valueType (Grammar.upTo depth) .build) t.Alike (R us) :=
  h.rejectVoid hR (h.reads.inGrammar hdepth hus)

/-- A type in parentheses. -/
theorem item (h : ReadsValue R t row) (hR : Feed R inTrait) (hdepth : row.length < depth) :
    Feed.Item R .rParen (Grammar.valueType (Grammar.upTo depth) .build) t.Alike row where
  before us := h.valueType hR hdepth (.of_mark .comma (.inl rfl) us)
  last us := by
    intro p hp
    have hends : EndsType (.mark .rParen :: us) := .of_mark .rParen (.inr (.inr (.inl rfl))) us
    obtain ⟨t, q, hq, ht, hstate⟩ := h.valueType hR hdepth hends hp
    exact ⟨t, q, hq, ht, hR.closes nofun hstate⟩

/-- A type argument. Behind the last one, the closing angle is set apart. -/
theorem genericItem (h : ReadsValue R t row) (hR : Feed R inTrait) (hdepth : row.length < depth) :
    Feed.Item R .gt (Grammar.genericArg (Grammar.upTo depth) .build) t.Alike row where
  before us := by
    refine h.rejectVoid hR ?_
    refine (h.reads.inGrammar hdepth (.of_mark .comma (.inl rfl) us)).bind fun t ht => ?_
    have hkeep : Leads (R (.mark .comma :: us)) Grammar.splitClosingAngle (fun _ => True)
        (R (.mark .comma :: us)) :=
      .kind (fun p => hR.kind_eq (by decide)) (.ifFalse (by decide) (.pure trivial))
    exact hkeep.bind fun _ _ => .pure ht
  last us := by
    refine h.rejectVoid hR ?_
    refine (h.reads.inGrammar hdepth (.of_mark .gt (.inr (.inl rfl)) us)).bind fun t ht => ?_
    have hcut : Leads (R (.mark .gt :: us)) Grammar.splitClosingAngle (fun _ => True)
        (Closes .gt (R us)) := by
      intro p hp
      obtain ⟨q, hq, hcloses⟩ := hR.close hp
      exact ⟨(), q, hq, trivial, hcloses⟩
    exact hcut.bind fun _ _ => .pure ht

end ReadsValue

/-! ### Lists of types -/

theorem inParens_append (row us : List Lexeme) :
    inParens row ++ us = .mark .lParen :: (row ++ .mark .rParen :: us) := by simp [inParens]

theorem inAngles_append (row us : List Lexeme) :
    inAngles row ++ us = .mark .lt :: (row ++ .mark .gt :: us) := by simp [inAngles]

theorem length_le_commas (hrow : row ∈ rows) : row.length ≤ (commas rows).length := by
  induction rows using commas.induct with
  | case1 => exact absurd hrow List.not_mem_nil
  | case2 only =>
    obtain rfl := List.mem_singleton.1 hrow
    exact Nat.le_refl _
  | case3 first rows hrows ih =>
    rw [commas, List.length_append, List.length_cons]
    · rcases List.mem_cons.1 hrow with rfl | hmem
      · exact Nat.le_add_right _ _
      · have hle := ih hmem
        omega
    · exact hrows

theorem length_le_marked (mark : Symbol) (hrow : row ∈ rows) :
    row.length ≤ (rows.flatMap fun row => Lexeme.mark mark :: row).length := by
  obtain ⟨front, back, rfl⟩ := List.append_of_mem hrow
  simp only [List.flatMap_append, List.flatMap_cons, List.length_append, List.length_cons]
  omega

/-- What holds of a row of types holds with what is known of each of the rows. -/
theorem Forall₂.imp_of_mem {α β : Type} {S S' : α → β → Prop} {as : List α} {bs : List β}
    (h : List.Forall₂ S as bs) (himp : ∀ a ∈ as, ∀ b ∈ bs, S a b → S' a b) :
    List.Forall₂ S' as bs := by
  induction h with
  | nil => exact .nil
  | cons hab hmore ih =>
    refine .cons (himp _ List.mem_cons_self _ List.mem_cons_self hab) (ih fun a ha b hb => ?_)
    exact himp a (List.mem_cons_of_mem _ ha) b (List.mem_cons_of_mem _ hb)

theorem ReadsValue.row_ne_nil (h : List.Forall₂ (ReadsValue R) ts rows) :
    ∀ row ∈ rows, row ≠ [] := by
  induction h with
  | nil => exact fun row hrow => absurd hrow List.not_mem_nil
  | cons hvalue hmore ih =>
    intro row hrow
    rcases List.mem_cons.1 hrow with rfl | hrow
    · obtain ⟨l, more, rfl, -⟩ := hvalue.begins
      exact List.cons_ne_nil _ _
    · exact ih row hrow

theorem TypeExpr.unplacedAll_of_alike {others : List TypeExpr}
    (h : List.Forall₂ TypeExpr.Alike ts others) :
    TypeExpr.unplacedAll others = TypeExpr.unplacedAll ts := by
  induction h with
  | nil => rfl
  | cons hlike hmore ih => rw [TypeExpr.unplacedAll, TypeExpr.unplacedAll, hlike, ih]

/-- `<T, U>` -/
theorem ReadsValue.genericArgs (hR : Feed R inTrait) (h : List.Forall₂ (ReadsValue R) ts rows)
    (hne : ts ≠ []) (hdepth : (commas rows).length < depth) (us : List Lexeme) :
    Leads (R (inAngles (commas rows) ++ us)) (Grammar.genericArgs (Grammar.upTo depth) .build)
      (fun others : List TypeExpr => List.Forall₂ TypeExpr.Alike ts others) (R us) := by
  have hitems := Forall₂.imp_of_mem h fun t _ row hrow hvalue =>
    hvalue.genericItem hR (Nat.lt_of_le_of_lt (length_le_commas hrow) hdepth)
  rw [inAngles_append]
  have hclose : Symbol.gt ≠ .comma := by decide
  exact hR.mark (by decide) rfl (hR.closedList hclose hitems hne (row_ne_nil h) us)

/-- `(A, B)` -/
theorem ReadsValue.tupleType (hR : Feed R inTrait) (h : List.Forall₂ (ReadsValue R) ts rows)
    (hne : ts ≠ []) (hdepth : (commas rows).length < depth) (us : List Lexeme) :
    Leads (R (inParens (commas rows) ++ us)) (Grammar.tupleType (Grammar.upTo depth) .build)
      (fun other : TypeForm => other.unplaced = (TypeForm.tuple ts).unplaced) (R us) := by
  have hitems := Forall₂.imp_of_mem h fun t _ row hrow hvalue =>
    hvalue.item hR (Nat.lt_of_le_of_lt (length_le_commas hrow) hdepth)
  rw [inParens_append]
  have hclose : Symbol.rParen ≠ .comma := by decide
  refine hR.mark (by decide) rfl ?_
  refine (hR.closedList hclose hitems hne (row_ne_nil h) us).bind fun others hothers => .pure ?_
  exact congrArg TypeForm.tuple (TypeExpr.unplacedAll_of_alike hothers)

/-! ### Function types -/

/-- The parameters of a function type are read up to what ends them. -/
theorem ReadsValue.functionPartsOnto (hR : Feed R inTrait)
    (h : List.Forall₂ (ReadsValue R) ts rows) (hdepth : ∀ row ∈ rows, row.length < depth)
    {s : Symbol} (hs : s = .rParen ∨ s = .arrow) {tail : List Lexeme} {likeResult : TypeExpr → Prop}
    (hend : ∀ steps (taken : Array TypeExpr), Leads (R (.mark s :: tail))
      (Grammar.functionPartsOnto (Grammar.upTo depth) .build (steps + 1) taken)
      (fun out : Array TypeExpr × TypeExpr => out.1 = taken ∧ likeResult out.2) (R us))
    {steps : Nat} (hsteps : ts.length < steps) {done : List TypeExpr} {taken : Array TypeExpr}
    (hdone : List.Forall₂ TypeExpr.Alike done taken.toList) :
    Leads (R (commas rows ++ .mark s :: tail))
      (Grammar.functionPartsOnto (Grammar.upTo depth) .build steps taken)
      (fun out : Array TypeExpr × TypeExpr =>
        List.Forall₂ TypeExpr.Alike (done ++ ts) out.1.toList ∧ likeResult out.2) (R us) := by
  have hfinish {steps : Nat} (hsteps : 0 < steps) {done : List TypeExpr} {taken : Array TypeExpr}
      (hdone : List.Forall₂ TypeExpr.Alike done taken.toList) :
      Leads (R (.mark s :: tail))
        (Grammar.functionPartsOnto (Grammar.upTo depth) .build steps taken)
        (fun out : Array TypeExpr × TypeExpr =>
          List.Forall₂ TypeExpr.Alike done out.1.toList ∧ likeResult out.2) (R us) := by
    obtain ⟨steps, rfl⟩ : ∃ n, steps = n + 1 := ⟨steps - 1, by omega⟩
    exact (hend steps taken).mono fun out hout => ⟨hout.1 ▸ hdone, hout.2⟩
  induction h generalizing done taken steps with
  | nil =>
    rw [List.append_nil]
    exact hfinish (Nat.zero_lt_of_lt hsteps) hdone
  | @cons t row ts rows hvalue hmore ih =>
    obtain ⟨steps, rfl⟩ : ∃ n, steps = n + 1 := ⟨steps - 1, by omega⟩
    have hrow : row.length < depth := hdepth row List.mem_cons_self
    have hpush {a : TypeExpr} (ha : t.Alike a) :
        List.Forall₂ TypeExpr.Alike (done ++ [t]) (taken.push a).toList := by
      rw [Array.toList_push]
      exact List.rel_append hdone (.cons ha .nil)
    obtain ⟨l, more, hfirst, hl, -⟩ := hvalue.begins
    have hopen : l.kind ≠ Symbol.rParen ∧ l.kind ≠ Symbol.arrow := by
      cases hl <;> exact ⟨by rintro ⟨⟩, by rintro ⟨⟩⟩
    -- A type begins here, which is read; what is behind it is told by its kind.
    have hparam {us' : List Lexeme} {W : Array TypeExpr × TypeExpr → Prop} (hus : EndsType us')
        (hmore : ∀ a, t.Alike a → Leads (R us') (do
          let k ← Parser.kind
          if k = Symbol.comma then
            Parser.drop
            Grammar.functionPartsOnto (Grammar.upTo depth) .build steps (taken.push a)
          else if k = Symbol.rParen || k = Symbol.arrow then
            Grammar.functionPartsOnto (Grammar.upTo depth) .build steps (taken.push a)
          else Parser.failAtStart .unclosedFunctionType) W (R us)) :
        Leads (R (row ++ us'))
          (Grammar.functionPartsOnto (Grammar.upTo depth) .build (steps + 1) taken) W (R us) := by
      refine .kind (k := l.kind) (fun p hp => ?_) ?_
      · rw [hfirst, List.cons_append] at hp
        exact hR.kind_eq hl.ne_angle hp
      · refine .ifFalse hopen.1 (.ifFalse hopen.2 ?_)
        exact (hvalue.valueType hR hrow hus).bind hmore
    cases hmore with
    | nil =>
      have hends : EndsType (.mark s :: tail) := .of_mark s (.inr (.inr hs)) tail
      have hs' : Lexeme.mark s ≠ .mark .gt := by rcases hs with rfl | rfl <;> decide
      refine hparam hends fun a ha => .kind (fun p => hR.kind_eq hs') ?_
      refine .ifFalse (by rcases hs with rfl | rfl <;> rintro ⟨⟩) (.ifTrue ?_ ?_)
      · rcases hs with rfl | rfl <;> rfl
      · exact hfinish (Nat.zero_lt_of_lt (Nat.lt_of_succ_lt_succ hsteps)) (hpush ha)
    | @cons t' row' ts rows hvalue' hmore' =>
      have hcommas : commas (row :: row' :: rows) ++ .mark s :: tail =
          row ++ .mark .comma :: (commas (row' :: rows) ++ .mark s :: tail) := by
        rw [commas, List.append_assoc, List.cons_append]
        rintro ⟨⟩
      have hcomma : Lexeme.mark .comma ≠ .mark .gt := by decide
      have hdepth' : ∀ row ∈ row' :: rows, row.length < depth := fun row hmem =>
        hdepth row (List.mem_cons_of_mem _ hmem)
      have hdone' : done ++ t :: t' :: ts = done ++ [t] ++ t' :: ts := List.append_cons _ _ _
      rw [hcommas, hdone']
      refine hparam (.of_mark .comma (.inl rfl) _) fun a ha => .kind (fun p => hR.kind_eq hcomma) ?_
      exact .ifTrue rfl (hR.drop hcomma (ih hdepth' (Nat.lt_of_succ_lt_succ hsteps) (hpush ha)))

/-- `fn(A, B -> R)`, perhaps without the arrow. -/
theorem ReadsValue.functionType (hR : Feed R inTrait) (h : List.Forall₂ (ReadsValue R) ts rows)
    (hdepth : ∀ row ∈ rows, row.length < depth) {s : Symbol} (hs : s = .rParen ∨ s = .arrow)
    {tail : List Lexeme} {likeResult : TypeExpr → Prop}
    (hend : ∀ steps (taken : Array TypeExpr), Leads (R (.mark s :: tail))
      (Grammar.functionPartsOnto (Grammar.upTo depth) .build (steps + 1) taken)
      (fun out : Array TypeExpr × TypeExpr => out.1 = taken ∧ likeResult out.2) (R us)) :
    Leads (R (.word .fnKw :: .mark .lParen :: (commas rows ++ .mark s :: tail)))
      (Grammar.functionType (Grammar.upTo depth) .build)
      (fun form : TypeForm => ∃ params result, List.Forall₂ TypeExpr.Alike ts params ∧
        likeResult result ∧ form = .function params result) (R us) := by
  refine hR.mark (by decide) rfl (hR.mark (by decide) rfl ?_)
  have hlength : ts.length ≤ (commas rows).length := h.length_eq ▸ Feed.length_commas (row_ne_nil h)
  refine Leads.listBound (n := ts.length + 1) (fun p hp => ?_) fun m hm => ?_
  · have hroom := hR.room hp
    rw [List.length_append] at hroom
    omega
  · refine (functionPartsOnto hR h hdepth hs hend hm .nil).bind fun out hout => .pure ?_
    exact ⟨out.1.toList, out.2, hout.1, hout.2, rfl⟩

/-- The closing parenthesis stands for `void` as a result. -/
theorem Leads.noResult (hR : Feed R inTrait) (steps : Nat) (taken : Array TypeExpr) :
    Leads (R (.mark .rParen :: us))
      (Grammar.functionPartsOnto (Grammar.upTo depth) .build (steps + 1) taken)
      (fun out : Array TypeExpr × TypeExpr => out.1 = taken ∧ (TypeExpr.voidAt .start).Alike out.2)
      (R us) := by
  have hparen : Lexeme.mark .rParen ≠ .mark .gt := by decide
  refine .kind (fun p => hR.kind_eq hparen) (.ifTrue rfl (.position fun pos => ?_))
  exact hR.drop hparen (.pure ⟨rfl, rfl⟩)

/-- The result stands behind an arrow. -/
theorem ReadsType.result (hR : Feed R inTrait) (h : ReadsType R t row) (hdepth : row.length < depth)
    (steps : Nat) (taken : Array TypeExpr) :
    Leads (R (.mark .arrow :: (row ++ .mark .rParen :: us)))
      (Grammar.functionPartsOnto (Grammar.upTo depth) .build (steps + 1) taken)
      (fun out : Array TypeExpr × TypeExpr => out.1 = taken ∧ t.Alike out.2) (R us) := by
  have harrow : Lexeme.mark .arrow ≠ .mark .gt := by decide
  have hends : EndsType (.mark .rParen :: us) := .of_mark .rParen (.inr (.inr (.inl rfl))) us
  refine .kind (fun p => hR.kind_eq harrow) (.ifFalse (by decide) (.ifTrue rfl ?_))
  refine hR.drop harrow ((h.inGrammar hdepth hends).bind fun result hresult => ?_)
  exact hR.mark (by decide) rfl (.pure ⟨rfl, hresult⟩)

/-! ### Paths -/

theorem ReadsSegment.plain (hR : Feed R inTrait) (pos : Position) (name : String) (root : Bool) :
    ReadsSegment R ⟨pos, name, root, []⟩ [.name name] := by
  intro depth _ us hus
  refine .position fun pos' => hR.expectIdentifier ?_
  refine .check (b := false) (fun p hp => decide_eq_false ?_) (.ifFalse Bool.false_ne_true ?_)
  · exact fun hangle => hus _ (hR.fronts hp) ⟨hangle, rfl⟩
  · exact .pure rfl

theorem ReadsSegment.generic (hR : Feed R inTrait) (pos : Position) (name : String) (root : Bool)
    (h : List.Forall₂ (ReadsValue R) ts rows) (hne : ts ≠ []) :
    ReadsSegment R ⟨pos, name, root, ts⟩ (.name name :: inAngles (commas rows)) := by
  intro depth hdepth us _
  have hlength : (commas rows).length < depth := by
    simp [inAngles] at hdepth
    omega
  have hangle : Lexeme.mark .lt ≠ .mark .gt := by decide
  have hargs := ReadsValue.genericArgs hR h hne hlength us
  rw [List.cons_append]
  refine .position fun pos' => hR.expectIdentifier ?_
  have hcheck : inAngles (commas rows) ++ us = .mark .lt :: (commas rows ++ .mark .gt :: us) :=
    inAngles_append _ _
  refine .check (b := true) (fun p hp => decide_eq_true ?_) (.ifTrue rfl ?_)
  · rw [hcheck] at hp
    exact hR.kind_eq hangle hp
  · refine hargs.bind fun others hothers => .pure ?_
    exact congrArg (PathSegment.mk .start name root) (TypeExpr.unplacedAll_of_alike hothers)

theorem PathSegment.unplacedAll_of_alike {segments others : List PathSegment}
    (h : List.Forall₂ (fun segment other : PathSegment => other.unplaced = segment.unplaced)
      segments others) :
    PathSegment.unplacedAll others = PathSegment.unplacedAll segments := by
  induction h with
  | nil => rfl
  | cons hlike hmore ih =>
    rw [PathSegment.unplacedAll, PathSegment.unplacedAll, hlike, ih]

/-- The first name of a path and the further ones, each behind its mark. -/
theorem ReadsSegment.names (hR : Feed R inTrait) {head : PathSegment} {tail : List PathSegment}
    (hhead : ReadsSegment R head row) (htail : List.Forall₂ (ReadsSegment R) tail rows)
    (hroot : ∀ segment ∈ tail, segment.root = false) (hdepth : row.length ≤ depth)
    (hdepths : ∀ row ∈ rows, row.length ≤ depth)
    (hus : EndsAt (TypePath.GoesOn ⟨head, tail⟩) us) :
    Leads (R (row ++ (rows.flatMap (fun row => .mark .colonColon :: row) ++ us)))
      (do
        let head ← Grammar.pathSegment (Grammar.upTo depth) .build head.root
        let tail ← Parser.listWhile (Parser.eat Symbol.colonColon)
          (Grammar.pathSegment (Grammar.upTo depth) .build false)
        return TypePath.mk <$> head <*> tail : Parse Buffer (Yield .build TypePath))
      (fun other : TypePath => other.unplaced = TypePath.unplaced ⟨head, tail⟩) (R us) := by
  have hfollow (segment : PathSegment) (ls : List Lexeme) :
      EndsAt segment.GoesOn (.mark .colonColon :: ls) := by
    rintro _ rfl ⟨hangle, -⟩
    exact absurd hangle nofun
  have hlast : ∀ segment ∈ (head :: tail).getLast?, EndsAt segment.GoesOn us :=
    fun segment hmem k hk hgo => hus k hk (.inr ⟨segment, hmem, hgo⟩)
  have hbehind : EndsAt head.GoesOn (rows.flatMap (fun row => .mark .colonColon :: row) ++ us) := by
    cases htail with
    | nil => exact hlast head rfl
    | cons => exact hfollow head _
  have hlasts : ∀ segment ∈ tail.getLast?, EndsAt segment.GoesOn us := by
    cases tail with
    | nil => exact nofun
    | cons => exact fun segment hmem => hlast segment (by rwa [List.getLast?_cons_cons])
  refine (hhead depth hdepth _ hbehind).bind fun first hfirst => ?_
  have hitems := Forall₂.imp_of_mem htail fun segment hmem row hrow hsegment =>
    hroot segment hmem ▸ hsegment depth (hdepths row hrow)
  have hmark : Lexeme.mark .colonColon ≠ .mark .gt := by decide
  have hend (p : Parser Buffer) (hp : R us p) : p.current.kind ≠ Symbol.colonColon :=
    fun hscope => hus _ (hR.fronts hp) (.inl hscope)
  refine (hR.listWhile hmark hfollow hitems hlasts hend).bind fun more hmore => .pure ?_
  have hsegments := PathSegment.unplacedAll_of_alike hmore
  show TypePath.mk first.unplaced (PathSegment.unplacedAll more) = _
  rw [hfirst, hsegments]
  rfl

/-- A path, perhaps from the root. -/
theorem ReadsSegment.typePath (hR : Feed R inTrait) {head : PathSegment} {tail : List PathSegment}
    (hhead : ReadsSegment R head row) (hname : ∃ more, row = .name head.name :: more)
    (htail : List.Forall₂ (ReadsSegment R) tail rows)
    (hroot : ∀ segment ∈ tail, segment.root = false) :
    ReadsBase R (.named ⟨head, tail⟩)
      ((if head.root then [.mark .colonColon] else []) ++ row ++
        rows.flatMap fun row => .mark .colonColon :: row) := by
  intro depth hdepth us hus
  have hdepths (more : List Lexeme) (hmore : more ∈ rows) : more.length ≤ depth := by
    have hle := length_le_marked .colonColon hmore
    simp only [List.length_append] at hdepth
    omega
  have hhead_depth : row.length ≤ depth := by
    simp only [List.length_append] at hdepth
    omega
  have hnames := names hR hhead htail hroot hhead_depth hdepths hus
  generalize head.root = root at hnames ⊢
  have hpath : Leads
      (R ((if root then [.mark .colonColon] else []) ++ row ++
        rows.flatMap (fun row => .mark .colonColon :: row) ++ us))
      (Grammar.typePath (Grammar.upTo depth) .build)
      (fun other : TypePath => other.unplaced = TypePath.unplaced ⟨head, tail⟩) (R us) := by
    cases root with
    | true =>
      simp only [if_true, List.append_assoc, List.singleton_append]
      exact hR.eat (by decide) rfl hnames
    | false =>
      simp only [Bool.false_eq_true, if_false, List.nil_append, List.append_assoc]
      obtain ⟨more, rfl⟩ := hname
      refine .eatNot (fun p hp => ?_) hnames
      rw [hR.kind_eq (Feed.name_ne _) hp]
      exact nofun
  -- The first token tells that a path comes.
  obtain ⟨more, rfl⟩ := hname
  cases root with
  | true =>
    refine .kind (fun p => hR.kind_eq (by decide)) (hpath.bind fun other hother => .pure ?_)
    exact congrArg TypeForm.named hother
  | false =>
    refine .kind (fun p => hR.kind_eq (Feed.name_ne _)) (hpath.bind fun other hother => .pure ?_)
    exact congrArg TypeForm.named hother

end Parts

end ScriptFront
