import Mathlib.Data.List.Forall2
import ScriptFront.Proofs.Writing.Trees
import ScriptFront.Proofs.Writing.Reading

/-!
# Feeding a row of lexemes to a parser

A *feed* hands a row of lexemes to a parser, one after the other, however they are laid out. Only
closing angles need not come alone: what comes in place of one is a symbol that begins with it.

- `Leads`: from states of one kind, a reading comes to a value and leaves a state of another kind.
- `Feed`: what can be relied on where a row is before a parser.
- `Feed.closedList`: a list of items with a comma between two of them.
-/

namespace ScriptFront

open ScriptFront.Parser

/-! ## Readings that succeed -/

/-- From all states of which `P` holds, a reading comes to a value of which `V` holds, and leaves a
state of which `Q` holds. -/
def Leads {α : Type} (P : Parser Buffer → Prop) (x : Parse Buffer α) (V : α → Prop)
    (Q : Parser Buffer → Prop) : Prop :=
  ∀ ⦃p⦄, P p → ∃ a p', x.run p = (.ok a, p') ∧ V a ∧ Q p'

namespace Leads

variable {α β : Type} {P P' Q S : Parser Buffer → Prop} {x : Parse Buffer α} {V : α → Prop}
  {W : β → Prop}

theorem pure {a : α} (h : V a) : Leads P (Pure.pure a) V P := fun p hp => ⟨a, p, rfl, h, hp⟩

theorem bind {f : α → Parse Buffer β} (hx : Leads P x V Q)
    (hf : ∀ a, V a → Leads Q (f a) W S) : Leads P (x >>= f) W S := by
  intro p hp
  obtain ⟨a, q, hq, ha, hstate⟩ := hx hp
  obtain ⟨b, r, hr, hb, hstate'⟩ := hf a ha hstate
  exact ⟨b, r, (run_bind_ok hq).trans hr, hb, hstate'⟩

theorem mono {W : α → Prop} (hx : Leads P x V Q) (h : ∀ a, V a → W a) : Leads P x W Q := by
  intro p hp
  obtain ⟨a, q, hq, ha, hstate⟩ := hx hp
  exact ⟨a, q, hq, h a ha, hstate⟩

theorem ifTrue {c : Prop} [Decidable c] {y : Parse Buffer α} (hc : c) (h : Leads P x V Q) :
    Leads P (if c then x else y) V Q := by
  rw [if_pos hc]
  exact h

theorem ifFalse {c : Prop} [Decidable c] {y : Parse Buffer α} (hc : ¬c) (h : Leads P y V Q) :
    Leads P (if c then x else y) V Q := by
  rw [if_neg hc]
  exact h

theorem inTrait {b : Bool} {f : Bool → Parse Buffer α} (hb : ∀ p, P p → p.inTrait = b)
    (h : Leads P (f b) V Q) : Leads P (MonadState.get >>= fun p => f p.inTrait) V Q := by
  intro p hp
  rw [← hb p hp] at h
  exact h hp

theorem kind {k : TokenKind} {f : TokenKind → Parse Buffer α} (hk : ∀ p, P p → p.current.kind = k)
    (h : Leads P (f k) V Q) : Leads P (Parser.kind >>= f) V Q := by
  intro p hp
  obtain ⟨a, q, hq, ha, hstate⟩ := h hp
  refine ⟨a, q, ?_, ha, hstate⟩
  have hkind : (Parser.kind : Parse Buffer TokenKind).run p = (.ok k, p) := by
    rw [← hk p hp]
    rfl
  exact (run_bind_ok hkind).trans hq

theorem check {k : TokenKind} {b : Bool} {f : Bool → Parse Buffer α}
    (hk : ∀ p, P p → decide (p.current.kind = k) = b) (h : Leads P (f b) V Q) :
    Leads P (Parser.check k >>= f) V Q := by
  intro p hp
  obtain ⟨a, q, hq, ha, hstate⟩ := h hp
  refine ⟨a, q, ?_, ha, hstate⟩
  have hcheck : (Parser.check k : Parse Buffer Bool).run p = (.ok b, p) := by
    rw [← hk p hp]
    rfl
  exact (run_bind_ok hcheck).trans hq

theorem position {f : Position → Parse Buffer α} (h : ∀ pos, Leads P (f pos) V Q) :
    Leads P (Parser.position >>= f) V Q := fun p hp => h p.current.position hp

theorem save {f : Bookmark → Parse Buffer α} (h : ∀ b, Leads P (f b) V Q) :
    Leads P (Parser.save >>= f) V Q := fun p hp => h ⟨p.start⟩ hp

theorem listBound {n : Nat} {f : Nat → Parse Buffer α} (hroom : ∀ p, P p → n ≤ p.bound)
    (h : ∀ m, n ≤ m → Leads P (f m) V Q) : Leads P (Parser.listBound >>= f) V Q :=
  fun p hp => h p.bound (hroom p hp) hp

theorem eatNot {k : TokenKind} {f : Bool → Parse Buffer α} (hk : ∀ p, P p → p.current.kind ≠ k)
    (h : Leads P (f false) V Q) : Leads P (Parser.eat k >>= f) V Q := by
  have hfalse : Leads P (Parser.eat k) (fun b => b = false) P :=
    check (fun p hp => decide_eq_false (hk p hp)) (ifFalse Bool.false_ne_true (pure rfl))
  exact hfalse.bind fun _ hb => hb ▸ h

end Leads

/-! ## Feeds -/

/-- The symbols that begin with a closing angle. -/
def IsCloser (k : TokenKind) : Prop :=
  k = Symbol.gt ∨ k = Symbol.gtEq ∨ k = Symbol.shr ∨ k = Symbol.shrEq

/-- The symbols that a type goes on with. -/
def IsTypeSuffix (k : TokenKind) : Prop :=
  k = Symbol.question ∨ k = Symbol.lBracket ∨ k = Symbol.colonColon ∨ k = Symbol.lt

/-- What the current token can be where a row is before a parser. Behind the row, types end. -/
def Fronts : List Lexeme → TokenKind → Prop
  | [], k => ¬IsTypeSuffix k
  | l :: _, k => if l = .mark .gt then IsCloser k else k = l.kind

/-- The current token closes a list, and behind it the states are of some kind. -/
def Closes (close : Symbol) (Q : Parser Buffer → Prop) (p : Parser Buffer) : Prop :=
  p.current.kind = close ∧ ∃ p', Parser.advance.run p = (.ok p.current, p') ∧ Q p'

/-- `R ls` holds of states where the row `ls` is before the parser. -/
structure Feed (R : List Lexeme → Parser Buffer → Prop) (inTrait : Bool) : Prop where
  fronts {ls : List Lexeme} {p : Parser Buffer} (h : R ls p) : Fronts ls p.current.kind
  text_eq {l : Lexeme} {ls : List Lexeme} {p : Parser Buffer} (h : R (l :: ls) p)
    (hl : l ≠ .mark .gt) : p.current.text = l.text
  advance {l : Lexeme} {ls : List Lexeme} {p : Parser Buffer} (h : R (l :: ls) p)
    (hl : l ≠ .mark .gt) : ∃ p', Parser.advance.run p = (.ok p.current, p') ∧ R ls p'
  /-- A closing angle can be set apart, and then be taken. -/
  close {ls : List Lexeme} {p : Parser Buffer} (h : R (.mark .gt :: ls) p) :
    ∃ q, Grammar.splitClosingAngle.run p = (.ok (), q) ∧ Closes .gt (R ls) q
  room {ls : List Lexeme} {p : Parser Buffer} (h : R ls p) : 4 * (ls.length + 2) ≤ p.bound
  inTrait_eq {ls : List Lexeme} {p : Parser Buffer} (h : R ls p) : p.inTrait = inTrait

namespace Feed

variable {R : List Lexeme → Parser Buffer → Prop} {inTrait : Bool} {α β : Type} {l : Lexeme}
  {ls : List Lexeme} {p : Parser Buffer} {V : α → Prop} {Q : Parser Buffer → Prop} {k : TokenKind}

theorem kind_eq (hR : Feed R inTrait) (hl : l ≠ .mark .gt) (h : R (l :: ls) p) :
    p.current.kind = l.kind := by
  have hfronts := hR.fronts h
  rwa [Fronts, if_neg hl] at hfronts

/-! ### Taking lexemes -/

theorem take (hR : Feed R inTrait) (hl : l ≠ .mark .gt) :
    Leads (R (l :: ls)) Parser.advance (fun t => t.kind = l.kind ∧ t.text = l.text) (R ls) := by
  intro p hp
  obtain ⟨q, hq, hstate⟩ := hR.advance hp hl
  exact ⟨p.current, q, hq, ⟨hR.kind_eq hl hp, hR.text_eq hp hl⟩, hstate⟩

theorem drop (hR : Feed R inTrait) (hl : l ≠ .mark .gt) {f : Unit → Parse Buffer α}
    (h : Leads (R ls) (f ()) V Q) : Leads (R (l :: ls)) (Parser.drop >>= f) V Q := by
  have hdrop : Leads (R (l :: ls)) Parser.drop (fun _ => True) (R ls) :=
    (hR.take hl).bind fun _ _ => .pure trivial
  exact hdrop.bind fun _ _ => h

theorem check (hR : Feed R inTrait) (hl : l ≠ .mark .gt) {f : Bool → Parse Buffer α}
    (h : Leads (R (l :: ls)) (f (l.kind = k)) V Q) :
    Leads (R (l :: ls)) (Parser.check k >>= f) V Q :=
  .check (fun p hp => by rw [hR.kind_eq hl hp]) h

theorem expect (hR : Feed R inTrait) (hl : l ≠ .mark .gt) (hk : l.kind = k) :
    Leads (R (l :: ls)) (Parser.expect k) (fun t => t.kind = l.kind ∧ t.text = l.text) (R ls) :=
  hR.check hl (.ifTrue (decide_eq_true hk) (hR.take hl))

theorem mark (hR : Feed R inTrait) (hl : l ≠ .mark .gt) (hk : l.kind = k)
    {f : Unit → Parse Buffer α} (h : Leads (R ls) (f ()) V Q) :
    Leads (R (l :: ls)) (Parser.mark k >>= f) V Q := by
  have hmark : Leads (R (l :: ls)) (Parser.mark k) (fun _ => True) (R ls) :=
    (hR.expect hl hk).bind fun _ _ => .pure trivial
  exact hmark.bind fun _ _ => h

theorem eat (hR : Feed R inTrait) (hl : l ≠ .mark .gt) (hk : l.kind = k)
    {f : Bool → Parse Buffer α} (h : Leads (R ls) (f true) V Q) :
    Leads (R (l :: ls)) (Parser.eat k >>= f) V Q := by
  have heat : Leads (R (l :: ls)) (Parser.eat k) (fun b => b = true) (R ls) :=
    hR.check hl (.ifTrue (decide_eq_true hk) ((hR.take hl).bind fun _ _ => .pure rfl))
  exact heat.bind fun _ hb => hb ▸ h

theorem name_ne (text : String) : Lexeme.name text ≠ .mark .gt := fun h =>
  absurd (congrArg Lexeme.kind h) nofun

theorem expectIdentifier (hR : Feed R inTrait) {text : String} {f : String → Parse Buffer α}
    (h : Leads (R ls) (f text) V Q) :
    Leads (R (.name text :: ls)) (Parser.expectIdentifier >>= f) V Q := by
  have hname : Leads (R (.name text :: ls)) Parser.expectIdentifier (fun a => a = text) (R ls) :=
    hR.check (name_ne text) (.ifTrue rfl ((hR.take (name_ne text)).bind fun _ ht => .pure ht.2))
  exact hname.bind fun _ ha => ha ▸ h

/-- A symbol other than a closing angle closes a list where it comes. -/
theorem closes (hR : Feed R inTrait) {close : Symbol} (hclose : close ≠ .gt)
    (h : R (.mark close :: ls) p) : Closes close (R ls) p := by
  have hl : Lexeme.mark close ≠ .mark .gt := fun h =>
    hclose (TokenKind.symbol.inj (congrArg Lexeme.kind h))
  exact ⟨hR.kind_eq hl h, hR.advance h hl⟩

/-! ### Lists -/

/-- Reading an item that a row spells, wherever it stands in a list. -/
structure Item (R : List Lexeme → Parser Buffer → Prop) (close : Symbol) (item : Parse Buffer α)
    (V : α → Prop) (row : List Lexeme) : Prop where
  before (us : List Lexeme) :
    Leads (R (row ++ .mark .comma :: us)) item V (R (.mark .comma :: us))
  last (us : List Lexeme) :
    Leads (R (row ++ .mark close :: us)) item V (Closes close (R us))

theorem length_le_marked (mark : Symbol) (rows : List (List Lexeme)) :
    rows.length ≤ (rows.flatMap fun row => Lexeme.mark mark :: row).length := by
  induction rows with
  | nil => exact Nat.le_refl _
  | cons row rows ih =>
    rw [List.flatMap_cons, List.length_append, List.length_cons, List.length_cons]
    omega

theorem length_commas {rows : List (List Lexeme)} (h : ∀ row ∈ rows, row ≠ []) :
    rows.length ≤ (commas rows).length := by
  induction rows using commas.induct with
  | case1 => exact Nat.le_refl _
  | case2 row =>
    have hpos := List.length_pos_iff.2 (h row List.mem_cons_self)
    rw [commas]
    exact hpos
  | case3 row rows hrows ih =>
    have hmore := ih fun row hrow => h row (List.mem_cons_of_mem _ hrow)
    rw [commas, List.length_append, List.length_cons, List.length_cons]
    · omega
    · exact hrows

section Lists

variable {γ : Type} {close : Symbol} {item : Parse Buffer (Yield .build α)} {like : γ → α → Prop}
  {ts done : List γ} {rows : List (List Lexeme)} {taken : Array α}

/-- Taking the closing token of a list. -/
theorem dropClose {f : Unit → Parse Buffer β} {W : β → Prop} {S : Parser Buffer → Prop}
    (h : Leads Q (f ()) W S) : Leads (Closes close Q) (Parser.drop >>= f) W S := by
  have hdrop : Leads (Closes close Q) Parser.drop (fun _ => True) Q := by
    rintro p ⟨-, q, hq, hstate⟩
    exact ⟨(), q, run_bind_ok hq, trivial, hstate⟩
  exact hdrop.bind fun _ _ => h

/-- The items of a list are read one after the other. -/
theorem closedListOnto (hR : Feed R inTrait) (hclose : close ≠ .comma)
    (h : List.Forall₂ (fun t row => Item R close item (like t) row) ts rows) (hne : ts ≠ [])
    {steps : Nat} (hsteps : ts.length ≤ steps) (hdone : List.Forall₂ like done taken.toList)
    (us : List Lexeme) :
    Leads (R (commas rows ++ .mark close :: us))
      (Parser.closedListOnto close item steps taken : Parse Buffer (Yield .build (Array α)))
      (fun out : Array α => List.Forall₂ like (done ++ ts) out.toList) (R us) := by
  induction h generalizing done taken steps with
  | nil => exact absurd rfl hne
  | @cons t row ts rows hitem hmore ih =>
    obtain ⟨steps, rfl⟩ : ∃ n, steps = n + 1 := ⟨steps - 1, by simp at hsteps; omega⟩
    have hpush {a : α} (ha : like t a) :
        List.Forall₂ like (done ++ [t]) (taken.push a).toList := by
      rw [Array.toList_push]
      exact List.rel_append hdone (.cons ha .nil)
    cases hmore with
    | nil =>
      refine (hitem.last us).bind fun a ha => .kind (fun p hp => hp.1) ?_
      have hcomma : ¬(close : TokenKind) = Symbol.comma := fun h => hclose (TokenKind.symbol.inj h)
      exact .ifFalse hcomma (.ifTrue rfl (dropClose (.pure (hpush ha))))
    | @cons t' row' ts rows hitem' hmore' =>
      have hrow : commas (row :: row' :: rows) ++ .mark close :: us =
          row ++ .mark .comma :: (commas (row' :: rows) ++ .mark close :: us) := by
        rw [commas, List.append_assoc, List.cons_append]
        exact nofun
      have hdone' : done ++ t :: t' :: ts = done ++ [t] ++ t' :: ts := List.append_cons _ _ _
      rw [hrow, hdone']
      have hcomma : Lexeme.mark .comma ≠ .mark .gt := by decide
      refine (hitem.before _).bind fun a ha => .kind (fun p => hR.kind_eq hcomma) ?_
      refine .ifTrue rfl (hR.drop hcomma ?_)
      exact ih (List.cons_ne_nil _ _) (Nat.le_of_succ_le_succ hsteps) (hpush ha)

/-- A list with its closing token is read. -/
theorem closedList (hR : Feed R inTrait) (hclose : close ≠ .comma)
    (h : List.Forall₂ (fun t row => Item R close item (like t) row) ts rows) (hne : ts ≠ [])
    (hrows : ∀ row ∈ rows, row ≠ []) (us : List Lexeme) :
    Leads (R (commas rows ++ .mark close :: us))
      (Parser.closedList close item : Parse Buffer (Yield .build (List α)))
      (fun out : List α => List.Forall₂ like ts out) (R us) := by
  have hlength : ts.length ≤ (commas rows).length := h.length_eq ▸ length_commas hrows
  refine Leads.listBound (n := ts.length) (fun p hp => ?_) fun m hm => ?_
  · have hroom := hR.room hp
    rw [List.length_append] at hroom
    omega
  · exact (hR.closedListOnto hclose h hne hm .nil us).bind fun out hout => .pure hout

/-- Further items are read for as long as the mark before each of them comes. -/
theorem whileOnto (hR : Feed R inTrait) {mark : Symbol} (hmark : Lexeme.mark mark ≠ .mark .gt)
    {Follow : γ → List Lexeme → Prop} (hfollow : ∀ t ls, Follow t (.mark mark :: ls))
    (h : List.Forall₂ (fun t row => ∀ us, Follow t us → Leads (R (row ++ us)) item (like t) (R us))
      ts rows)
    {us : List Lexeme} (hus : ∀ t ∈ ts.getLast?, Follow t us)
    (hend : ∀ p, R us p → p.current.kind ≠ mark) {steps : Nat}
    (hsteps : ts.length < steps) (hdone : List.Forall₂ like done taken.toList) :
    Leads (R (rows.flatMap (fun row => .mark mark :: row) ++ us))
      (Parser.whileOnto (Parser.eat mark) item steps taken : Parse Buffer (Yield .build (Array α)))
      (fun out : Array α => List.Forall₂ like (done ++ ts) out.toList) (R us) := by
  obtain ⟨steps, rfl⟩ : ∃ n, steps = n + 1 := ⟨steps - 1, by omega⟩
  induction h generalizing done taken steps with
  | nil =>
    rw [List.append_nil]
    exact .eatNot hend (.ifFalse Bool.false_ne_true (.pure hdone))
  | @cons t row ts rows hitem hmore ih =>
    obtain ⟨steps, rfl⟩ : ∃ n, steps = n + 1 := ⟨steps - 1, by simp at hsteps; omega⟩
    have hrow : (row :: rows).flatMap (fun row => Lexeme.mark mark :: row) ++ us =
        .mark mark :: (row ++ (rows.flatMap (fun row => .mark mark :: row) ++ us)) := by
      rw [List.flatMap_cons, List.cons_append, List.cons_append, List.append_assoc]
    have hfollows : Follow t (rows.flatMap (fun row => .mark mark :: row) ++ us) := by
      cases hmore with
      | nil => exact hus t rfl
      | cons => exact hfollow t _
    have hlast : ∀ t ∈ ts.getLast?, Follow t us := by
      cases ts with
      | nil => rintro _ ⟨⟩
      | cons t' ts => exact fun last hlast => hus last (by rwa [List.getLast?_cons_cons])
    have hpush {a : α} (ha : like t a) :
        List.Forall₂ like (done ++ [t]) (taken.push a).toList := by
      rw [Array.toList_push]
      exact List.rel_append hdone (.cons ha .nil)
    rw [hrow, List.append_cons]
    refine hR.eat hmark rfl (.ifTrue rfl ((hitem _ hfollows).bind fun a ha => ?_))
    exact ih hlast (hpush ha) steps (Nat.lt_of_succ_lt_succ hsteps)

/-- All items before which a mark comes are read. -/
theorem listWhile (hR : Feed R inTrait) {mark : Symbol} (hmark : Lexeme.mark mark ≠ .mark .gt)
    {Follow : γ → List Lexeme → Prop} (hfollow : ∀ t ls, Follow t (.mark mark :: ls))
    (h : List.Forall₂ (fun t row => ∀ us, Follow t us → Leads (R (row ++ us)) item (like t) (R us))
      ts rows)
    {us : List Lexeme} (hus : ∀ t ∈ ts.getLast?, Follow t us)
    (hend : ∀ p, R us p → p.current.kind ≠ mark) :
    Leads (R (rows.flatMap (fun row => .mark mark :: row) ++ us))
      (Parser.listWhile (Parser.eat mark) item : Parse Buffer (Yield .build (List α)))
      (fun out : List α => List.Forall₂ like ts out) (R us) := by
  have hlength := length_le_marked mark rows
  refine Leads.listBound (n := ts.length + 1) (fun p hp => ?_) fun m hm => ?_
  · have hroom := hR.room hp
    rw [List.length_append] at hroom
    have hsame := h.length_eq
    omega
  · exact (hR.whileOnto hmark hfollow h hus hend hm .nil).bind fun out hout => .pure hout

end Lists

end Feed

/-! ## Rows with blanks -/

/-- A row with blanks between its lexemes is before a parser as it is to be fed. -/
theorem Setting.feed (c : Setting) : Feed (Reads c) c.inTrait where
  fronts {ls p} h := by
    rw [h.kind_eq]
    cases ls with
    | nil => simp [Fronts, IsTypeSuffix]
    | cons l ls =>
      by_cases hl : l = .mark .gt
      · subst hl
        exact .inl rfl
      · simp [Fronts, hl]
  text_eq h _ := h.text_eq
  advance h _ := h.toShows.advance
  close {ls p} h := by
    refine ⟨p, ?_, h.kind_eq, h.toShows.advance⟩
    have hkind : (Parser.kind : Parse Buffer TokenKind).run p = (.ok Symbol.gt, p) := by
      rw [← show p.current.kind = Symbol.gt from h.kind_eq]
      rfl
    exact run_bind_ok hkind
  room h := h.le_bound
  inTrait_eq h := h.holds.inTrait_eq

end ScriptFront
