import ScriptFront.Proofs.Unspaced.Types
import ScriptFront.Proofs.Writing.Minimal

/-!
# Rows that are read back

Trees are written with parentheses around each part of an expression. How a row of lexemes is read
back is told by the part that stands there and by what may follow it.

- `parenthesized`: all parts of expressions stand in parentheses.
- `Rereads`: a row is read back, whatever follows it as long as that ends the row.
- `Parses.closedList`, `Parses.openList`, `Parses.listWhile`, …: one rule for each kind of list.
-/

namespace ScriptFront

open ScriptFront.Parser

/-- Parentheses around all parts of expressions. -/
def parenthesized : Wrapping := fun _ _ => true

theorem Expr.part_parenthesized (least : Nat) (e : Expr) :
    e.part parenthesized least = inParens (e.lexemes parenthesized) := by
  obtain ⟨pos, form⟩ := e
  rfl

theorem inBraces_append (row us : List Lexeme) :
    inBraces row ++ us = .mark .lBrace :: (row ++ .mark .rBrace :: us) := by simp [inBraces]

/-! ## First lexemes -/

/-- The kind of the first lexeme of a row that is not empty. -/
def Begins (row : List Lexeme) (P : TokenKind → Prop) : Prop := ∃ l more, row = l :: more ∧ P l.kind

namespace Begins

variable {row : List Lexeme} {P Q : TokenKind → Prop}

theorem ne_nil (h : Begins row P) : row ≠ [] := by
  obtain ⟨l, more, rfl, -⟩ := h
  exact List.cons_ne_nil _ _

theorem append (h : Begins row P) (more : List Lexeme) : Begins (row ++ more) P := by
  obtain ⟨l, rest, rfl, hl⟩ := h
  exact ⟨l, rest ++ more, rfl, hl⟩

theorem headKind (h : Begins row P) (rest : List Lexeme) : P (headKind (row ++ rest)) := by
  obtain ⟨l, more, rfl, hl⟩ := h
  exact hl

theorem mono (h : Begins row P) (hPQ : ∀ k, P k → Q k) : Begins row Q := by
  obtain ⟨l, more, rfl, hl⟩ := h
  exact ⟨l, more, rfl, hPQ _ hl⟩

end Begins

/-! ## Lengths -/

theorem length_le_flatMap {α : Type} {f : α → List Lexeme} {a : α} {as : List α} (ha : a ∈ as) :
    (f a).length ≤ (as.flatMap f).length := by
  obtain ⟨front, back, rfl⟩ := List.append_of_mem ha
  simp only [List.flatMap_append, List.flatMap_cons, List.length_append]
  omega

theorem length_le_commas_map {α : Type} {f : α → List Lexeme} {a : α} {as : List α} (ha : a ∈ as) :
    (f a).length ≤ (commas (as.map f)).length := length_le_commas (List.mem_map_of_mem ha)

theorem length_le_flatMap_length {α : Type} {f : α → List Lexeme} {as : List α}
    (h : ∀ a ∈ as, f a ≠ []) : as.length ≤ (as.flatMap f).length := by
  induction as with
  | nil => exact Nat.le_refl _
  | cons a as ih =>
    rw [List.forall_mem_cons] at h
    have hpos := List.length_pos_iff.2 h.1
    have hmore := ih h.2
    rw [List.flatMap_cons, List.length_append, List.length_cons]
    omega

theorem commas_map_cons {α : Type} (f : α → List Lexeme) (a : α) (as : List α) :
    commas ((a :: as).map f) = f a ++ as.flatMap fun a => .mark .comma :: f a := by
  induction as generalizing a with
  | nil => simp [commas]
  | cons b as ih =>
    rw [List.map_cons, List.map_cons, commas, ← List.map_cons, ih, List.flatMap_cons,
      List.cons_append]
    exact nofun

/-! ## Rows that are read back -/

/-- A tree is another one, up to what `u` forgets. -/
abbrev Copies {α β : Type} (u : α → β) (t a : α) : Prop := u a = u t

/-- Where a row is before the parser and something that ends it behind it, a reading of a grammar
that nests deep enough comes to a tree and to the end of the row. -/
structure Rereads {α : Type} (inTrait : Bool) (row : List Lexeme)
    (x : Grammar Buffer → Parse Buffer α) (V : α → Prop) (ends : List Lexeme → Prop) : Prop where
  legible : Legible row
  read : ∀ c : Setting, c.inTrait = inTrait → ∀ depth, 4 * row.length < depth → ∀ rest, ends rest →
    Parses c (row ++ rest) (x (Grammar.upTo depth)) V rest

namespace Parses

variable {α β : Type} {c : Setting} {ts us vs rest : List Lexeme} {k : TokenKind} {V : α → Prop}

/-! ## Tests -/

theorem checked : Parses c ts (Parser.check k) (fun b => b = decide (headKind ts = k)) ts := by
  rw [← bind_pure (Parser.check k)]
  exact check (pure rfl)

theorem checkedNot : Parses c ts (Parser.checkNot k) (fun b => b = !decide (headKind ts = k)) ts :=
  checked.bind fun _ hb => hb ▸ pure rfl

theorem notEaten (hk : headKind ts ≠ k) : Parses c ts (Parser.eat k) (fun b => b = false) ts := by
  rw [← bind_pure (Parser.eat k)]
  exact eatNot hk (pure rfl)

/-! ## Optional parts -/

section Optional

variable {test : Parse Buffer Bool} {part : Parse Buffer (Yield .build α)}

theorem present (htest : Parses c ts test (fun b => b = true) us) (h : Parses c us part V vs) :
    Parses c ts (Parser.optionally test part : Parse Buffer (Yield .build (Option α)))
      (fun o : Option α => ∃ a, o = some a ∧ V a) vs := by
  refine htest.bind fun b hb => ifTrue hb ?_
  exact h.bind fun a ha => pure ⟨a, rfl, ha⟩

theorem absent (htest : Parses c ts test (fun b => b = false) ts) :
    Parses c ts (Parser.optionally test part : Parse Buffer (Yield .build (Option α)))
      (fun o : Option α => o = none) ts := by
  refine htest.bind fun b hb => ?_
  subst hb
  exact ifFalse Bool.false_ne_true (pure rfl)

end Optional

/-! ## Lists -/

section Lists

variable {u : α → β} {row : α → List Lexeme} {close : Symbol}
  {item : Parse Buffer (Yield .build α)} {as done : List α} {taken : Array α}

theorem map_toList_push {a t : α} (hdone : taken.toList.map u = done.map u) (ha : u a = u t) :
    (taken.push a).toList.map u = (done ++ [t]).map u := by
  rw [Array.toList_push, List.map_append, List.map_append, hdone, List.map_singleton,
    List.map_singleton, ha]

/-- The item that a row spells is read in front of a comma and in front of the closing token. -/
def Item (c : Setting) (close : Symbol) (item : Parse Buffer (Yield .build α)) (V : α → Prop)
    (row : List Lexeme) : Prop :=
  ∀ ⦃s : Symbol⦄, s = .comma ∨ s = close → ∀ rest,
    Parses c (row ++ .mark s :: rest) item V (.mark s :: rest)

/-- A list that is not empty, with its closing token. -/
theorem closedList (hcomma : close ≠ .comma) (hgt : close ≠ .gt) (hne : as ≠ [])
    (hrows : ∀ a ∈ as, row a ≠ []) (h : ∀ a ∈ as, Item c close item (Copies u a) (row a)) :
    Parses c (commas (as.map row) ++ .mark close :: rest)
      (Parser.closedList close item : Parse Buffer (Yield .build (List α)))
      (fun out : List α => out.map u = as.map u) rest := by
  have hitems : List.Forall₂ (fun (a : α) (row : List Lexeme) =>
      Feed.Item (Reads c) close item (fun b : α => u b = u a) row) as (as.map row) := by
    rw [List.forall₂_map_right_iff, List.forall₂_same]
    refine fun a ha => ⟨fun us => h a ha (.inl rfl) us, fun us p hp => ?_⟩
    obtain ⟨b, q, hq, hb, hreads⟩ := h a ha (.inr rfl) us hp
    exact ⟨b, q, hq, hb, c.feed.closes hgt hreads⟩
  have hrows' : ∀ r ∈ as.map row, r ≠ [] := by simpa using hrows
  have hread := c.feed.closedList hcomma hitems hne hrows' rest
  refine Parses.mono (V := fun out : List α => List.Forall₂ (Copies u) as out)
    hread fun out hout => ?_
  clear hread hitems hrows' h hrows hne
  induction hout with
  | nil => rfl
  | cons hcopy _ ih => rw [List.map_cons, List.map_cons, hcopy, ih]

/-- Behind an item, the further ones are read up to the closing token. -/
theorem openTailOnto (hcomma : close ≠ .comma)
    (hrows : ∀ a ∈ as, Begins (row a) fun k => k ≠ close)
    (h : ∀ a ∈ as, Item c close item (Copies u a) (row a)) {steps : Nat}
    (hsteps : as.length < steps) (hdone : taken.toList.map u = done.map u) :
    Parses c ((as.flatMap fun a => .mark .comma :: row a) ++ .mark close :: rest)
      (Parser.openTailOnto close item steps taken : Parse Buffer (Yield .build (Array α)))
      (fun out : Array α => out.toList.map u = (done ++ as).map u) rest := by
  induction as generalizing done taken steps with
  | nil =>
    obtain ⟨steps, rfl⟩ : ∃ n, steps = n + 1 := ⟨steps - 1, by omega⟩
    have hne : (close : TokenKind) ≠ Symbol.comma := fun h => hcomma (TokenKind.symbol.inj h)
    rw [List.append_nil]
    refine eatNot hne (check (ifTrue (decide_eq_true rfl) ?_))
    exact drop (pure hdone)
  | cons a as ih =>
    obtain ⟨steps, rfl⟩ : ∃ n, steps = n + 1 := ⟨steps - 1, by omega⟩
    rw [List.forall_mem_cons] at hrows h
    rw [List.flatMap_cons, List.cons_append, List.cons_append, List.append_assoc]
    have hopen := hrows.1.headKind
      ((as.flatMap fun a => .mark .comma :: row a) ++ .mark close :: rest)
    refine eat rfl (check (ifFalse (by simpa using hopen) (ifTrue rfl ?_)))
    have hitem : Parses c (row a ++ ((as.flatMap fun a => .mark .comma :: row a) ++
        .mark close :: rest)) item (Copies u a)
        ((as.flatMap fun a => .mark .comma :: row a) ++ .mark close :: rest) := by
      cases as with
      | nil => exact h.1 (.inr rfl) rest
      | cons b as => exact h.1 (.inl rfl) _
    refine hitem.bind fun b hb => ?_
    have hmore := ih hrows.2 h.2 (Nat.lt_of_succ_lt_succ hsteps) (map_toList_push hdone hb)
    rw [← List.append_cons] at hmore
    exact hmore

/-- A list that is not empty, with its closing token, in front of which a comma might stand. -/
theorem openList (hcomma : close ≠ .comma) (hne : as ≠ [])
    (hrows : ∀ a ∈ as, Begins (row a) fun k => k ≠ close)
    (h : ∀ a ∈ as, Item c close item (Copies u a) (row a)) :
    Parses c (commas (as.map row) ++ .mark close :: rest)
      (Parser.openList close item : Parse Buffer (Yield .build (List α)))
      (fun out : List α => out.map u = as.map u) rest := by
  obtain ⟨a, as, rfl⟩ := List.exists_cons_of_ne_nil hne
  rw [List.forall_mem_cons] at hrows h
  rw [commas_map_cons, List.append_assoc]
  have hitem : Parses c (row a ++ ((as.flatMap fun a => .mark .comma :: row a) ++
      .mark close :: rest)) item (Copies u a)
      ((as.flatMap fun a => .mark .comma :: row a) ++ .mark close :: rest) := by
    cases as with
    | nil => exact h.1 (.inr rfl) rest
    | cons b as => exact h.1 (.inl rfl) _
  refine hitem.bind fun b hb => listBound fun n hn => ?_
  have hlength : as.length < n := by
    have hle : as.length ≤ (as.flatMap fun a => .mark .comma :: row a).length :=
      length_le_flatMap_length fun _ _ => List.cons_ne_nil _ _
    rw [List.length_append] at hn
    omega
  have hfirst : (#[b] : Array α).toList.map u = [a].map u := congrArg ([·]) hb
  exact (openTailOnto hcomma hrows.2 h.2 hlength hfirst).bind fun out hout => pure hout

theorem openListOrEmpty (hcomma : close ≠ .comma)
    (hrows : ∀ a ∈ as, Begins (row a) fun k => k ≠ close)
    (h : ∀ a ∈ as, Item c close item (Copies u a) (row a)) :
    Parses c (commas (as.map row) ++ .mark close :: rest)
      (Parser.openListOrEmpty close item : Parse Buffer (Yield .build (List α)))
      (fun out : List α => out.map u = as.map u) rest := by
  cases as with
  | nil => exact check (ifTrue (decide_eq_true rfl) (drop (pure rfl)))
  | cons a as =>
    have hopen : headKind (commas ((a :: as).map row) ++ .mark close :: rest) ≠ close := by
      rw [commas_map_cons, List.append_assoc]
      exact (hrows a List.mem_cons_self).headKind _
    exact check (ifFalse (by simpa using hopen)
      (openList hcomma (List.cons_ne_nil _ _) hrows h))

section While

variable {test : Parse Buffer Bool} {ends : List Lexeme → Prop} {inner : α → List Lexeme}

/-- Items are read for as long as the test in front of each of them holds, which may take tokens. -/
theorem whileOnto (hgo : ∀ a ∈ as, ∀ us, ends (row a ++ us) ∧
      Parses c (row a ++ us) test (fun b => b = true) (inner a ++ us))
    (h : ∀ a ∈ as, ∀ us, ends us → Parses c (inner a ++ us) item (Copies u a) us)
    (hends : ends rest) (hstop : Parses c rest test (fun b => b = false) rest) {steps : Nat}
    (hsteps : as.length < steps) (hdone : taken.toList.map u = done.map u) :
    Parses c (as.flatMap row ++ rest)
      (Parser.whileOnto test item steps taken : Parse Buffer (Yield .build (Array α)))
      (fun out : Array α => out.toList.map u = (done ++ as).map u) rest := by
  induction as generalizing done taken steps with
  | nil =>
    obtain ⟨steps, rfl⟩ : ∃ n, steps = n + 1 := ⟨steps - 1, by omega⟩
    rw [List.append_nil]
    refine hstop.bind fun b hb => ?_
    subst hb
    exact ifFalse Bool.false_ne_true (pure hdone)
  | cons a as ih =>
    obtain ⟨steps, rfl⟩ : ∃ n, steps = n + 1 := ⟨steps - 1, by omega⟩
    rw [List.forall_mem_cons] at hgo h
    rw [List.flatMap_cons, List.append_assoc]
    have hmore : ends (as.flatMap row ++ rest) := by
      cases as with
      | nil => exact hends
      | cons b as =>
        rw [List.flatMap_cons, List.append_assoc]
        exact (hgo.2 b List.mem_cons_self _).1
    refine (hgo.1 _).2.bind fun b hb => ifTrue hb ?_
    refine (h.1 _ hmore).bind fun b hb => ?_
    have hread := ih hgo.2 h.2 (Nat.lt_of_succ_lt_succ hsteps) (map_toList_push hdone hb)
    rw [← List.append_cons] at hread
    exact hread

theorem listWhile (hrows : ∀ a ∈ as, row a ≠ [])
    (hgo : ∀ a ∈ as, ∀ us, ends (row a ++ us) ∧
      Parses c (row a ++ us) test (fun b => b = true) (inner a ++ us))
    (h : ∀ a ∈ as, ∀ us, ends us → Parses c (inner a ++ us) item (Copies u a) us)
    (hends : ends rest) (hstop : Parses c rest test (fun b => b = false) rest) :
    Parses c (as.flatMap row ++ rest)
      (Parser.listWhile test item : Parse Buffer (Yield .build (List α)))
      (fun out : List α => out.map u = as.map u) rest := by
  refine listBound fun n hn => ?_
  have hlength : as.length < n := by
    have hle := length_le_flatMap_length hrows
    rw [List.length_append] at hn
    omega
  have hnone : (#[] : Array α).toList.map u = ([] : List α).map u := rfl
  exact (whileOnto hgo h hends hstop hlength hnone).bind fun out hout => pure hout

/-- Further items, each with a mark in front of it. -/
theorem behindMarks {separator : Symbol} (hsep : ∀ us, ends (.mark separator :: us))
    (h : ∀ a ∈ as, ∀ us, ends us → Parses c (row a ++ us) item (Copies u a) us) (hends : ends rest)
    (hstop : headKind rest ≠ separator) :
    Parses c ((as.flatMap fun a => .mark separator :: row a) ++ rest)
      (Parser.listWhile (Parser.eat separator) item : Parse Buffer (Yield .build (List α)))
      (fun out : List α => out.map u = as.map u) rest :=
  listWhile (fun _ _ => List.cons_ne_nil _ _) (fun _ _ _ => ⟨hsep _, takeChecked rfl⟩) h hends
    (notEaten hstop)

/-- One item, and further ones. -/
theorem listOnceAndWhile (hne : as ≠ []) (hrows : ∀ a ∈ as, row a ≠ [])
    (hgo : ∀ a ∈ as, ∀ us, ends (row a ++ us) ∧
      Parses c (row a ++ us) test (fun b => b = true) (row a ++ us))
    (h : ∀ a ∈ as, ∀ us, ends us → Parses c (row a ++ us) item (Copies u a) us)
    (hends : ends rest) (hstop : Parses c rest test (fun b => b = false) rest) :
    Parses c (as.flatMap row ++ rest)
      (Parser.listOnceAndWhile test item : Parse Buffer (Yield .build (List α)))
      (fun out : List α => out.map u = as.map u) rest := by
  obtain ⟨a, as, rfl⟩ := List.exists_cons_of_ne_nil hne
  rw [List.forall_mem_cons] at hgo h hrows
  rw [List.flatMap_cons, List.append_assoc]
  have hmore : ends (as.flatMap row ++ rest) := by
    cases as with
    | nil => exact hends
    | cons b as =>
      rw [List.flatMap_cons, List.append_assoc]
      exact (hgo.2 b List.mem_cons_self _).1
  refine (h.1 _ hmore).bind fun b hb => listBound fun n hn => ?_
  have hlength : as.length < n := by
    have hle := length_le_flatMap_length hrows.2
    rw [List.length_append] at hn
    omega
  have hfirst : (#[b] : Array α).toList.map u = [a].map u := congrArg ([·]) hb
  exact (whileOnto hgo.2 h.2 hends hstop hlength hfirst).bind fun out hout => pure hout

end While

/-- Items are read up to the closing token, each with the comma behind it. -/
theorem whileCommas (hrows : ∀ a ∈ as, Begins (row a) fun k => k ≠ close)
    (h : ∀ a ∈ as, ∀ us, Parses c (row a ++ .mark .comma :: us) item (Copies u a) us)
    (hlast : ∀ a ∈ as, ∀ us,
      Parses c (row a ++ .mark close :: us) item (Copies u a) (.mark close :: us)) {steps : Nat}
    (hsteps : as.length < steps) (hdone : taken.toList.map u = done.map u) :
    Parses c (commas (as.map row) ++ .mark close :: rest)
      (Parser.whileOnto (Parser.checkNot close) item steps taken :
        Parse Buffer (Yield .build (Array α)))
      (fun out : Array α => out.toList.map u = (done ++ as).map u) (.mark close :: rest) := by
  have hmore (us : List Lexeme) (h : headKind us ≠ close) :
      Parses c us (Parser.checkNot close) (fun b => b = true) us :=
    checkedNot.mono fun b hb => by rw [hb, decide_eq_false h, Bool.not_false]
  induction as generalizing done taken steps with
  | nil =>
    obtain ⟨steps, rfl⟩ : ∃ n, steps = n + 1 := ⟨steps - 1, by omega⟩
    rw [List.append_nil]
    refine checkedNot.bind fun b hb => ?_
    subst hb
    exact ifFalse (by simp [commas, Lexeme.mark]) (pure hdone)
  | cons a as ih =>
    obtain ⟨steps, rfl⟩ : ∃ n, steps = n + 1 := ⟨steps - 1, by omega⟩
    rw [List.forall_mem_cons] at hrows h hlast
    have hread (us : List Lexeme) {t : List Lexeme}
      (hus : Parses c (row a ++ us) item (Copies u a) t)
        (hthen : ∀ b, Copies u a b → Parses c t
          (Parser.whileOnto (Parser.checkNot close) item steps (taken.push b) :
            Parse Buffer (Yield .build (Array α)))
          (fun out : Array α => out.toList.map u = (done ++ a :: as).map u) (.mark close :: rest)) :
        Parses c (row a ++ us)
          (Parser.whileOnto (Parser.checkNot close) item (steps + 1) taken :
            Parse Buffer (Yield .build (Array α)))
          (fun out : Array α => out.toList.map u = (done ++ a :: as).map u) (.mark close :: rest) :=
      (hmore _ (hrows.1.headKind us)).bind fun _ hb => ifTrue hb (hus.bind hthen)
    have hpush (b : α) (hb : Copies u a b) := ih hrows.2 h.2 hlast.2 (Nat.lt_of_succ_lt_succ hsteps)
      (map_toList_push hdone hb)
    simp only [← List.append_cons] at hpush
    cases as with
    | nil => exact hread _ (hlast.1 rest) hpush
    | cons b as =>
      rw [List.map_cons, List.map_cons, commas, List.append_assoc, List.cons_append]
      · exact hread _ (h.1 _) hpush
      · rintro ⟨⟩

/-- One item, and further ones up to the closing token, each with the comma behind it. -/
theorem onceAndCommas (hne : as ≠ []) (hrows : ∀ a ∈ as, Begins (row a) fun k => k ≠ close)
    (h : ∀ a ∈ as, ∀ us, Parses c (row a ++ .mark .comma :: us) item (Copies u a) us)
    (hlast : ∀ a ∈ as, ∀ us,
      Parses c (row a ++ .mark close :: us) item (Copies u a) (.mark close :: us)) :
    Parses c (commas (as.map row) ++ .mark close :: rest)
      (Parser.listOnceAndWhile (Parser.checkNot close) item : Parse Buffer (Yield .build (List α)))
      (fun out : List α => out.map u = as.map u) (.mark close :: rest) := by
  obtain ⟨a, as, rfl⟩ := List.exists_cons_of_ne_nil hne
  rw [List.forall_mem_cons] at hrows h hlast
  have hfirst {b : α} (hb : Copies u a b) : (#[b] : Array α).toList.map u = [a].map u :=
    congrArg ([·]) hb
  have hlength : as.length ≤ (commas (as.map row)).length := by
    have hfull : ∀ r ∈ as.map row, r ≠ [] := by simpa using fun b hb => (hrows.2 b hb).ne_nil
    have hle := Feed.length_commas hfull
    rwa [List.length_map] at hle
  have hthen {us : List Lexeme} (hus : us = commas (as.map row) ++ .mark close :: rest) (b : α)
      (hb : Copies u a b) : Parses c us (do
        let n ← Parser.listBound
        let out ← Parser.whileOnto (Parser.checkNot close) item n (Yield.push (Pure.pure #[]) b)
        return Array.toList <$> out : Parse Buffer (Yield .build (List α)))
      (fun out : List α => out.map u = (a :: as).map u) (.mark close :: rest) := by
    subst hus
    refine listBound fun n hn => ?_
    have hsteps : as.length < n := by
      rw [List.length_append] at hn
      omega
    exact (whileCommas hrows.2 h.2 hlast.2 hsteps (hfirst hb)).bind fun out hout => pure hout
  cases as with
  | nil => exact (hlast.1 rest).bind (hthen rfl)
  | cons b as =>
    rw [List.map_cons, List.map_cons, commas, List.append_assoc, List.cons_append]
    · exact (h.1 _).bind (hthen rfl)
    · exact nofun

end Lists

end Parses

end ScriptFront
