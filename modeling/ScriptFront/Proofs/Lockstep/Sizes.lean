import Mathlib.Data.Nat.Digits.Defs
import ScriptFront.Proofs.Lexing.Literals
import ScriptFront.Proofs.Lockstep.Reached

/-!
# The sizes of arrays

The size of an array is an integer of any form. What its token says is a row of digits of its radix,
at least one, so the size is the number that these mean, and the only thing that can be wrong with
it is that it is too large.

- `worth`, `IntegerForm.Means`: what an integer means, told by its bytes.
- `Digits.read?_asciiText`: digits that were taken for an integer are read.
- `Dimensions`: dimensions behind a type, one after the other.
- `Text.sizes_exact`: any dimension of any type has the size that is written there, or is out of
  range.
-/

namespace ScriptFront

open ScriptFront.Parser

-- What a reading comes to is told by the rules; nothing is to be run to find out.
attribute [local irreducible] Ends

/-! ## What integers mean -/

/-- What a digit is worth where nothing is behind it. -/
def digitWorth (b : UInt8) : Nat := if isDigit b then b.toNat - 48 else b.toNat % 32 + 9

/-- The number that digits mean in a radix: the first one weighs most. -/
def worth (radix : Nat) (digits : List UInt8) : Nat :=
  Nat.ofDigits radix (digits.reverse.map digitWorth)

/-- The bytes of an integer mean what its digits mean; a radix mark in front of them and a size
behind them add nothing. -/
inductive IntegerForm.Means (form : IntegerForm) : List UInt8 → Nat → Prop where
  | written {mark size : String} {digits : List UInt8} (hmark : mark ∈ form.marks)
    (hsize : size ∈ form.suffixes) (hne : digits ≠ []) (hdigits : ∀ b ∈ digits, form.isDigit b) :
    Means form (textBytes mark ++ digits ++ textBytes size) (worth form.radix digits)

namespace Digits

theorem value_eq_ofDigits (radix : Nat) (digits : List Nat) :
    value radix digits = Nat.ofDigits radix digits.reverse := by
  induction digits using List.reverseRecOn with
  | nil => rfl
  | append_singleton digits digit ih =>
    rw [value_concat, ih, List.reverse_concat, Nat.ofDigits_cons, Nat.mul_comm, Nat.add_comm]

/-- A digit of an integer is one of its radix. -/
theorem worth?_of_isDigit {form : IntegerForm} {b : UInt8} (h : form.isDigit b) :
    worth? (Char.ofNat b.toNat) = some (digitWorth b) ∧ digitWorth b < form.radix := by
  have hall : ∀ n < 128, form.isDigit (UInt8.ofNat n) →
      worth? (Char.ofNat n) = some (digitWorth (UInt8.ofNat n)) ∧
        digitWorth (UInt8.ofNat n) < form.radix := by
    cases form <;> decide
  have hb := hall b.toNat (UInt8.lt_iff_toNat_lt.1 (lt_of_isDigit h))
  rw [UInt8.ofNat_toNat] at hb
  exact hb h

theorem ofChars?_asciiText {form : IntegerForm} {digits : List UInt8}
    (hdigits : ∀ b ∈ digits, form.isDigit b) :
    ofChars? form.radix (asciiText digits).toList = some (digits.map digitWorth) := by
  rw [asciiText, String.toList_ofList]
  induction digits with
  | nil => rfl
  | cons b digits ih =>
    obtain ⟨hworth, hlt⟩ := worth?_of_isDigit (hdigits b List.mem_cons_self)
    have hmore := ih fun c hc => hdigits c (List.mem_cons_of_mem b hc)
    rw [List.map_cons, ofChars?, hworth, hmore]
    exact if_pos hlt

/-- Digits that were taken for an integer of some form mean a number in its radix. -/
theorem read?_asciiText {form : IntegerForm} {digits : List UInt8} (hne : digits ≠ [])
    (hdigits : ∀ b ∈ digits, form.isDigit b) :
    read? form.radix (asciiText digits) = some (worth form.radix digits) := by
  obtain ⟨b, more, rfl⟩ := List.exists_cons_of_ne_nil hne
  rw [read?, ofChars?_asciiText hdigits, List.map_cons]
  show some (value form.radix ((b :: more).map digitWorth)) = _
  rw [value_eq_ofDigits, worth, ← List.map_reverse]

end Digits

namespace IntegerForm

variable {form : IntegerForm} {slice : List UInt8} {text : String} {n : Nat}

/-- A decimal integer has no radix mark, and any other one has no size. -/
theorem Means.numeral (h : form.Means slice n) :
    ∃ text, Numeral (.integer form) text slice ∧ Digits.read? form.radix text = some n := by
  have hnone : textBytes "" = [] := by decide
  cases h with
  | @written mark size digits hmark hsize hne hdigits =>
    refine ⟨asciiText digits, ?_, Digits.read?_asciiText hne hdigits⟩
    by_cases hradix : form.radix = 10
    · have hdecimal : ∀ form : IntegerForm, form.radix = 10 → ∀ mark ∈ form.marks, mark = "" ∧
          form.isDigit = ScriptFront.isDigit := by
        intro form
        cases form <;> simp [IntegerForm.radix, IntegerForm.marks] <;> rfl
      obtain ⟨rfl, hclass⟩ := hdecimal form hradix mark hmark
      rw [hnone, List.nil_append]
      exact .integer hradix hsize hne (hclass ▸ hdigits)
    · have hunsized : ∀ form : IntegerForm, form.radix ≠ 10 →
          ∀ size ∈ form.suffixes, size = "" := by
        intro form
        cases form <;> decide
      rw [hunsized form hradix size hsize, hnone, List.append_nil]
      exact .marked hradix hmark hne hdigits

/-- What is written as an integer means one number, and its text means it too. -/
theorem means_of_spells {rest : List UInt8} (h : Spells (.integer form) text slice rest) :
    ∃ n, Digits.read? form.radix text = some n ∧ ∀ m, form.Means slice m ↔ m = n := by
  have hwell := h.wellFormed
  obtain ⟨mark, hmark, size, hsize, hslice⟩ := h.written
  have hnumeral := Ends.numeral_of_spells h (.inl ⟨form, rfl⟩)
  cases hwell with
  | integer hinteger =>
    obtain ⟨digits, hne, rfl, hdigits⟩ := hinteger
    rw [textBytes_asciiText fun b hb => lt_of_isDigit (hdigits b hb)] at hslice
    have hmeans : form.Means slice (worth form.radix digits) :=
      hslice ▸ .written hmark hsize hne hdigits
    have hread := Digits.read?_asciiText hne hdigits
    refine ⟨_, hread, fun m => ⟨fun hm => ?_, fun hm => hm ▸ hmeans⟩⟩
    obtain ⟨text, hnumeral', hread'⟩ := hm.numeral
    obtain ⟨-, rfl⟩ := hnumeral.unique hnumeral'
    exact Option.some.inj (hread'.symm.trans hread)

end IntegerForm

/-! ## What is read -/

namespace Grammar

section Runs

variable {σ : Type} [ByteSource σ] {mode : Mode} {p q : Parser σ} {form : IntegerForm} {n : Nat}

/-- The token that is taken is the current one. -/
theorem token_of_run_advance {token : Token}
    (h : (advance : Parse σ Token).run p = (.ok token, q)) : token = p.current := by
  rcases hskip : Lexer.skip.run p.lexer with ⟨e | _, w⟩
  · rw [run_advance_unskipped hskip] at h
    cases h
  · rcases hnext : Lexer.next.run w with ⟨e | next, v⟩
    · rw [run_advance_error hskip hnext] at h
      cases h
    · rw [run_advance_ok hskip hnext] at h
      cases h
      rfl

/-- A type in front of its dimensions. -/
def typeFront (g : Grammar σ) (mode : Mode) : Parse σ (Yield mode TypeExpr) := do
  let start ← save
  let form ← baseType g mode
  absenceSuffix mode start false (TypeExpr.plain start.position <$> form)

/-- A type that starts at `start`, with dimensions that were read and all that follow. -/
def typeWith (mode : Mode) (start : Place) (element : Yield mode TypeExpr) (dims : List ArrayDim) :
    Parse σ (Yield mode TypeExpr) := do
  let more ← arrayDims mode
  let type := (fun element more =>
    TypeExpr.plain start.toPosition (.array element (dims ++ more))) <$> element <*> more
  if ← eat Symbol.question then return TypeExpr.orAbsent <$> type else return type

/-- One dimension, its opening bracket included. -/
def bracketedDim : Parse σ ArrayDim := do
  drop
  arrayDim

/-- An integer is a size, or it is out of range. -/
theorem run_arraySize (hkind : p.current.kind = .integer form)
    (hread : Digits.read? form.radix p.current.text = some n)
    (hrun : (advance : Parse σ Token).run p = (.ok p.current, q)) :
    (arraySize : Parse σ Nat).run p = if n < arraySizeLimit then (.ok n, q)
      else (.error ⟨.arraySize p.current.text, p.start.stored, none⟩, q) := by
  have hform : p.current.kind.integerForm? = some form := by
    rw [hkind]
    rfl
  unfold arraySize
  rw [run_bind_ok run_save, run_bind_ok (run_kind p), hform]
  dsimp only
  rw [run_bind_ok hrun, hread]
  dsimp only
  split
  · rfl
  · rfl

/-- The same behind the opening bracket. -/
theorem run_bracketedDim {l r : Parser σ}
    (hl : (advance : Parse σ Token).run p = (.ok p.current, l))
    (hkind : l.current.kind = .integer form)
    (hread : Digits.read? form.radix l.current.text = some n)
    (hr : (advance : Parse σ Token).run l = (.ok l.current, r))
    (hclose : r.current.kind = Symbol.rBracket) :
    (bracketedDim : Parse σ ArrayDim).run p =
      if n < arraySizeLimit then (do drop; return .sized n : Parse σ ArrayDim).run r
      else (.error ⟨.arraySize l.current.text, l.start.stored, none⟩, r) := by
  have hdrop : (drop : Parse σ Unit).run p = (.ok (), l) := run_bind_ok hl
  have hnot : decide (l.current.kind = Symbol.rBracket) = false := by
    rw [hkind]
    rfl
  unfold bracketedDim
  rw [run_bind_ok hdrop]
  unfold arrayDim
  rw [run_bind_ok (run_check _ l), hnot, if_neg Bool.false_ne_true]
  split
  · next hlt =>
    rw [run_bind_ok ((run_arraySize hkind hread hr).trans (if_pos hlt))]
    have hmark : (mark Symbol.rBracket : Parse σ Unit).run r = (drop : Parse σ Unit).run r := by
      unfold mark expect
      rw [bind_assoc, run_bind_ok (run_check _ r),
        show decide (r.current.kind = _) = true from decide_eq_true hclose]
      rfl
    rcases hrun : (drop : Parse σ Unit).run r with ⟨e | _, r'⟩
    · rw [run_bind_error (hmark.trans hrun), run_bind_error hrun]
    · rw [run_bind_ok (hmark.trans hrun), run_bind_ok hrun]
  · next hge => rw [run_bind_error ((run_arraySize hkind hread hr).trans (if_neg hge))]

omit [ByteSource σ] in
/-- Items are put behind those that were taken before. -/
theorem whileOnto_taken {α : Type} {test : Parse σ Bool} {item : Parse σ (Yield mode α)}
    (steps : Nat) (taken : Yield mode (Array α)) : whileOnto test item steps taken =
      (do return (fun front more => front ++ more) <$> taken <*>
        (← whileOnto test item steps (pure #[]))) := by
  induction steps generalizing taken with
  | zero => rfl
  | succ steps ih =>
    simp only [whileOnto, bind_assoc]
    refine congrArg _ (funext fun more => ?_)
    cases more with
    | false =>
      rw [if_neg Bool.false_ne_true, if_neg Bool.false_ne_true, pure_bind]
      cases mode
      · have hnone (list : Array α) : list = list ++ #[] := Array.append_empty.symm
        exact congrArg pure (hnone taken)
      · rfl
    | true =>
      rw [if_pos rfl, if_pos rfl, bind_assoc]
      refine congrArg _ (funext fun next => ?_)
      rw [ih (taken.push next), ih ((pure #[] : Yield mode (Array α)).push next), bind_assoc]
      refine congrArg _ (funext fun others => ?_)
      rw [pure_bind]
      cases mode
      · have hpush (front back : Array α) (a : α) :
            front.push a ++ back = front ++ (#[].push a ++ back) := by simp
        exact congrArg pure (hpush taken others next)
      · rfl

/-- All further dimensions, behind some that were taken. -/
abbrev dimsOnto (steps : Nat) (taken : Yield mode (Array ArrayDim)) :
    Parse σ (Yield mode (Array ArrayDim)) :=
  whileOnto (eat Symbol.lBracket) (do return pure (← arrayDim)) steps taken

theorem run_dimsOnto_open (hopen : p.current.kind = Symbol.lBracket) (steps : Nat)
    (taken : Yield mode (Array ArrayDim)) : (dimsOnto (steps + 1) taken).run p =
      (do dimsOnto steps (taken.push (pure (← bracketedDim))) : Parse σ _).run p := by
  have hcheck : (check Symbol.lBracket : Parse σ Bool).run p = (.ok true, p) := by
    rw [run_check, hopen]
    rfl
  show ((eat Symbol.lBracket : Parse σ Bool) >>= _).run p = _
  unfold eat bracketedDim drop
  simp only [bind_assoc, pure_bind]
  rw [run_bind_ok hcheck]
  simp only [if_true, bind_assoc, pure_bind]
  rfl

theorem run_dimsOnto_done (hdone : p.current.kind ≠ Symbol.lBracket) (steps : Nat)
    (taken : Yield mode (Array ArrayDim)) :
    (dimsOnto (steps + 1) taken).run p = (.ok taken, p) := by
  have hcheck : (check Symbol.lBracket : Parse σ Bool).run p = (.ok false, p) := by
    rw [run_check, decide_eq_false hdone]
  show ((eat Symbol.lBracket : Parse σ Bool) >>= _).run p = _
  unfold eat
  simp only [bind_assoc]
  rw [run_bind_ok hcheck]
  rfl

end Runs

end Grammar

/-- Behind `p`, dimensions up to `q`, one after the other. -/
inductive Dimensions {σ : Type} [ByteSource σ] (p : Parser σ) :
    List ArrayDim → Parser σ → Prop where
  | none : Dimensions p [] p
  | more {dims : List ArrayDim} {dim : ArrayDim} {q r : Parser σ} (h : Dimensions p dims q)
    (hopen : q.current.kind = Symbol.lBracket)
    (run_eq : (Grammar.bracketedDim : Parse σ ArrayDim).run q = (.ok dim, r)) :
    Dimensions p (dims ++ [dim]) r

section Faithful

variable {σ : Type} [ByteSource σ] {t : Text} {limit : Nat} {shows : σ → Nat → Prop} {s : σ}
  {tabWidth : UInt32} {mode : Mode} {p q r : Parser σ} {dims : List ArrayDim} {dim : ArrayDim}

theorem Parser.Reached.bracketedDim (h : Reached s tabWidth p) :
    Reached s tabWidth ((Grammar.bracketedDim : Parse σ ArrayDim).run p).2 := by
  let S := Reached.simulation s tabWidth
  have hdim : S.Coupled Eq (Grammar.bracketedDim : Parse σ ArrayDim) Grammar.bracketedDim :=
    S.drop.bindEq fun _ => S.arrayDim
  have hcoupled : Arrival _ _ _ _ _ _ := hdim (show S.state p p from ⟨rfl, h⟩)
  have hstate : _ = _ ∧ Reached s tabWidth _ :=
    hcoupled.states (fun _ _ h => h.states) fun _ _ h => h.states
  exact hstate.2

/-- A dimension is behind the parser then, so less is left. -/
theorem Text.progresses_bracketedDim (hfaithful : t.Faithful limit shows)
    (hroom : t.content.size + 3 < limit) (hs : shows s 0) (hp : Reached s tabWidth p)
    (hopen : p.current.kind = Symbol.lBracket) :
    Progresses 1 (Grammar.bracketedDim : Parse σ ArrayDim) p := by
  let T := besideMemory hfaithful hroom
  obtain ⟨q, htogether, left, hstanding⟩ := standing_of_reached hfaithful hroom hs hp
  have hstate : (ways (Walker.ofSource t.inMemory tabWidth) (Grammar.upTo 0) True).state left q q :=
    ⟨rfl, hstanding⟩
  have hkind : q.current.kind = Symbol.lBracket := htogether.current_eq ▸ hopen
  have hdim := (Lockstep.At.drop hstate hkind).after (Nat.le_succ left) fun _ _ _ =>
    Lockstep.arrayDim.weaken
  exact progresses_of_at (u := id) htogether
    (T.simulation.drop.bindEq fun _ => T.simulation.arrayDim) hdim hstanding

theorem Text.start_le_of_reached (hfaithful : t.Faithful limit shows)
    (hroom : t.content.size + 3 < limit) (hs : shows s 0) (hp : Reached s tabWidth p) :
    p.start.offset ≤ t.content.size := by
  obtain ⟨q, htogether, -⟩ := standing_of_reached hfaithful hroom hs hp
  exact htogether.start_le

/-- The dimensions do not depend on how many there may be, if there may be as many as there are
bytes left. -/
theorem Text.run_dimsOnto_steps (hfaithful : t.Faithful limit shows)
    (hroom : t.content.size + 3 < limit) (hs : shows s 0) {steps steps' : Nat}
    (taken : Yield mode (Array ArrayDim)) (hp : Reached s tabWidth p)
    (hsteps : t.content.size < p.start.offset + steps)
    (hsteps' : t.content.size < p.start.offset + steps') :
    (Grammar.dimsOnto steps taken).run p = (Grammar.dimsOnto steps' taken).run p := by
  induction steps generalizing steps' taken p with
  | zero => exact absurd (start_le_of_reached hfaithful hroom hs hp) (by omega)
  | succ steps ih =>
    have hle := start_le_of_reached hfaithful hroom hs hp
    obtain ⟨steps', rfl⟩ : ∃ k, steps' = k + 1 := ⟨steps' - 1, by omega⟩
    by_cases hopen : p.current.kind = Symbol.lBracket
    · rw [Grammar.run_dimsOnto_open hopen, Grammar.run_dimsOnto_open hopen]
      have hprogress := progresses_bracketedDim hfaithful hroom hs hp hopen
      have hreached := hp.bracketedDim
      unfold Progresses at hprogress
      rcases hrun : (Grammar.bracketedDim : Parse σ ArrayDim).run p with ⟨e | dim, q⟩
      · rw [run_bind_error hrun, run_bind_error hrun]
      · rw [hrun] at hprogress hreached
        rw [run_bind_ok hrun, run_bind_ok hrun]
        have hless : p.start.offset + 1 ≤ q.start.offset := hprogress
        exact ih _ hreached (by omega) (by omega)
    · rw [Grammar.run_dimsOnto_done hopen, Grammar.run_dimsOnto_done hopen]

theorem run_bind_congr {ε s α β : Type} {x y : ExceptT ε (StateM s) α}
    {f : α → ExceptT ε (StateM s) β} {p q : s} (h : x.run p = y.run q) :
    (x >>= f).run p = (y >>= f).run q := by
  show ExceptT.bindCont f (x.run p).1 (x.run p).2 = ExceptT.bindCont f (y.run q).1 (y.run q).2
  rw [h]

theorem Text.bound_of_reached (hfaithful : t.Faithful limit shows)
    (hroom : t.content.size + 3 < limit) (hs : shows s 0) (hp : Reached s tabWidth p) :
    p.bound = 4 * (t.content.size + 2) := by
  obtain ⟨q, htogether, left, hstanding⟩ := standing_of_reached hfaithful hroom hs hp
  have hextent : p.lexer.extent = t.content.size :=
    htogether.lexers.extent_eq.trans hstanding.sameText.extent_eq
  rw [Parser.bound, hextent]

theorem Grammar.run_arrayDims (p : Parser σ) : (Grammar.arrayDims mode : Parse σ _).run p =
    (do return Array.toList <$> (← Grammar.dimsOnto p.bound (pure #[])) : Parse σ _).run p :=
  run_bind_ok (a := p.bound) rfl

theorem Grammar.run_arrayDims_error {e : SyntaxError} (hopen : p.current.kind = Symbol.lBracket)
    (hrun : (Grammar.bracketedDim : Parse σ ArrayDim).run p = (.error e, q)) :
    (Grammar.arrayDims mode : Parse σ _).run p = (.error e, q) := by
  obtain ⟨steps, hbound⟩ : ∃ steps, p.bound = steps + 1 :=
    ⟨p.bound - 1, by unfold Parser.bound; omega⟩
  rw [run_arrayDims, hbound,
    run_bind_error ((run_dimsOnto_open hopen _ _).trans (run_bind_error hrun))]

/-- If neither a dimension nor a question mark follows, the type ends. -/
theorem Grammar.run_typeWith_done (hdone : p.current.kind ≠ Symbol.lBracket)
    (habsent : p.current.kind ≠ Symbol.question) (start : Place) (element : Yield mode TypeExpr)
    (dims : List ArrayDim) : (Grammar.typeWith mode start element dims : Parse σ _).run p =
      (.ok ((fun element =>
        TypeExpr.plain start.toPosition (.array element dims)) <$> element), p) := by
  obtain ⟨steps, hbound⟩ : ∃ steps, p.bound = steps + 1 :=
    ⟨p.bound - 1, by unfold Parser.bound; omega⟩
  have hnone : (Grammar.arrayDims mode : Parse σ _).run p =
      (.ok (Array.toList <$> pure #[]), p) := by
    rw [run_arrayDims, hbound, run_bind_ok (run_dimsOnto_done hdone _ _)]
    rfl
  have heat : (eat Symbol.question : Parse σ Bool).run p = (.ok false, p) := by
    unfold eat
    rw [run_bind_ok (run_check _ p), decide_eq_false habsent]
    rfl
  unfold typeWith
  rw [run_bind_ok hnone]
  dsimp only
  rw [run_bind_ok heat]
  cases mode
  · show (Except.ok (TypeExpr.plain start.toPosition (.array element (dims ++ []))), p) = _
    rw [List.append_nil]
    rfl
  · rfl

/-- A dimension that was read comes first, and all others are read behind it. -/
theorem Text.run_arrayDims_cons (hfaithful : t.Faithful limit shows)
    (hroom : t.content.size + 3 < limit) (hs : shows s 0) (hp : Reached s tabWidth p)
    (hopen : p.current.kind = Symbol.lBracket)
    (hrun : (Grammar.bracketedDim : Parse σ ArrayDim).run p = (.ok dim, q)) :
    (Grammar.arrayDims mode : Parse σ _).run p =
      (do return (dim :: ·) <$> (← Grammar.arrayDims mode) : Parse σ _).run q := by
  have hq : Reached s tabWidth q := by
    have hreached := hp.bracketedDim
    rwa [hrun] at hreached
  obtain ⟨steps, hsteps, hbound, hbound'⟩ : ∃ steps, t.content.size < steps ∧
      p.bound = steps + 1 ∧ q.bound = steps + 1 := by
    have hbound := bound_of_reached hfaithful hroom hs hp
    have hbound' := bound_of_reached hfaithful hroom hs hq
    exact ⟨p.bound - 1, by omega, by omega, by omega⟩
  have hopened : (Grammar.dimsOnto (steps + 1) (pure #[] : Yield mode _) : Parse σ _).run p =
      (do return (fun front more => front ++ more) <$> (pure #[] : Yield mode _).push (pure dim) <*>
        (← Grammar.dimsOnto (steps + 1) (pure #[])) : Parse σ _).run q := by
    rw [← Grammar.whileOnto_taken, Grammar.run_dimsOnto_open hopen, run_bind_ok hrun]
    exact run_dimsOnto_steps hfaithful hroom hs _ hq (by omega) (by omega)
  rw [Grammar.run_arrayDims, hbound, run_bind_congr hopened]
  rw [run_bind_congr (Grammar.run_arrayDims q), hbound']
  simp only [bind_assoc, pure_bind]
  refine congrArg (fun f => (_ >>= f : Parse σ _).run q) (funext fun more => congrArg pure ?_)
  cases mode
  · exact Array.toList_append
  · rfl

/-- Dimensions that were read come first among all of them. -/
theorem Text.run_arrayDims (hfaithful : t.Faithful limit shows)
    (hroom : t.content.size + 3 < limit) (hs : shows s 0) (hp : Reached s tabWidth p)
    (hdims : Dimensions p dims q) : Reached s tabWidth q ∧
      (Grammar.arrayDims mode : Parse σ _).run p =
        (do return (dims ++ ·) <$> (← Grammar.arrayDims mode) : Parse σ _).run q := by
  induction hdims with
  | none =>
    refine ⟨hp, ?_⟩
    simp only [List.nil_append, id_map', bind_pure]
  | @more dims dim q r h hopen hrun ih =>
    obtain ⟨hq, hfront⟩ := ih
    refine ⟨?_, ?_⟩
    · have hreached := hq.bracketedDim
      rwa [hrun] at hreached
    · rw [hfront, run_bind_congr (run_arrayDims_cons hfaithful hroom hs hq hopen hrun)]
      simp only [bind_assoc, pure_bind, Functor.map_map, List.append_assoc, List.singleton_append]

/-- An integer that has just become the current token stands in the text, as the longest one there,
and its text means what its bytes do. -/
theorem Text.integer_of_advance (hfaithful : t.Faithful limit shows)
    (hroom : t.content.size + 3 < limit) (hs : shows s 0) (hp : Reached s tabWidth p)
    {token : Token} (hrun : (advance : Parse σ Token).run p = (.ok token, q)) {form : IntegerForm}
    (hkind : q.current.kind = .integer form) :
    ∃ slice n, LongestNumeral (t.content.toList.drop q.start.offset)
        (q.current.kind, q.current.text) slice ∧
      Digits.read? form.radix q.current.text = some n ∧ ∀ m, form.Means slice m ↔ m = n := by
  obtain ⟨p', htogether, left, hstanding⟩ := standing_of_reached hfaithful hroom hs hp
  have hcoupled := Twins.Together.advance htogether
  rcases hskip : Lexer.skip.run p'.lexer with ⟨e | _, w⟩
  · rw [hrun, run_advance_unskipped hskip] at hcoupled
    nomatch hcoupled.1
  · rcases hnext : Lexer.next.run w with ⟨e | current, v⟩
    · rw [hrun, run_advance_error hskip hnext] at hcoupled
      nomatch hcoupled.1
    · rw [hrun, run_advance_ok hskip hnext] at hcoupled
      obtain ⟨gap, hgap, -⟩ := Ends.ok (Ends.skip p'.lexer) hskip
      have hsame := hstanding.sameText.trans hgap.toSameText
      have hstart : q.start = w.place := hcoupled.2.start_eq
      have hcurrent : q.current = current := hcoupled.2.current_eq
      have hsettled := Walker.settled_of_skip hskip
      have hscan := (Walker.token_of_next hsettled hnext).2
      obtain ⟨slice, hslice, hspells⟩ := Walker.lexed_of_next hsettled hnext
        (by rw [← hcurrent, hkind]; nofun)
      have hrest : t.content.toList.drop q.start.offset = w.rest := by
        rw [hstart, Walker.rest, hsame.content_eq]
        rfl
      rw [hrest, hcurrent]
      rw [hcurrent] at hkind
      rw [hkind] at hspells hscan ⊢
      have hnumeral := Ends.numeral_of_spells hspells (.inl ⟨form, rfl⟩)
      obtain ⟨first, more, rfl, hdigit⟩ := hnumeral.cons
      have hcons : w.rest = first :: (more ++ v.rest) := hslice.rest_eq
      have hnumber : Lexer.number.run w = (.ok (.integer form, current.text), v) := by
        have hletter : isLetter first = false := by grind [isDigit, isLetter]
        rw [Walker.run_scan_cons hcons, hletter, if_neg Bool.false_ne_true, if_pos hdigit] at hscan
        exact hscan
      have hlongest := ((Lexer.decides_number hcons hdigit).accepts _ _).1 ⟨v, hnumber, hslice⟩
      obtain ⟨n, hread, hmeans⟩ := IntegerForm.means_of_spells hspells
      exact ⟨_, n, hlongest, hread, hmeans⟩

theorem Parser.Reached.typeFront (h : Reached s tabWidth p) (depth : Nat) :
    Reached s tabWidth (((Grammar.upTo depth).typeFront mode).run p).2 := by
  let S := Reached.simulation s tabWidth
  have hg : S.Grammars (Grammar.upTo depth) (Grammar.upTo depth) := S.upTo depth
  have hfront : S.Coupled Yield.Agree ((Grammar.upTo depth).typeFront mode)
      ((Grammar.upTo depth).typeFront mode) := by
    refine S.save.bind fun start _ hstart =>
      hstart.1 ▸ (hg.baseType mode mode).bind fun _ _ hform => ?_
    exact S.absenceSuffix hstart.2 false (hform.map _)
  have hcoupled : Arrival _ _ _ _ _ _ := hfront (show S.state p p from ⟨rfl, h⟩)
  have hstate : _ = _ ∧ Reached s tabWidth _ :=
    hcoupled.states (fun _ _ h => h.states) fun _ _ h => h.states
  exact hstate.2

/-- In front of dimensions there is a bracket, if there is one behind them. -/
theorem Dimensions.open_of_open (h : Dimensions p dims q)
    (hopen : q.current.kind = Symbol.lBracket) : p.current.kind = Symbol.lBracket := by
  induction h with
  | none => exact hopen
  | more h hopen' run_eq ih => exact ih hopen'

/-- What a type comes to is told by the dimensions in front of a bracket and by what they go on
with. -/
theorem Text.run_typeStep (hfaithful : t.Faithful limit shows)
    (hroom : t.content.size + 3 < limit) (hs : shows s 0) {depth : Nat} {p₀ : Parser σ}
    {element : Yield mode TypeExpr} (hp₀ : Reached s tabWidth p₀)
    (hvoid : p₀.current.kind ≠ .primitive .void)
    (hfront : ((Grammar.upTo depth).typeFront mode).run p₀ = (.ok element, p))
    (hdims : Dimensions p dims q) (hopen : q.current.kind = Symbol.lBracket) :
    Reached s tabWidth q ∧ ((Grammar.upTo (depth + 1)).type mode).run p₀ =
      (Grammar.typeWith mode p₀.start element dims).run q := by
  have hp : Reached s tabWidth p := by
    have hreached : Reached s tabWidth (((Grammar.upTo depth).typeFront mode).run p₀).2 :=
      hp₀.typeFront depth
    rwa [hfront] at hreached
  have hdims' : Reached s tabWidth q ∧ (Grammar.arrayDims mode : Parse σ _).run p =
      (do return (dims ++ ·) <$> (← Grammar.arrayDims mode) : Parse σ _).run q :=
    run_arrayDims hfaithful hroom hs hp hdims
  obtain ⟨hq, hall⟩ := hdims'
  refine ⟨hq, ?_⟩
  have hcheck : (check (.primitive .void) : Parse σ Bool).run p₀ = (.ok false, p₀) := by
    rw [run_check, decide_eq_false hvoid]
  have hopened : (check Symbol.lBracket : Parse σ Bool).run p = (.ok true, p) := by
    rw [run_check, decide_eq_true (hdims.open_of_open hopen)]
  have htype : ((Grammar.upTo (depth + 1)).type mode).run p₀ =
      (Grammar.arraySuffix mode ⟨p₀.start⟩ false element).run p := by
    show (Grammar.typeStep (Grammar.upTo depth) mode).run p₀ = _
    unfold Grammar.typeStep
    rw [run_bind_ok run_save, run_bind_ok hcheck, ← run_bind_ok hfront]
    unfold Grammar.typeFront
    rw [bind_assoc, run_bind_ok run_save, bind_assoc]
  rw [htype]
  unfold Grammar.arraySuffix Grammar.typeWith
  rw [run_bind_ok hopened, if_pos rfl, if_neg Bool.false_ne_true, run_bind_congr hall]
  simp only [bind_assoc, pure_bind]
  refine congrArg (fun f => (_ >>= f : Parse σ _).run q) (funext fun more => ?_)
  cases mode <;> rfl

/-- Every integer in brackets behind a type, whatever other dimensions are in front of it, is the
longest one that stands there, of any form and with any number of digits. If what it means is less
than two to the power of 64, it is the size of the dimension, and the type goes on behind it;
otherwise the type is an error at the integer, which says that it is out of range. -/
theorem Text.sizes_exact (hfaithful : t.Faithful limit shows)
    (hroom : t.content.size + 3 < limit) (hs : shows s 0) {depth : Nat} {p₀ l : Parser σ}
    {element : Yield mode TypeExpr} {form : IntegerForm} (hp₀ : Reached s tabWidth p₀)
    (hvoid : p₀.current.kind ≠ .primitive .void)
    (hfront : ((Grammar.upTo depth).typeFront mode).run p₀ = (.ok element, p))
    (hdims : Dimensions p dims q) (hopen : q.current.kind = Symbol.lBracket)
    (hl : (advance : Parse σ Token).run q = (.ok q.current, l))
    (hinteger : l.current.kind = .integer form)
    (hr : (advance : Parse σ Token).run l = (.ok l.current, r))
    (hclose : r.current.kind = Symbol.rBracket) :
    ∃ slice n, LongestNumeral (t.content.toList.drop l.start.offset)
        (l.current.kind, l.current.text) slice ∧ (∀ m, form.Means slice m ↔ m = n) ∧
      (n < 2 ^ 64 → ((Grammar.upTo (depth + 1)).type mode).run p₀ =
          (do drop; Grammar.typeWith mode p₀.start element (dims ++ [.sized n]) : Parse σ _).run r ∧
        ∀ token u, (advance : Parse σ Token).run r = (.ok token, u) →
          u.current.kind ≠ Symbol.lBracket → u.current.kind ≠ Symbol.question →
          ((Grammar.upTo (depth + 1)).type mode).run p₀ = (.ok ((fun element =>
            TypeExpr.plain p₀.start.toPosition
              (.array element (dims ++ [.sized n]))) <$> element), u)) ∧
      (2 ^ 64 ≤ n → ∃ e, ((Grammar.upTo (depth + 1)).type mode).run p₀ = (.error e, r) ∧
        e.fault = .arraySize l.current.text ∧ e.code.label = "E1007" ∧
          e.place = l.start.stored) := by
  obtain ⟨hq, htype⟩ := run_typeStep hfaithful hroom hs hp₀ hvoid hfront hdims hopen
  obtain ⟨slice, n, hlongest, hread, hmeans⟩ := integer_of_advance hfaithful hroom hs hq hl hinteger
  have hdim := Grammar.run_bracketedDim hl hinteger hread hr hclose
  refine ⟨slice, n, hlongest, hmeans, fun hlt => ?_, fun hge => ?_⟩
  · have hlimit : n < Grammar.arraySizeLimit := hlt
    rw [if_pos hlimit] at hdim
    have hbehind : ((Grammar.upTo (depth + 1)).type mode).run p₀ =
        (do drop; Grammar.typeWith mode p₀.start element (dims ++ [.sized n]) :
          Parse σ _).run r := by
      rw [htype]
      unfold Grammar.typeWith
      rcases hdrop : (drop : Parse σ Unit).run r with ⟨e | _, u⟩
      · rw [run_bind_error hdrop] at hdim ⊢
        rw [run_bind_error (Grammar.run_arrayDims_error hopen hdim)]
      · rw [run_bind_ok hdrop] at hdim ⊢
        rw [run_bind_congr (run_arrayDims_cons hfaithful hroom hs hq hopen hdim)]
        simp only [bind_assoc, pure_bind, List.append_assoc, List.singleton_append]
        refine congrArg (fun f => (_ >>= f : Parse σ _).run u) (funext fun more => ?_)
        cases mode <;> rfl
    refine ⟨hbehind, fun token u hu hdone habsent => ?_⟩
    have hdrop : (drop : Parse σ Unit).run r = (.ok (), u) := run_bind_ok hu
    rw [hbehind, run_bind_ok hdrop, Grammar.run_typeWith_done hdone habsent]
  · have hlimit : ¬n < Grammar.arraySizeLimit := Nat.not_lt.2 hge
    rw [if_neg hlimit] at hdim
    refine ⟨⟨.arraySize l.current.text, l.start.stored, none⟩, ?_, rfl, rfl, rfl⟩
    unfold Grammar.typeWith at htype
    rw [htype, run_bind_error (Grammar.run_arrayDims_error hopen hdim)]

end Faithful

/-- From a type on, up to the bracket that closes its first dimension, if there is an integer of
this form in it. -/
def firstSize {σ : Type} [ByteSource σ] (form : IntegerForm) : Parse σ Bool := do
  let _ ← (Grammar.upTo 2).typeFront .build
  let opened ← check Symbol.lBracket
  let _ ← advance
  let sized ← check (.integer form)
  let _ ← advance
  return opened && sized && (← check Symbol.rBracket)

/-- A hexadecimal size with leading zeros, in chunks of two bytes. -/
theorem Text.sizes_exact_hex :
    let t : Text := ⟨"sizes", utf8Bytes "u8?[0x0010]?"⟩
    let s := t.inChunks 2
    t.content.size + 3 < addressLimit - 1 ∧ ∃ p₀ p l r element, Parser.ofSource s 4 = .ok p₀ ∧
      p₀.current.kind ≠ .primitive .void ∧
      ((Grammar.upTo 2).typeFront .build).run p₀ = (.ok element, p) ∧ Dimensions p [] p ∧
      p.current.kind = Symbol.lBracket ∧
      (advance : Parse Chunked Token).run p = (.ok p.current, l) ∧
      l.current.kind = .integer .hex ∧
      (advance : Parse Chunked Token).run l = (.ok l.current, r) ∧
      r.current.kind = Symbol.rBracket ∧
      ∃ slice n, LongestNumeral (t.content.toList.drop l.start.offset)
          (l.current.kind, l.current.text) slice ∧ (∀ m, IntegerForm.hex.Means slice m ↔ m = n) ∧
        (n < 2 ^ 64 → ((Grammar.upTo 3).type .build).run p₀ =
          (do drop; Grammar.typeWith .build p₀.start element [.sized n] :
            Parse Chunked _).run r) := by
  intro t s
  have hroom : t.content.size + 3 < addressLimit - 1 := by decide
  have hread : ((Parser.ofSource s 4).toOption.any fun p₀ =>
      decide (p₀.current.kind = .primitive .u8) &&
        decide (((firstSize .hex).run p₀).1.toOption = some true)) = true := by decide +kernel
  obtain ⟨p₀, hp₀, hread⟩ := exists_ok_of_any hread
  obtain ⟨hkind, hsize⟩ := Bool.and_eq_true_iff.1 hread
  rw [decide_eq_true_eq] at hkind hsize
  have hvoid : p₀.current.kind ≠ .primitive .void := by rw [hkind]; decide
  unfold firstSize at hsize
  rcases hfront : ((Grammar.upTo 2).typeFront .build).run p₀ with ⟨e | element, p⟩
  · rw [run_bind_error hfront] at hsize
    cases hsize
  rw [run_bind_ok hfront, run_bind_ok (run_check _ p)] at hsize
  rcases hl : (advance : Parse Chunked Token).run p with ⟨e | bracket, l⟩
  · rw [run_bind_error hl] at hsize
    cases hsize
  rw [run_bind_ok hl, run_bind_ok (run_check _ l)] at hsize
  rcases hr : (advance : Parse Chunked Token).run l with ⟨e | integer, r⟩
  · rw [run_bind_error hr] at hsize
    cases hsize
  rw [run_bind_ok hr, run_bind_ok (run_check _ r)] at hsize
  have htrue : (decide (p.current.kind = Symbol.lBracket) &&
      decide (l.current.kind = .integer .hex) &&
        decide (r.current.kind = Symbol.rBracket)) = true :=
    Option.some.inj hsize
  simp only [Bool.and_eq_true, decide_eq_true_eq] at htrue
  obtain ⟨⟨hopen, hinteger⟩, hclose⟩ := htrue
  obtain rfl := Grammar.token_of_run_advance hl
  obtain rfl := Grammar.token_of_run_advance hr
  obtain ⟨slice, n, hlongest, hmeans, hsized, -⟩ := sizes_exact t.chunks hroom
    (InChunks.start t 2) (.start hp₀) hvoid hfront .none hopen hl hinteger hr hclose
  exact ⟨hroom, p₀, p, l, r, element, hp₀, hvoid, hfront, .none, hopen, hl, hinteger, hr, hclose,
    slice, n, hlongest, hmeans, fun hlt => (hsized hlt).1⟩

end ScriptFront
