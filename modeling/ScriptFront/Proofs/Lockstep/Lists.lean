import ScriptFront.Proofs.Lockstep.Basic

/-!
# Lists in lockstep

Two readings go together *below* a number if they do so from all states that have less than that
left. A list ends with the text at the latest: each of its items takes a token, so the steps that it
may make are never used up.

- `Lockstep.Below.bind`, `after`, …: one rule for each way to put readings together. A reading of
  `Below n 1` takes a token at least, and what comes behind a token has less left.
- `Lockstep.Below.closedList`, `Lockstep.Below.listWhile`, …: the lists.
-/

namespace ScriptFront

open ScriptFront.Parser

namespace Lockstep

variable {L : Lockstep} {α β γ δ : Type} {V V' : α → β → Prop} {W : γ → δ → Prop} {i k n : Nat}
  {p q : Parser Buffer} {x x' : Parse Buffer α} {y y' : Parse Buffer β}
  {f : α → Parse Buffer γ} {g : β → Parse Buffer δ}

namespace Below

/-! ## Putting readings together -/

theorem pure {a : α} {b : β} (h : V a b) : L.Below n 0 V (Pure.pure a) (Pure.pure b) :=
  fun _ _ _ _ hs => .pure hs h

theorem weaken (h : L.Below n k V x y) : L.Below n 0 V x y := fun _ _ _ hi hs => (h hi hs).weaken

/-- What goes together with more left does so with less. -/
theorem le {n' : Nat} (h : L.Below n k V x y) (hn : n' ≤ n) : L.Below n' k V x y :=
  fun _ _ _ hi hs => h (Nat.lt_of_lt_of_le hi hn) hs

theorem less (h : L.Below (n + 1) k V x y) : L.Below n k V x y := h.le (Nat.le_succ n)

/-- Less than nothing is never left. -/
theorem zero : L.Below 0 k V x y := fun _ _ _ hi => absurd hi (Nat.not_lt_zero _)

theorem bind {k' : Nat} (hx : L.Below n k' V x y) (hf : ∀ a b, V a b → L.Below n k W (f a) (g b)) :
    L.Below n k W (x >>= f) (y >>= g) := fun _ _ _ hi hs => (hx hi hs).weaken.bind hi hf

/-- Behind a reading that takes a token, any reading may follow. -/
theorem andThen (hx : L.Below n 1 V x y) (hf : ∀ a b, V a b → L.Below n 0 W (f a) (g b)) :
    L.Below n 1 W (x >>= f) (y >>= g) :=
  fun _ _ _ hi hs => (hx hi hs).after (Nat.le_of_lt hi) hf

/-- Behind a reading that takes a token, less is left. -/
theorem after (hx : L.Below (n + 1) 1 V x y) (hf : ∀ a b, V a b → L.Below n 0 W (f a) (g b)) :
    L.Below (n + 1) 1 W (x >>= f) (y >>= g) :=
  fun _ _ _ hi hs => (hx hi hs).after (Nat.le_of_lt_succ hi) hf

section Equal

variable {x y : Parse Buffer α} {f : α → Parse Buffer γ} {g : α → Parse Buffer δ}

theorem bindEq {k' : Nat} (hx : L.Below n k' Eq x y) (hf : ∀ a, L.Below n k W (f a) (g a)) :
    L.Below n k W (x >>= f) (y >>= g) := hx.bind fun a _ hab => hab ▸ hf a

theorem andThenEq (hx : L.Below n 1 Eq x y) (hf : ∀ a, L.Below n 0 W (f a) (g a)) :
    L.Below n 1 W (x >>= f) (y >>= g) := hx.andThen fun a _ hab => hab ▸ hf a

theorem afterEq (hx : L.Below (n + 1) 1 Eq x y) (hf : ∀ a, L.Below n 0 W (f a) (g a)) :
    L.Below (n + 1) 1 W (x >>= f) (y >>= g) := hx.after fun a _ hab => hab ▸ hf a

end Equal

/-- What is made of values. -/
theorem map {f : α → γ} {g : β → δ} (hx : L.Below n k V x y) (h : ∀ a b, V a b → W (f a) (g b)) :
    L.Below n k W (do return f (← x)) (do return g (← y)) := by
  intro i p q hi hs
  exact (hx hi hs).bindRun (fun a b _ _ _ _ hV _ hbehind => .pure hbehind.state (h a b hV))
    (Nat.le_refl k)

/-- What is made of trees. -/
theorem yieldMap {m : Mode} {x : Parse Buffer (Yield m α)} {y : Parse Buffer (Yield m β)}
    {R : α → β → Prop} {S : γ → δ → Prop} {f : α → γ} {g : β → δ}
    (hx : L.Below n k (Yield.Rel R) x y) (h : ∀ a b, R a b → S (f a) (g b)) :
    L.Below n k (Yield.Rel S) (do return f <$> (← x)) (do return g <$> (← y)) :=
  hx.map fun _ _ hab => hab.map h

theorem ite (c : Prop) [Decidable c] (hx : L.Below n k V x y) (hy : L.Below n k V x' y') :
    L.Below n k V (if c then x else x') (if c then y else y') :=
  fun _ _ _ hi hs => .ite (fun _ => hx hi hs) fun _ => hy hi hs

/-! ## Steps -/

theorem kind : L.Below n 0 Eq Parser.kind Parser.kind :=
  fun _ _ _ _ hs => .ok (L.kind_eq hs) ⟨_, Nat.le_refl _, behind_refl hs⟩

theorem check (c : TokenKind) : L.Below n 0 Eq (Parser.check c) (Parser.check c) :=
  kind.map fun _ _ h => by rw [h]

theorem checkNot (c : TokenKind) : L.Below n 0 Eq (Parser.checkNot c) (Parser.checkNot c) :=
  (check c).map fun _ _ h => by rw [h]

theorem position : L.Below n 0 (fun _ _ => True) Parser.position Parser.position :=
  fun _ _ _ _ hs => .ok trivial ⟨_, Nat.le_refl _, behind_refl hs⟩

theorem save : L.Below n 0 (At.Known L) Parser.save Parser.save :=
  fun _ _ _ _ hs => .ok (fun _ hfault => L.told_start hs hfault) ⟨_, Nat.le_refl _, behind_refl hs⟩

theorem failHere {fault : String → SyntaxFault} (h : ∀ text, fault text ≠ .tooDeep) :
    L.Below n k V (Parser.failHere fault) (Parser.failHere fault) :=
  fun _ _ _ _ hs => .failHere hs h

theorem failAt {b b' : Bookmark} (hb : At.Known L b b') {fault : SyntaxFault}
    (h : fault ≠ .tooDeep) :
    L.Below n k V (Parser.failAt fault b.place) (Parser.failAt fault b'.place) :=
  fun _ _ _ _ hs => .failAt hs hb h

theorem failAtStart {fault : SyntaxFault} (h : fault ≠ .tooDeep) :
    L.Below n k V (Parser.failAtStart fault) (Parser.failAtStart fault) :=
  fun _ _ _ _ hs => .failAtStart hs h

theorem unexpected : L.Below n k V Parser.unexpected Parser.unexpected :=
  fun _ _ _ _ hs => .unexpected hs

theorem expectedOneOf (kinds : List TokenKind) :
    L.Below n k V (Parser.expectedOneOf kinds) (Parser.expectedOneOf kinds) :=
  fun _ _ _ _ hs => .expectedOneOf hs kinds

theorem markAny (c : TokenKind) (heof : c ≠ .eof) (hself : c ≠ Keyword.selfKw) :
    L.Below n 1 Eq (Parser.mark c) (Parser.mark c) := by
  intro i p q _ hs
  have h := At.markThen (c := c) (f := Pure.pure) (g := Pure.pure) (W := Eq) hs
    (fun _ _ _ _ _ _ _ hfresh => .pure (L.state_of_fresh hfresh) rfl) heof hself
  rwa [bind_pure] at h

theorem mark (c : Symbol) : L.Below n 1 Eq (Parser.mark c) (Parser.mark c) :=
  markAny c nofun nofun

theorem markWord (k : Keyword) (hself : k ≠ .selfKw) :
    L.Below n 1 Eq (Parser.mark k) (Parser.mark k) :=
  markAny k nofun fun h => hself (TokenKind.keyword.inj h)

theorem eatAny (c : TokenKind) (heof : c ≠ .eof) (hself : c ≠ Keyword.selfKw) :
    L.Below n 0 Eq (Parser.eat c) (Parser.eat c) := by
  intro i p q hi hs
  refine .check hs (fun hkind => ?_) fun _ => .pure hs rfl
  have hdrop := At.advance hs (hkind ▸ heof) fun h => absurd (hkind.symm.trans h) hself
  exact hdrop.weaken.bind hi fun _ _ _ => .pure rfl

theorem eat (c : Symbol) : L.Below n 0 Eq (Parser.eat c) (Parser.eat c) := eatAny c nofun nofun

theorem eatWord (k : Keyword) (hself : k ≠ .selfKw) :
    L.Below n 0 Eq (Parser.eat k) (Parser.eat k) :=
  eatAny k nofun fun h => hself (TokenKind.keyword.inj h)

theorem expectIdentifier : L.Below n 1 Eq Parser.expectIdentifier Parser.expectIdentifier := by
  intro i p q _ hs
  have h := At.expectIdentifierThen (f := Pure.pure) (g := Pure.pure) (W := Eq) hs
    fun _ _ _ _ _ _ _ _ hfresh => .pure (L.state_of_fresh hfresh) rfl
  rwa [bind_pure] at h

theorem expectOneOf (kinds : List TokenKind) (heof : TokenKind.eof ∉ kinds)
    (hself : TokenKind.keyword .selfKw ∉ kinds) :
    L.Below n 1 At.Same (Parser.expectOneOf kinds) (Parser.expectOneOf kinds) := by
  intro i p q _ hs
  refine .kind hs (.ite (fun hmem => ?_) fun _ => .expectedOneOf hs _)
  have hmem := List.contains_iff_mem.1 hmem
  refine (At.advance hs ?_ ?_).mono (Nat.le_refl 1) fun _ _ h => h.1
  · exact fun h => heof (h ▸ hmem)
  · exact fun h => absurd (h ▸ hmem) hself

theorem peek : L.Below n 0 At.Same Parser.peek Parser.peek := by
  intro i p q _ hs
  have h := At.peekThen (f := Pure.pure) (g := Pure.pure) (W := At.Same) hs
    fun _ _ hsame _ => .pure hs hsame
  rwa [bind_pure] at h

theorem inContext (context : ErrorContext) (hx : L.Below n k V x y) :
    L.Below n k V (Parser.inContext context x) (Parser.inContext context y) :=
  fun _ _ _ hi hs => (hx hi hs).inContext context

/-! ## Lists -/

section Lists

variable {m : Mode} {α β : Type} {u : α → β} {item item' : Parse Buffer (Yield m α)}

/-- A list under construction. -/
abbrev Taken (u : α → β) (taken taken' : Yield m (Array α)) : Prop :=
  Yield.Like (fun l => l.toList.map u) taken taken'

theorem closedListOnto (close : Symbol) (h : L.Below n 1 (Yield.Like u) item item')
    (steps steps' : Nat) {taken taken' : Yield m (Array α)} (ht : Taken u taken taken')
    (hi : i < n) (hsteps : i < steps) (hsteps' : i < steps') (hs : L.state i p q) :
    L.At i 1 p q (Taken u) (Parser.closedListOnto close item steps taken)
      (Parser.closedListOnto close item' steps' taken') := by
  induction steps generalizing steps' taken taken' i p q with
  | zero => omega
  | succ steps ih =>
    obtain _ | steps' := steps'
    · omega
    refine (h hi hs).bindRun (m := 0) (fun a b j p' q' _ hab hj hbehind => ?_) (Nat.le_refl 1)
    have hpush := ht.push hab
    refine .kind hbehind.state (.ite (fun hcomma => ?_) fun _ => .ite (fun hclose => ?_) fun _ =>
      .expectedOneOf hbehind.state _)
    · refine (At.drop hbehind.state hcomma).bindRun (m := 0)
        (fun _ _ j' p'' q'' _ _ hj' hbehind' => ?_) (Nat.zero_le _)
      exact (ih steps' hpush (by omega) (by omega) (by omega) hbehind'.state).weaken
    · exact (At.drop hbehind.state hclose).weaken.bind (Nat.lt_succ_self j) fun _ _ _ => .pure hpush

theorem closedList (close : Symbol) (h : L.Below n 1 (Yield.Like u) item item') :
    L.Below n 1 (Yield.Like (List.map u)) (Parser.closedList close item)
      (Parser.closedList close item') := by
  intro i p q hi hs
  refine .listBound hs fun steps steps' hsteps hsteps' => ?_
  exact (closedListOnto close h steps steps' Yield.like_empty hi hsteps hsteps' hs).bindRun
    (fun _ _ _ _ _ _ hl _ hbehind => .pure hbehind.state hl.toList) (Nat.le_refl 1)

theorem openTailOnto (close : Symbol) (h : L.Below n 1 (Yield.Like u) item item')
    (steps steps' : Nat) {taken taken' : Yield m (Array α)} (ht : Taken u taken taken')
    (hi : i < n) (hsteps : i < steps) (hsteps' : i < steps') (hs : L.state i p q) :
    L.At i 1 p q (Taken u) (Parser.openTailOnto close item steps taken)
      (Parser.openTailOnto close item' steps' taken') := by
  induction steps generalizing steps' taken taken' i p q with
  | zero => omega
  | succ steps ih =>
    obtain _ | steps' := steps'
    · omega
    refine (eat (n := n) .comma hi hs).bindRun (m := 1) ?_ (Nat.le_refl 1)
    rintro comma _ j p' q' - rfl hj hbehind
    refine .check hbehind.state (fun hclose => ?_) fun _ => ?_
    · exact (At.drop hbehind.state hclose).after (n := j) (Nat.le_refl j) fun _ _ _ => .pure ht
    · cases comma with
      | false => exact .expectedOneOf hbehind.state _
      | true =>
        refine (h (by omega) hbehind.state).bindRun (m := 0) ?_ (Nat.le_refl 1)
        intro a b j' p'' q'' _ hab hj' hbehind'
        exact (ih steps' (ht.push hab) (by omega) (by omega) (by omega) hbehind'.state).weaken

theorem openList (close : Symbol) (h : L.Below n 1 (Yield.Like u) item item') :
    L.Below n 1 (Yield.Like (List.map u)) (Parser.openList close item)
      (Parser.openList close item') := by
  intro i p q hi hs
  refine (h hi hs).bindRun (m := 0) (fun a b j p' q' _ hab hj hbehind => ?_) (Nat.le_refl 1)
  refine .listBound hbehind.state fun steps steps' hsteps hsteps' => ?_
  have ht := Yield.Like.push (u := u) (m := m) Yield.like_empty hab
  exact (openTailOnto close h steps steps' ht (by omega) hsteps hsteps' hbehind.state).weaken.bind
    (Nat.lt_succ_self j) fun _ _ hl => .pure hl.toList

theorem openListOrEmpty (close : Symbol) (h : L.Below n 1 (Yield.Like u) item item') :
    L.Below n 1 (Yield.Like (List.map u)) (Parser.openListOrEmpty close item)
      (Parser.openListOrEmpty close item') := by
  intro i p q hi hs
  refine .check hs (fun hclose => ?_) fun _ => openList close h hi hs
  exact (At.drop hs hclose).after (Nat.le_refl i) fun _ _ _ => .pure (Yield.rel_pure rfl)

variable {test test' : Parse Buffer Bool}

theorem whileOnto (htest : L.Below n 0 Eq test test') (h : L.Below n 1 (Yield.Like u) item item')
    (steps steps' : Nat) {taken taken' : Yield m (Array α)} (ht : Taken u taken taken')
    (hi : i < n) (hsteps : i < steps) (hsteps' : i < steps') (hs : L.state i p q) :
    L.At i 0 p q (Taken u) (Parser.whileOnto test item steps taken)
      (Parser.whileOnto test' item' steps' taken') := by
  induction steps generalizing steps' taken taken' i p q with
  | zero => omega
  | succ steps ih =>
    obtain _ | steps' := steps'
    · omega
    refine (htest hi hs).bindRun (m := 0) ?_ (Nat.le_refl 0)
    rintro more _ j p' q' - rfl hj hbehind
    refine .ite (fun _ => ?_) fun _ => .pure hbehind.state ht
    refine (h (by omega) hbehind.state).bindRun (m := 0) ?_ (Nat.zero_le _)
    intro a b j' p'' q'' _ hab hj' hbehind'
    exact ih steps' (ht.push hab) (by omega) (by omega) (by omega) hbehind'.state

theorem listWhile (htest : L.Below n 0 Eq test test') (h : L.Below n 1 (Yield.Like u) item item') :
    L.Below n 0 (Yield.Like (List.map u)) (Parser.listWhile test item)
      (Parser.listWhile test' item') := by
  intro i p q hi hs
  refine .listBound hs fun steps steps' hsteps hsteps' => ?_
  exact (whileOnto htest h steps steps' Yield.like_empty hi hsteps hsteps' hs).bind hi
    fun _ _ hl => .pure hl.toList

theorem listOnceAndWhile (htest : L.Below n 0 Eq test test')
    (h : L.Below n 1 (Yield.Like u) item item') :
    L.Below n 1 (Yield.Like (List.map u)) (Parser.listOnceAndWhile test item)
      (Parser.listOnceAndWhile test' item') := by
  intro i p q hi hs
  refine (h hi hs).bindRun (m := 0) (fun a b j p' q' _ hab hj hbehind => ?_) (Nat.le_refl 1)
  refine .listBound hbehind.state fun steps steps' hsteps hsteps' => ?_
  have ht := Yield.Like.push (u := u) (m := m) Yield.like_empty hab
  exact (whileOnto htest h steps steps' ht (by omega) hsteps hsteps' hbehind.state).bind
    (Nat.lt_succ_self j) fun _ _ hl => .pure hl.toList

/-- Items up to a token, in front of which the list ends. -/
theorem untilOnto (close : TokenKind) (h : L.Below n 1 (Yield.Like u) item item')
    (steps steps' : Nat) {taken taken' : Yield m (Array α)} (ht : Taken u taken taken')
    (hi : i < n) (hsteps : i < steps) (hsteps' : i < steps') (hs : L.state i p q) :
    Meets L.told (L.Lost p) (Taken u)
      (fun p' q' => p'.current.kind = close ∧ ∃ j, j ≤ i ∧ L.Behind j p p' q')
      ((Parser.whileOnto (Parser.checkNot close) item steps taken).run p)
      ((Parser.whileOnto (Parser.checkNot close) item' steps' taken').run q) := by
  induction steps generalizing steps' taken taken' i p q with
  | zero => omega
  | succ steps ih =>
    obtain _ | steps' := steps'
    · omega
    have hp : (Parser.checkNot close : Parse Buffer Bool).run p =
        (.ok (!decide (p.current.kind = close)), p) := rfl
    have hq : (Parser.checkNot close : Parse Buffer Bool).run q =
        (.ok (!decide (p.current.kind = close)), q) := by
      rw [L.kind_eq hs]
      rfl
    unfold Parser.whileOnto
    rw [run_bind_ok hp, run_bind_ok hq]
    by_cases hclose : p.current.kind = close
    · simp only [hclose, decide_true, Bool.not_true, Bool.false_eq_true, if_false]
      exact .ok ht ⟨hclose, i, Nat.le_refl i, behind_refl hs⟩
    · simp only [hclose, decide_false, Bool.not_false, if_true]
      refine Meets.bind (h hi hs) (fun _ _ h => h) ?_
      rintro a b p' q' - hab ⟨j, hj, hbehind⟩
      refine (ih steps' (ht.push hab) (by omega) (by omega) (by omega) hbehind.state).mono ?_
        (fun _ _ h => h) ?_
      · exact fun _ _ hlost => hlost.trans hbehind.inTrait_eq
      · rintro p'' q'' ⟨hkind, j', hj', hbehind'⟩
        exact ⟨hkind, j', by omega, hbehind.trans hbehind'⟩

/-- Items up to a token, and the token. -/
theorem untilThen (close : Symbol) (h : L.Below n 1 (Yield.Like u) item item')
    {f : Yield m (List α) → Parse Buffer γ} {g : Yield m (List α) → Parse Buffer δ}
    (hf : ∀ l l', Yield.Like (List.map u) l l' → L.Below n 0 W (f l) (g l')) :
    L.Below n 1 W
      (do
        let l ← Parser.listWhile (Parser.checkNot close) item
        Parser.drop
        f l)
      (do
        let l ← Parser.listWhile (Parser.checkNot close) item'
        Parser.drop
        g l) := by
  intro i p q hi hs
  unfold Parser.listWhile
  rw [bind_assoc, bind_assoc]
  refine .listBound hs fun steps steps' hsteps hsteps' => ?_
  rw [bind_assoc, bind_assoc]
  refine Meets.bind (untilOnto close h steps steps' Yield.like_empty hi hsteps hsteps' hs)
    (fun _ _ h => h) ?_
  rintro l l' p' q' - hl ⟨hclose, j, hj, hbehind⟩
  rw [pure_bind, pure_bind]
  refine Meets.mono ((At.drop hbehind.state hclose).after (n := n) (by omega)
    fun _ _ _ => hf _ _ hl.toList) ?_ (fun _ _ h => h) ?_
  · exact fun _ _ hlost => hlost.trans hbehind.inTrait_eq
  · rintro p'' q'' ⟨j', hj', hbehind'⟩
    exact ⟨j', by omega, hbehind.trans hbehind'⟩

theorem optionally (htest : L.Below n 0 Eq test test') (h : L.Below n k (Yield.Like u) item item') :
    L.Below n 0 (Yield.Like (Option.map u)) (Parser.optionally test item)
      (Parser.optionally test' item') := by
  refine htest.bindEq fun more => .ite _ ?_ (.pure (Yield.rel_pure rfl))
  exact h.weaken.yieldMap fun a b hab => congrArg some hab

end Lists

end Below

end Lockstep

end ScriptFront
