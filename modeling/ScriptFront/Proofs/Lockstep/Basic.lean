import ScriptFront.Proofs.Speculation.Failing

/-!
# Readings in lockstep

A `Lockstep` says when a state of a reading goes with a state of another one, and counts what is
left of the text. The tokens may stand in other places; what they say is the same. Two readings that
go together come to values that differ in places only, or stop at errors that go together, and
neither of them runs out of steps: what is left of the text grows smaller with every token that is
taken.

- `Meets`: two ends of readings that go together.
- `Yield.Like`: yields that something made of them cannot tell apart.
- `Lockstep.At`: two readings go together from one pair of states.
- `Lockstep.At.bindRun`, `advanceThen`, `goBackThen`, …: what the steps of readings come to.
-/

namespace ScriptFront

open ScriptFront.Parser

-- What a reading comes to is told by the rules; nothing is to be run to find out.
attribute [local irreducible] Ends

/-! ## Ends that go together -/

/-- Two readings ended, both with values that correspond by `V` and in states that correspond by
`R`, or both at errors that correspond by `T`, in states that correspond by `E`. -/
inductive Meets {ε s t α β : Type} (T : ε → ε → Prop) (E : s → t → Prop) (V : α → β → Prop)
    (R : s → t → Prop) : Except ε α × s → Except ε β × t → Prop where
  | ok {a : α} {b : β} {p : s} {q : t} (value : V a b) (states : R p q) :
    Meets T E V R (.ok a, p) (.ok b, q)
  | error {e e' : ε} {p : s} {q : t} (told : T e e') (states : E p q) :
    Meets T E V R (.error e, p) (.error e', q)

namespace Meets

variable {ε s t α β γ δ : Type} {T : ε → ε → Prop} {E F : s → t → Prop} {V V' : α → β → Prop}
  {W : γ → δ → Prop} {R R' : s → t → Prop} {r : Except ε α × s} {r' : Except ε β × t}

theorem mono (h : Meets T E V R r r') (hE : ∀ p q, E p q → F p q) (hV : ∀ a b, V a b → V' a b)
    (hR : ∀ p q, R p q → R' p q) : Meets T F V' R' r r' := by
  cases h with
  | ok value states => exact .ok (hV _ _ value) (hR _ _ states)
  | error told states => exact .error told (hE _ _ states)

/-- Readings one after the other. -/
theorem bind {x : ExceptT ε (StateM s) α} {y : ExceptT ε (StateM t) β}
    {f : α → ExceptT ε (StateM s) γ} {g : β → ExceptT ε (StateM t) δ} {p : s} {q : t}
    (h : Meets T E V R (x.run p) (y.run q)) (hE : ∀ p q, E p q → F p q)
    (hf : ∀ a b p' q', x.run p = (.ok a, p') → V a b → R p' q' →
      Meets T F W R' ((f a).run p') ((g b).run q')) :
    Meets T F W R' ((x >>= f).run p) ((y >>= g).run q) := by
  rcases hx : x.run p with ⟨rx, p'⟩
  rcases hy : y.run q with ⟨ry, q'⟩
  rw [hx, hy] at h
  cases h with
  | ok value states =>
    rw [run_bind_ok hx, run_bind_ok hy]
    exact hf _ _ _ _ hx value states
  | error told states =>
    rw [run_bind_error hx, run_bind_error hy]
    exact .error told (hE _ _ states)

end Meets

/-! ## Yields -/

namespace Yield

/-- Two yields that correspond, if they are trees. -/
def Rel {α β : Type} (R : α → β → Prop) : {m : Mode} → Yield m α → Yield m β → Prop
  | .build, a, b => R a b
  | .check, _, _ => True

/-- Two yields of which `u` makes the same. -/
abbrev Like {α β : Type} {m : Mode} (u : α → β) (a b : Yield m α) : Prop :=
  Rel (fun a b => u a = u b) a b

variable {α β γ δ : Type} {m : Mode} {R : α → β → Prop} {S : γ → δ → Prop}

theorem rel_pure {a : α} {b : β} (h : R a b) : Rel R (pure a : Yield m α) (pure b) := by
  cases m with
  | build => exact h
  | check => trivial

namespace Rel

theorem map {a : Yield m α} {b : Yield m β} (h : Rel R a b) {f : α → γ} {g : β → δ}
    (hfg : ∀ a b, R a b → S (f a) (g b)) : Rel S (f <$> a) (g <$> b) := by
  cases m with
  | build => exact hfg _ _ h
  | check => trivial

theorem seq {f : Yield m (α → γ)} {g : Yield m (β → δ)} {a : Yield m α} {b : Yield m β}
    (hfg : Rel (fun f g => ∀ a b, R a b → S (f a) (g b)) f g) (h : Rel R a b) :
    Rel S (f <*> a) (g <*> b) := by
  cases m with
  | build => exact hfg _ _ h
  | check => trivial

section Several

variable {α' β' γ' δ' ι κ : Type} {R' : α' → β' → Prop} {S' : γ' → δ' → Prop} {P : ι → κ → Prop}
  {a : Yield m α} {b : Yield m β} {c : Yield m γ} {d : Yield m δ} {a' : Yield m α'}
  {b' : Yield m β'} {c' : Yield m γ'} {d' : Yield m δ'}

/-- What is made of two yields. -/
theorem map₂ (h₁ : Rel R a b) (h₂ : Rel S c d) {f : α → γ → ι} {g : β → δ → κ}
    (hfg : ∀ a b c d, R a b → S c d → P (f a c) (g b d)) :
    Rel P (f <$> a <*> c) (g <$> b <*> d) := by
  cases m with
  | build => exact hfg _ _ _ _ h₁ h₂
  | check => trivial

/-- What is made of three yields. -/
theorem map₃ (h₁ : Rel R a b) (h₂ : Rel S c d) (h₃ : Rel R' a' b') {f : α → γ → α' → ι}
    {g : β → δ → β' → κ}
    (hfg : ∀ a b c d a' b', R a b → S c d → R' a' b' → P (f a c a') (g b d b')) :
    Rel P (f <$> a <*> c <*> a') (g <$> b <*> d <*> b') :=
  (h₁.map₂ h₂ fun _ _ _ _ h₁ h₂ a' b' h₃ => hfg _ _ _ _ a' b' h₁ h₂ h₃).seq h₃

/-- What is made of four yields. -/
theorem map₄ (h₁ : Rel R a b) (h₂ : Rel S c d) (h₃ : Rel R' a' b') (h₄ : Rel S' c' d')
    {f : α → γ → α' → γ' → ι} {g : β → δ → β' → δ' → κ}
    (hfg : ∀ a b c d a' b' c' d', R a b → S c d → R' a' b' → S' c' d' →
      P (f a c a' c') (g b d b' d')) :
    Rel P (f <$> a <*> c <*> a' <*> c') (g <$> b <*> d <*> b' <*> d') :=
  (h₁.map₃ h₂ h₃ fun _ _ _ _ _ _ h₁ h₂ h₃ c' d' h₄ =>
    hfg _ _ _ _ _ _ c' d' h₁ h₂ h₃ h₄).seq h₄

end Several

end Rel

variable {u : α → β}

/-- Equal lists and one more item. -/
theorem Like.push {list list' : Yield m (Array α)} {a b : Yield m α}
    (hlist : Like (fun l => l.toList.map u) list list') (h : Like u a b) :
    Like (fun l => l.toList.map u) (list.push a) (list'.push b) := by
  have hpush : Rel (fun (f g : α → Array α) => ∀ a b, u a = u b →
      (f a).toList.map u = (g b).toList.map u) (Array.push <$> list) (Array.push <$> list') := by
    refine hlist.map fun l l' (hl : l.toList.map u = l'.toList.map u) a b hab => ?_
    rw [Array.toList_push, Array.toList_push, List.map_append, List.map_append, hl,
      List.map_singleton, List.map_singleton, hab]
  exact hpush.seq h

theorem like_empty : Like (fun l : Array α => l.toList.map u) (pure #[] : Yield m (Array α))
    (pure #[]) := rel_pure rfl

/-- A list of the same items. -/
theorem Like.toList {list list' : Yield m (Array α)}
    (h : Like (fun l => l.toList.map u) list list') :
    Like (List.map u) (Array.toList <$> list) (Array.toList <$> list') := h.map fun _ _ h => h

end Yield

/-! ## Looking at the next token -/

/-- Over a text in memory, looking at the next token changes nothing, and shows the token that is
taken next or the error that is met. -/
theorem Parser.run_peek (p : Parser Buffer) :
    (∃ t p', (advance : Parse Buffer Token).run p = (.ok t, p') ∧
      (peek : Parse Buffer Token).run p = (.ok p'.current, p)) ∨
    ∃ e p', (advance : Parse Buffer Token).run p = (.error e, p') ∧
      (peek : Parse Buffer Token).run p = (.error e, p) := by
  have hback {w : Walker Buffer} (hw : p.lexer.SameText w) :
      { p with lexer := (Walker.reset p.lexer.place w).2 } = p := by
    show { p with lexer := ((Walker.reset p.lexer.place).run w).2 } = p
    rw [Walker.run_reset hw]
  rcases hskip : Lexer.skip.run p.lexer with ⟨e | _, v⟩
  · have hnext := Walker.run_next_of_skip_error hskip
    refine .inr ⟨_, _, run_advance_unskipped hskip, ?_⟩
    obtain ⟨gap, hv, -⟩ := Walker.stopped_of_next hnext
    rw [run_peek_error hnext, hback hv.toSameText]
  · have hsame := Walker.run_next_of_skip hskip
    rcases hnext : Lexer.next.run v with ⟨e | token, u⟩
    · rw [hnext] at hsame
      refine .inr ⟨_, _, run_advance_error hskip hnext, ?_⟩
      obtain ⟨gap, hu, -⟩ := Walker.stopped_of_next hsame
      rw [run_peek_error hsame, hback hu.toSameText]
    · rw [hnext] at hsame
      refine .inl ⟨_, _, run_advance_ok hskip hnext, ?_⟩
      rw [run_peek_ok hsame, hback (Walker.sameText_of_next hsame)]

/-! ## Locksteps -/

/-- Errors with the same fault in the same context are told alike in a wider context. -/
theorem SyntaxError.alike_within {e e' : SyntaxError} (context : ErrorContext)
    (h : e.fault = e'.fault ∧ e.context = e'.context) :
    (e.within context).fault = (e'.within context).fault ∧
      (e.within context).context = (e'.within context).context :=
  ⟨h.1, congrArg (fun c : Option ErrorContext => c.or (some context)) h.2⟩

theorem SyntaxError.code_eq_of_alike {e e' : SyntaxError}
    (h : e.fault = e'.fault ∧ e.context = e'.context) : e.code = e'.code :=
  congrArg SyntaxFault.code h.1

/-- States of two readings that go together, with what is left of the text. -/
structure Lockstep where
  /-- Which states go together, with a number for what is left in front of them. -/
  state : Nat → Parser Buffer → Parser Buffer → Prop
  /-- Which states go together where going back leads to the current token again. -/
  fresh : Nat → Parser Buffer → Parser Buffer → Prop
  /-- Which states go together where a reading stopped. -/
  adrift : Parser Buffer → Parser Buffer → Prop
  /-- Which errors go together. -/
  told : SyntaxError → SyntaxError → Prop
  /-- What is known of the way from one state of the first reading to a later one. -/
  since : Parser Buffer → Parser Buffer → Prop
  state_of_fresh : ∀ {i : Nat} {p q : Parser Buffer}, fresh i p q → state i p q
  fresh_of_kind : ∀ {i : Nat} {p q : Parser Buffer}, state i p q → p.current.kind ≠ Symbol.gt →
    p.current.kind ≠ Symbol.pipe → fresh i p q
  adrift_of_state : ∀ {i : Nat} {p q : Parser Buffer}, state i p q → adrift p q
  kind_eq : ∀ {i : Nat} {p q : Parser Buffer}, state i p q → p.current.kind = q.current.kind
  text_eq : ∀ {i : Nat} {p q : Parser Buffer}, state i p q → p.current.text = q.current.text
  inTrait_eq : ∀ {i : Nat} {p q : Parser Buffer}, state i p q → p.inTrait = q.inTrait
  name_eq : ∀ {i : Nat} {p q : Parser Buffer}, state i p q → p.sourceName = q.sourceName
  le_left : ∀ {i : Nat} {p q : Parser Buffer}, state i p q → i ≤ p.lexer.extent
  le_right : ∀ {i : Nat} {p q : Parser Buffer}, state i p q → i ≤ q.lexer.extent
  state_withTrait : ∀ {i : Nat} {p q : Parser Buffer} (inTrait : Bool), state i p q →
    state i { p with inTrait } { q with inTrait }
  adrift_withTrait : ∀ {p q : Parser Buffer} (inTrait : Bool), adrift p q →
    adrift { p with inTrait } { q with inTrait }
  told_here : ∀ {i : Nat} {p q : Parser Buffer} {fault : SyntaxFault}, state i p q →
    fault ≠ .tooDeep → told ⟨fault, p.current.place, none⟩ ⟨fault, q.current.place, none⟩
  told_start : ∀ {i : Nat} {p q : Parser Buffer} {fault : SyntaxFault}, state i p q →
    fault ≠ .tooDeep → told ⟨fault, p.start.stored, none⟩ ⟨fault, q.start.stored, none⟩
  told_within : ∀ {e e' : SyntaxError} (context : ErrorContext), told e e' →
    told (e.within context) (e'.within context)
  code_eq : ∀ {e e' : SyntaxError}, told e e' → e.code = e'.code
  advance_fresh : ∀ {i : Nat} {p q : Parser Buffer}, state i p q →
    Meets told adrift (fun t t' => t = p.current ∧ t' = q.current)
      (fun p' q' => ∃ j, fresh j p' q' ∧ j ≤ i ∧ (p.current.kind ≠ .eof → j < i))
      ((advance : Parse Buffer Token).run p) ((advance : Parse Buffer Token).run q)
  goBack_fresh : ∀ {i : Nat} {p q p' q' : Parser Buffer}, fresh i p q → adrift p' q' →
    Meets told adrift (fun _ _ => True) (fun p'' q'' => fresh i p'' q'')
      ((goBack ⟨p.start⟩ : Parse Buffer Unit).run p')
        ((goBack ⟨q.start⟩ : Parse Buffer Unit).run q')
  narrow_state : ∀ {i : Nat} {p q : Parser Buffer} {whole part : Symbol}, state i p q →
    p.current.kind = whole → whole.cut? = some part →
    state i ((narrow part 1).run p).2 ((narrow part 1).run q).2
  since_refl : ∀ (p : Parser Buffer), since p p
  since_trans : ∀ {p p' p'' : Parser Buffer}, since p p' → p'.inTrait = p.inTrait →
    since p' p'' → since p p''
  since_advance : ∀ {i : Nat} {p q p' : Parser Buffer} {t : Token}, state i p q →
    (advance : Parse Buffer Token).run p = (.ok t, p') →
    (p.current.kind = Keyword.selfKw → p.inTrait = true) → since p p'
  since_goBack : ∀ {i : Nat} {p q p' q' p'' : Parser Buffer}, fresh i p q → adrift p' q' →
    p'.inTrait = p.inTrait → (goBack ⟨p.start⟩ : Parse Buffer Unit).run p' = (.ok (), p'') →
    since p p''
  since_narrow : ∀ {i : Nat} {p q : Parser Buffer} {whole part : Symbol}, state i p q →
    p.current.kind = whole → whole.cut? = some part → since p ((narrow part 1).run p).2

namespace Lockstep

variable (L : Lockstep)

/-- States where readings stopped, from a state with a trait flag on. -/
structure Lost (p p' q' : Parser Buffer) : Prop where
  adrift : L.adrift p' q'
  left_eq : p'.inTrait = p.inTrait
  right_eq : q'.inTrait = p.inTrait

/-- States that readings came to, from a state on. -/
structure Behind (i : Nat) (p p' q' : Parser Buffer) : Prop where
  state : L.state i p' q'
  since : L.since p p'
  inTrait_eq : p'.inTrait = p.inTrait

/-- From states `p'` and `q'`, which readings from `p` on came to, they go on together and leave `k`
less than `i`. -/
def From (i k : Nat) (p p' q' : Parser Buffer) {α β : Type} (V : α → β → Prop) (x : Parse Buffer α)
    (y : Parse Buffer β) : Prop :=
  Meets L.told (L.Lost p) V (fun p'' q'' => ∃ j, j + k ≤ i ∧ L.Behind j p p'' q'') (x.run p')
    (y.run q')

/-- From two states, readings go together and leave `k` less than `i`. -/
def At (i k : Nat) (p q : Parser Buffer) {α β : Type} (V : α → β → Prop) (x : Parse Buffer α)
    (y : Parse Buffer β) : Prop := L.From i k p p q V x y

/-- From all states that go together and have less than `n` left, readings go together; they leave
`k` less. -/
def Below (n k : Nat) {α β : Type} (V : α → β → Prop) (x : Parse Buffer α) (y : Parse Buffer β) :
    Prop := ∀ ⦃i : Nat⦄ ⦃p q : Parser Buffer⦄, i < n → L.state i p q → L.At i k p q V x y

variable {L} {α β γ δ : Type} {V V' : α → β → Prop} {W : γ → δ → Prop} {i k n : Nat}
  {p q p' q' : Parser Buffer} {x x' : Parse Buffer α} {y y' : Parse Buffer β}
  {f : α → Parse Buffer γ} {g : β → Parse Buffer δ}

theorem Lost.trans {p'' q'' : Parser Buffer} (h : L.Lost p' p'' q'')
    (hinTrait : p'.inTrait = p.inTrait) : L.Lost p p'' q'' :=
  ⟨h.adrift, h.left_eq.trans hinTrait, h.right_eq.trans hinTrait⟩

theorem Behind.trans {j : Nat} {p'' q'' : Parser Buffer} (h : L.Behind i p p' q')
    (h' : L.Behind j p' p'' q'') : L.Behind j p p'' q'' :=
  ⟨h'.state, L.since_trans h.since h.inTrait_eq h'.since, h'.inTrait_eq.trans h.inTrait_eq⟩

theorem lost_of_state (h : L.state i p' q') (hinTrait : p'.inTrait = p.inTrait) : L.Lost p p' q' :=
  ⟨L.adrift_of_state h, hinTrait, (L.inTrait_eq h).symm.trans hinTrait⟩

theorem behind_refl (h : L.state i p q) : L.Behind i p p q := ⟨h, L.since_refl p, rfl⟩

/-! ## From two states -/

namespace At

theorem pure {a : α} {b : β} (hs : L.state i p q) (h : V a b) :
    L.At i 0 p q V (Pure.pure a) (Pure.pure b) := .ok h ⟨i, Nat.le_refl i, behind_refl hs⟩

theorem throw {e e' : SyntaxError} (hs : L.state i p q) (h : L.told e e') :
    L.At i k p q V (MonadExcept.throw e) (MonadExcept.throw e') :=
  .error h (lost_of_state hs rfl)

theorem mono {k' : Nat} (h : L.At i k p q V x y) (hk : k' ≤ k) (hV : ∀ a b, V a b → V' a b) :
    L.At i k' p q V' x y := by
  refine Meets.mono h (fun _ _ h => h) hV ?_
  rintro p' q' ⟨j, hj, hbehind⟩
  exact ⟨j, by omega, hbehind⟩

theorem weaken (h : L.At i k p q V x y) : L.At i 0 p q V x y :=
  h.mono (Nat.zero_le k) fun _ _ h => h

/-- Readings one after the other; the second ones may make use of where the first one led. -/
theorem bindRun {l m : Nat} (hx : L.At i l p q V x y)
    (hf : ∀ a b j p' q', x.run p = (.ok a, p') → V a b → j + l ≤ i → L.Behind j p p' q' →
      L.At j m p' q' W (f a) (g b)) (hk : k ≤ l + m) :
    L.At i k p q W (x >>= f) (y >>= g) := by
  refine Meets.bind hx (fun _ _ h => h) ?_
  rintro a b p' q' hrun hV ⟨j, hj, hbehind⟩
  refine Meets.mono (hf a b j p' q' hrun hV hj hbehind) ?_ (fun _ _ h => h) ?_
  · exact fun _ _ hlost => hlost.trans hbehind.inTrait_eq
  · rintro p'' q'' ⟨j', hj', hbehind'⟩
    exact ⟨j', by omega, hbehind.trans hbehind'⟩

/-- The second readings tell what is known of the way that both of them take. -/
theorem bindFrom {l m : Nat} (hx : L.At i l p q V x y)
    (hf : ∀ a b j p' q', x.run p = (.ok a, p') → V a b → j + l ≤ i → L.Behind j p p' q' →
      L.From j m p p' q' W (f a) (g b)) (hk : k ≤ l + m) : L.At i k p q W (x >>= f) (y >>= g) := by
  refine Meets.bind hx (fun _ _ h => h) ?_
  rintro a b p' q' hrun hV ⟨j, hj, hbehind⟩
  refine Meets.mono (hf a b j p' q' hrun hV hj hbehind) (fun _ _ h => h) (fun _ _ h => h) ?_
  rintro p'' q'' ⟨j', hj', hbehind'⟩
  exact ⟨j', by omega, hbehind'⟩

theorem bind (hx : L.At i 0 p q V x y) (hi : i < n)
    (hf : ∀ a b, V a b → L.Below n k W (f a) (g b)) : L.At i k p q W (x >>= f) (y >>= g) :=
  hx.bindRun (fun a b _ _ _ _ hV hj hbehind => hf a b hV (by omega) hbehind.state) (by omega)

/-- Behind a token that was taken, less is left. -/
theorem after (hx : L.At i 1 p q V x y) (hi : i ≤ n)
    (hf : ∀ a b, V a b → L.Below n 0 W (f a) (g b)) : L.At i 1 p q W (x >>= f) (y >>= g) :=
  hx.bindRun (fun a b _ _ _ _ hV hj hbehind => hf a b hV (by omega) hbehind.state) (by omega)

theorem ite {c : Prop} [Decidable c] (hx : c → L.At i k p q V x y)
    (hy : ¬c → L.At i k p q V x' y') :
    L.At i k p q V (if c then x else x') (if c then y else y') := by
  split
  · next h => exact hx h
  · next h => exact hy h

/-! ### What the states show -/

theorem kind (hs : L.state i p q) {f : TokenKind → Parse Buffer γ} {g : TokenKind → Parse Buffer δ}
    (h : L.At i k p q W (f p.current.kind) (g p.current.kind)) :
    L.At i k p q W (Parser.kind >>= f) (Parser.kind >>= g) := by
  unfold At From at h ⊢
  rw [run_bind_ok (run_kind p), run_bind_ok (run_kind q), ← L.kind_eq hs]
  exact h

theorem check (hs : L.state i p q) {c : TokenKind} {f : Bool → Parse Buffer γ}
    {g : Bool → Parse Buffer δ} (htrue : p.current.kind = c → L.At i k p q W (f true) (g true))
    (hfalse : p.current.kind ≠ c → L.At i k p q W (f false) (g false)) :
    L.At i k p q W (Parser.check c >>= f) (Parser.check c >>= g) := by
  unfold At From at htrue hfalse ⊢
  rw [run_bind_ok (run_check c p), run_bind_ok (run_check c q), ← L.kind_eq hs]
  by_cases hc : p.current.kind = c
  · rw [decide_eq_true hc]
    exact htrue hc
  · rw [decide_eq_false hc]
    exact hfalse hc

theorem getThen {f : Parser Buffer → Parse Buffer γ} {g : Parser Buffer → Parse Buffer δ}
    (h : L.At i k p q W (f p) (g q)) :
    L.At i k p q W (MonadState.get >>= f) (MonadState.get >>= g) := h

/-- A place that errors can be told at. -/
def Known (L : Lockstep) (b b' : Bookmark) : Prop :=
  ∀ fault : SyntaxFault, fault ≠ .tooDeep → L.told ⟨fault, b.place, none⟩ ⟨fault, b'.place, none⟩

theorem save (hs : L.state i p q) {f : Bookmark → Parse Buffer γ} {g : Bookmark → Parse Buffer δ}
    (h : Known L ⟨p.start⟩ ⟨q.start⟩ → L.At i k p q W (f ⟨p.start⟩) (g ⟨q.start⟩)) :
    L.At i k p q W (Parser.save >>= f) (Parser.save >>= g) :=
  h fun _ hfault => L.told_start hs hfault

theorem listBound (hs : L.state i p q) {f : Nat → Parse Buffer γ} {g : Nat → Parse Buffer δ}
    (h : ∀ steps steps', i < steps → i < steps' → L.At i k p q W (f steps) (g steps')) :
    L.At i k p q W (Parser.listBound >>= f) (Parser.listBound >>= g) := by
  have hleft := L.le_left hs
  have hright := L.le_right hs
  refine h p.bound q.bound ?_ ?_
  · unfold Parser.bound
    omega
  · unfold Parser.bound
    omega

/-! ### Failing -/

theorem failHere (hs : L.state i p q) {fault : String → SyntaxFault}
    (h : ∀ text, fault text ≠ .tooDeep) :
    L.At i k p q V (Parser.failHere fault) (Parser.failHere fault) := by
  have htold := L.told_here hs (h p.current.text)
  refine Meets.error ?_ (lost_of_state hs rfl)
  rw [← L.text_eq hs]
  exact htold

theorem failAt (hs : L.state i p q) {b b' : Bookmark} (hb : Known L b b') {fault : SyntaxFault}
    (h : fault ≠ .tooDeep) :
    L.At i k p q V (Parser.failAt fault b.place) (Parser.failAt fault b'.place) :=
  .throw hs (hb fault h)

theorem failAtStart (hs : L.state i p q) {fault : SyntaxFault} (h : fault ≠ .tooDeep) :
    L.At i k p q V (Parser.failAtStart fault) (Parser.failAtStart fault) :=
  .throw hs (L.told_start hs h)

theorem unexpected (hs : L.state i p q) : L.At i k p q V Parser.unexpected Parser.unexpected :=
  failHere hs nofun

theorem expectedOneOf (hs : L.state i p q) (kinds : List TokenKind) :
    L.At i k p q V (Parser.expectedOneOf kinds) (Parser.expectedOneOf kinds) := failHere hs nofun

/-! ### Taking tokens -/

/-- What follows a token that was taken may make use of what it was, and of the fresh one. -/
theorem advanceThen (hs : L.state i p q) (heof : p.current.kind ≠ .eof)
    (hself : p.current.kind = Keyword.selfKw → p.inTrait = true) {f : Token → Parse Buffer γ}
    {g : Token → Parse Buffer δ}
    (hf : ∀ j p' q', j < i → (advance : Parse Buffer Token).run p = (.ok p.current, p') →
      L.fresh j p' q' → L.At j 0 p' q' W (f p.current) (g q.current)) :
    L.At i 1 p q W (Parser.advance >>= f) (Parser.advance >>= g) := by
  have hinTrait : ((advance : Parse Buffer Token).run p).2.inTrait = p.inTrait := inTrait_advance
  have hinTrait' : ((advance : Parse Buffer Token).run q).2.inTrait = q.inTrait := inTrait_advance
  have hadvance := L.advance_fresh hs
  unfold At From
  rcases hp : (advance : Parse Buffer Token).run p with ⟨r, p'⟩
  rcases hq : (advance : Parse Buffer Token).run q with ⟨r', q'⟩
  rw [hp] at hinTrait
  rw [hq] at hinTrait'
  rw [hp, hq] at hadvance
  cases hadvance with
  | error told states =>
    rw [run_bind_error hp, run_bind_error hq]
    exact .error told ⟨states, hinTrait, hinTrait'.trans (L.inTrait_eq hs).symm⟩
  | ok value states =>
    obtain ⟨rfl, rfl⟩ := value
    obtain ⟨j, hfresh, -, hlt⟩ := states
    have hj := hlt heof
    rw [run_bind_ok hp, run_bind_ok hq]
    refine Meets.mono (hf j p' q' hj hp hfresh) ?_ (fun _ _ h => h) ?_
    · exact fun _ _ hlost => hlost.trans hinTrait
    · rintro p'' q'' ⟨j', hj', hbehind⟩
      have hfirst : L.Behind j p p' q' :=
        ⟨L.state_of_fresh hfresh, L.since_advance hs hp hself, hinTrait⟩
      exact ⟨j', by omega, hfirst.trans hbehind⟩

/-- Behind the last token, there is as much left as before. -/
theorem takeAny (hs : L.state i p q) (hself : p.current.kind = Keyword.selfKw → p.inTrait = true) :
    L.At i 0 p q (fun _ _ => True) Parser.advance Parser.advance := by
  have hinTrait : ((advance : Parse Buffer Token).run p).2.inTrait = p.inTrait := inTrait_advance
  have hinTrait' : ((advance : Parse Buffer Token).run q).2.inTrait = q.inTrait := inTrait_advance
  have hadvance := L.advance_fresh hs
  unfold At From
  rcases hp : (advance : Parse Buffer Token).run p with ⟨r, p'⟩
  rcases hq : (advance : Parse Buffer Token).run q with ⟨r', q'⟩
  rw [hp] at hinTrait
  rw [hq] at hinTrait'
  rw [hp, hq] at hadvance
  cases hadvance with
  | error told states =>
    exact .error told ⟨states, hinTrait, hinTrait'.trans (L.inTrait_eq hs).symm⟩
  | ok value states =>
    obtain ⟨j, hfresh, hj, -⟩ := states
    exact .ok trivial ⟨j, hj, L.state_of_fresh hfresh, L.since_advance hs hp hself, hinTrait⟩

/-- Two tokens that say the same. -/
def Same (t t' : Token) : Prop := t.kind = t'.kind ∧ t.text = t'.text

theorem advance (hs : L.state i p q) (heof : p.current.kind ≠ .eof)
    (hself : p.current.kind = Keyword.selfKw → p.inTrait = true) :
    L.At i 1 p q (fun t t' => Same t t' ∧ t = p.current) Parser.advance Parser.advance := by
  have h := advanceThen (f := Pure.pure) (g := Pure.pure)
    (W := fun t t' => Same t t' ∧ t = p.current) hs heof hself fun j p' q' hj hrun hfresh =>
      .pure (L.state_of_fresh hfresh) ⟨⟨L.kind_eq hs, L.text_eq hs⟩, rfl⟩
  rwa [bind_pure] at h

theorem dropAny (hs : L.state i p q) (heof : p.current.kind ≠ .eof)
    (hself : p.current.kind ≠ Keyword.selfKw) : L.At i 1 p q Eq Parser.drop Parser.drop :=
  (At.advance hs heof fun h => absurd h hself).bindRun
    (fun _ _ _ _ _ _ _ _ hbehind => .pure hbehind.state rfl) (Nat.le_refl 1)

theorem drop (hs : L.state i p q) {c : Symbol} (hkind : p.current.kind = c) :
    L.At i 1 p q Eq Parser.drop Parser.drop :=
  dropAny hs (by rw [hkind]; nofun) (by rw [hkind]; nofun)

theorem dropWord (hs : L.state i p q) {k : Keyword} (hkind : p.current.kind = k)
    (hself : k ≠ .selfKw) : L.At i 1 p q Eq Parser.drop Parser.drop := by
  refine dropAny hs (by rw [hkind]; nofun) fun h => ?_
  rw [hkind] at h
  exact hself (TokenKind.keyword.inj h)

/-- A token that has to be of a kind is taken, or both readings fail. -/
theorem markThen (hs : L.state i p q) {c : TokenKind} {f : Unit → Parse Buffer γ}
    {g : Unit → Parse Buffer δ}
    (hf : ∀ j p' q' t, j < i → p.current.kind = c →
      (Parser.advance : Parse Buffer Token).run p = (.ok t, p') → L.fresh j p' q' →
      L.At j 0 p' q' W (f ()) (g ()))
    (heof : c ≠ .eof) (hself : c ≠ Keyword.selfKw) :
    L.At i 1 p q W (Parser.mark c >>= f) (Parser.mark c >>= g) := by
  unfold Parser.mark Parser.expect
  rw [bind_assoc, bind_assoc, bind_assoc, bind_assoc]
  refine check hs (fun hkind => ?_) fun _ => ?_
  · subst hkind
    simp only [if_true, pure_bind]
    exact advanceThen hs heof (fun h => absurd h hself) fun j p' q' hj hrun hfresh =>
      hf j p' q' _ hj rfl hrun hfresh
  · have hfail : L.At i 1 p q (fun (_ _ : Token) => False) (Parser.failHere (.wrongToken c))
      (Parser.failHere (.wrongToken c)) := failHere hs nofun
    exact hfail.bindRun (m := 0) (fun _ _ _ _ _ _ h => h.elim) (Nat.le_refl 1)

/-- A name is taken, or both readings fail. -/
theorem expectIdentifierThen (hs : L.state i p q) {f : String → Parse Buffer γ}
    {g : String → Parse Buffer δ}
    (hf : ∀ j p' q' t name, j < i → p.current.kind = .identifier →
      (Parser.advance : Parse Buffer Token).run p = (.ok t, p') → L.fresh j p' q' →
      L.At j 0 p' q' W (f name) (g name)) :
    L.At i 1 p q W (Parser.expectIdentifier >>= f) (Parser.expectIdentifier >>= g) := by
  unfold Parser.expectIdentifier
  rw [bind_assoc, bind_assoc]
  refine check hs (fun hkind => ?_) fun _ => ?_
  · simp only [if_true, bind_assoc, pure_bind]
    refine advanceThen hs (by rw [hkind]; nofun) (fun h => ?_) fun j p' q' hj hrun hfresh => ?_
    · rw [hkind] at h
      cases h
    · rw [← L.text_eq hs]
      exact hf j p' q' _ _ hj hkind hrun hfresh
  · have hfail : L.At i 1 p q (fun (_ _ : String) => False) (Parser.failHere .missingIdentifier)
      (Parser.failHere .missingIdentifier) := failHere hs nofun
    exact hfail.bindRun (m := 0) (fun _ _ _ _ _ _ h => h.elim) (Nat.le_refl 1)

theorem narrow (hs : L.state i p q) {whole part : Symbol} (hwhole : p.current.kind = whole)
    (hpart : whole.cut? = some part) :
    L.At i 0 p q Eq (Parser.narrow part 1) (Parser.narrow part 1) :=
  .ok rfl ⟨i, Nat.le_refl i, L.narrow_state hs hwhole hpart, L.since_narrow hs hwhole hpart, rfl⟩

/-! ### Looking further -/

/-- What follows a look at the next token may make use of what is read then. -/
theorem peekThen (hs : L.state i p q) {f : Token → Parse Buffer γ} {g : Token → Parse Buffer δ}
    (hf : ∀ t t', Same t t' →
      (∀ s p', (Parser.advance : Parse Buffer Token).run p = (.ok s, p') → p'.current = t) →
      L.At i k p q W (f t) (g t')) :
    L.At i k p q W (Parser.peek >>= f) (Parser.peek >>= g) := by
  have hadvance := L.advance_fresh hs
  unfold At From at hf ⊢
  rcases Parser.run_peek p with ⟨t, p', hp, hpeek⟩ | ⟨e, p', hp, hpeek⟩
  · rcases Parser.run_peek q with ⟨t', q', hq, hpeek'⟩ | ⟨e', q', hq, hpeek'⟩
    · rw [hp, hq] at hadvance
      cases hadvance with
      | ok value states =>
        obtain ⟨j, hfresh, -⟩ := states
        have hstate := L.state_of_fresh hfresh
        rw [run_bind_ok hpeek, run_bind_ok hpeek']
        refine hf _ _ ⟨L.kind_eq hstate, L.text_eq hstate⟩ fun s p'' hrun => ?_
        rw [hp] at hrun
        rw [(Prod.mk.inj hrun).2]
    · rw [hp, hq] at hadvance
      cases hadvance
  · rcases Parser.run_peek q with ⟨t', q', hq, hpeek'⟩ | ⟨e', q', hq, hpeek'⟩
    · rw [hp, hq] at hadvance
      cases hadvance
    · rw [hp, hq] at hadvance
      cases hadvance with
      | error told states =>
        rw [run_bind_error hpeek, run_bind_error hpeek']
        exact .error told (lost_of_state hs rfl)

/-- From wherever readings stopped, they go on from the token that they go back to. -/
theorem goBackThen (hfresh : L.fresh i p q) (hlost : L.Lost p p' q') {f : Unit → Parse Buffer γ}
    {g : Unit → Parse Buffer δ}
    (hf : ∀ p'' q'', L.fresh i p'' q'' → L.At i k p'' q'' W (f ()) (g ())) :
    L.From i k p p' q' W (Parser.goBack ⟨p.start⟩ >>= f) (Parser.goBack ⟨q.start⟩ >>= g) := by
  have hinTrait : ((Parser.goBack ⟨p.start⟩ : Parse Buffer Unit).run p').2.inTrait = p'.inTrait :=
    inTrait_goBack _
  have hinTrait' : ((Parser.goBack ⟨q.start⟩ : Parse Buffer Unit).run q').2.inTrait = q'.inTrait :=
    inTrait_goBack _
  have hback := L.goBack_fresh hfresh hlost.adrift
  unfold From
  rcases hp : (Parser.goBack ⟨p.start⟩ : Parse Buffer Unit).run p' with ⟨r, p''⟩
  rcases hq : (Parser.goBack ⟨q.start⟩ : Parse Buffer Unit).run q' with ⟨r', q''⟩
  rw [hp] at hinTrait
  rw [hq] at hinTrait'
  rw [hp, hq] at hback
  replace hinTrait : p''.inTrait = p.inTrait := hinTrait.trans hlost.left_eq
  cases hback with
  | error told states =>
    rw [run_bind_error hp, run_bind_error hq]
    exact .error told ⟨states, hinTrait, hinTrait'.trans hlost.right_eq⟩
  | ok value states =>
    have hbehind : L.Behind i p p'' q'' :=
      ⟨L.state_of_fresh states, L.since_goBack hfresh hlost.adrift hlost.left_eq hp, hinTrait⟩
    rw [run_bind_ok hp, run_bind_ok hq]
    refine Meets.mono (hf p'' q'' states) ?_ (fun _ _ h => h) ?_
    · exact fun _ _ hlost => hlost.trans hinTrait
    · rintro r s ⟨j, hj, hbehind'⟩
      exact ⟨j, hj, hbehind.trans hbehind'⟩

/-- What follows an attempt sees where it ended. -/
theorem attemptThen (hx : L.At i 0 p q V x y) {f : Except SyntaxError α → Parse Buffer γ}
    {g : Except SyntaxError β → Parse Buffer δ}
    (hok : ∀ a b j p' q', V a b → L.Behind j p p' q' → L.From i k p p' q' W (f (.ok a)) (g (.ok b)))
    (herror : ∀ e e' p' q', L.told e e' → L.Lost p p' q' →
      L.From i k p p' q' W (f (.error e)) (g (.error e'))) :
    L.At i k p q W (Parser.attempt x >>= f) (Parser.attempt y >>= g) := by
  unfold At at hx ⊢
  unfold From at hx hok herror ⊢
  rcases hp : x.run p with ⟨r, p'⟩
  rcases hq : y.run q with ⟨r', q'⟩
  rw [hp, hq] at hx
  rw [run_bind_ok (run_attempt hp), run_bind_ok (run_attempt hq)]
  cases hx with
  | ok value states =>
    obtain ⟨j, -, hbehind⟩ := states
    exact hok _ _ j _ _ value hbehind
  | error told states => exact herror _ _ _ _ told states

/-- A part that is read ahead may take whatever it likes. -/
theorem lookAhead (hfresh : L.fresh i p q)
    (hx : Meets L.told (L.Lost p) V (L.Lost p) (x.run p) (y.run q)) :
    L.At i 0 p q V (Parser.lookAhead x) (Parser.lookAhead y) := by
  have hback {r : Except SyntaxError α} {r' : Except SyntaxError β} {p' q' : Parser Buffer}
      (hlost : L.Lost p p' q')
      (hsettle : ∀ p'' q'', L.fresh i p'' q'' → L.At i 0 p'' q'' V (settle r) (settle r')) :
      L.From i 0 p p' q' V (do
        Parser.goBack ⟨p.start⟩
        settle r) (do
        Parser.goBack ⟨q.start⟩
        settle r') := goBackThen hfresh hlost hsettle
  unfold Parser.lookAhead
  refine save (L.state_of_fresh hfresh) fun _ => ?_
  unfold At From at hback ⊢
  rcases hp : x.run p with ⟨r, p'⟩
  rcases hq : y.run q with ⟨r', q'⟩
  rw [hp, hq] at hx
  rw [run_bind_ok (run_attempt hp), run_bind_ok (run_attempt hq)]
  cases hx with
  | ok value states =>
    exact hback states fun p'' q'' hfresh => At.pure (L.state_of_fresh hfresh) value
  | error told states =>
    exact hback states fun p'' q'' hfresh => At.throw (L.state_of_fresh hfresh) told

/-! ### Parts of a reading -/

theorem inContext (context : ErrorContext) (hx : L.At i k p q V x y) :
    L.At i k p q V (Parser.inContext context x) (Parser.inContext context y) := by
  unfold At From Parser.inContext at *
  rw [run_tryCatch, run_tryCatch]
  rcases hp : x.run p with ⟨r, p'⟩
  rcases hq : y.run q with ⟨r', q'⟩
  rw [hp, hq] at hx
  cases hx with
  | ok value states => exact .ok value states
  | error told states => exact .error (L.told_within context told) states

/-- A part of a trait is read as it is, but for the flag; what is known of the way is told apart. -/
theorem inTraitMode {r : Parser Buffer} (hinTrait : p.inTrait = r.inTrait) (hs : L.state i p q)
    (hx : L.At i k { p with inTrait := true } { q with inTrait := true } V x y)
    (hsince : ∀ a p', x.run { p with inTrait := true } = (.ok a, p') →
      L.since r { p' with inTrait := r.inTrait }) :
    L.From i k r p q V (Parser.inTraitMode x) (Parser.inTraitMode y) := by
  unfold At From at hx
  unfold From
  rw [run_inTraitMode, run_inTraitMode, ← L.inTrait_eq hs, hinTrait]
  rcases hp : x.run { p with inTrait := true } with ⟨s, p'⟩
  rcases hq : y.run { q with inTrait := true } with ⟨s', q'⟩
  rw [hp, hq] at hx
  cases hx with
  | ok value states =>
    obtain ⟨j, hj, hbehind⟩ := states
    exact .ok value ⟨j, hj, L.state_withTrait _ hbehind.state, hsince _ _ hp, rfl⟩
  | error told states =>
    exact .error told ⟨L.adrift_withTrait _ states.adrift, rfl, rfl⟩

end At

end Lockstep

end ScriptFront
