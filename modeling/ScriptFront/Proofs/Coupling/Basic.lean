import ScriptFront.Grammar.Yield

/-!
# Coupled readings

Two readings that keep states of two kinds are *coupled* if, from corresponding states, they come
to corresponding values, or stop at the same error, and leave corresponding states in both cases.

- `Matching V`: corresponding results; values correspond by `V`, an error only to itself.
- `Coupled R V`: coupled readings; the states correspond by `R`.
- `Coupled.bind`, `Coupled.mapEq`, …: one rule for each way to put readings together. A reading
  that is written once for all sources and modes is coupled with itself by these rules.
- `Yield.Agree`: how the yields of two modes correspond.
-/

namespace ScriptFront

/-- Corresponding results: two values that correspond, or one error twice. -/
inductive Matching {ε α β : Type} (V : α → β → Prop) : Except ε α → Except ε β → Prop where
  | ok {a : α} {b : β} (h : V a b) : Matching V (.ok a) (.ok b)
  | error (e : ε) : Matching V (.error e) (.error e)

/-- From states that correspond by `R`, both readings come to corresponding results, and again to
states that correspond. -/
def Coupled {ε s t α β : Type} (R : s → t → Prop) (V : α → β → Prop)
    (x : ExceptT ε (StateM s) α) (y : ExceptT ε (StateM t) β) : Prop :=
  ∀ ⦃p : s⦄ ⦃q : t⦄, R p q →
    Matching V (x.run p).1 (y.run q).1 ∧ R (x.run p).2 (y.run q).2

/-! ## Readings put together, run part by part -/

section Run

variable {ε s α β : Type} {x : ExceptT ε (StateM s) α} {p p' : s}

theorem run_bind_ok {f : α → ExceptT ε (StateM s) β} {a : α} (h : x.run p = (.ok a, p')) :
    (x >>= f).run p = (f a).run p' := by
  show ExceptT.bindCont f (x.run p).1 (x.run p).2 = _
  rw [h]
  rfl

theorem run_bind_error {f : α → ExceptT ε (StateM s) β} {e : ε}
    (h : x.run p = (.error e, p')) : (x >>= f).run p = (.error e, p') := by
  show ExceptT.bindCont f (x.run p).1 (x.run p).2 = _
  rw [h]
  rfl

theorem run_get_bind {f : s → ExceptT ε (StateM s) β} : (get >>= f).run p = (f p).run p := rfl

/-- A part that cannot fail comes to a value. -/
theorem run_lift_bind {act : StateM s α} {f : α → ExceptT ε (StateM s) β} {a : α}
    (h : act.run p = (a, p')) : (ExceptT.lift act >>= f).run p = (f a).run p' :=
  run_bind_ok (congrArg (fun r : α × s => ((.ok r.1, r.2) : Except ε α × s)) h)

/-- A reading that succeeds has succeeded in its first part. -/
theorem of_run_bind {f : α → ExceptT ε (StateM s) β} {b : β} (h : (x >>= f).run p = (.ok b, p')) :
    ∃ a q, x.run p = (.ok a, q) ∧ (f a).run q = (.ok b, p') := by
  rcases hx : x.run p with ⟨e | a, q⟩
  · rw [run_bind_error hx] at h
    cases h
  · exact ⟨a, q, rfl, (run_bind_ok hx).symm.trans h⟩

/-- What catching an error comes to is told by what the part inside comes to. -/
theorem run_tryCatch (f : ε → ExceptT ε (StateM s) α) :
    (tryCatch x f).run p = match x.run p with
      | (.ok a, p') => (.ok a, p')
      | (.error e, p') => (f e).run p' := by
  show (match (x.run p).1 with
      | .ok a => (pure (.ok a) : StateM s (Except ε α))
      | .error e => (f e).run) (x.run p).2 = _
  rcases x.run p with ⟨_ | _, _⟩ <;> rfl

end Run

/-! ## Rules -/

namespace Matching

variable {ε α β : Type} {V W : α → β → Prop}

theorem mono {a : Except ε α} {b : Except ε β} (h : Matching V a b)
    (hV : ∀ a b, V a b → W a b) : Matching W a b := by
  cases h with
  | ok h => exact .ok (hV _ _ h)
  | error e => exact .error e

/-- Results that correspond by equality are equal. -/
theorem eq {a b : Except ε α} (h : Matching Eq a b) : a = b := by
  cases h with
  | ok h => rw [h]
  | error e => rfl

end Matching

namespace Coupled

variable {ε s t α β γ δ : Type} {R : s → t → Prop}

theorem pure {V : α → β → Prop} {a : α} {b : β} (h : V a b) :
    Coupled R V (Pure.pure a : ExceptT ε (StateM s) α) (Pure.pure b) :=
  fun _ _ hR => ⟨.ok h, hR⟩

theorem throw {V : α → β → Prop} (e : ε) :
    Coupled R V (MonadExcept.throw e : ExceptT ε (StateM s) α) (MonadExcept.throw e) :=
  fun _ _ hR => ⟨.error e, hR⟩

/-- Readings one after the other are coupled if the first ones are, and the second ones are for
all corresponding values. -/
theorem bind {V : α → β → Prop} {W : γ → δ → Prop} {x : ExceptT ε (StateM s) α}
    {y : ExceptT ε (StateM t) β} {f : α → ExceptT ε (StateM s) γ}
    {g : β → ExceptT ε (StateM t) δ} (h : Coupled R V x y)
    (hf : ∀ a b, V a b → Coupled R W (f a) (g b)) : Coupled R W (x >>= f) (y >>= g) := by
  intro p q hR
  obtain ⟨hres, hst⟩ := h hR
  rcases hx : x.run p with ⟨rx, p'⟩
  rcases hy : y.run q with ⟨ry, q'⟩
  rw [hx, hy] at hres hst
  cases hres with
  | ok hV =>
    rw [run_bind_ok hx, run_bind_ok hy]
    exact hf _ _ hV hst
  | error e =>
    rw [run_bind_error hx, run_bind_error hy]
    exact ⟨.error e, hst⟩

/-- Coupled first parts with equal values. -/
theorem bindEq {W : γ → δ → Prop} {x : ExceptT ε (StateM s) α} {y : ExceptT ε (StateM t) α}
    {f : α → ExceptT ε (StateM s) γ} {g : α → ExceptT ε (StateM t) δ} (h : Coupled R Eq x y)
    (hf : ∀ a, Coupled R W (f a) (g a)) : Coupled R W (x >>= f) (y >>= g) :=
  h.bind fun a _ hab => hab ▸ hf a

theorem mapEq {x : ExceptT ε (StateM s) α} {y : ExceptT ε (StateM t) α}
    (h : Coupled R Eq x y) (f : α → γ) :
    Coupled R Eq (do return f (← x)) (do return f (← y)) :=
  h.bindEq fun _ => .pure rfl

/-- What coupled readings come to. -/
theorem cases {V : α → β → Prop} {x : ExceptT ε (StateM s) α} {y : ExceptT ε (StateM t) β} {p : s}
    {q : t} (h : Coupled R V x y) (hR : R p q) :
    (∃ a b p' q', x.run p = (.ok a, p') ∧ y.run q = (.ok b, q') ∧ V a b ∧ R p' q') ∨
      ∃ e p' q', x.run p = (.error e, p') ∧ y.run q = (.error e, q') ∧ R p' q' := by
  obtain ⟨hres, hst⟩ := h hR
  rcases hx : x.run p with ⟨rx, p'⟩
  rcases hy : y.run q with ⟨ry, q'⟩
  rw [hx, hy] at hres hst
  cases hres with
  | ok hV => exact .inl ⟨_, _, _, _, rfl, rfl, hV, hst⟩
  | error e => exact .inr ⟨_, _, _, rfl, rfl, hst⟩

/-- A case distinction that both readings make. -/
theorem ite {V : α → β → Prop} (c : Prop) [Decidable c] {x x' : ExceptT ε (StateM s) α}
    {y y' : ExceptT ε (StateM t) β} (h : Coupled R V x y) (h' : Coupled R V x' y') :
    Coupled R V (if c then x else x') (if c then y else y') := by
  split
  · exact h
  · exact h'

end Coupled

/-! ## Yields -/

namespace Yield

/-- The yields of two modes agree unless both are trees that differ. -/
def Agree {m n : Mode} {α : Type} (a : Yield m α) (b : Yield n α) : Prop :=
  match m, n, a, b with
  | .build, .build, a, b => a = b
  | _, _, _, _ => True

variable {m n : Mode} {α β : Type}

theorem agree_pure (a : α) : Agree (pure a : Yield m α) (pure a : Yield n α) := by
  cases m <;> cases n <;> trivial

namespace Agree

theorem map {a : Yield m α} {b : Yield n α} (h : Agree a b) (f : α → β) :
    Agree (f <$> a) (f <$> b) := by
  cases m <;> cases n <;> try trivial
  exact congrArg f h

theorem seq {f : Yield m (α → β)} {g : Yield n (α → β)} {a : Yield m α} {b : Yield n α}
    (hf : Agree f g) (h : Agree a b) : Agree (f <*> a) (g <*> b) := by
  cases m <;> cases n <;> try trivial
  cases hf
  cases h
  rfl

theorem push {list : Yield m (Array α)} {list' : Yield n (Array α)} {a : Yield m α}
    {b : Yield n α} (hlist : Agree list list') (h : Agree a b) :
    Agree (list.push a) (list'.push b) :=
  (hlist.map Array.push).seq h

/-- Within one mode, only equal yields agree. -/
theorem eq {a b : Yield m α} (h : Agree a b) : a = b := by
  cases m with
  | build => exact h
  | check => exact check_unique a b

end Agree

end Yield

end ScriptFront
