import ScriptFront.Proofs.Coupling.Basic
import ScriptFront.Proofs.Coupling.Lookaheads

/-!
# Simulations of parsers

A `Simulation` says when a state of a reading corresponds to a state of another one, perhaps of
another source, and lists what the productions are built from: what corresponding states show, and
the steps that keep them corresponding. All that is read with these steps only is then coupled with
itself.

Where a reading stops, less may be known of the states: they are *adrift* until the reading goes
back to a bookmark. Right behind a step more is known: the token is *fresh*, and going back to it
gives it again.

A reading never goes back to any bookmark but one that it took down, and cuts nothing but symbols
that begin with a shorter one, and these behind their first byte; no more is asked of a simulation.
-/

namespace ScriptFront

open ScriptFront.Parser

/-! ## Asking the lexer -/

section Lex

variable {σ α : Type} {act : Lex σ α} {p : Parser σ} {w : Walker σ}

theorem run_modify_bind {f : Parser σ → Parser σ} {g : PUnit → Parse σ α} :
    (modify f >>= g).run p = (g ()).run (f p) := rfl

theorem run_lex_ok {a : α} (h : act.run p.lexer = (.ok a, w)) :
    (lex act).run p = (.ok a, { p with lexer := w }) := by
  change act p.lexer = _ at h
  simp only [lex, ExceptT.run, ExceptT.mk, h]

theorem run_lex_error {e : LexError} (h : act.run p.lexer = (.error e, w)) :
    (lex act).run p = (.error e.toSyntaxError, { p with lexer := w }) := by
  change act p.lexer = _ at h
  simp only [lex, ExceptT.run, ExceptT.mk, h]

theorem inTrait_lex (act : Lex σ α) (p : Parser σ) : ((lex act).run p).2.inTrait = p.inTrait := by
  rcases h : act.run p.lexer with ⟨e | a, w⟩
  · rw [run_lex_error h]
  · rw [run_lex_ok h]

variable [ByteSource σ]

theorem run_peek_ok {token : Token} (h : Lexer.next.run p.lexer = (.ok token, w)) :
    (peek : Parse σ Token).run p =
      (.ok token, { p with lexer := (Walker.reset p.lexer.place w).2 }) := by
  simp only [peek, ExceptT.run_mk, h]

theorem run_peek_error {e : LexError} (h : Lexer.next.run p.lexer = (.error e, w)) :
    (peek : Parse σ Token).run p =
      (.error e.toSyntaxError, { p with lexer := (Walker.reset p.lexer.place w).2 }) := by
  simp only [peek, ExceptT.run_mk, h]

/-- No step changes what is read of a trait. -/
theorem inTrait_advance : ((advance : Parse σ Token).run p).2.inTrait = p.inTrait := by
  unfold advance
  rcases hskip : (lex Lexer.skip).run p with ⟨e | _, p'⟩
  · rw [run_bind_error hskip, ← inTrait_lex Lexer.skip p, hskip]
  · rw [run_bind_ok hskip, run_modify_bind]
    have hp' : p'.inTrait = p.inTrait := by
      rw [← inTrait_lex Lexer.skip p, hskip]
    rcases hnext : (lex Lexer.next).run { p' with start := p'.lexer.place } with ⟨e | t, p''⟩
    · have hp'' := inTrait_lex Lexer.next { p' with start := p'.lexer.place }
      rw [hnext] at hp''
      rw [run_bind_error hnext]
      exact hp''.trans hp'
    · have hp'' := inTrait_lex Lexer.next { p' with start := p'.lexer.place }
      rw [hnext] at hp''
      rw [run_bind_ok hnext]
      exact hp''.trans hp'

theorem inTrait_peek : ((peek : Parse σ Token).run p).2.inTrait = p.inTrait := by
  rcases h : Lexer.next.run p.lexer with ⟨e | token, w⟩
  · rw [run_peek_error h]
  · rw [run_peek_ok h]

theorem inTrait_goBack (b : Bookmark) :
    ((goBack b : Parse σ Unit).run p).2.inTrait = p.inTrait := by
  unfold goBack
  rw [run_modify_bind]
  generalize hp' : ({ p with lexer := (Walker.reset b.start p.lexer).2, start := b.start } :
    Parser σ) = p'
  have hstay : p'.inTrait = p.inTrait := by rw [← hp']
  rcases hnext : (lex Lexer.next).run p' with ⟨e | t, p''⟩
  · have hp'' := inTrait_lex Lexer.next p'
    rw [hnext] at hp''
    rw [run_bind_error hnext]
    exact hp''.trans hstay
  · have hp'' := inTrait_lex Lexer.next p'
    rw [hnext] at hp''
    rw [run_bind_ok hnext]
    exact hp''.trans hstay

end Lex

/-- A part of a trait is read as it is, but for the flag. -/
theorem run_inTraitMode {σ α : Type} {part : Parse σ α} {p : Parser σ} :
    (inTraitMode part).run p = ((part.run { p with inTrait := true }).1,
      { (part.run { p with inTrait := true }).2 with inTrait := p.inTrait }) := by
  have hopen : (inTraitMode part).run p =
      (settle (part.run { p with inTrait := true }).1 : Parse σ α).run
        { (part.run { p with inTrait := true }).2 with inTrait := p.inTrait } := rfl
  rw [hopen]
  cases (part.run { p with inTrait := true }).1 <;> rfl

/-! ## Simulations -/

/-- The symbol that a longer one is cut down to: its first byte. -/
def Symbol.cut? : Symbol → Option Symbol
  | .shr | .gtEq | .shrEq => some .gt
  | .pipePipe => some .pipe
  | _ => none

/-- Two readings ended, both with values that correspond by `V` and in states that correspond by
`R`, or both at one error, which `T` holds of, in states that `E` holds of. -/
inductive Arrival {ε s t α β : Type} (T : ε → Prop) (E : s → t → Prop) (V : α → β → Prop)
    (R : s → t → Prop) : Except ε α × s → Except ε β × t → Prop where
  | ok {a : α} {b : β} {p : s} {q : t} (value : V a b) (states : R p q) :
    Arrival T E V R (.ok a, p) (.ok b, q)
  | error {e : ε} {p : s} {q : t} (told : T e) (states : E p q) :
    Arrival T E V R (.error e, p) (.error e, q)

namespace Arrival

variable {ε s t α β γ δ : Type} {T : ε → Prop} {E : s → t → Prop} {V V' : α → β → Prop}
  {W : γ → δ → Prop} {R R' : s → t → Prop} {r : Except ε α × s} {r' : Except ε β × t}

theorem mono (h : Arrival T E V R r r') (hV : ∀ a b, V a b → V' a b)
    (hR : ∀ p q, R p q → R' p q) : Arrival T E V' R' r r' := by
  cases h with
  | ok value states => exact .ok (hV _ _ value) (hR _ _ states)
  | error told states => exact .error told states

theorem matching (h : Arrival T E V R r r') : Matching V r.1 r'.1 := by
  cases h with
  | ok value states => exact .ok value
  | @error e p q told states => exact .error e

/-- What is known of the states in both cases. -/
theorem states {F : s → t → Prop} (h : Arrival T E V R r r') (hR : ∀ p q, R p q → F p q)
    (hE : ∀ p q, E p q → F p q) : F r.2 r'.2 := by
  cases h with
  | ok value states => exact hR _ _ states
  | error told states => exact hE _ _ states

/-- Readings one after the other. -/
theorem bind {x : ExceptT ε (StateM s) α} {y : ExceptT ε (StateM t) β}
    {f : α → ExceptT ε (StateM s) γ} {g : β → ExceptT ε (StateM t) δ} {p : s} {q : t}
    (h : Arrival T E V R (x.run p) (y.run q))
    (hf : ∀ a b p' q', V a b → R p' q' → Arrival T E W R' ((f a).run p') ((g b).run q')) :
    Arrival T E W R' ((x >>= f).run p) ((y >>= g).run q) := by
  rcases hx : x.run p with ⟨rx, p'⟩
  rcases hy : y.run q with ⟨ry, q'⟩
  rw [hx, hy] at h
  cases h with
  | ok value states =>
    rw [run_bind_ok hx, run_bind_ok hy]
    exact hf _ _ _ _ value states
  | error told states =>
    rw [run_bind_error hx, run_bind_error hy]
    exact .error told states

end Arrival

/-- States that correspond by `R`, in one of which the trait flag is known. -/
structure Kept {σ τ : Type} (R : Parser σ → Parser τ → Prop) (inTrait : Bool) (p : Parser σ)
    (q : Parser τ) : Prop where
  states : R p q
  inTrait_eq : p.inTrait = inTrait

/-- Readings that keep states corresponding by one relation, whether they stop or not, and leave the
trait flag as it was. -/
theorem Coupled.arrival {σ τ α β : Type} {R : Parser σ → Parser τ → Prop} {V : α → β → Prop}
    {x : Parse σ α} {y : Parse τ β} (h : Coupled R V x y) {p : Parser σ} {q : Parser τ} (hR : R p q)
    (hx : (x.run p).2.inTrait = p.inTrait) :
    Arrival (fun _ => True) (Kept R p.inTrait) V (Kept R p.inTrait) (x.run p) (y.run q) := by
  obtain ⟨hmatching, hstates⟩ := h hR
  rcases hxp : x.run p with ⟨r, p'⟩
  rcases hyq : y.run q with ⟨r', q'⟩
  rw [hxp] at hx
  rw [hxp, hyq] at hmatching hstates
  cases hmatching with
  | ok hV => exact .ok hV ⟨hstates, hx⟩
  | error e => exact .error trivial ⟨hstates, hx⟩

/-- Corresponding states of two readings. -/
structure Simulation (σ τ : Type) [ByteSource σ] [ByteSource τ] where
  /-- Which states correspond. -/
  state : Parser σ → Parser τ → Prop
  /-- Which states correspond where the current token has just been read. -/
  fresh : Parser σ → Parser τ → Prop
  /-- Which states correspond where a reading stopped. -/
  adrift : Parser σ → Parser τ → Prop
  /-- The bookmarks that may be gone back to. -/
  known : Bookmark → Prop
  /-- The errors that a reading may stop at. -/
  told : SyntaxError → Prop
  state_of_fresh : ∀ {p : Parser σ} {q : Parser τ}, fresh p q → state p q
  /-- Only these two symbols can be what is left of a longer one. -/
  fresh_of_kind : ∀ {p : Parser σ} {q : Parser τ}, state p q → p.current.kind ≠ Symbol.gt →
    p.current.kind ≠ Symbol.pipe → fresh p q
  adrift_of_state : ∀ {p : Parser σ} {q : Parser τ}, state p q → adrift p q
  current_eq : ∀ {p : Parser σ} {q : Parser τ}, state p q → p.current = q.current
  start_eq : ∀ {p : Parser σ} {q : Parser τ}, state p q → p.start = q.start
  known_start : ∀ {p : Parser σ} {q : Parser τ}, state p q → known ⟨p.start⟩
  inTrait_eq : ∀ {p : Parser σ} {q : Parser τ}, state p q → p.inTrait = q.inTrait
  extent_eq : ∀ {p : Parser σ} {q : Parser τ}, state p q → p.lexer.extent = q.lexer.extent
  name_eq : ∀ {p : Parser σ} {q : Parser τ}, state p q → p.sourceName = q.sourceName
  state_withTrait : ∀ {p : Parser σ} {q : Parser τ} (inTrait : Bool), state p q →
    state { p with inTrait } { q with inTrait }
  adrift_withTrait : ∀ {p : Parser σ} {q : Parser τ} (inTrait : Bool), adrift p q →
    adrift { p with inTrait } { q with inTrait }
  /-- An error at the current token quotes it. -/
  told_here : ∀ {p : Parser σ} {q : Parser τ} {fault : SyntaxFault}, state p q →
    (∀ f, fault ≠ .lexical f) → fault.found? = some p.current.text →
    told ⟨fault, p.current.place, none⟩
  /-- An error at a bookmark quotes nothing. -/
  told_at : ∀ {b : Bookmark} {fault : SyntaxFault}, known b → (∀ f, fault ≠ .lexical f) →
    fault.found? = none → told ⟨fault, b.place, none⟩
  told_within : ∀ {e : SyntaxError} (context : ErrorContext), told e → told (e.within context)
  advance_fresh : ∀ {p : Parser σ} {q : Parser τ}, state p q →
    Arrival told (Kept adrift p.inTrait) Eq (Kept fresh p.inTrait)
      ((advance : Parse σ Token).run p) ((advance : Parse τ Token).run q)
  peek_state : ∀ {p : Parser σ} {q : Parser τ}, state p q →
    Arrival told (Kept adrift p.inTrait) Eq (Kept state p.inTrait)
      ((peek : Parse σ Token).run p) ((peek : Parse τ Token).run q)
  goBack_fresh : ∀ {b : Bookmark} {p : Parser σ} {q : Parser τ}, known b → adrift p q →
    Arrival told (Kept adrift p.inTrait) Eq (Kept fresh p.inTrait)
      ((goBack b : Parse σ Unit).run p) ((goBack b : Parse τ Unit).run q)
  narrow_state : ∀ {p : Parser σ} {q : Parser τ} {whole part : Symbol}, state p q →
    p.current.kind = whole → whole.cut? = some part →
    state ((narrow part 1).run p).2 ((narrow part 1).run q).2

namespace Simulation

variable {σ τ : Type} [ByteSource σ] [ByteSource τ] (S : Simulation σ τ)

/-! ## Coupled readings -/

section Coupled

variable {α β γ δ : Type}

/-- From two states, both readings come to corresponding results; the trait flag is what it was. -/
def CoupledAt (p : Parser σ) (q : Parser τ) (V : α → β → Prop) (x : Parse σ α) (y : Parse τ β) :
    Prop :=
  Arrival S.told (Kept S.adrift p.inTrait) V (Kept S.state p.inTrait) (x.run p) (y.run q)

/-- From all corresponding states, both readings come to corresponding results. -/
def Coupled (V : α → β → Prop) (x : Parse σ α) (y : Parse τ β) : Prop :=
  ∀ ⦃p : Parser σ⦄ ⦃q : Parser τ⦄, S.state p q → S.CoupledAt p q V x y

variable {S} {V : α → β → Prop} {W : γ → δ → Prop} {p : Parser σ} {q : Parser τ}
  {x x' : Parse σ α} {y y' : Parse τ β} {f : α → Parse σ γ} {g : β → Parse τ δ}

theorem CoupledAt.bind (h : S.CoupledAt p q V x y)
    (hf : ∀ a b, V a b → S.Coupled W (f a) (g b)) : S.CoupledAt p q W (x >>= f) (y >>= g) := by
  unfold CoupledAt at h ⊢
  refine Arrival.bind h ?_
  rintro a b p' q' hV ⟨hs, hinTrait⟩
  have hrest := hf a b hV hs
  unfold CoupledAt at hrest
  rw [hinTrait] at hrest
  exact hrest

namespace Coupled

theorem pure {a : α} {b : β} (h : V a b) :
    S.Coupled V (Pure.pure a : Parse σ α) (Pure.pure b) :=
  fun _ _ hs => .ok h ⟨hs, rfl⟩

theorem throw {e : SyntaxError} (h : S.told e) :
    S.Coupled V (MonadExcept.throw e : Parse σ α) (MonadExcept.throw e) :=
  fun _ _ hs => .error h ⟨S.adrift_of_state hs, rfl⟩

/-- Readings one after the other are coupled if the first ones are, and the second ones are for
all corresponding values. -/
theorem bind (h : S.Coupled V x y) (hf : ∀ a b, V a b → S.Coupled W (f a) (g b)) :
    S.Coupled W (x >>= f) (y >>= g) :=
  fun _ _ hs => (h hs).bind hf

/-- Coupled first parts with equal values. -/
theorem bindEq {x : Parse σ α} {y : Parse τ α} {f : α → Parse σ γ} {g : α → Parse τ δ}
    (h : S.Coupled Eq x y) (hf : ∀ a, S.Coupled W (f a) (g a)) :
    S.Coupled W (x >>= f) (y >>= g) :=
  h.bind fun a _ hab => hab ▸ hf a

theorem mapEq {x : Parse σ α} {y : Parse τ α} (h : S.Coupled Eq x y) (f : α → γ) :
    S.Coupled Eq (do return f (← x)) (do return f (← y)) :=
  h.bindEq fun _ => .pure rfl

/-- What is made of the yields of coupled readings agrees. -/
theorem yieldMap {m n : Mode} {x : Parse σ (Yield m α)} {y : Parse τ (Yield n α)}
    (h : S.Coupled Yield.Agree x y) (f : α → γ) :
    S.Coupled Yield.Agree (do return f <$> (← x)) (do return f <$> (← y)) :=
  h.bind fun _ _ hab => .pure (hab.map f)

/-- A case distinction that both readings make. -/
theorem ite (c : Prop) [Decidable c] (h : S.Coupled V x y) (h' : S.Coupled V x' y') :
    S.Coupled V (if c then x else x') (if c then y else y') := by
  split
  · exact h
  · exact h'

end Coupled

end Coupled

/-! ## The current token -/

theorem get : S.Coupled S.state (MonadState.get : Parse σ (Parser σ)) MonadState.get :=
  fun _ _ h => .ok h ⟨h, rfl⟩

theorem token : S.Coupled Eq (token : Parse σ Token) token :=
  S.get.bind fun _ _ h => .pure (S.current_eq h)

theorem kind : S.Coupled Eq (kind : Parse σ TokenKind) kind :=
  S.token.bindEq fun _ => .pure rfl

/-- What follows may make use of what the states show. -/
theorem kindAt {α β : Type} {V : α → β → Prop} {f : TokenKind → Parse σ α}
    {g : TokenKind → Parse τ β}
    (h : ∀ p q, S.state p q → S.CoupledAt p q V (f p.current.kind) (g p.current.kind)) :
    S.Coupled V (Parser.kind >>= f) (Parser.kind >>= g) := by
  intro p q hs
  have hp : (Parser.kind : Parse σ TokenKind).run p = (.ok p.current.kind, p) := rfl
  have hq : (Parser.kind : Parse τ TokenKind).run q = (.ok p.current.kind, q) := by
    rw [S.current_eq hs]
    rfl
  unfold CoupledAt
  rw [run_bind_ok hp, run_bind_ok hq]
  exact h p q hs

theorem position : S.Coupled Eq (position : Parse σ Position) position :=
  S.token.bindEq fun _ => .pure rfl

theorem check (k : TokenKind) : S.Coupled Eq (check k : Parse σ Bool) (check k) :=
  S.kind.bindEq fun _ => .pure rfl

theorem checkNot (k : TokenKind) :
    S.Coupled Eq (checkNot k : Parse σ Bool) (checkNot k) :=
  (S.check k).bindEq fun _ => .pure rfl

theorem save : S.Coupled (fun a b => a = b ∧ S.known a) (save : Parse σ Bookmark) save :=
  S.get.bind fun _ _ h => .pure ⟨congrArg Bookmark.mk (S.start_eq h), S.known_start h⟩

/-- How many items a list can have is the same in both readings. -/
theorem listBound : S.Coupled Eq (listBound : Parse σ Nat) listBound :=
  S.get.bind fun _ _ h => .pure (by rw [Parser.bound, Parser.bound, S.extent_eq h])

/-! ## Failing -/

section Fail

variable {α β : Type} {V : α → β → Prop}

theorem failAt {b : Bookmark} {fault : SyntaxFault} (hb : S.known b)
    (h : ∀ f, fault ≠ .lexical f ) (hfound : fault.found? = none) :
    S.Coupled V (failAt fault b.place : Parse σ α) (failAt fault b.place) :=
  .throw (S.told_at hb h hfound)

/-- Both readings stop at the current token, and nothing that could hold behind it matters. -/
theorem failHereAt {p : Parser σ} {q : Parser τ} (hs : S.state p q) {fault : String → SyntaxFault}
    (h : ∀ text f, fault text ≠ .lexical f) (R : Parser σ → Parser τ → Prop)
    (hfound : ∀ text, (fault text).found? = some text) :
    Arrival S.told (Kept S.adrift p.inTrait) V R ((failHere fault : Parse σ α).run p)
      ((failHere fault : Parse τ β).run q) := by
  have hq : (Parser.failHere fault : Parse τ β).run q =
      (.error ⟨fault p.current.text, p.current.place, none⟩, q) := by
    rw [S.current_eq hs]
    rfl
  rw [hq]
  exact .error (S.told_here hs (h _) (hfound _)) ⟨S.adrift_of_state hs, rfl⟩

theorem failHere {fault : String → SyntaxFault} (h : ∀ text f, fault text ≠ .lexical f )
    (hfound : ∀ text, (fault text).found? = some text) :
    S.Coupled V (failHere fault : Parse σ α) (failHere fault) :=
  fun _ _ hs => S.failHereAt hs h _ hfound

theorem failAtStart {fault : SyntaxFault} (h : ∀ f, fault ≠ .lexical f )
    (hfound : fault.found? = none) :
    S.Coupled V (failAtStart fault : Parse σ α) (failAtStart fault) :=
  S.save.bind fun _ _ hb => hb.1 ▸ S.failAt hb.2 h hfound

theorem unexpected : S.Coupled V (unexpected : Parse σ α) unexpected :=
  S.failHere nofun fun _ => rfl

theorem expectedOneOf (kinds : List TokenKind) :
    S.Coupled V (expectedOneOf kinds : Parse σ α) (expectedOneOf kinds) :=
  S.failHere nofun fun _ => rfl

end Fail

/-! ## Taking tokens -/

theorem advance : S.Coupled Eq (advance : Parse σ Token) advance :=
  fun _ _ hs => (S.advance_fresh hs).mono (fun _ _ h => h) fun _ _ h =>
    ⟨S.state_of_fresh h.states, h.inTrait_eq⟩

theorem drop : S.Coupled Eq (drop : Parse σ Unit) drop :=
  S.advance.bindEq fun _ => .pure rfl

theorem eat (k : TokenKind) : S.Coupled Eq (eat k : Parse σ Bool) (eat k) :=
  (S.check k).bindEq fun _ => .ite _ (S.advance.bindEq fun _ => .pure rfl) (.pure rfl)

theorem expect (k : TokenKind) : S.Coupled Eq (expect k : Parse σ Token) (expect k) :=
  (S.check k).bindEq fun _ => .ite _ S.advance (S.failHere nofun fun _ => rfl)

theorem mark (k : TokenKind) : S.Coupled Eq (mark k : Parse σ Unit) (mark k) :=
  (S.expect k).bindEq fun _ => .pure rfl

/-- Behind a token that is taken, the next one is fresh. -/
theorem markThen {α β : Type} {V : α → β → Prop} (k : TokenKind) {f : Unit → Parse σ α}
    {g : Unit → Parse τ β} (h : ∀ p q, S.fresh p q → S.CoupledAt p q V (f ()) (g ())) :
    S.Coupled V (Parser.mark k >>= f) (Parser.mark k >>= g) := by
  intro p q hs
  have hmark : Arrival S.told (Kept S.adrift p.inTrait) Eq (Kept S.fresh p.inTrait)
      ((Parser.mark k).run p) ((Parser.mark k).run q) := by
    have hp : (Parser.check k : Parse σ Bool).run p = (.ok (decide (p.current.kind = k)), p) := rfl
    have hq : (Parser.check k : Parse τ Bool).run q = (.ok (decide (p.current.kind = k)), q) := by
      rw [S.current_eq hs]
      rfl
    have hexpect : Arrival S.told (Kept S.adrift p.inTrait) Eq (Kept S.fresh p.inTrait)
        ((Parser.expect k).run p) ((Parser.expect k).run q) := by
      unfold Parser.expect
      rw [run_bind_ok hp, run_bind_ok hq]
      split
      · exact S.advance_fresh hs
      · exact S.failHereAt hs (by nofun) _ fun _ => rfl
    exact hexpect.bind fun _ _ _ _ _ hs' => .ok rfl hs'
  unfold CoupledAt
  refine hmark.bind ?_
  rintro _ _ p' q' rfl ⟨hs', hinTrait⟩
  have hrest := h p' q' hs'
  unfold CoupledAt at hrest
  rw [hinTrait] at hrest
  exact hrest

theorem expectIdentifier : S.Coupled Eq (expectIdentifier : Parse σ String) expectIdentifier :=
  (S.check _).bindEq fun _ => .ite _ (S.advance.bindEq fun _ => .pure rfl)
    (S.failHere nofun fun _ => rfl)

theorem expectOneOf (kinds : List TokenKind) :
    S.Coupled Eq (expectOneOf kinds : Parse σ Token) (expectOneOf kinds) :=
  S.kind.bindEq fun _ => .ite _ S.advance (S.expectedOneOf _)

/-! ## Looking further -/

section Parts

variable {α β γ δ : Type} {V : α → β → Prop} {W : γ → δ → Prop} {x : Parse σ α} {y : Parse τ β}
  {p : Parser σ} {q : Parser τ}

/-- What follows an attempt sees a value or an error; behind an error the states are adrift. -/
theorem attemptThen {f : Except SyntaxError α → Parse σ γ} {g : Except SyntaxError β → Parse τ δ}
    (h : S.CoupledAt p q V x y)
    (hok : ∀ a b p' q', V a b → Kept S.state p.inTrait p' q' →
      S.CoupledAt p' q' W (f (.ok a)) (g (.ok b)))
    (herror : ∀ e p' q', S.told e → Kept S.adrift p.inTrait p' q' →
      S.CoupledAt p' q' W (f (.error e)) (g (.error e))) :
    S.CoupledAt p q W (attempt x >>= f) (attempt y >>= g) := by
  have hx : (attempt x).run p = (.ok (x.run p).1, (x.run p).2) := rfl
  have hy : (attempt y).run q = (.ok (y.run q).1, (y.run q).2) := rfl
  unfold CoupledAt at h hok herror ⊢
  rw [run_bind_ok hx, run_bind_ok hy]
  revert h
  generalize x.run p = r
  generalize y.run q = r'
  rintro (⟨hV, hs⟩ | ⟨he, hs⟩)
  · rw [← hs.inTrait_eq]
    exact hok _ _ _ _ hV hs
  · rw [← hs.inTrait_eq]
    exact herror _ _ _ he hs

/-- Going back to a bookmark leads to corresponding states, from wherever a reading stopped. -/
theorem goBackThen {b : Bookmark} (hb : S.known b) (hs : S.adrift p q) {f : Unit → Parse σ γ}
    {g : Unit → Parse τ δ} (h : S.Coupled W (f ()) (g ())) :
    S.CoupledAt p q W (Parser.goBack b >>= f) (Parser.goBack b >>= g) := by
  unfold CoupledAt
  refine (S.goBack_fresh hb hs).bind ?_
  rintro _ _ p' q' rfl ⟨hs', hinTrait⟩
  have hrest := h (S.state_of_fresh hs')
  unfold CoupledAt at hrest
  rw [hinTrait] at hrest
  exact hrest

theorem peek : S.Coupled Eq (peek : Parse σ Token) peek := fun _ _ hs => S.peek_state hs

/-- The bookmark of corresponding states may be gone back to. -/
theorem saveThen (hs : S.state p q) {f : Bookmark → Parse σ γ} {g : Bookmark → Parse τ δ}
    (h : S.known ⟨p.start⟩ → S.CoupledAt p q W (f ⟨p.start⟩) (g ⟨p.start⟩)) :
    S.CoupledAt p q W (Parser.save >>= f) (Parser.save >>= g) := by
  have hp : (Parser.save : Parse σ Bookmark).run p = (.ok ⟨p.start⟩, p) := rfl
  have hq : (Parser.save : Parse τ Bookmark).run q = (.ok ⟨p.start⟩, q) := by
    rw [S.start_eq hs]
    rfl
  unfold CoupledAt
  rw [run_bind_ok hp, run_bind_ok hq]
  exact h (S.known_start hs)

theorem lookAhead (hs : S.state p q) (h : S.CoupledAt p q V x y) :
    S.CoupledAt p q V (lookAhead x) (lookAhead y) := by
  refine S.saveThen hs fun hknown => S.attemptThen h ?_ ?_
  · intro a b p' q' hV hs'
    exact S.goBackThen hknown (S.adrift_of_state hs'.states) (.pure hV)
  · intro e p' q' he hs'
    exact S.goBackThen hknown hs'.states (.throw he)

theorem inTraitMode (h : S.Coupled V x y) :
    S.Coupled V (inTraitMode x) (inTraitMode y) := by
  intro p q hs
  have hpart := h (S.state_withTrait true hs)
  unfold CoupledAt at hpart ⊢
  rw [run_inTraitMode, run_inTraitMode, ← S.inTrait_eq hs]
  revert hpart
  generalize x.run { p with inTrait := true } = r
  generalize y.run { q with inTrait := true } = r'
  rintro (⟨hV, hs'⟩ | ⟨he, hs'⟩)
  · exact .ok hV ⟨S.state_withTrait _ hs'.states, rfl⟩
  · exact .error he ⟨S.adrift_withTrait _ hs'.states, rfl⟩

theorem inContext (context : ErrorContext) (h : S.Coupled V x y) :
    S.Coupled V (inContext context x) (inContext context y) := by
  intro p q hs
  have hpart := h hs
  unfold CoupledAt at hpart ⊢
  unfold Parser.inContext
  rw [run_tryCatch, run_tryCatch]
  revert hpart
  generalize x.run p = r
  generalize y.run q = r'
  rintro (⟨hV, hs'⟩ | ⟨he, hs'⟩)
  · exact .ok hV hs'
  · exact .error (S.told_within context he) hs'

end Parts

/-! ## Lists -/

section Lists

variable {m n : Mode} {α : Type} {item : Parse σ (Yield m α)} {item' : Parse τ (Yield n α)}

theorem closedListOnto (close : Symbol) (h : S.Coupled Yield.Agree item item')
    (steps : Nat) {taken : Yield m (Array α)} {taken' : Yield n (Array α)}
    (ht : Yield.Agree taken taken') :
    S.Coupled Yield.Agree (closedListOnto close item steps taken)
      (closedListOnto close item' steps taken') := by
  induction steps generalizing taken taken' with
  | zero => exact S.failAtStart nofun rfl
  | succ steps ih =>
    refine h.bind fun a b hab => S.kind.bindEq fun k => ?_
    refine .ite _ (S.drop.bindEq fun _ => ih (ht.push hab)) (.ite _ ?_ (S.expectedOneOf _))
    exact S.drop.bindEq fun _ => .pure (ht.push hab)

theorem closedList (close : Symbol) (h : S.Coupled Yield.Agree item item') :
    S.Coupled Yield.Agree (closedList close item) (closedList close item') := by
  refine S.listBound.bindEq fun steps => ?_
  refine (S.closedListOnto close h steps (Yield.agree_pure _)).bind fun a b hab => ?_
  exact .pure (hab.map _)

theorem openTailOnto (close : Symbol) (h : S.Coupled Yield.Agree item item')
    (steps : Nat) {taken : Yield m (Array α)} {taken' : Yield n (Array α)}
    (ht : Yield.Agree taken taken') :
    S.Coupled Yield.Agree (openTailOnto close item steps taken)
      (openTailOnto close item' steps taken') := by
  induction steps generalizing taken taken' with
  | zero => exact S.failAtStart nofun rfl
  | succ steps ih =>
    refine (S.eat _).bindEq fun comma => (S.check _).bindEq fun closed => ?_
    refine .ite _ (S.drop.bindEq fun _ => .pure ht) (.ite _ ?_ (S.expectedOneOf _))
    exact h.bind fun a b hab => ih (ht.push hab)

theorem openList (close : Symbol) (h : S.Coupled Yield.Agree item item') :
    S.Coupled Yield.Agree (openList close item) (openList close item') := by
  refine h.bind fun a b hab => S.listBound.bindEq fun steps => ?_
  have ht := (Yield.agree_pure (m := m) (n := n) #[]).push hab
  exact (S.openTailOnto close h steps ht).bind fun c d hcd => .pure (hcd.map _)

theorem openListOrEmpty (close : Symbol) (h : S.Coupled Yield.Agree item item') :
    S.Coupled Yield.Agree (openListOrEmpty close item) (openListOrEmpty close item') :=
  (S.check _).bindEq fun _ =>
    .ite _ (S.drop.bindEq fun _ => .pure (Yield.agree_pure _)) (S.openList close h)

variable {test : Parse σ Bool} {test' : Parse τ Bool}

theorem whileOnto (htest : S.Coupled Eq test test')
    (h : S.Coupled Yield.Agree item item') (steps : Nat) {taken : Yield m (Array α)}
    {taken' : Yield n (Array α)} (ht : Yield.Agree taken taken') :
    S.Coupled Yield.Agree (whileOnto test item steps taken)
      (whileOnto test' item' steps taken') := by
  induction steps generalizing taken taken' with
  | zero => exact S.failAtStart nofun rfl
  | succ steps ih =>
    refine htest.bindEq fun more => .ite _ ?_ (.pure ht)
    exact h.bind fun a b hab => ih (ht.push hab)

theorem listWhile (htest : S.Coupled Eq test test')
    (h : S.Coupled Yield.Agree item item') :
    S.Coupled Yield.Agree (listWhile test item) (listWhile test' item') := by
  refine S.listBound.bindEq fun steps => ?_
  refine (S.whileOnto htest h steps (Yield.agree_pure _)).bind fun a b hab => ?_
  exact .pure (hab.map _)

theorem listOnceAndWhile (htest : S.Coupled Eq test test')
    (h : S.Coupled Yield.Agree item item') :
    S.Coupled Yield.Agree (listOnceAndWhile test item) (listOnceAndWhile test' item') := by
  refine h.bind fun a b hab => S.listBound.bindEq fun steps => ?_
  have ht := (Yield.agree_pure (m := m) (n := n) #[]).push hab
  exact (S.whileOnto htest h steps ht).bind fun c d hcd => .pure (hcd.map _)

theorem optionallyAt {p : Parser σ} {q : Parser τ} (htest : S.CoupledAt p q Eq test test')
    (h : S.Coupled Yield.Agree item item') :
    S.CoupledAt p q Yield.Agree (optionally test item) (optionally test' item') :=
  htest.bind fun _ _ ht => ht ▸ .ite _ (h.yieldMap _) (.pure (Yield.agree_pure _))

theorem optionally (htest : S.Coupled Eq test test') (h : S.Coupled Yield.Agree item item') :
    S.Coupled Yield.Agree (optionally test item) (optionally test' item') :=
  fun _ _ hs => S.optionallyAt (htest hs) h

end Lists

end Simulation

end ScriptFront
