import ScriptFront.Proofs.Coupling.Modes
import ScriptFront.Proofs.Shapes.Properties
import ScriptFront.Proofs.Writing.Outcomes

/-!
# What readings deliver

A `Supply` tells which states a reading passes through and what the tokens in these states can be.
A reading *delivers* values with a property if every value that it comes to has it, if it comes to
it in a state of the supply, and if an error about `void` is told at a token `void`.

- `Supply`: states of readings, and the words that are found there.
- `Supply.DeliversAt`, `Supply.Delivers`: what a reading comes to from one state, and from all.
- `Supply.Delivers.bind`, `Supply.Delivers.closedList`, …: one rule for each way to put readings
  together. Only trees that are built matter here.
-/

namespace ScriptFront

open ScriptFront.Parser

-- What a reading comes to is told by the rules; nothing is to be run to find out.
attribute [local irreducible] Ends

namespace Ends

variable {ε s α : Type} {E F : ε → s → Prop} {x : ExceptT ε (StateM s) α} {p : s}
  {Q R : α → s → Prop}

/-- Two things that are known of one reading. -/
theorem and (hx : Ends E x p Q) (hx' : Ends F x p R) :
    Ends (fun e q => E e q ∧ F e q) x p fun a q => Q a q ∧ R a q := by
  rw [Ends] at hx hx' ⊢
  rcases hrun : x.run p with ⟨e | a, q⟩
  · rw [hrun] at hx hx'
    exact ⟨hx, hx'⟩
  · rw [hrun] at hx hx'
    exact ⟨hx, hx'⟩

/-- Less may be asked, also of the errors. -/
theorem imp (hx : Ends E x p Q) (hE : ∀ e q, E e q → F e q) (hQ : ∀ a q, Q a q → R a q) :
    Ends F x p R := by
  rw [Ends] at hx ⊢
  rcases hrun : x.run p with ⟨e | a, q⟩
  · rw [hrun] at hx
    exact hE e q hx
  · rw [hrun] at hx
    exact hQ a q hx

/-- What is so in any case. -/
theorem of_forall (h : ∀ a q, Q a q) : Ends (fun _ _ => True) x p Q := by
  rw [Ends]
  rcases x.run p with ⟨e | a, q⟩
  · trivial
  · exact h a q

/-- What is known of the state in both cases. -/
theorem of_state {S : s → Prop} (h : S (x.run p).2) : Ends (fun _ q => S q) x p fun _ q => S q := by
  rw [Ends]
  rcases hrun : x.run p with ⟨e | a, q⟩
  · rw [hrun] at h
    exact h
  · rw [hrun] at h
    exact h

end Ends

/-! ## Errors of the lexer -/

/-- The lexer tells of the error. -/
def SyntaxError.IsLexical (e : SyntaxError) : Prop := ∃ e' : LexError, e = e'.toSyntaxError

section Lexical

variable {σ α : Type}

theorem code_toSyntaxError (e : LexError) : e.toSyntaxError.code ≠ .misplacedVoid := by
  obtain ⟨fault, place⟩ := e
  cases fault <;> nofun

namespace SyntaxError.IsLexical

variable {e : SyntaxError} (h : e.IsLexical)

include h

/-- The lexer does not tell of `void`. -/
theorem code_ne : e.code ≠ .misplacedVoid := by
  obtain ⟨e', rfl⟩ := h
  exact code_toSyntaxError e'

/-- The lexer does not tell of `self`. -/
theorem fault_ne : e.fault ≠ .selfOutsideTrait := by
  obtain ⟨e', rfl⟩ := h
  nofun

end SyntaxError.IsLexical

theorem Ends.lex {act : Lex σ α} {p : Parser σ} :
    Ends (fun e _ => e.IsLexical) (Parser.lex act) p fun _ _ => True := by
  rw [Ends]
  rcases hrun : act.run p.lexer with ⟨e | a, w⟩
  · rw [run_lex_error hrun]
    exact ⟨e, rfl⟩
  · rw [run_lex_ok hrun]
    trivial

variable [ByteSource σ] {p : Parser σ}

theorem Ends.lexical_advance :
    Ends (fun e _ => e.IsLexical) (Parser.advance : Parse σ Token) p fun _ _ => True := by
  refine Ends.lex.bind fun _ _ _ => ?_
  refine Ends.bind (Q := fun _ _ => True) (.of_run rfl True.intro) fun _ _ _ => ?_
  exact Ends.lex.bind fun _ _ _ => .of_run rfl trivial

theorem Ends.lexical_goBack (b : Bookmark) :
    Ends (fun e _ => e.IsLexical) (Parser.goBack b : Parse σ Unit) p fun _ _ => True := by
  refine Ends.bind (Q := fun _ _ => True) (.of_run rfl True.intro) fun _ _ _ => ?_
  exact Ends.lex.bind fun _ _ _ => .of_run rfl trivial

theorem Ends.lexical_peek :
    Ends (fun e _ => e.IsLexical) (Parser.peek : Parse σ Token) p fun _ _ => True := by
  rw [Ends]
  rcases hnext : Lexer.next.run p.lexer with ⟨e | token, w⟩
  · rw [run_peek_error hnext]
    exact ⟨e, rfl⟩
  · rw [run_peek_ok hnext]
    trivial

end Lexical

/-! ## Supplies -/

/-- States that a reading passes through, and the words that are found there. -/
structure Supply (σ : Type) [ByteSource σ] where
  /-- The states before and behind a reading that succeeds. -/
  holds : Parser σ → Prop
  /-- The states that a reading stops in. -/
  adrift : Parser σ → Prop
  /-- The bookmarks that may be gone back to. -/
  known : Bookmark → Prop
  /-- What the tokens can say. -/
  vocabulary : Vocabulary
  /-- The stored places of the tokens `void`. -/
  isVoid : Place → Prop
  /-- Whether a dot may be taken. -/
  free : Prop
  adrift_of_holds : ∀ {p : Parser σ}, holds p → adrift p
  known_start : ∀ {p : Parser σ}, holds p → known ⟨p.start⟩
  text_current : ∀ {p : Parser σ}, holds p → vocabulary.text p.current.kind p.current.text
  isVoid_start : ∀ {p : Parser σ}, holds p → p.current.kind = .primitive .void →
    isVoid p.start.stored
  holds_withTrait : ∀ {p : Parser σ} (inTrait : Bool), holds p → holds { p with inTrait }
  adrift_withTrait : ∀ {p : Parser σ} (inTrait : Bool), adrift p → adrift { p with inTrait }
  advance_holds : ∀ {p : Parser σ}, holds p → (p.current.kind = Symbol.dot → free) →
    Ends (fun _ q => adrift q) Parser.advance p fun t q => t = p.current ∧ holds q
  /-- What is seen to be a colon is no ellipsis when it is read, where that can be relied on. -/
  peek_holds : ∀ {p : Parser σ}, holds p →
    Ends (fun _ q => adrift q) Parser.peek p fun next q => holds q ∧ q.current = p.current ∧
      (vocabulary.firm → next.kind = Symbol.colon →
        Ends (fun _ _ => True) Parser.advance q fun _ r => r.current.kind ≠ Symbol.ellipsis)
  goBack_holds : ∀ {b : Bookmark} {p : Parser σ}, known b → adrift p →
    Ends (fun _ q => adrift q) (Parser.goBack b) p fun _ q => holds q
  /-- Where it can be relied on, the way back leads to the token that was left. -/
  goBack_kind : ∀ {p q : Parser σ}, vocabulary.firm → holds p → p.current.kind ≠ Symbol.gt →
    p.current.kind ≠ Symbol.pipe → adrift q →
    Ends (fun _ _ => True) (Parser.goBack ⟨p.start⟩) q fun _ r => r.current.kind = p.current.kind
  narrow_holds : ∀ {p : Parser σ} {whole part : Symbol}, holds p → p.current.kind = whole →
    whole.cut? = some part → holds ((Parser.narrow part 1).run p).2

namespace Supply

variable {σ : Type} [ByteSource σ] (S : Supply σ)

/-- A state of the supply, and whether a trait is being read. -/
structure Stays (inTrait : Bool) (p : Parser σ) : Prop where
  holds : S.holds p
  inTrait_eq : p.inTrait = inTrait

/-- What is known where a reading stopped. -/
structure Stopped (inTrait : Bool) (e : SyntaxError) (p : Parser σ) : Prop where
  adrift : S.adrift p
  inTrait_eq : p.inTrait = inTrait
  isVoid : e.code = .misplacedVoid → S.isVoid e.place
  selfPlaced : inTrait = true → e.fault ≠ .selfOutsideTrait

/-- The lexer may stop anywhere. -/
theorem Stopped.of_lexical {inTrait : Bool} {e : SyntaxError} {p : Parser σ} (h : e.IsLexical)
    (hadrift : S.adrift p) (hinTrait : p.inTrait = inTrait) : S.Stopped inTrait e p :=
  ⟨hadrift, hinTrait, fun hcode => absurd hcode h.code_ne, fun _ => h.fault_ne⟩

/-- What a reading comes to from one state. -/
def DeliversAt {α : Type} (inTrait : Bool) (p : Parser σ) (x : Parse σ α) (V : α → Prop) : Prop :=
  Ends (S.Stopped inTrait) x p fun a q => V a ∧ S.Stays inTrait q

/-- What a reading comes to from all states of the supply. -/
def Delivers {α : Type} (inTrait : Bool) (x : Parse σ α) (V : α → Prop) : Prop :=
  ∀ p, S.Stays inTrait p → S.DeliversAt inTrait p x V

variable {S} {α β : Type} {inTrait : Bool} {p : Parser σ} {x y : Parse σ α}
  {f : α → Parse σ β} {V W : α → Prop} {U : β → Prop}

/-! ## From one state -/

namespace DeliversAt

theorem bind (hx : S.DeliversAt inTrait p x V) (hf : ∀ a, V a → S.Delivers inTrait (f a) U) :
    S.DeliversAt inTrait p (x >>= f) U :=
  Ends.bind hx fun a q h => hf a h.1 q h.2

theorem mono (hx : S.DeliversAt inTrait p x V) (h : ∀ a, V a → W a) :
    S.DeliversAt inTrait p x W :=
  Ends.mono hx fun a _ ha => ⟨h a ha.1, ha.2⟩

theorem ite {c : Prop} [Decidable c] (hx : c → S.DeliversAt inTrait p x V)
    (hy : ¬c → S.DeliversAt inTrait p y V) : S.DeliversAt inTrait p (if c then x else y) V :=
  Ends.ite hx hy

theorem kind {f : TokenKind → Parse σ β} (h : S.DeliversAt inTrait p (f p.current.kind) U) :
    S.DeliversAt inTrait p (Parser.kind >>= f) U := Ends.kind h

theorem check {k : TokenKind} {f : Bool → Parse σ β}
    (h : S.DeliversAt inTrait p (f (p.current.kind = k)) U) :
    S.DeliversAt inTrait p (Parser.check k >>= f) U := Ends.check h

theorem position {f : Position → Parse σ β} (h : S.DeliversAt inTrait p (f p.current.position) U) :
    S.DeliversAt inTrait p (Parser.position >>= f) U := Ends.position h

theorem save {f : Bookmark → Parse σ β} (h : S.DeliversAt inTrait p (f ⟨p.start⟩) U) :
    S.DeliversAt inTrait p (Parser.save >>= f) U := Ends.save h

theorem get {f : Parser σ → Parse σ β} (h : S.DeliversAt inTrait p (f p) U) :
    S.DeliversAt inTrait p (MonadState.get >>= f) U := by
  refine Ends.bind (Q := fun a q => a = p ∧ q = p) (.of_run rfl ⟨rfl, rfl⟩) ?_
  rintro _ _ ⟨rfl, rfl⟩
  exact h

theorem failHere (hp : S.Stays inTrait p) {fault : String → SyntaxFault}
    (h : ∀ text, (fault text).code ≠ .misplacedVoid)
    (hself : ∀ text, fault text ≠ .selfOutsideTrait) :
    S.DeliversAt inTrait p (Parser.failHere fault) V :=
  Ends.failHere ⟨S.adrift_of_holds hp.holds, hp.inTrait_eq, fun hcode => absurd hcode (h _),
    fun _ => hself _⟩

theorem failAt (hp : S.Stays inTrait p) {fault : SyntaxFault} {place : Place}
    (h : fault.code = .misplacedVoid → S.isVoid place)
    (hself : inTrait = true → fault ≠ .selfOutsideTrait) :
    S.DeliversAt inTrait p (Parser.failAt fault place) V :=
  Ends.failAt ⟨S.adrift_of_holds hp.holds, hp.inTrait_eq, h, hself⟩

theorem failAtStart (hp : S.Stays inTrait p) {fault : SyntaxFault}
    (h : fault.code ≠ .misplacedVoid)
    (hself : inTrait = true → fault ≠ .selfOutsideTrait) :
    S.DeliversAt inTrait p (Parser.failAtStart fault) V :=
  Ends.failAtStart ⟨S.adrift_of_holds hp.holds, hp.inTrait_eq, fun hcode => absurd hcode h, hself⟩

/-- Behind the test the current token is not `void`. -/
theorem rejectVoid (hp : S.Stays inTrait p) (use : VoidUse) {f : Unit → Parse σ β}
    (h : p.current.kind ≠ .primitive .void → S.DeliversAt inTrait p (f ()) U) :
    S.DeliversAt inTrait p (Grammar.rejectVoid use >>= f) U := by
  refine Ends.bind (Q := fun _ q => q = p ∧ p.current.kind ≠ .primitive .void) ?_ ?_
  · refine Ends.check (Ends.ite (fun hvoid => ?_) fun hvoid => ?_)
    · exact Ends.failAtStart ⟨S.adrift_of_holds hp.holds, hp.inTrait_eq,
        fun _ => S.isVoid_start hp.holds (of_decide_eq_true hvoid), nofun⟩
    · exact .pure ⟨rfl, fun hkind => hvoid (decide_eq_true hkind)⟩
  · rintro _ _ ⟨rfl, hkind⟩
    exact h hkind

/-- Taking a token leads to the next state and yields the token. -/
theorem advance {k : TokenKind} (hp : S.Stays inTrait p) (hkind : p.current.kind = k)
    (hk : k = Symbol.dot → S.free) :
    S.DeliversAt inTrait p Parser.advance fun t => t = p.current := by
  have hends := S.advance_holds hp.holds (hkind ▸ hk)
  have hstay := Ends.of_state (S := fun q : Parser σ => q.inTrait = inTrait)
    (inTrait_advance.trans hp.inTrait_eq)
  refine ((hends.and hstay).and Ends.lexical_advance).imp ?_ ?_
  · rintro e q ⟨⟨hadrift, hinTrait⟩, hlexical⟩
    exact .of_lexical S hlexical hadrift hinTrait
  · rintro t q ⟨⟨⟨rfl, hholds⟩, hinTrait⟩, -⟩
    exact ⟨rfl, hholds, hinTrait⟩

theorem drop {k : TokenKind} (hp : S.Stays inTrait p) (hkind : p.current.kind = k)
    (hk : k = Symbol.dot → S.free) : S.DeliversAt inTrait p Parser.drop fun _ => True :=
  (advance hp hkind hk).bind fun _ _ _ hq => Ends.pure ⟨trivial, hq⟩

theorem eat {k : TokenKind} (hp : S.Stays inTrait p) (hkind : p.current.kind = k)
    (hk : k = Symbol.dot → S.free) :
    S.DeliversAt inTrait p (Parser.eat k) fun taken => taken = true :=
  .check (.ite (fun _ => (advance hp hkind hk).bind fun _ _ _ hq => Ends.pure ⟨rfl, hq⟩)
    fun h => absurd (decide_eq_true hkind) h)

theorem eat_of_ne {k : TokenKind} (hp : S.Stays inTrait p) (hkind : p.current.kind ≠ k) :
    S.DeliversAt inTrait p (Parser.eat k) fun taken => taken = false :=
  .check (.ite (fun h => absurd (of_decide_eq_true h) hkind) fun _ => Ends.pure ⟨rfl, hp⟩)

theorem eatOfNeThen {k : TokenKind} (hkind : p.current.kind ≠ k) {f : Bool → Parse σ β}
    (h : S.DeliversAt inTrait p (f false) U) :
    S.DeliversAt inTrait p (Parser.eat k >>= f) U := by
  refine Ends.bind (Q := fun taken q => taken = false ∧ q = p) ?_ ?_
  · exact Ends.check (Ends.ite (fun h => absurd (of_decide_eq_true h) hkind) fun _ =>
      Ends.pure ⟨rfl, rfl⟩)
  · rintro _ _ ⟨rfl, rfl⟩
    exact h

/-- What follows a name sees the token behind it, of which something may be known. -/
theorem expectIdentifierThen (hp : S.Stays inTrait p) {Q : Parser σ → Prop}
    {f : String → Parse σ β} (hnext : Ends (fun _ _ => True) Parser.advance p fun _ r => Q r)
    (hf : ∀ name q, S.vocabulary.Name name → S.Stays inTrait q → Q q →
      S.DeliversAt inTrait q (f name) U) :
    S.DeliversAt inTrait p (Parser.expectIdentifier >>= f) U := by
  have hname : Ends (S.Stopped inTrait) Parser.expectIdentifier p fun name q =>
      (S.vocabulary.Name name ∧ S.Stays inTrait q) ∧ Q q := by
    refine Ends.check (Ends.ite (fun hkind => ?_) fun _ => Ends.failHere ?_)
    case refine_2 => exact ⟨S.adrift_of_holds hp.holds, hp.inTrait_eq, nofun, nofun⟩
    have hk := of_decide_eq_true hkind
    refine (((advance hp hk (by nofun)).and hnext).imp (fun _ _ h => h.1) fun _ _ h => h).bind ?_
    rintro t q ⟨⟨rfl, hq⟩, hQ⟩
    have htext := S.text_current hp.holds
    rw [hk] at htext
    exact Ends.pure ⟨⟨htext, hq⟩, hQ⟩
  exact hname.bind fun name q h => hf name q h.1.1 h.1.2 h.2

/-- What follows a look at the next token sees the current one, and no ellipsis behind it where a
colon was seen. -/
theorem peekThen (hp : S.Stays inTrait p) {f : Token → Parse σ β}
    (hf : ∀ (next : Token) (q : Parser σ), S.Stays inTrait q → q.current = p.current →
      (S.vocabulary.firm → next.kind = Symbol.colon →
        Ends (fun _ _ => True) Parser.advance q fun _ r => r.current.kind ≠ Symbol.ellipsis) →
      S.DeliversAt inTrait q (f next) U) :
    S.DeliversAt inTrait p (Parser.peek >>= f) U := by
  have hstay := Ends.of_state (S := fun q : Parser σ => q.inTrait = inTrait)
    (inTrait_peek.trans hp.inTrait_eq)
  refine Ends.bind (Q := fun (next : Token) q => S.Stays inTrait q ∧ q.current = p.current ∧
    (S.vocabulary.firm → next.kind = Symbol.colon →
      Ends (fun _ _ => True) Parser.advance q fun _ r => r.current.kind ≠ Symbol.ellipsis)) ?_ ?_
  · refine (((S.peek_holds hp.holds).and hstay).and Ends.lexical_peek).imp ?_ ?_
    · rintro e q ⟨⟨hadrift, hinTrait⟩, hlexical⟩
      exact .of_lexical S hlexical hadrift hinTrait
    · rintro t q ⟨⟨⟨hholds, hcurrent, hcolon⟩, hinTrait⟩, -⟩
      exact ⟨⟨hholds, hinTrait⟩, hcurrent, hcolon⟩
  · exact fun next q ⟨hq, hcurrent, hcolon⟩ => hf next q hq hcurrent hcolon

/-- From wherever a reading stopped, the way back leads to a state of the supply. -/
theorem goBack {b : Bookmark} (hb : S.known b) (hp : S.adrift p) (hinTrait : p.inTrait = inTrait) :
    S.DeliversAt inTrait p (Parser.goBack b) fun _ => True := by
  have hends := S.goBack_holds hb hp
  have hstay := Ends.of_state (S := fun q : Parser σ => q.inTrait = inTrait)
    ((inTrait_goBack b).trans hinTrait)
  refine ((hends.and hstay).and (Ends.lexical_goBack b)).imp ?_ ?_
  · rintro e q ⟨⟨hadrift, hinTrait⟩, hlexical⟩
    exact .of_lexical S hlexical hadrift hinTrait
  · rintro t q ⟨⟨hholds, hinTrait⟩, -⟩
    exact ⟨trivial, hholds, hinTrait⟩

theorem narrow (hp : S.Stays inTrait p) {whole part : Symbol} (hwhole : p.current.kind = whole)
    (hpart : whole.cut? = some part) :
    S.DeliversAt inTrait p (Parser.narrow part 1) fun _ => True :=
  Ends.of_run rfl ⟨trivial, S.narrow_holds hp.holds hwhole hpart, hp.inTrait_eq⟩

end DeliversAt

/-! ## From all states -/

namespace Delivers

theorem pure {a : α} (h : V a) : S.Delivers inTrait (Pure.pure a) V := fun _ hp =>
  Ends.pure ⟨h, hp⟩

theorem bind (hx : S.Delivers inTrait x V) (hf : ∀ a, V a → S.Delivers inTrait (f a) U) :
    S.Delivers inTrait (x >>= f) U := fun p hp => (hx p hp).bind hf

theorem mono (hx : S.Delivers inTrait x V) (h : ∀ a, V a → W a) : S.Delivers inTrait x W :=
  fun p hp => (hx p hp).mono h

theorem ite {c : Prop} [Decidable c] (hx : c → S.Delivers inTrait x V)
    (hy : ¬c → S.Delivers inTrait y V) : S.Delivers inTrait (if c then x else y) V :=
  fun p hp => .ite (fun hc => hx hc p hp) fun hc => hy hc p hp

theorem kind : S.Delivers inTrait Parser.kind fun _ => True := fun _ hp =>
  Ends.of_run rfl ⟨trivial, hp⟩

theorem check (k : TokenKind) : S.Delivers inTrait (Parser.check k) fun _ => True := fun _ hp =>
  Ends.of_run rfl ⟨trivial, hp⟩

theorem checkNot (k : TokenKind) : S.Delivers inTrait (Parser.checkNot k) fun _ => True :=
  fun _ hp => Ends.of_run rfl ⟨trivial, hp⟩

theorem position : S.Delivers inTrait Parser.position fun _ => True := fun _ hp =>
  Ends.of_run rfl ⟨trivial, hp⟩

theorem listBound : S.Delivers inTrait Parser.listBound fun _ => True := fun _ hp =>
  Ends.of_run rfl ⟨trivial, hp⟩

theorem failHere {fault : String → SyntaxFault}
    (h : ∀ text, (fault text).code ≠ .misplacedVoid)
    (hself : ∀ text, fault text ≠ .selfOutsideTrait) :
    S.Delivers inTrait (Parser.failHere fault) V := fun _ hp => .failHere hp h hself

theorem failAt {fault : SyntaxFault} {place : Place} (h : fault.code ≠ .misplacedVoid)
    (hself : inTrait = true → fault ≠ .selfOutsideTrait) :
    S.Delivers inTrait (Parser.failAt fault place) V := fun _ hp =>
  .failAt hp (fun hcode => absurd hcode h) hself

theorem failAtStart {fault : SyntaxFault} (h : fault.code ≠ .misplacedVoid)
    (hself : inTrait = true → fault ≠ .selfOutsideTrait) :
    S.Delivers inTrait (Parser.failAtStart fault) V := fun _ hp =>
  .failAtStart hp h hself

theorem unexpected : S.Delivers inTrait Parser.unexpected V := failHere (fun _ => nofun) (by nofun)

theorem expectedOneOf (kinds : List TokenKind) :
    S.Delivers inTrait (Parser.expectedOneOf kinds) V := failHere (fun _ => nofun) (by nofun)

/-! ### Taking tokens -/

section Taking

theorem eat (k : TokenKind) (hk : k = Symbol.dot → S.free) :
    S.Delivers inTrait (Parser.eat k) fun _ => True := by
  refine fun p hp => .check (.ite (fun hkind => ?_) fun _ => Delivers.pure trivial p hp)
  exact (DeliversAt.advance hp (of_decide_eq_true hkind) hk).bind fun _ _ => .pure trivial

theorem expect (k : TokenKind) (hk : k = Symbol.dot → S.free) :
    S.Delivers inTrait (Parser.expect k) fun t => t.kind = k := by
  refine fun p hp => .check (.ite (fun hkind => ?_) fun _ => .failHere hp (by nofun) (by nofun))
  have hk' := of_decide_eq_true hkind
  exact (DeliversAt.advance hp hk' hk).mono fun t ht => ht ▸ hk'

theorem mark (k : TokenKind) (hk : k = Symbol.dot → S.free) :
    S.Delivers inTrait (Parser.mark k) fun _ => True :=
  (expect k hk).bind fun _ _ => .pure trivial

theorem expectOneOf (kinds : List TokenKind) (hk : TokenKind.symbol .dot ∈ kinds → S.free) :
    S.Delivers inTrait (Parser.expectOneOf kinds) fun _ => True := by
  refine fun p hp => .kind (.ite (fun hmem => ?_) fun _ => .failHere hp (by nofun) (by nofun))
  refine (DeliversAt.advance hp rfl fun hdot => hk ?_).mono fun _ _ => trivial
  rw [← hdot]
  exact List.contains_iff_mem.1 hmem

/-- Where a certain token is taken, its text is one of the words. -/
theorem markThen (k : TokenKind) {f : Unit → Parse σ β}
    (hf : (∃ text, S.vocabulary.text k text) → S.Delivers inTrait (f ()) U)
    (hk : k = Symbol.dot → S.free) :
    S.Delivers inTrait (Parser.mark k >>= f) U := by
  intro p hp
  have hmark : S.DeliversAt inTrait p (Parser.mark k) fun _ =>
      ∃ text, S.vocabulary.text k text := by
    refine DeliversAt.bind (V := fun _ => ∃ text, S.vocabulary.text k text) ?_
      fun _ h => .pure h
    refine .check (.ite (fun hkind => ?_) fun _ => .failHere hp (by nofun) (by nofun))
    have hk' := of_decide_eq_true hkind
    exact (DeliversAt.advance hp hk' hk).mono fun _ _ => ⟨_, hk' ▸ S.text_current hp.holds⟩
  exact hmark.bind fun _ => hf

theorem expectIdentifier :
    S.Delivers inTrait Parser.expectIdentifier S.vocabulary.Name := by
  intro p hp
  have hname := DeliversAt.expectIdentifierThen (Q := fun _ => True) (f := Pure.pure)
    (U := S.vocabulary.Name) hp (.of_forall fun _ _ => trivial) fun _ _ hname hq _ =>
      Ends.pure ⟨hname, hq⟩
  rwa [bind_pure] at hname

end Taking

/-! ### Looking further and parts of a reading -/

theorem inContext (context : ErrorContext) (hx : S.Delivers inTrait x V) :
    S.Delivers inTrait (Parser.inContext context x) V := by
  intro p hp
  have hends := hx p hp
  unfold DeliversAt at hends ⊢
  unfold Ends at hends ⊢
  unfold Parser.inContext
  rw [run_tryCatch]
  revert hends
  rcases x.run p with ⟨e | a, q⟩
  · exact fun h => ⟨h.adrift, h.inTrait_eq, h.isVoid, h.selfPlaced⟩
  · exact id

theorem inTraitMode (hx : S.Delivers true x V) :
    S.Delivers inTrait (Parser.inTraitMode x) V := by
  intro p hp
  have hends := hx { p with inTrait := true } ⟨S.holds_withTrait true hp.holds, rfl⟩
  unfold DeliversAt at hends ⊢
  unfold Ends at hends ⊢
  rw [run_inTraitMode]
  revert hends
  rcases x.run { p with inTrait := true } with ⟨e | a, q⟩
  · exact fun h =>
      ⟨S.adrift_withTrait _ h.adrift, hp.inTrait_eq, h.isVoid, fun _ => h.selfPlaced rfl⟩
  · exact fun h => ⟨h.1, S.holds_withTrait _ h.2.holds, hp.inTrait_eq⟩

theorem peek : S.Delivers inTrait Parser.peek fun _ => True := by
  intro p hp
  have hpeek := DeliversAt.peekThen (f := Pure.pure) (U := fun _ => True) hp
    fun _ _ hq _ _ => Ends.pure ⟨trivial, hq⟩
  rwa [bind_pure] at hpeek

/-- A part that is read ahead is read from the same token on. -/
theorem lookAhead (hx : S.Delivers inTrait x V) :
    S.Delivers inTrait (Parser.lookAhead x) V := by
  intro p hp
  have hstart := S.known_start hp.holds
  have hends := hx p hp
  unfold DeliversAt Ends at hends
  have hattempt : Ends (S.Stopped inTrait) (Parser.attempt x) p fun r q => x.run p = (r, q) :=
    .of_run rfl rfl
  refine .save (hattempt.bind ?_)
  rintro (e | a) q hrun <;> rw [hrun] at hends <;> have h := hends
  · exact (DeliversAt.goBack hstart h.adrift h.inTrait_eq).bind fun _ _ r hr =>
      Ends.throw ⟨S.adrift_of_holds hr.holds, hr.inTrait_eq, h.isVoid, h.selfPlaced⟩
  · exact (DeliversAt.goBack hstart (S.adrift_of_holds h.2.holds) h.2.inTrait_eq).bind
      fun _ _ r hr => Ends.pure ⟨h.1, hr⟩

/-! ### Lists -/

section Lists

variable {P : α → Prop} {item : Parse σ (Yield .build α)} {test : Parse σ Bool} {close : Symbol}

/-- What is known of the items of a list under construction. -/
theorem forall_mem_push {taken : Array α} {a : α} (ht : ∀ b ∈ taken.toList, P b) (ha : P a) :
    ∀ b ∈ (taken.push a).toList, P b := by
  simpa [or_imp, forall_and] using ⟨fun b hb => ht b (Array.mem_toList_iff.2 hb), ha⟩

theorem forall_mem_empty : ∀ b ∈ (#[] : Array α).toList, P b := by simp

theorem toList_push_ne_nil (taken : Array α) (a : α) : (taken.push a).toList ≠ [] := by simp

theorem closedListOnto (hclose : close ≠ .dot) (h : S.Delivers inTrait item P) (steps : Nat)
    {taken : Array α} (ht : ∀ b ∈ taken.toList, P b) :
    S.Delivers inTrait (Parser.closedListOnto close item steps taken)
      fun l : Array α => l.toList ≠ [] ∧ ∀ b ∈ l.toList, P b := by
  have hdot : (close : TokenKind) = Symbol.dot → S.free := fun h =>
    absurd (TokenKind.symbol.inj h) hclose
  induction steps generalizing taken with
  | zero => exact failAtStart (by nofun) (by nofun)
  | succ steps ih =>
    refine h.bind fun a ha p hp => .kind (.ite (fun hcomma => ?_) fun _ => .ite (fun hend => ?_) ?_)
    · exact (DeliversAt.drop hp hcomma (by nofun)).bind fun _ _ => ih (forall_mem_push ht ha)
    · refine (DeliversAt.drop hp hend hdot).bind fun _ _ => .pure ⟨?_, forall_mem_push ht ha⟩
      exact toList_push_ne_nil _ _
    · exact fun _ => expectedOneOf _ p hp

theorem closedList (hclose : close ≠ .dot) (h : S.Delivers inTrait item P) :
    S.Delivers inTrait (Parser.closedList close item)
      fun l : List α => l ≠ [] ∧ ∀ a ∈ l, P a :=
  listBound.bind fun _ _ => (closedListOnto hclose h _ forall_mem_empty).bind fun _ hl => .pure hl

theorem openTailOnto (hclose : close ≠ .dot) (h : S.Delivers inTrait item P) (steps : Nat)
    {taken : Array α} (hne : taken.toList ≠ []) (ht : ∀ b ∈ taken.toList, P b) :
    S.Delivers inTrait (Parser.openTailOnto close item steps taken)
      fun l : Array α => l.toList ≠ [] ∧ ∀ b ∈ l.toList, P b := by
  have hdot : (close : TokenKind) = Symbol.dot → S.free := fun h =>
    absurd (TokenKind.symbol.inj h) hclose
  induction steps generalizing taken with
  | zero => exact failAtStart (by nofun) (by nofun)
  | succ steps ih =>
    refine (eat Symbol.comma (by nofun)).bind fun comma _ p hp =>
      .check (.ite (fun hend => ?_) fun _ => ?_)
    · exact (DeliversAt.drop hp (of_decide_eq_true hend) hdot).bind fun _ _ => .pure ⟨hne, ht⟩
    · refine .ite (fun _ => (h p hp).bind fun a ha => ih ?_ (forall_mem_push ht ha)) fun _ =>
        expectedOneOf _ p hp
      exact toList_push_ne_nil _ _

theorem openList (hclose : close ≠ .dot) (h : S.Delivers inTrait item P) :
    S.Delivers inTrait (Parser.openList close item)
      fun l : List α => l ≠ [] ∧ ∀ a ∈ l, P a := by
  refine h.bind fun a ha => listBound.bind fun _ _ => ?_
  refine (openTailOnto hclose h _ ?_ (forall_mem_push forall_mem_empty ha)).bind
    fun _ hl => .pure hl
  exact toList_push_ne_nil _ _

theorem openListOrEmpty (hclose : close ≠ .dot) (h : S.Delivers inTrait item P) :
    S.Delivers inTrait (Parser.openListOrEmpty close item)
      fun l : List α => ∀ a ∈ l, P a := by
  have hdot : (close : TokenKind) = Symbol.dot → S.free := fun h =>
    absurd (TokenKind.symbol.inj h) hclose
  refine fun p hp => .check (.ite (fun hend => ?_) fun _ => ?_)
  · exact (DeliversAt.drop hp (of_decide_eq_true hend) hdot).bind fun _ _ => .pure nofun
  · exact ((openList hclose h) p hp).mono fun l hl => hl.2

theorem whileOnto (htest : S.Delivers inTrait test fun _ => True)
    (h : S.Delivers inTrait item P) (steps : Nat) {taken : Array α}
    (ht : ∀ b ∈ taken.toList, P b) :
    S.Delivers inTrait (Parser.whileOnto test item steps taken)
      fun l : Array α => (taken.toList ≠ [] → l.toList ≠ []) ∧ ∀ b ∈ l.toList, P b := by
  induction steps generalizing taken with
  | zero => exact failAtStart (by nofun) (by nofun)
  | succ steps ih =>
    refine htest.bind fun more _ => .ite (fun _ => ?_) fun _ => .pure ⟨id, ht⟩
    refine h.bind fun a ha => (ih (forall_mem_push ht ha)).mono fun l hl => ⟨fun _ => hl.1 ?_, hl.2⟩
    exact toList_push_ne_nil _ _

theorem listWhile (htest : S.Delivers inTrait test fun _ => True)
    (h : S.Delivers inTrait item P) :
    S.Delivers inTrait (Parser.listWhile test item)
      fun l : List α => ∀ a ∈ l, P a :=
  listBound.bind fun _ _ => (whileOnto htest h _ forall_mem_empty).bind fun _ hl => .pure hl.2

/-- If the test holds in front of the first item, there is one. -/
theorem listWhile_of_first (hfirst : S.DeliversAt inTrait p test fun more => more = true)
    (htest : S.Delivers inTrait test fun _ => True) (h : S.Delivers inTrait item P) :
    S.DeliversAt inTrait p (Parser.listWhile test item)
      fun l : List α => l ≠ [] ∧ ∀ a ∈ l, P a := by
  have hwhile : S.DeliversAt inTrait p
      (Parser.whileOnto test item p.bound (#[] : Array α))
      fun l : Array α => l.toList ≠ [] ∧ ∀ a ∈ l.toList, P a := by
    have hbound : p.bound = (4 * p.lexer.extent + 7) + 1 := by
      unfold Parser.bound
      omega
    rw [hbound]
    refine hfirst.bind fun more hmore => .ite (fun _ => ?_) fun hnot => absurd hmore hnot
    refine h.bind fun a ha => (whileOnto htest h _ (forall_mem_push forall_mem_empty ha)).mono ?_
    exact fun l hl => ⟨hl.1 (toList_push_ne_nil _ _), hl.2⟩
  exact Ends.listBound (hwhile.bind fun _ hl => .pure hl)

theorem listOnceAndWhile (htest : S.Delivers inTrait test fun _ => True)
    (h : S.Delivers inTrait item P) :
    S.Delivers inTrait (Parser.listOnceAndWhile test item)
      fun l : List α => l ≠ [] ∧ ∀ a ∈ l, P a := by
  refine h.bind fun a ha => listBound.bind fun _ _ => ?_
  refine (whileOnto htest h _ (forall_mem_push forall_mem_empty ha)).bind fun _ hl =>
    .pure ⟨hl.1 ?_, hl.2⟩
  exact toList_push_ne_nil _ _

theorem optionally (htest : S.Delivers inTrait test fun _ => True)
    (h : S.Delivers inTrait item P) :
    S.Delivers inTrait (Parser.optionally test item)
      fun o : Option α => ∀ a ∈ o, P a :=
  htest.bind fun _ _ => .ite
    (fun _ => h.bind fun _ ha => .pure fun _ hb => Option.some.inj hb ▸ ha) fun _ => .pure nofun

/-- A part that is there exactly if something is the case. -/
theorem optionallyIf {c : Bool} (h : c → S.Delivers inTrait item P) :
    S.Delivers inTrait (Parser.optionally (return c) item)
      fun o : Option α => o.isSome = c ∧ ∀ a ∈ o, P a := by
  intro p hp
  refine DeliversAt.bind (V := fun b => b = c) (Ends.of_run rfl ⟨rfl, hp⟩) ?_
  rintro b rfl
  cases b with
  | false => exact .pure ⟨rfl, nofun⟩
  | true => exact (h rfl).bind fun _ ha => .pure ⟨rfl, fun _ hb => Option.some.inj hb ▸ ha⟩

end Lists

end Delivers

end Supply

end ScriptFront
