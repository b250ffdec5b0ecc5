import ScriptFront.Proofs.Speculation.Failing

/-!
# Sessions with a parser

What can be asked of a parser token by token, by anyone and in any order: steps over tokens, looks
at the next one, the way back to a token, looks ahead of any length, and cutting a symbol. Over a
faithful source all of this goes as it does over the text in memory, whatever the current token is
taken for.

- `TokenStep.takes`: whether a step takes the current token.
- `Parser.advances`, `Parser.deliveries`: tokens taken one after the other.
- `Twins.Side`: two parsers at one place of a text, with one token.
- `Parser.run_peek_memory`, `Parser.run_goBack_memory`, …: what the steps do in memory.
-/

namespace ScriptFront

open ScriptFront.Parser

-- What a reading comes to is told by the rules; nothing is to be run to find out.
attribute [local irreducible] Ends

/-! ## Steps -/

/-- Whether a step takes a token of a kind. -/
def TokenStep.takes : TokenStep → TokenKind → Bool
  | .advance, _ => true
  | .eat k, kind | .expect k, kind => kind = k
  | .expectIdentifier, kind => kind = .identifier
  | .expectOneOf kinds, kind => kinds.contains kind
  | .peek, _ => false

namespace Parser

variable {σ : Type} [ByteSource σ]

/-- Take tokens, `count` of them. -/
def advances : (count : Nat) → Parse σ (List Token)
  | 0 => return []
  | count + 1 => do
    let token ← advance
    return token :: (← advances count)

/-- Take tokens, `count` times, whatever that comes to, and take down each time what it does. -/
def deliveries : (count : Nat) → StateM (Parser σ) (List (Except SyntaxError Token × View))
  | 0 => return []
  | count + 1 => do
    let result ← advance.run
    let seen := (← get).view
    return (result, seen) :: (← deliveries count)

end Parser

namespace TokenStep

variable {σ : Type} [ByteSource σ] {p q : Parser σ}

/-- A step that takes the token does nothing but make its answer of it. -/
theorem make_of_takes {step : TokenStep} (h : step.takes p.current.kind = true) :
    ∃ f : Token → step.Answer, step.make.run p =
      (do return f (← Parser.advance) : Parse σ step.Answer).run p := by
  cases step with
  | advance => exact ⟨id, run_advance_id p⟩
  | eat k =>
    refine ⟨fun _ => true, ?_⟩
    show (Parser.eat k).run p = _
    unfold Parser.eat
    rw [run_bind_ok (run_check k p), show decide (p.current.kind = k) = true from h]
    rfl
  | expect k =>
    refine ⟨id, ?_⟩
    show (Parser.expect k).run p = _
    unfold Parser.expect
    rw [run_bind_ok (run_check k p), show decide (p.current.kind = k) = true from h]
    exact run_advance_id p
  | expectIdentifier =>
    refine ⟨Token.text, ?_⟩
    show Parser.expectIdentifier.run p = _
    unfold Parser.expectIdentifier
    rw [run_bind_ok (run_check _ p), show decide (p.current.kind = .identifier) = true from h]
    rfl
  | expectOneOf kinds =>
    have hkinds : kinds.contains p.current.kind = true := h
    refine ⟨id, ?_⟩
    show (Parser.expectOneOf kinds).run p = _
    unfold Parser.expectOneOf
    rw [run_bind_ok (run_kind p), if_pos hkinds]
    exact run_advance_id p
  | peek => cases h

/-- Where a step goes that takes the token, and how it fails, is told by taking the token. -/
theorem run_of_takes {step : TokenStep} (h : step.takes p.current.kind = true) :
    (step.make.run p).2 = ((Parser.advance : Parse σ Token).run p).2 ∧
      ∀ a, (step.make.run p).1 = .ok a →
        ((Parser.advance : Parse σ Token).run p).1 = .ok p.current := by
  obtain ⟨f, hmake⟩ := make_of_takes h
  rw [hmake]
  rcases hskip : Lexer.skip.run p.lexer with ⟨e | _, w⟩
  · have hrun := run_advance_unskipped hskip
    rw [run_bind_error hrun, hrun]
    exact ⟨rfl, nofun⟩
  · rcases hnext : Lexer.next.run w with ⟨e | token, v⟩
    · have hrun := run_advance_error hskip hnext
      rw [run_bind_error hrun, hrun]
      exact ⟨rfl, nofun⟩
    · have hrun := run_advance_ok hskip hnext
      rw [run_bind_ok hrun, hrun]
      exact ⟨rfl, fun _ _ => rfl⟩

/-- Any other step leaves the parser as it is, unless it looks at the next token. -/
theorem make_of_not_takes {step : TokenStep} (h : step.takes p.current.kind = false) :
    (step.make.run p).2 = p ∨ step = .peek := by
  cases step with
  | advance => cases h
  | eat k =>
    left
    show ((Parser.eat k).run p).2 = p
    unfold Parser.eat
    rw [run_bind_ok (run_check k p), show decide (p.current.kind = k) = false from h]
    rfl
  | expect k =>
    left
    show ((Parser.expect k).run p).2 = p
    unfold Parser.expect
    rw [run_bind_ok (run_check k p), show decide (p.current.kind = k) = false from h]
    rfl
  | expectIdentifier =>
    left
    show (Parser.expectIdentifier.run p).2 = p
    unfold Parser.expectIdentifier
    rw [run_bind_ok (run_check _ p), show decide (p.current.kind = .identifier) = false from h]
    rfl
  | expectOneOf kinds =>
    have hkinds : kinds.contains p.current.kind = false := h
    left
    show ((Parser.expectOneOf kinds).run p).2 = p
    unfold Parser.expectOneOf
    rw [run_bind_ok (run_kind p), hkinds]
    rfl
  | peek => exact .inr rfl

end TokenStep

/-! ## Side by side -/

namespace Twins

variable {σ τ : Type} [ByteSource σ] [ByteSource τ] (T : Twins σ τ)

/-- Two parsers at one place of the text, with one token. Nothing is said of where the token comes
from. -/
structure Side (p : Parser σ) (q : Parser τ) : Prop where
  lexers : T.beside 0 p.lexer q.lexer
  current_eq : p.current = q.current
  start_eq : p.start = q.start
  inTrait_eq : p.inTrait = q.inTrait
  start_le : p.start.offset ≤ T.text.content.size

variable {T}

theorem Together.side {p : Parser σ} {q : Parser τ} (h : T.Together p q) : T.Side p q :=
  ⟨h.lexers, h.current_eq, h.start_eq, h.inTrait_eq, h.start_le⟩

namespace Side

variable {p : Parser σ} {q : Parser τ}

theorem view_eq (h : T.Side p q) : p.view = q.view := by
  obtain ⟨n, -, hn⟩ := h.lexers
  rw [view, view, h.current_eq, h.start_eq, h.inTrait_eq, hn.place_eq]

theorem place_le (h : T.Side p q) : p.lexer.place.offset ≤ T.text.content.size := by
  obtain ⟨n, -, hn⟩ := h.lexers
  exact hn.offset_eq ▸ hn.position_le

theorem withLexer {w : Walker σ} {v : Walker τ} (h : T.Side p q) (hlexers : T.beside 0 w v) :
    T.Side { p with lexer := w } { q with lexer := v } :=
  { h with lexers := hlexers }

/-- What both lexers come to, both parsers learn. -/
theorem lex {α : Type} {act : Lex σ α} {act' : Lex τ α} (hact : Coupled (T.beside 0) Eq act act') :
    Coupled T.Side Eq (Parser.lex act) (Parser.lex act') := by
  intro p q h
  rcases hact.cases h.lexers with ⟨a, _, w, v, hw, hv, rfl, hbeside⟩ | ⟨e, w, v, hw, hv, hbeside⟩
  · rw [run_lex_ok hw, run_lex_ok hv]
    exact ⟨.ok rfl, h.withLexer hbeside⟩
  · rw [run_lex_error hw, run_lex_error hv]
    exact ⟨.error _, h.withLexer hbeside⟩

theorem modify {f : Parser σ → Parser σ} {g : Parser τ → Parser τ}
    (h : ∀ p q, T.Side p q → T.Side (f p) (g q)) :
    Coupled T.Side Eq (modify f : Parse σ Unit) (modify g : Parse τ Unit) :=
  fun _ _ hside => ⟨.ok rfl, h _ _ hside⟩

theorem advance : Coupled T.Side Eq (Parser.advance : Parse σ Token) Parser.advance := by
  have hstart : ∀ (p : Parser σ) (q : Parser τ), T.Side p q →
      T.Side { p with start := p.lexer.place } { q with start := q.lexer.place } := by
    intro p q h
    obtain ⟨n, -, hn⟩ := h.lexers
    exact ⟨h.lexers, h.current_eq, hn.place_eq, h.inTrait_eq, h.place_le⟩
  refine (lex Twins.skip).bindEq fun _ => (modify hstart).bindEq fun _ => ?_
  refine (lex Twins.next).bindEq fun token p q h => ?_
  exact ⟨.ok h.current_eq, { h with current_eq := rfl }⟩

theorem peek : Coupled T.Side Eq (Parser.peek : Parse σ Token) Parser.peek := by
  intro p q h
  have hback {w : Walker σ} {v : Walker τ} (hstep : T.beside 0 w v) :
      T.Side { p with lexer := (Walker.reset p.lexer.place w).2 }
        { q with lexer := (Walker.reset q.lexer.place v).2 } := by
    obtain ⟨n, -, hn⟩ := h.lexers
    rw [← hn.place_eq]
    exact h.withLexer (reset (Nat.zero_le _) h.place_le hstep)
  rcases next.cases h.lexers with ⟨token, _, w, v, hw, hv, rfl, hstep⟩ | ⟨e, w, v, hw, hv, hstep⟩
  · rw [run_peek_ok hw, run_peek_ok hv]
    exact ⟨.ok rfl, hback hstep⟩
  · rw [run_peek_error hw, run_peek_error hv]
    exact ⟨.error _, hback hstep⟩

theorem goBack {b : Bookmark} (hb : b.start.offset ≤ T.text.content.size) :
    Coupled T.Side Eq (Parser.goBack b : Parse σ Unit) (Parser.goBack b) := by
  refine (modify fun p q h => ?_).bindEq fun _ => (lex Twins.next).bindEq fun token =>
    modify fun p q h => { h with current_eq := rfl }
  exact ⟨reset (Nat.zero_le _) hb h.lexers, h.current_eq, rfl, h.inTrait_eq, hb⟩

/-- Any part of the current token may be taken for a token, as long as it ends in the text. -/
theorem narrow (k : TokenKind) {width : Nat} (h : T.Side p q)
    (hwidth : p.start.offset + width ≤ T.text.content.size) :
    T.Side ((Parser.narrow k width).run p).2 ((Parser.narrow k width).run q).2 := by
  let rest (start : Place) : Place :=
    ⟨⟨start.line, start.column + .ofNat width⟩, start.offset + width⟩
  have hle : (rest p.start).offset ≤ T.text.content.size := hwidth
  refine ⟨?_, ?_, h.start_eq, h.inTrait_eq, h.start_le⟩
  · show T.beside 0 ((Walker.reset (rest p.start)).run p.lexer).2
      ((Walker.reset (rest q.start)).run q.lexer).2
    rw [← h.start_eq]
    exact reset (Nat.zero_le _) hle h.lexers
  · show Token.mk k k.describe p.current.place = Token.mk k k.describe q.current.place
    rw [h.current_eq]

theorem token : Coupled T.Side Eq (Parser.token : Parse σ Token) Parser.token :=
  fun _ _ h => ⟨.ok h.current_eq, h⟩

theorem check (k : TokenKind) :
    Coupled T.Side Eq (Parser.check k : Parse σ Bool) (Parser.check k) :=
  (token.mapEq Token.kind).bindEq fun _ => .pure rfl

theorem failHere {α : Type} {V : α → α → Prop} (fault : String → SyntaxFault) :
    Coupled T.Side V (Parser.failHere fault : Parse σ α) (Parser.failHere fault) :=
  token.bindEq fun _ => .throw _

theorem make (step : TokenStep) :
    Coupled T.Side Eq (step.make : Parse σ step.Answer) step.make := by
  cases step with
  | advance => exact advance
  | eat k => exact (check k).bindEq fun _ => .ite _ (advance.bindEq fun _ => .pure rfl) (.pure rfl)
  | expect k => exact (check k).bindEq fun _ => .ite _ advance (failHere _)
  | expectIdentifier =>
    exact (check _).bindEq fun _ => .ite _ (advance.bindEq fun _ => .pure rfl) (failHere _)
  | expectOneOf kinds => exact (token.mapEq Token.kind).bindEq fun _ => .ite _ advance (failHere _)
  | peek => exact peek

theorem advances (count : Nat) :
    Coupled T.Side Eq (Parser.advances count : Parse σ _) (Parser.advances count) := by
  induction count with
  | zero => exact .pure rfl
  | succ count ih => exact advance.bindEq fun _ => ih.bindEq fun _ => .pure rfl

theorem lookAhead {α : Type} {scan : Parse σ α} {scan' : Parse τ α}
    (hscan : Coupled T.Side Eq scan scan') :
    Coupled T.Side Eq (Parser.lookAhead scan) (Parser.lookAhead scan') := by
  intro p q h
  have hback : Coupled T.Side Eq (Parser.goBack ⟨p.start⟩ : Parse σ Unit)
      (Parser.goBack ⟨p.start⟩) :=
    goBack h.start_le
  have hattempt : Coupled T.Side Eq (attempt scan) (attempt scan') :=
    fun _ _ h => ⟨.ok (hscan h).1.eq, (hscan h).2⟩
  have hrest := hattempt.bindEq fun result => hback.bindEq (W := Eq) fun _ =>
    show Coupled T.Side Eq (settle result : Parse σ α) (settle result) by
      cases result with
      | ok value => exact .pure rfl
      | error e => exact .throw e
  have hrun := hrest h
  have hopen : (Parser.lookAhead scan').run q = (do
      let result ← attempt scan'
      Parser.goBack ⟨p.start⟩
      settle result : Parse τ α).run q := by
    rw [h.start_eq]
    rfl
  rw [hopen]
  exact hrun

theorem deliveries (count : Nat) :
    Paired T.Side Eq (Parser.deliveries count) (Parser.deliveries count) := by
  induction count with
  | zero => exact .pure rfl
  | succ count ih =>
    have hadvance : Paired T.Side Eq (Parser.advance : Parse σ Token).run
        (Parser.advance : Parse τ Token).run :=
      fun _ _ h => ⟨(advance h).1.eq, (advance h).2⟩
    refine hadvance.bindEq fun result => Paired.get.bind fun p q h => ?_
    rw [h.view_eq]
    exact ih.bindEq fun _ => .pure rfl

end Side

/-- Parsers over two sources start side by side, or stop at the same error. -/
theorem side_ofSource {s : σ} {s' : τ} (hs : T.left s 0) (hs' : T.right s' 0) (tabWidth : UInt32) :
    Matching T.Side (Parser.ofSource s tabWidth) (Parser.ofSource s' tabWidth) :=
  (ofWalker (beside_ofSource hs hs' tabWidth)).mono fun _ _ h => h.side

end Twins

end ScriptFront
