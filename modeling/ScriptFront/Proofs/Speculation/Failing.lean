import ScriptFront.Proofs.Lexing.Failing
import ScriptFront.Proofs.Speculation.Errors

/-!
# Steps that fail

A parser keeps the current token beside the place where it starts, and going back to that place
should show the token again. A step that fails keeps the current token. It keeps the place too,
unless the step has gone over white space already and then found no token there: in that case the
place is the one of the error, and there is no way back to the current token from it.

- `TokenStep`: the steps that take or look at one token.
- `Parser.Restorable`: going back to the start of the current token shows it again.
- `Text.failing_steps`: what a failing step leaves, and what a step that does not fail does.
- `Text.failing_steps_lose_start`: a token whose place is lost.
-/

namespace ScriptFront

open ScriptFront.Parser

-- What a reading comes to is told by the rules; nothing is to be run to find out.
attribute [local irreducible] Ends

/-! ## Steps -/

/-- A step that takes the current token, or looks at the next one. -/
inductive TokenStep where
  | advance
  | eat (k : TokenKind)
  | expect (k : TokenKind)
  | expectIdentifier
  | expectOneOf (kinds : List TokenKind)
  | peek
deriving DecidableEq, Repr

namespace TokenStep

/-- What a step hands out. -/
def Answer : TokenStep → Type
  | .eat _ => Bool
  | .expectIdentifier => String
  | .advance | .expect _ | .expectOneOf _ | .peek => Token

variable {σ : Type} [ByteSource σ]

/-- Make the step. -/
def make : (step : TokenStep) → Parse σ step.Answer
  | .advance => Parser.advance
  | .eat k => Parser.eat k
  | .expect k => Parser.expect k
  | .expectIdentifier => Parser.expectIdentifier
  | .expectOneOf kinds => Parser.expectOneOf kinds
  | .peek => Parser.peek

/-- Whether the step, stopped by an error, has found no token where one should start: it was not
content to look at it, and what is wrong is not a comment. -/
def Misses (step : TokenStep) (e : SyntaxError) : Prop :=
  step ≠ .peek ∧ ∃ fault, e.fault = .lexical fault ∧ fault ≠ .unclosedComment

end TokenStep

/-- Going back to the start of the current token shows the token again. -/
def Parser.Restorable {σ : Type} [ByteSource σ] (p : Parser σ) : Prop :=
  ∃ q, (goBack ⟨p.start⟩).run p = (.ok (), q) ∧ q.current = p.current

/-! ## Steps, run -/

section Runs

variable {σ : Type}

theorem run_check (k : TokenKind) (p : Parser σ) :
    (check k : Parse σ Bool).run p = (.ok (decide (p.current.kind = k)), p) := rfl

theorem run_kind (p : Parser σ) : (kind : Parse σ TokenKind).run p = (.ok p.current.kind, p) := rfl

variable [ByteSource σ] {p : Parser σ} {b : Bookmark} {w v : Walker σ} {e : LexError}
  {token : Token}

theorem run_advance_unskipped (h : Lexer.skip.run p.lexer = (.error e, w)) :
    (advance : Parse σ Token).run p = (.error e.toSyntaxError, { p with lexer := w }) := by
  unfold advance
  rw [run_bind_error (run_lex_error h)]

theorem run_advance_error (hskip : Lexer.skip.run p.lexer = (.ok (), w))
    (hnext : Lexer.next.run w = (.error e, v)) : (advance : Parse σ Token).run p =
      (.error e.toSyntaxError, { p with lexer := v, start := w.place }) := by
  unfold advance
  rw [run_bind_ok (run_lex_ok hskip), run_modify_bind, run_bind_error (run_lex_error hnext)]

theorem run_advance_ok (hskip : Lexer.skip.run p.lexer = (.ok (), w))
    (hnext : Lexer.next.run w = (.ok token, v)) : (advance : Parse σ Token).run p =
      (.ok p.current, { p with lexer := v, start := w.place, current := token }) := by
  unfold advance
  rw [run_bind_ok (run_lex_ok hskip), run_modify_bind, run_bind_ok (run_lex_ok hnext)]
  rfl

theorem run_advance_id (p : Parser σ) : (advance : Parse σ Token).run p =
    (do return id (← advance) : Parse σ Token).run p :=
  congrArg (fun x : Parse σ Token => x.run p) (bind_pure (advance : Parse σ Token)).symm

/-- The token that has to be there is there, and it is taken. -/
theorem of_run_mark {k : TokenKind} {q : Parser σ}
    (h : (mark k : Parse σ Unit).run p = (.ok (), q)) :
    p.current.kind = k ∧ ∃ t, (advance : Parse σ Token).run p = (.ok t, q) := by
  have hexpect : (expect k : Parse σ Token).run p =
      (if decide (p.current.kind = k) then advance else failHere (.wrongToken k) :
        Parse σ Token).run p := rfl
  obtain ⟨t, q', hrun, hpure⟩ := of_run_bind h
  obtain rfl : q' = q := (Prod.mk.inj hpure).2
  rw [hexpect] at hrun
  by_cases hkind : p.current.kind = k
  · rw [if_pos (decide_eq_true hkind)] at hrun
    exact ⟨hkind, t, hrun⟩
  · rw [decide_eq_false hkind] at hrun
    cases hrun

theorem kind_of_run_mark {k : TokenKind} {q : Parser σ}
    (h : (mark k : Parse σ Unit).run p = (.ok (), q)) : p.current.kind = k := (of_run_mark h).1

theorem run_mark {k : TokenKind} {t : Token} {q : Parser σ} (hkind : p.current.kind = k)
    (h : (advance : Parse σ Token).run p = (.ok t, q)) :
    (mark k : Parse σ Unit).run p = (.ok (), q) := by
  unfold mark expect
  rw [bind_assoc, run_bind_ok (run_check k p), decide_eq_true hkind, if_pos rfl, run_bind_ok h]
  rfl

theorem run_goBack_error
    (h : Lexer.next.run ((Walker.reset b.start).run p.lexer).2 = (.error e, v)) :
    (goBack b : Parse σ Unit).run p =
      (.error e.toSyntaxError, { p with lexer := v, start := b.start }) := by
  unfold goBack
  rw [run_modify_bind, run_bind_error (run_lex_error h)]

theorem run_goBack_ok (h : Lexer.next.run ((Walker.reset b.start).run p.lexer).2 = (.ok token, v)) :
    (goBack b : Parse σ Unit).run p =
      (.ok (), { p with lexer := v, start := b.start, current := token }) := by
  unfold goBack
  rw [run_modify_bind, run_bind_ok (run_lex_ok h)]
  rfl

/-- A step that fails has failed to take the current token, or finds fault with it, or is just a
look at the next one. What it has done with a token of that kind, it does with every other one. -/
inductive TokenStep.Fails (step : TokenStep) (p : Parser σ) (e : SyntaxError) (q : Parser σ) : Prop
  where
  | peek (step_eq : step = .peek)
  | advance (step_ne : step ≠ .peek)
    (run_eq : (Parser.advance : Parse σ Token).run p = (.error e, q))
    (again : ∀ r r' : Parser σ, r.current = p.current →
      (Parser.advance : Parse σ Token).run r = (.error e, r') → step.make.run r = (.error e, r'))
  | refuse (eq : q = p) (fault_ne : ∀ fault, e.fault ≠ .lexical fault)

/-- Once it is accepted, nothing but taking the token can fail. -/
theorem TokenStep.Fails.of_take {step : TokenStep} {e : SyntaxError} {q : Parser σ}
    {f : Token → step.Answer} (hstep : step ≠ .peek)
    (hmake : ∀ r : Parser σ, r.current = p.current →
      step.make.run r = (do return f (← Parser.advance) : Parse σ step.Answer).run r)
    (h : step.make.run p = (.error e, q)) : step.Fails p e q := by
  rw [hmake p rfl] at h
  rcases hrun : (Parser.advance : Parse σ Token).run p with ⟨e' | token, p'⟩
  · rw [run_bind_error hrun] at h
    obtain ⟨he, rfl⟩ := Prod.mk.inj h
    obtain rfl := Except.error.inj he
    refine .advance hstep hrun ?_
    intro r r' hcurrent hr
    rw [hmake r hcurrent, run_bind_error hr]
  · rw [run_bind_ok hrun] at h
    cases h

/-- The ways in which a step fails. -/
theorem TokenStep.fails {step : TokenStep} {e : SyntaxError} {q : Parser σ}
    (h : step.make.run p = (.error e, q)) : step.Fails p e q := by
  cases step with
  | peek => exact .peek rfl
  | advance =>
    refine .of_take (f := id) nofun ?_ h
    intro r _
    show (Parser.advance : Parse σ Token).run r =
      (do return id (← Parser.advance) : Parse σ Token).run r
    exact run_advance_id r
  | eat k =>
    by_cases hk : p.current.kind = k
    · refine .of_take (f := fun _ => true) nofun ?_ h
      intro r hcurrent
      show (Parser.eat k).run r = _
      unfold Parser.eat
      rw [run_bind_ok (run_check k r), hcurrent, decide_eq_true hk]
      rfl
    · have hmake : (make (.eat k)).run p = (.ok false, p) := by
        show (Parser.eat k).run p = _
        unfold Parser.eat
        rw [run_bind_ok (run_check k p), decide_eq_false hk]
        rfl
      rw [hmake] at h
      cases h
  | expect k =>
    by_cases hk : p.current.kind = k
    · refine .of_take (f := id) nofun ?_ h
      intro r hcurrent
      show (Parser.expect k).run r = _
      unfold Parser.expect
      rw [run_bind_ok (run_check k r), hcurrent, decide_eq_true hk]
      exact run_advance_id r
    · have hmake : (make (.expect k)).run p =
          (.error ⟨.wrongToken k p.current.text, p.current.place, none⟩, p) := by
        show (Parser.expect k).run p = _
        unfold Parser.expect
        rw [run_bind_ok (run_check k p), decide_eq_false hk]
        rfl
      rw [hmake] at h
      cases h
      exact .refuse rfl nofun
  | expectIdentifier =>
    by_cases hk : p.current.kind = .identifier
    · refine .of_take (f := Token.text) nofun ?_ h
      intro r hcurrent
      show Parser.expectIdentifier.run r = _
      unfold Parser.expectIdentifier
      rw [run_bind_ok (run_check _ r), hcurrent, decide_eq_true hk]
      rfl
    · have hmake : (make .expectIdentifier).run p =
          (.error ⟨.missingIdentifier p.current.text, p.current.place, none⟩, p) := by
        show Parser.expectIdentifier.run p = _
        unfold Parser.expectIdentifier
        rw [run_bind_ok (run_check _ p), decide_eq_false hk]
        rfl
      rw [hmake] at h
      cases h
      exact .refuse rfl nofun
  | expectOneOf kinds =>
    by_cases hk : kinds.contains p.current.kind
    · refine .of_take (f := id) nofun ?_ h
      intro r hcurrent
      show (Parser.expectOneOf kinds).run r = _
      unfold Parser.expectOneOf
      rw [run_bind_ok (run_kind r), hcurrent, if_pos hk]
      exact run_advance_id r
    · have hmake : (make (.expectOneOf kinds)).run p =
          (.error ⟨.noneOf kinds p.current.text, p.current.place, none⟩, p) := by
        show (Parser.expectOneOf kinds).run p = _
        unfold Parser.expectOneOf
        rw [run_bind_ok (run_kind p), if_neg hk]
        rfl
      rw [hmake] at h
      cases h
      exact .refuse rfl nofun

end Runs

/-! ## Taking a token, again and again -/

namespace Twins

variable {σ : Type} [ByteSource σ] {T : Twins σ Buffer} {p q : Parser σ} {v : Walker Buffer}
  {e : SyntaxError} {error : LexError}

/-- Where the lexer stands, beside a walker over the text in memory, when a parser has failed to
take its token: in front of a comment that is not closed, or where the next token should start. The
parser has gone there in the latter case only. -/
inductive Stalls (T : Twins σ Buffer) (start : Place) (q : Parser σ) (u : Walker Buffer)
    (error : LexError) : Prop where
  | comment (start_eq : q.start = start) (fault_eq : error.fault = .unclosedComment)
    (skip_eq : Lexer.skip.run u = (.error error, u))
  | token (start_eq : q.start = u.place) (fault_ne : error.fault ≠ .unclosedComment)
    (place_eq : error.place = u.place.stored) (settled : u.Settled)
    (next_eq : Lexer.next.run u = (.error error, u))

/-- Failing to take the current token keeps it. -/
theorem stalls_of_advance (hv : T.beside 0 p.lexer v)
    (h : (Parser.advance : Parse σ Token).run p = (.error e, q)) :
    q.current = p.current ∧ q.inTrait = p.inTrait ∧ ∃ error u, e = error.toSyntaxError ∧
      T.beside 0 q.lexer u ∧ v.SameText u ∧ T.Stalls p.start q u error := by
  rcases skip.cases hv with ⟨_, _, w, u, hw, hu, -, hbeside⟩ | ⟨error, w, u, hw, hu, hbeside⟩
  · have hsettled := Walker.settled_of_skip hu
    have hsame : v.SameText u := by
      obtain ⟨gap, hgap, -⟩ := Ends.ok (Ends.skip v) hu
      exact hgap.toSameText
    obtain ⟨n, -, hplace⟩ := id hbeside
    rcases next.cases hbeside with ⟨_, _, w', u', hw', -⟩ | ⟨error, w', u', hw', hu', hbeside'⟩
    · rw [run_advance_ok hw hw'] at h
      cases h
    · rw [run_advance_error hw hw'] at h
      obtain ⟨rfl, hplace', hfault⟩ := Walker.run_next_stuck hsettled hu'
      cases h
      exact ⟨rfl, rfl, error, u', rfl, hbeside', hsame,
        .token hplace.place_eq hfault hplace' hsettled hu'⟩
  · rw [run_advance_unskipped hw] at h
    obtain ⟨hsame, hunclosed, herror⟩ := Walker.unclosed_of_skip hu
    cases h
    refine ⟨rfl, rfl, error, u, rfl, hbeside, hsame, .comment rfl ?_ ?_⟩
    · rw [herror]
    · rw [herror]
      exact Walker.run_skip_unclosed hunclosed

/-- From where it has failed, taking the token fails again in the same way. -/
theorem Stalls.advance_again {start : Place} {u : Walker Buffer} (h : T.Stalls start q u error)
    (hbeside : T.beside 0 q.lexer u) : ∃ r,
      (Parser.advance : Parse σ Token).run q = (.error error.toSyntaxError, r) ∧
        r.view = q.view := by
  obtain ⟨n, -, hplace⟩ := id hbeside
  cases h with
  | comment start_eq fault_eq skip_eq =>
    rcases skip.cases hbeside with ⟨_, _, w, u', hw, hu', -⟩ | ⟨_, w, u', hw, hu', hbeside'⟩
    · rw [skip_eq] at hu'
      cases hu'
    · rw [skip_eq] at hu'
      cases hu'
      obtain ⟨m, -, hplace'⟩ := hbeside'
      refine ⟨_, run_advance_unskipped hw, ?_⟩
      rw [view, view, hplace'.place_eq, hplace.place_eq]
  | token start_eq fault_ne place_eq settled next_eq =>
    have hskip := Walker.run_skip_of_settled settled
    rcases skip.cases hbeside with ⟨_, _, w, u', hw, hu', -, hbeside'⟩ | ⟨_, w, u', hw, hu', -⟩
    · rw [hskip] at hu'
      cases hu'
      obtain ⟨m, -, hplace'⟩ := id hbeside'
      rcases next.cases hbeside' with ⟨_, _, w', u'', hw', hu'', -⟩
        | ⟨_, w', u'', hw', hu'', hbeside''⟩
      · rw [next_eq] at hu''
        cases hu''
      · rw [next_eq] at hu''
        cases hu''
        obtain ⟨k, -, hplace''⟩ := hbeside''
        refine ⟨_, run_advance_error hw hw', ?_⟩
        rw [view, view, hplace''.place_eq, hplace'.place_eq, start_eq, hplace.place_eq]
    · rw [hskip] at hu'
      cases hu'

/-- From where a look at the next token has led, the lexer goes back to where it was. -/
theorem beside_of_peek {w : Walker σ} {u : Walker Buffer} (hv : T.beside 0 p.lexer v)
    (h : T.beside 0 w u) (hsame : v.SameText u) :
    T.beside 0 ((Walker.reset p.lexer.place).run w).2 v := by
  obtain ⟨n, -, hn⟩ := hv
  have hle : p.lexer.place.offset ≤ T.text.content.size := hn.offset_eq ▸ hn.position_le
  have hback := reset (Nat.zero_le p.lexer.place.offset) hle h
  rw [hn.place_eq, Walker.run_reset hsame, ← hn.place_eq] at hback
  exact hback

/-- Looking at the next token changes nothing but what the source keeps for itself, and comes to the
same once more. -/
theorem peek_again {r : Except SyntaxError Token} (hv : T.beside 0 p.lexer v)
    (h : (Parser.peek : Parse σ Token).run p = (r, q)) : q.view = p.view ∧ T.beside 0 q.lexer v ∧
      ∃ q', (Parser.peek : Parse σ Token).run q = (r, q') ∧ q'.view = q.view := by
  -- Beside one walker, all parsers find the same.
  have finds (p : Parser σ) (hv : T.beside 0 p.lexer v) : ∃ w,
      (Parser.peek : Parse σ Token).run p =
        ((Lexer.next.run v).1.mapError LexError.toSyntaxError, { p with lexer := w }) ∧
      T.beside 0 w v := by
    rcases next.cases hv with ⟨token, _, w, u, hw, hu, rfl, hbeside⟩
      | ⟨error, w, u, hw, hu, hbeside⟩
    · rw [run_peek_ok hw, hu]
      exact ⟨_, rfl, beside_of_peek hv hbeside (Walker.sameText_of_next hu)⟩
    · rw [run_peek_error hw, hu]
      obtain ⟨gap, hgap, -⟩ := Walker.stopped_of_next hu
      exact ⟨_, rfl, beside_of_peek hv hbeside hgap.toSameText⟩
  have shown (p q : Parser σ) (w : Walker σ) (hv : T.beside 0 p.lexer v) (hw : T.beside 0 w v)
      (hq : q = { p with lexer := w }) : q.view = p.view := by
    obtain ⟨n, -, hn⟩ := hv
    obtain ⟨m, -, hm⟩ := hw
    rw [hq, view, view, hn.place_eq, hm.place_eq]
  obtain ⟨w, hrun, hw⟩ := finds p hv
  rw [hrun] at h
  obtain ⟨hr, hq⟩ := Prod.mk.inj h
  have hbeside : T.beside 0 q.lexer v := by
    rw [← hq]
    exact hw
  obtain ⟨w', hrun', hw'⟩ := finds q hbeside
  rw [hr] at hrun'
  exact ⟨shown p q w hv hw hq.symm, hbeside, _, hrun', shown q _ w' hbeside hw' rfl⟩

/-! ## The way back -/

/-- Wherever in a text a walker comes from, it gets to the same place. -/
theorem reset_eq {u : Walker Buffer} (h : v.SameText u) (target : Place) :
    ((Walker.reset target).run u).2 = ((Walker.reset target).run v).2 := by
  have hsource : u.source.moveTo target.offset = v.source.moveTo target.offset := by
    unfold Buffer.moveTo
    rw [Buffer.mk.injEq, h.content_eq]
    exact ⟨h.name_eq, rfl, rfl⟩
  show Walker.mk (u.source.moveTo target.offset) target.line target.column u.tabWidth =
    Walker.mk (v.source.moveTo target.offset) target.line target.column v.tabWidth
  rw [hsource, h.tabWidth_eq]

/-- Going back shows the current token again if the text has it there. -/
theorem restorable_iff (hv : T.beside 0 p.lexer v) (hle : p.start.offset ≤ T.text.content.size) :
    p.Restorable ↔
      ∃ u, Lexer.next.run ((Walker.reset p.start).run v).2 = (.ok p.current, u) := by
  have hback : T.beside 0 ((Walker.reset p.start).run p.lexer).2 ((Walker.reset p.start).run v).2 :=
    reset (Nat.zero_le _) hle hv
  rcases next.cases hback with ⟨token, _, w, u, hw, hu, rfl, -⟩ | ⟨error, w, u, hw, hu, -⟩
  · constructor
    · rintro ⟨q, hq, hcurrent⟩
      rw [run_goBack_ok (b := ⟨p.start⟩) hw] at hq
      obtain ⟨-, rfl⟩ := Prod.mk.inj hq
      exact ⟨u, hcurrent ▸ hu⟩
    · rintro ⟨u', hu'⟩
      rw [hu] at hu'
      obtain ⟨htoken, -⟩ := Prod.mk.inj hu'
      exact ⟨_, run_goBack_ok (b := ⟨p.start⟩) hw, Except.ok.inj htoken⟩
  · constructor
    · rintro ⟨q, hq, -⟩
      rw [run_goBack_error (b := ⟨p.start⟩) hw] at hq
      cases (Prod.mk.inj hq).1
    · rintro ⟨u', hu'⟩
      rw [hu] at hu'
      cases (Prod.mk.inj hu').1

/-- There is no way back to where the next token should start. -/
theorem Stalls.goBack_error {start : Place} {u : Walker Buffer} (h : T.Stalls start q u error)
    (hfault : error.fault ≠ .unclosedComment) (hbeside : T.beside 0 q.lexer u) :
    q.start.stored = error.place ∧
      ∃ r, (Parser.goBack ⟨q.start⟩ : Parse σ Unit).run q = (.error error.toSyntaxError, r) := by
  cases h with
  | comment start_eq fault_eq skip_eq => exact absurd fault_eq hfault
  | token start_eq fault_ne place_eq settled next_eq =>
    obtain ⟨n, -, hn⟩ := id hbeside
    have hle : u.place.offset ≤ T.text.content.size := by
      rw [← hn.place_eq, hn.offset_eq]
      exact hn.position_le
    have hback : T.beside 0 ((Walker.reset u.place).run q.lexer).2 u := by
      have hreset := reset (Nat.zero_le u.place.offset) hle hbeside
      rw [Walker.run_reset (.refl u)] at hreset
      exact hreset
    refine ⟨start_eq ▸ place_eq.symm, ?_⟩
    rcases next.cases hback with ⟨_, _, w, u', hw, hu', -⟩ | ⟨_, w, u', hw, hu', -⟩
    · rw [next_eq] at hu'
      cases hu'
    · rw [next_eq] at hu'
      cases hu'
      rw [← start_eq] at hw
      exact ⟨_, run_goBack_error (b := ⟨q.start⟩) hw⟩

/-- Taking a token leads to one that can be gone back to. -/
theorem restorable_of_advance {token : Token} (hv : T.beside 0 p.lexer v)
    (h : (Parser.advance : Parse σ Token).run p = (.ok token, q)) : q.Restorable := by
  rcases skip.cases hv with ⟨_, _, w, u, hw, hu, -, hbeside⟩ | ⟨error, w, u, hw, -⟩
  · obtain ⟨n, -, hplace⟩ := id hbeside
    rcases next.cases hbeside with ⟨token, _, w', u', hw', hu', rfl, hbeside'⟩ | ⟨_, w', u', hw', -⟩
    · rw [run_advance_ok hw hw'] at h
      cases h
      refine (restorable_iff hbeside' ?_).2 ⟨u', ?_⟩
      · exact hplace.offset_eq ▸ hplace.position_le
      · show Lexer.next.run ((Walker.reset w.place).run u').2 = _
        rw [hplace.place_eq, Walker.run_reset (Walker.sameText_of_next hu')]
        exact hu'
    · rw [run_advance_error hw hw'] at h
      cases h
  · rw [run_advance_unskipped hw] at h
    cases h

/-- Going back leads to a token that can be gone back to. -/
theorem restorable_of_goBack {b : Bookmark} (hb : b.start.offset ≤ T.text.content.size)
    (hv : T.beside 0 p.lexer v) (h : (Parser.goBack b : Parse σ Unit).run p = (.ok (), q)) :
    q.Restorable := by
  have hback : T.beside 0 ((Walker.reset b.start).run p.lexer).2 ((Walker.reset b.start).run v).2 :=
    reset (Nat.zero_le _) hb hv
  rcases next.cases hback with ⟨token, _, w, u, hw, hu, rfl, hbeside⟩ | ⟨error, w, u, hw, -⟩
  · rw [run_goBack_ok hw] at h
    cases h
    have hsame : v.SameText ((Walker.reset b.start).run v).2 := ⟨rfl, rfl, rfl⟩
    refine (restorable_iff hbeside hb).2 ⟨u, ?_⟩
    show Lexer.next.run ((Walker.reset b.start).run u).2 = _
    rw [reset_eq (hsame.trans (Walker.sameText_of_next hu))]
    exact hu
  · rw [run_goBack_error hw] at h
    cases h

end Twins

/-! ## Texts -/

namespace Text

variable {σ : Type} [ByteSource σ] {t : Text} {limit : Nat} {shows : σ → Nat → Prop}

/-- Whatever state a parser over a faithful source is in, a step that fails keeps the current token,
and made again it fails again, with the same error, and changes nothing any more. Unless it misses a
token it keeps the start of the current token, and also the way back to it; if it misses one, the
start becomes the place of the error, and going back there fails with that error. A step that takes
a token and one that goes back lead to tokens that can be gone back to. -/
theorem failing_steps (hfaithful : t.Faithful limit shows) (hroom : t.content.size + 3 < limit)
    {p : Parser σ} {n : Nat} (hp : shows p.lexer.source n)
    (hstart : p.start.offset ≤ t.content.size) :
    (∀ (step : TokenStep) (e : SyntaxError) (q : Parser σ), step.make.run p = (.error e, q) →
      q.current = p.current ∧ q.inTrait = p.inTrait ∧
        (∃ r, step.make.run q = (.error e, r) ∧ r.view = q.view) ∧
        (¬step.Misses e → q.start = p.start ∧ (p.Restorable → q.Restorable)) ∧
        (step.Misses e → q.start.stored = e.place ∧
          ∃ r, (goBack ⟨q.start⟩).run q = (.error e, r))) ∧
      (∀ token q, (advance : Parse σ Token).run p = (.ok token, q) → q.Restorable) ∧
      ∀ b q, b.start.offset ≤ t.content.size → (goBack b : Parse σ Unit).run p = (.ok (), q) →
        q.Restorable := by
  let T := besideMemory hfaithful hroom
  have hle : n ≤ t.content.size := hfaithful.position_le hp
  let v : Walker Buffer :=
    ⟨⟨t.name, t.content, n, hle⟩, p.lexer.line, p.lexer.column, p.lexer.tabWidth⟩
  have hv : T.beside 0 p.lexer v := ⟨n, Nat.zero_le n, hp, ⟨rfl, rfl, rfl⟩, rfl, rfl, rfl⟩
  refine ⟨?_, fun _ _ => T.restorable_of_advance hv, fun _ _ hb => T.restorable_of_goBack hb hv⟩
  intro step e q h
  cases step.fails h with
  | peek step_eq =>
    subst step_eq
    obtain ⟨hview, hu, r, hagain, hview'⟩ := T.peek_again hv h
    have hcurrent : q.current = p.current := congrArg View.current hview
    have hstart_eq : q.start = p.start := congrArg View.start hview
    refine ⟨hcurrent, congrArg View.inTrait hview, ⟨r, hagain, hview'⟩, fun _ => ?_, ?_⟩
    · refine ⟨hstart_eq, fun hback => ?_⟩
      rw [T.restorable_iff hu (hstart_eq ▸ hstart), hstart_eq, hcurrent]
      exact (T.restorable_iff hv hstart).1 hback
    · rintro ⟨hne, -⟩
      exact absurd rfl hne
  | advance step_ne run_eq again =>
    obtain ⟨hcurrent, hinTrait, error, u, rfl, hu, hsame, hstalls⟩ := T.stalls_of_advance hv run_eq
    obtain ⟨r, hr, hview⟩ := hstalls.advance_again hu
    refine ⟨hcurrent, hinTrait, ⟨r, again q r hcurrent hr, hview⟩, ?_, ?_⟩
    · intro hmisses
      cases hstalls with
      | comment start_eq fault_eq skip_eq =>
        refine ⟨start_eq, fun hback => ?_⟩
        obtain ⟨u', hnext⟩ := (T.restorable_iff hv hstart).1 hback
        refine (T.restorable_iff hu (start_eq ▸ hstart)).2 ⟨u', ?_⟩
        rw [start_eq, hcurrent, Twins.reset_eq hsame]
        exact hnext
      | token start_eq fault_ne place_eq settled next_eq =>
        exact absurd ⟨step_ne, error.fault, rfl, fault_ne⟩ hmisses
    · rintro ⟨-, fault, hfault, hne⟩
      cases hfault
      exact hstalls.goBack_error hne hu
  | refuse eq fault_ne =>
    subst eq
    refine ⟨rfl, rfl, ⟨q, h, rfl⟩, fun _ => ⟨rfl, id⟩, ?_⟩
    rintro ⟨-, fault, hfault, -⟩
    exact absurd hfault (fault_ne fault)

/-- A parser at a name, and no token behind the blank: a step over the name misses one, keeps the
name, and goes on missing one. -/
theorem failing_steps_missed :
    let t : Text := ⟨"missed", utf8Bytes "a \x27bc\x27"⟩
    let p : Parser Buffer :=
      ⟨⟨t.inMemory.moveTo 1, 1, 2, 4⟩, ⟨.identifier, "a", Place.start⟩, Place.start, false⟩
    let e : SyntaxError := ⟨.lexical .malformedCharacter, ⟨⟨1, 3⟩, 2⟩, none⟩
    let step : TokenStep := .expect .identifier
    t.InBuffer p.lexer.source 1 ∧ p.start.offset ≤ t.content.size ∧ step.Misses e ∧
      ∃ q, step.make.run p = (.error e, q) ∧ q.current = p.current ∧
        q.start.stored = ⟨⟨1, 3⟩, 2⟩ ∧ ∃ r, step.make.run q = (.error e, r) ∧ r.view = q.view := by
  intro t p e step
  have hshows : t.InBuffer p.lexer.source 1 := ⟨rfl, rfl, rfl⟩
  have hstart : p.start.offset ≤ t.content.size := Nat.zero_le _
  have herror : errorOf? (step.make.run p).1 = some e := by decide +kernel
  have hmisses : step.Misses e := ⟨nofun, .malformedCharacter, rfl, nofun⟩
  have hbuffer := t.buffer (t.content.size + 4)
  rcases hrun : step.make.run p with ⟨result, q⟩
  rw [hrun] at herror
  obtain rfl := eq_error_of_errorOf? herror
  obtain ⟨hcurrent, -, hagain, -, hplace⟩ :=
    (failing_steps hbuffer (by omega) hshows hstart).1 step e q hrun
  exact ⟨hshows, hstart, hmisses, q, rfl, hcurrent, (hplace hmisses).1, hagain⟩

/-- So a step that fails need not leave the parser as it was: the start of the current token is
lost, and there is no way back to the token. -/
theorem failing_steps_lose_start :
    let t : Text := ⟨"lost", utf8Bytes "a \x27bc\x27"⟩
    ∃ p e q, Parser.ofSource t.inMemory 4 = .ok p ∧ (advance : Parse Buffer Token).run p =
      (.error e, q) ∧ q.current = p.current ∧ q.start ≠ p.start ∧ p.Restorable ∧ ¬q.Restorable := by
  intro t
  let back (p : Parser Buffer) := (goBack ⟨p.start⟩ : Parse Buffer Unit).run p
  let lost (p : Parser Buffer) : Bool :=
    let (result, q) := (advance : Parse Buffer Token).run p
    !result.isOk && q.current = p.current && q.start ≠ p.start && (back p).1.isOk &&
      (back p).2.current = p.current && !(back q).1.isOk
  have hlost : (Parser.ofSource t.inMemory 4).toOption.any lost := by decide +kernel
  obtain ⟨p, hp, hlost'⟩ := exists_ok_of_any hlost
  unfold lost at hlost'
  rcases hrun : (advance : Parse Buffer Token).run p with ⟨e | token, q⟩
  · rw [hrun] at hlost'
    simp only [Bool.and_eq_true, decide_eq_true_eq] at hlost'
    obtain ⟨⟨⟨⟨⟨-, hcurrent⟩, hstart⟩, hback⟩, hback'⟩, hlost⟩ := hlost'
    refine ⟨p, e, q, hp, hrun, hcurrent, hstart, ?_, ?_⟩
    · rcases hp' : back p with ⟨_ | _, p'⟩
      · rw [hp'] at hback
        cases hback
      · rw [hp'] at hback'
        exact ⟨p', hp', hback'⟩
    · rintro ⟨q', hq', -⟩
      have hok : (back q).1.isOk := by
        show (Except.isOk ((goBack ⟨q.start⟩ : Parse Buffer Unit).run q).1) = true
        rw [hq']
        rfl
      rw [hok] at hlost
      cases hlost
  · rw [hrun] at hlost'
    cases hlost'

end Text

end ScriptFront
