import ScriptFront.Proofs.Lockstep.Basic
import ScriptFront.Proofs.Speculation.Sessions
import ScriptFront.Proofs.Speculation.Traceless

/-!
# The token behind the current one

Looking at the next token tells what taking the current one comes to, and leaves no trace, in every
state that a session with a parser leads to: behind a step that failed, and also where the lexer
stands inside of a lexeme of which a part was taken for a token. So the tokens that a parser shows
one after the other are those of the lexer.

- `Parser.Visited`: all states that sessions lead to.
- `Parser.Foresees`: what looking at the next token is good for.
- `Parser.shown`: the tokens that a parser shows.
- `Text.peek_foresees`: both of it over faithful sources.
- `Text.peek_misleads_unreadable`: over a source that cannot be read to its end, a look may change
  what is read next.
-/

namespace ScriptFront

open ScriptFront.Parser

namespace Parser

variable {σ : Type} [ByteSource σ]

/-- The states that sessions with a parser over a source lead to, whatever the steps come to. The
way back leads from each of them to where the token of any of them starts; a look ahead may be of
any length; and any part of the text behind the start of a token may be taken for the token. -/
inductive Visited (s : σ) (tabWidth : UInt32) : Parser σ → Prop where
  | start {p : Parser σ} (h : Parser.ofSource s tabWidth = .ok p) : Visited s tabWidth p
  | step {p : Parser σ} (step : TokenStep) (h : Visited s tabWidth p) :
    Visited s tabWidth (step.make.run p).2
  | back {p q : Parser σ} (h : Visited s tabWidth p) (h' : Visited s tabWidth q) :
    Visited s tabWidth ((goBack ⟨p.start⟩ : Parse σ Unit).run q).2
  | look {p : Parser σ} (count : Nat) (h : Visited s tabWidth p) :
    Visited s tabWidth ((lookAhead (advances count) : Parse σ _).run p).2
  | narrow {p : Parser σ} (k : TokenKind) (width : Nat) (h : Visited s tabWidth p)
    (width_le : p.start.offset + width ≤ p.lexer.extent) :
    Visited s tabWidth ((narrow k width : Parse σ Unit).run p).2

/-- Look at the next token, `count` times. -/
def peeks : (count : Nat) → StateM (Parser σ) (List (Except SyntaxError Token))
  | 0 => return []
  | count + 1 => do
    let result ← peek.run
    return result :: (← peeks count)

/-- Looking at the next token shows it exactly if taking the current one leads there, and fails
exactly as that would. However often, it comes to the same and changes nothing that shows. -/
structure Foresees (p : Parser σ) : Prop where
  ok_iff : ∀ token, ((peek : Parse σ Token).run p).1 = .ok token ↔
    ∃ q, (advance : Parse σ Token).run p = (.ok p.current, q) ∧ q.current = token
  error_iff : ∀ e, ((peek : Parse σ Token).run p).1 = .error e ↔
    ∃ q, (advance : Parse σ Token).run p = (.error e, q)
  again : ∀ count, ((peeks count).run p).1 =
    List.replicate count ((peek : Parse σ Token).run p).1
  view_eq : ∀ count, ((peeks count).run p).2.view = p.view

/-- Append the tokens that a parser shows, up to the end or to an error, at most `steps` of them, to
`taken`. -/
def shownOnto : (steps : Nat) → (taken : Array Token) →
    StateM (Parser σ) (Array Token × Option SyntaxError)
  | 0, taken => return (taken, none)
  | steps + 1, taken => do
    let token := (← get).current
    if token.kind = .eof then return (taken.push token, none)
    match ← advance.run with
    | .ok _ => shownOnto steps (taken.push token)
    | .error e => return (taken.push token, some e)

/-- The tokens that a parser shows, from the first one on, up to the end or to an error. -/
def shown (s : σ) (tabWidth : UInt32) : Array Token × Option SyntaxError :=
  match Parser.ofSource s tabWidth with
  | .ok p => ((shownOnto (p.lexer.extent + 1) #[]).run p).1
  | .error e => (#[], some e)

/-! ## In memory -/

section Memory

variable {p : Parser Buffer} {u : Walker Buffer}

theorem run_advance_of_next {token : Token} (h : Lexer.next.run p.lexer = (.ok token, u)) :
    ∃ start, (advance : Parse Buffer Token).run p =
      (.ok p.current, { p with lexer := u, start, current := token }) := by
  rcases hskip : Lexer.skip.run p.lexer with ⟨e | _, w⟩
  · rw [Walker.run_next_of_skip_error hskip] at h
    cases h
  · rw [Walker.run_next_of_skip hskip] at h
    exact ⟨_, run_advance_ok hskip h⟩

theorem run_advance_of_next_error {e : LexError} (h : Lexer.next.run p.lexer = (.error e, u)) :
    ∃ q, (advance : Parse Buffer Token).run p = (.error e.toSyntaxError, q) := by
  rcases hskip : Lexer.skip.run p.lexer with ⟨e | _, w⟩
  · rw [Walker.run_next_of_skip_error hskip] at h
    cases h
    exact ⟨_, run_advance_unskipped hskip⟩
  · rw [Walker.run_next_of_skip hskip] at h
    exact ⟨_, run_advance_error hskip h⟩

/-- Over a text in memory, a look changes nothing at all. -/
theorem run_peeks (p : Parser Buffer) (count : Nat) :
    (peeks count).run p = (List.replicate count ((peek : Parse Buffer Token).run p).1, p) := by
  have hpeek : ((peek : Parse Buffer Token).run p).2 = p := by
    rcases run_peek p with ⟨_, _, -, h⟩ | ⟨_, _, -, h⟩
    · rw [h]
    · rw [h]
  induction count with
  | zero => rfl
  | succ count ih =>
    have hopen : (peeks (count + 1)).run p =
        (((peek : Parse Buffer Token).run p).1 ::
            ((peeks count).run ((peek : Parse Buffer Token).run p).2).1,
          ((peeks count).run ((peek : Parse Buffer Token).run p).2).2) := rfl
    rw [hopen, hpeek, ih]
    rfl

theorem foresees_memory (p : Parser Buffer) : p.Foresees := by
  have hagain := run_peeks p
  refine ⟨fun token => ?_, fun e => ?_, fun count => ?_, fun count => ?_⟩
  case refine_1 =>
    rcases hnext : Lexer.next.run p.lexer with ⟨e | token', u⟩
    · obtain ⟨q, hrun⟩ := run_advance_of_next_error hnext
      rw [run_peek_error hnext, hrun]
      exact ⟨nofun, nofun⟩
    · obtain ⟨start, hrun⟩ := run_advance_of_next hnext
      rw [run_peek_ok hnext, hrun]
      constructor
      · rintro ⟨⟩
        exact ⟨_, rfl, rfl⟩
      · rintro ⟨q, hq, rfl⟩
        cases hq
        rfl
  case refine_2 =>
    rcases hnext : Lexer.next.run p.lexer with ⟨e | token', u⟩
    · obtain ⟨q, hrun⟩ := run_advance_of_next_error hnext
      rw [run_peek_error hnext, hrun]
      constructor
      · rintro ⟨⟩
        exact ⟨q, rfl⟩
      · rintro ⟨q', hq⟩
        cases hq
        rfl
    · obtain ⟨start, hrun⟩ := run_advance_of_next hnext
      rw [run_peek_ok hnext, hrun]
      exact ⟨nofun, nofun⟩
  case refine_3 => rw [hagain]
  case refine_4 => rw [hagain]

/-- A parser that has its token from `w` shows what the lexer finds from `w` on. -/
theorem shownOnto_eq {steps : Nat} {w : Walker Buffer} (hsteps : w.rest.length < steps)
    (h : Lexer.next.run w = (.ok p.current, p.lexer)) (taken : Array Token) :
    ((shownOnto steps taken).run p).1 =
      (((Lexer.runOnto steps taken).run w).1.1,
        ((Lexer.runOnto steps taken).run w).1.2.map LexError.toSyntaxError) := by
  induction steps generalizing p w taken with
  | zero => exact absurd hsteps (Nat.not_lt_zero _)
  | succ steps ih =>
    have hopen : ((shownOnto (steps + 1) taken).run p).1 =
        if p.current.kind = .eof then (taken.push p.current, none)
        else match (advance : Parse Buffer Token).run p with
          | (.ok _, q) => ((shownOnto steps (taken.push p.current)).run q).1
          | (.error e, _) => (taken.push p.current, some e) := by
      show ((if p.current.kind = .eof then pure (taken.push p.current, none) else _ :
        StateM (Parser Buffer) (Array Token × Option SyntaxError)).run p).1 = _
      by_cases hkind : p.current.kind = .eof
      · rw [if_pos hkind, if_pos hkind]
        rfl
      · rw [if_neg hkind, if_neg hkind]
        show ((match ((advance : Parse Buffer Token).run p).1 with
          | .ok _ => shownOnto steps (taken.push p.current)
          | .error e => pure (taken.push p.current, some e) :
            StateM (Parser Buffer) (Array Token × Option SyntaxError)).run
              ((advance : Parse Buffer Token).run p).2).1 = _
        rcases (advance : Parse Buffer Token).run p with ⟨_ | _, q⟩ <;> rfl
    rw [hopen, Lexer.runOnto_ok h]
    by_cases hkind : p.current.kind = .eof
    · rw [if_pos hkind, if_pos hkind]
      rfl
    · rw [if_neg hkind, if_neg hkind]
      -- A token that is not the last one takes a byte, so there are steps left.
      have hless := Walker.position_of_next h hkind
      have hleft := p.lexer.length_rest
      have hleft' := w.length_rest
      rw [(Walker.sameText_of_next h).content_eq] at hleft
      have hrest : p.lexer.rest.length < steps := by omega
      rcases hnext : Lexer.next.run p.lexer with ⟨e | token, u⟩
      · obtain ⟨q, hrun⟩ := run_advance_of_next_error hnext
        cases steps with
        | zero => exact absurd hrest (Nat.not_lt_zero _)
        | succ steps =>
          rw [hrun, Lexer.runOnto_error hnext]
          rfl
      · obtain ⟨start, hrun⟩ := run_advance_of_next hnext
        rw [hrun]
        exact ih (p := { p with lexer := u, start, current := token }) hrest hnext _

theorem shown_memory (b : Buffer) (tabWidth : UInt32) :
    shown b tabWidth = ((Lexer.run.run (Walker.ofSource b tabWidth)).1.1,
      (Lexer.run.run (Walker.ofSource b tabWidth)).1.2.map LexError.toSyntaxError) := by
  generalize horigin : Walker.ofSource b tabWidth = w
  have hopen : (Lexer.run.run w).1 = ((Lexer.runOnto (w.extent + 1) #[]).run w).1 := rfl
  have hsteps : w.rest.length < w.extent + 1 := by
    have hrest := w.length_rest
    show w.rest.length < w.source.content.size + 1
    omega
  rw [hopen]
  unfold shown Parser.ofSource Parser.ofWalker
  rw [horigin]
  rcases hskip : Lexer.skip.run w with ⟨e | _, v⟩
  · rw [Lexer.runOnto_error (Walker.run_next_of_skip_error hskip)]
    rfl
  · have hsame := Walker.run_next_of_skip hskip
    rcases hnext : Lexer.next.run v with ⟨e | token, u⟩
    · rw [hnext] at hsame
      simp only [hnext]
      rw [Lexer.runOnto_error hsame]
      rfl
    · rw [hnext] at hsame
      have hextent := (Walker.sameText_of_next hsame).extent_eq
      simp only [hnext]
      rw [hextent]
      exact shownOnto_eq (p := ⟨u, token, v.place, false⟩) hsteps hsame #[]

end Memory

end Parser

/-! ## Side by side -/

namespace Twins

variable {σ : Type} [ByteSource σ] {T : Twins σ Buffer}

namespace Side

variable {p : Parser σ} {q : Parser Buffer}

theorem peeks (count : Nat) : Paired T.Side Eq (Parser.peeks count) (Parser.peeks count) := by
  have hpeek : Paired T.Side Eq (Parser.peek : Parse σ Token).run
      (Parser.peek : Parse Buffer Token).run :=
    fun _ _ h => ⟨(peek h).1.eq, (peek h).2⟩
  induction count with
  | zero => exact .pure rfl
  | succ count ih => exact hpeek.bindEq fun _ => ih.bindEq fun _ => .pure rfl

/-- Beside a parser in memory, all parsers foresee what it foresees. -/
theorem foresees (h : T.Side p q) : p.Foresees := by
  have hq := foresees_memory q
  have hpeek := (peek h).1.eq
  have hadvance : ((Parser.advance : Parse σ Token).run p).1 =
      ((Parser.advance : Parse Buffer Token).run q).1 := (advance h).1.eq
  have hcurrent : ((Parser.advance : Parse σ Token).run p).2.current =
      ((Parser.advance : Parse Buffer Token).run q).2.current := (advance h).2.current_eq
  refine ⟨fun token => ?_, fun e => ?_, fun count => ?_, fun count => ?_⟩
  case refine_1 =>
    rw [hpeek, hq.ok_iff, h.current_eq]
    constructor
    · rintro ⟨q', hrun, rfl⟩
      rw [hrun] at hadvance hcurrent
      exact ⟨_, Prod.ext hadvance rfl, hcurrent⟩
    · rintro ⟨p', hrun, rfl⟩
      rw [hrun] at hadvance hcurrent
      exact ⟨_, Prod.ext hadvance.symm rfl, hcurrent.symm⟩
  case refine_2 =>
    rw [hpeek, hq.error_iff]
    constructor
    · rintro ⟨q', hrun⟩
      rw [hrun] at hadvance
      exact ⟨_, Prod.ext hadvance rfl⟩
    · rintro ⟨p', hrun⟩
      rw [hrun] at hadvance
      exact ⟨_, Prod.ext hadvance.symm rfl⟩
  case refine_3 => rw [(peeks count h).1, hpeek, hq.again]
  case refine_4 => rw [(peeks count h).2.view_eq, hq.view_eq, h.view_eq]

theorem shownOnto (steps : Nat) (taken : Array Token) :
    Paired T.Side Eq (Parser.shownOnto steps taken) (Parser.shownOnto steps taken) := by
  have hadvance : Paired T.Side Eq (Parser.advance : Parse σ Token).run
      (Parser.advance : Parse Buffer Token).run :=
    fun _ _ h => ⟨(advance h).1.eq, (advance h).2⟩
  induction steps generalizing taken with
  | zero => exact .pure rfl
  | succ steps ih =>
    refine Paired.get.bind fun p q h => ?_
    rw [h.current_eq]
    refine .ite _ (.pure rfl) (hadvance.bindEq fun result => ?_)
    cases result with
    | ok _ => exact ih _
    | error e => exact .pure rfl

end Side

theorem shown_eq {s : σ} {b : Buffer} (hs : T.left s 0) (hb : T.right b 0) (tabWidth : UInt32) :
    Parser.shown s tabWidth = Parser.shown b tabWidth := by
  have hstart := side_ofSource hs hb tabWidth
  unfold Parser.shown
  revert hstart
  generalize Parser.ofSource s tabWidth = a
  generalize Parser.ofSource b tabWidth = a'
  rintro (h | e)
  · dsimp only
    rw [h.lexers.extent_eq]
    exact (Side.shownOnto _ #[] h).1
  · rfl

/-- Beside every parser that a session leads to there is one over the text in memory. -/
theorem side_of_visited {s : σ} {b : Buffer} {tabWidth : UInt32} {p : Parser σ} (hs : T.left s 0)
    (hb : T.right b 0) (h : Visited s tabWidth p) : ∃ q, T.Side p q := by
  induction h with
  | start h =>
    have hstart := side_ofSource hs hb tabWidth
    rw [h] at hstart
    generalize Parser.ofSource b tabWidth = r at hstart
    cases hstart with
    | ok hside => exact ⟨_, hside⟩
  | step step h ih =>
    obtain ⟨q, hside⟩ := ih
    exact ⟨_, (Side.make step hside).2⟩
  | back h h' ih ih' =>
    obtain ⟨q, hside⟩ := ih
    obtain ⟨q', hside'⟩ := ih'
    exact ⟨_, (Side.goBack hside.start_le hside').2⟩
  | look count h ih =>
    obtain ⟨q, hside⟩ := ih
    exact ⟨_, (Side.lookAhead (Side.advances count) hside).2⟩
  | @narrow p k width h width_le ih =>
    obtain ⟨q, hside⟩ := ih
    have hextent : p.lexer.extent = T.text.content.size := by
      obtain ⟨n, -, hn⟩ := hside.lexers
      exact T.left_faithful.extent_eq hn.left
    exact ⟨_, hside.narrow k (hextent ▸ width_le)⟩

end Twins

namespace Text

variable {σ : Type} [ByteSource σ] {t : Text} {limit : Nat} {shows : σ → Nat → Prop} {s : σ}
  {tabWidth : UInt32}

/-- Over a faithful source, looking at the next token foretells what taking the current one comes
to, in all states that sessions lead to; and the tokens that a parser shows one after the other, up
to the end or to an error, are those that the lexer finds, with the same error. -/
theorem peek_foresees (hfaithful : t.Faithful limit shows) (hroom : t.content.size + 3 < limit)
    (hs : shows s 0) :
    (∀ p, Visited s tabWidth p → p.Foresees) ∧
      ∀ tokens error, (Lexer.run.run (Walker.ofSource s tabWidth)).1 = (tokens, error) →
        Parser.shown s tabWidth = (tokens, error.map LexError.toSyntaxError) ∧
          (Lexer.tokenize.run (Walker.ofSource s tabWidth)).1 =
            match error with
            | none => .ok tokens
            | some e => .error e := by
  let T := besideMemory hfaithful hroom
  have hb : T.right t.inMemory 0 := t.inMemory_shows
  refine ⟨fun p hp => ?_, fun tokens error hrun => ?_⟩
  · obtain ⟨q, hside⟩ := T.side_of_visited hs hb hp
    exact hside.foresees
  · have hlexed := (Twins.run (Twins.beside_ofSource (T := T) hs hb tabWidth)).1
    rw [T.shown_eq hs hb, shown_memory, ← hlexed, hrun]
    rcases hrun' : Lexer.run.run (Walker.ofSource s tabWidth) with ⟨_, v⟩
    rw [hrun'] at hrun
    obtain rfl : _ = (tokens, error) := hrun
    rw [Lexer.run_tokenize hrun']
    cases error <;> exact ⟨rfl, rfl⟩

/-- Take a token, and take the first byte of the next one for a `>`. -/
def takenAndCut (p : Parser σ) : Parser σ :=
  ((narrow Symbol.gt 1 : Parse σ Unit).run ((advance : Parse σ Token).run p).2).2

/-- A name and two `>`, of which the first one is taken for a token, in chunks of two bytes: the
lexer stands inside of the symbol, and the rest of it is foreseen. -/
theorem peek_foresees_cut :
    let t : Text := ⟨"cut", utf8Bytes "a>>$"⟩
    let s := t.inChunks 2
    t.content.size + 3 < addressLimit - 1 ∧ t.InChunks s 0 ∧
      ∃ p q, Visited s 4 p ∧ p.current.kind = Symbol.gt ∧ p.Foresees ∧
        (advance : Parse Chunked Token).run p = (.ok p.current, q) ∧
        ((peek : Parse Chunked Token).run p).1 = .ok q.current := by
  intro t s
  have hroom : t.content.size + 3 < addressLimit - 1 := by decide
  have hs : t.InChunks s 0 := .start t 2
  have hstart : ((Parser.ofSource s 4).toOption.any fun p =>
      (((advance : Parse Chunked Token).run p).2.start.offset + 1 ≤
        ((advance : Parse Chunked Token).run p).2.lexer.extent)) = true := by decide +kernel
  have hnext : ((Parser.ofSource s 4).toOption.any fun p =>
      ((peek : Parse Chunked Token).run (takenAndCut p)).1.isOk) = true := by decide +kernel
  obtain ⟨p, hp, hstart⟩ := exists_ok_of_any hstart
  rw [hp, Except.toOption, Option.any_some] at hnext
  have hvisited : Visited s 4 (takenAndCut p) :=
    .narrow _ _ (.step .advance (.start hp)) (of_decide_eq_true hstart)
  have hforesees := (t.peek_foresees t.chunks hroom hs).1 _ hvisited
  rcases hpeek : ((peek : Parse Chunked Token).run (takenAndCut p)).1 with e | token
  · rw [hpeek] at hnext
    cases hnext
  · obtain ⟨q, hadvance, rfl⟩ := (hforesees.ok_iff token).1 hpeek
    exact ⟨hroom, hs, _, q, hvisited, rfl, hforesees, hadvance, hpeek⟩

/-- Take four tokens, go back from the last of them to the second one, and take two tokens again. -/
def retraced (p : Parser σ) : Parser σ :=
  let next (p : Parser σ) : Parser σ := ((advance : Parse σ Token).run p).2
  let second := next p
  let last := next (next second)
  next (next ((goBack ⟨second.start⟩ : Parse σ Unit).run last).2)

/-- Whether the end of the text is foreseen, but looking at it leads to where the current lexeme is
read again. -/
def misled (p : Parser σ) : Bool :=
  match (peek : Parse σ Token).run p with
  | (.ok token, q) => token.kind = .eof ∧ q.view ≠ p.view ∧
    ((advance : Parse σ Token).run q).1.toOption = some p.current ∧
    ((advance : Parse σ Token).run q).2.current.text = p.current.text
  | (.error _, _) => false

/-- Of a source that cannot be read to its end, looking at the next token may lead to a failed load,
and the lexer back to an earlier place then. Here, the end of the text is foreseen behind the name
`d`, and what is read next is `d` once more. -/
theorem peek_misleads_unreadable :
    let s := Chunked.ofReader { content := utf8Bytes "a b c d e f", failsAt := some 8 }
      "unreadable" 6
    ∃ p token q r, Visited s 4 p ∧ (peek : Parse Chunked Token).run p = (.ok token, q) ∧
      token.kind = .eof ∧ q.view ≠ p.view ∧
      (advance : Parse Chunked Token).run q = (.ok p.current, r) ∧
        r.current.text = p.current.text := by
  intro s
  have hmisled : ((Parser.ofSource s 4).toOption.any fun p => misled (retraced p)) = true := by
    decide +kernel
  obtain ⟨p, hp, hmisled⟩ := exists_ok_of_any hmisled
  have hvisited : Visited s 4 (retraced p) := by
    have hsecond : Visited s 4 _ := .step .advance (.start hp)
    exact .step .advance
      (.step .advance (.back hsecond (.step .advance (.step .advance hsecond))))
  generalize retraced p = p at hmisled hvisited
  unfold misled at hmisled
  rcases hpeek : (peek : Parse Chunked Token).run p with ⟨e | token, q⟩
  · rw [hpeek] at hmisled
    cases hmisled
  · rw [hpeek] at hmisled
    obtain ⟨hkind, hview, hresult, hcurrent⟩ := of_decide_eq_true hmisled
    rcases hadvance : (advance : Parse Chunked Token).run q with ⟨e | token', r⟩
    · rw [hadvance] at hresult
      cases hresult
    · rw [hadvance] at hresult hcurrent
      cases hresult
      exact ⟨p, token, q, r, hvisited, hpeek, hkind, hview, hadvance, hcurrent⟩

end Text

end ScriptFront
