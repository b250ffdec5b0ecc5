import ScriptFront.Proofs.Coupling.Units
import ScriptFront.Proofs.Sources.Calls
import ScriptFront.Proofs.Sources.Chunks
import ScriptFront.Proofs.Sources.Lexing

/-!
# Sources are interchangeable

Two parsers over faithful sources of one text stay together: same token, same place, same flags.
So readings come to the same results whatever source they are made from.

- `Twins.simulation`: parsers over two faithful sources of one text.
- `Lexer.transcript`, `Entry.transcript`: whole sessions with a lexer and with a parser.
- `Text.sources_interchangeable`: no call, no lexer and no reading tells the sources apart.
-/

namespace ScriptFront

open ScriptFront.Parser

/-! ## Parsers over one text -/

namespace Twins

variable {σ τ : Type} [ByteSource σ] [ByteSource τ] (T : Twins σ τ)

/-- Two parsers at one token of the text, which starts before the end unless it is the last. -/
structure Together (p : Parser σ) (q : Parser τ) : Prop where
  lexers : T.beside 0 p.lexer q.lexer
  current_eq : p.current = q.current
  start_eq : p.start = q.start
  inTrait_eq : p.inTrait = q.inTrait
  start_le : p.start.offset ≤ T.text.content.size
  start_lt : p.current.kind ≠ .eof → p.start.offset < T.text.content.size

variable {T}

/-- The next token behind an offset of the text: one for both, and if it is not the last one, or
there is none, the offset is not the end. -/
theorem lexNext {least : Nat} (hle : least ≤ T.text.content.size) {w : Walker σ} {v : Walker τ}
    (h : T.beside least w v) :
    (∃ token w' v', Lexer.next.run w = (.ok token, w') ∧ Lexer.next.run v = (.ok token, v') ∧
      T.beside 0 w' v' ∧ (token.kind ≠ .eof → least < T.text.content.size)) ∨
    (∃ e w' v', Lexer.next.run w = (.error e, w') ∧ Lexer.next.run v = (.error e, v') ∧
      T.beside 0 w' v' ∧ least < T.text.content.size) := by
  have hend : ¬least < T.text.content.size →
      ∃ token, (Lexer.next.run w).1 = .ok token ∧ token.kind = .eof := by
    intro hlt
    obtain rfl : least = T.text.content.size := by omega
    exact next_atEnd h
  obtain ⟨hresult, hstep⟩ := next h
  rcases hw : Lexer.next.run w with ⟨r, w'⟩
  rcases hv : Lexer.next.run v with ⟨r', v'⟩
  rw [hw, hv] at hresult hstep
  rw [hw] at hend
  cases hresult with
  | @ok a b hab =>
    subst hab
    refine .inl ⟨a, w', v', rfl, rfl, hstep.mono (Nat.zero_le _), fun heof => ?_⟩
    by_contra hlt
    obtain ⟨token, htoken, hkind⟩ := hend hlt
    cases htoken
    exact heof hkind
  | error e =>
    refine .inr ⟨e, w', v', rfl, rfl, hstep.mono (Nat.zero_le _), ?_⟩
    by_contra hlt
    obtain ⟨token, htoken, _⟩ := hend hlt
    cases htoken

/-- Going to the next token from a place of the text on. -/
theorem Together.ofNext {p : Parser σ} {q : Parser τ} (hstart : p.start = q.start)
    (hcurrent : p.current = q.current) (hinTrait : p.inTrait = q.inTrait)
    (hle : p.start.offset ≤ T.text.content.size)
    (hlexers : T.beside p.start.offset p.lexer q.lexer) :
    (∃ token w v, (lex Lexer.next).run p = (.ok token, { p with lexer := w }) ∧
      (lex Lexer.next).run q = (.ok token, { q with lexer := v }) ∧
      T.Together { p with lexer := w, current := token }
        { q with lexer := v, current := token }) ∨
    (∃ e w v, (lex Lexer.next).run p = (.error e, { p with lexer := w }) ∧
      (lex Lexer.next).run q = (.error e, { q with lexer := v }) ∧
      T.Together { p with lexer := w } { q with lexer := v }) := by
  rcases lexNext hle hlexers with ⟨token, w, v, hw, hv, hstep, hlt⟩ | ⟨e, w, v, hw, hv, hstep, hlt⟩
  · exact .inl ⟨token, w, v, run_lex_ok hw, run_lex_ok hv, hstep, rfl, hstart, hinTrait, hle, hlt⟩
  · exact .inr ⟨e.toSyntaxError, w, v, run_lex_error hw, run_lex_error hv, hstep, hcurrent, hstart,
      hinTrait, hle, fun _ => hlt⟩

namespace Together

theorem advance : Coupled T.Together Eq (Parser.advance : Parse σ Token) Parser.advance := by
  rintro p q h
  obtain ⟨hresult, hstep⟩ := skip h.lexers
  rcases hp : Lexer.skip.run p.lexer with ⟨r, w⟩
  rcases hq : Lexer.skip.run q.lexer with ⟨r', v⟩
  rw [hp, hq] at hresult hstep
  cases hresult with
  | error e =>
    rw [Parser.advance, Parser.advance, run_bind_error (run_lex_error hp),
      run_bind_error (run_lex_error hq)]
    exact ⟨.error _, hstep, h.current_eq, h.start_eq, h.inTrait_eq, h.start_le, h.start_lt⟩
  | ok _ =>
    obtain ⟨n, -, hn⟩ := hstep
    have hoffset := hn.offset_eq
    have hplace : w.place.offset ≤ T.text.content.size := hoffset ▸ hn.position_le
    have hbeside : T.beside w.place.offset w v := ⟨n, Nat.le_of_eq hoffset, hn⟩
    rw [Parser.advance, Parser.advance, run_bind_ok (run_lex_ok hp), run_bind_ok (run_lex_ok hq),
      run_modify_bind, run_modify_bind]
    rcases ofNext (p := { p with lexer := w, start := w.place })
        (q := { q with lexer := v, start := v.place }) hn.place_eq h.current_eq h.inTrait_eq
        hplace hbeside with ⟨token, w', v', hw, hv, hstep⟩ | ⟨e, w', v', hw, hv, hstep⟩
    · rw [run_bind_ok hw, run_bind_ok hv]
      exact ⟨.ok h.current_eq, hstep⟩
    · rw [run_bind_error hw, run_bind_error hv]
      exact ⟨.error e, hstep⟩

/-- Both can go back to any place of the text. -/
theorem goBack {b : Bookmark} (hb : b.start.offset ≤ T.text.content.size) :
    Coupled T.Together Eq (Parser.goBack b : Parse σ Unit) (Parser.goBack b) := by
  rintro p q h
  have hbeside := reset (Nat.le_refl b.start.offset) hb h.lexers
  rw [Parser.goBack, Parser.goBack, run_modify_bind, run_modify_bind]
  rcases ofNext (p := { p with lexer := (Walker.reset b.start p.lexer).2, start := b.start })
      (q := { q with lexer := (Walker.reset b.start q.lexer).2, start := b.start }) rfl
      h.current_eq h.inTrait_eq hb hbeside with ⟨token, w, v, hw, hv, hstep⟩
        | ⟨e, w, v, hw, hv, hstep⟩
  · rw [run_bind_ok hw, run_bind_ok hv]
    exact ⟨.ok rfl, hstep⟩
  · rw [run_bind_error hw, run_bind_error hv]
    exact ⟨.error e, hstep⟩

theorem peek : Coupled T.Together Eq (Parser.peek : Parse σ Token) Parser.peek := by
  rintro p q h
  obtain ⟨n, -, hn⟩ := h.lexers
  have hoffset := hn.offset_eq
  have hplace : p.lexer.place.offset ≤ T.text.content.size := hoffset ▸ hn.position_le
  have hstay {w : Walker σ} {v : Walker τ} (hstep : T.beside 0 w v) :
      T.Together { p with lexer := (Walker.reset p.lexer.place w).2 }
        { q with lexer := (Walker.reset q.lexer.place v).2 } := by
    rw [← hn.place_eq]
    exact { h with lexers := reset (Nat.zero_le _) hplace hstep }
  rcases lexNext (Nat.zero_le _) h.lexers with
    ⟨token, w, v, hw, hv, hstep, -⟩ | ⟨e, w, v, hw, hv, hstep, -⟩
  · rw [run_peek_ok hw, run_peek_ok hv]
    exact ⟨.ok rfl, hstay hstep⟩
  · rw [run_peek_error hw, run_peek_error hv]
    exact ⟨.error _, hstay hstep⟩

/-- Both can cut a symbol behind its first byte, for it has one. -/
theorem narrow {p : Parser σ} {q : Parser τ} {whole : Symbol} (part : Symbol)
    (h : T.Together p q) (hwhole : p.current.kind = whole) :
    T.Together ((Parser.narrow part 1).run p).2 ((Parser.narrow part 1).run q).2 := by
  have hlt : p.start.offset < T.text.content.size := h.start_lt (hwhole ▸ nofun)
  let behind (start : Place) : Place := ⟨⟨start.line, start.column + 1⟩, start.offset + 1⟩
  have hbehind : (behind p.start).offset ≤ T.text.content.size := hlt
  refine ⟨?_, ?_, h.start_eq, h.inTrait_eq, h.start_le, fun _ => hlt⟩
  · show T.beside 0 ((Walker.reset (behind p.start)).run p.lexer).2
      ((Walker.reset (behind q.start)).run q.lexer).2
    rw [← h.start_eq]
    exact reset (Nat.zero_le _) hbehind h.lexers
  · show Token.mk part (TokenKind.describe part) p.current.place =
      Token.mk part (TokenKind.describe part) q.current.place
    rw [h.current_eq]

end Together

/-- Parsers over one text simulate each other. -/
def simulation (T : Twins σ τ) : Simulation σ τ where
  state := T.Together
  fresh := T.Together
  adrift := T.Together
  known b := b.start.offset ≤ T.text.content.size
  told _ := True
  state_of_fresh h := h
  fresh_of_kind h _ _ := h
  adrift_of_state h := h
  current_eq h := h.current_eq
  start_eq h := h.start_eq
  known_start h := h.start_le
  inTrait_eq h := h.inTrait_eq
  extent_eq h := h.lexers.extent_eq
  name_eq h := by
    obtain ⟨_, _, hn⟩ := h.lexers
    exact hn.name_eq
  state_withTrait _ h := { h with inTrait_eq := rfl }
  adrift_withTrait _ h := { h with inTrait_eq := rfl }
  told_here _ _ _ := trivial
  told_at _ _ _ := trivial
  told_within _ _ := trivial
  advance_fresh h := Together.advance.arrival h inTrait_advance
  peek_state h := Together.peek.arrival h inTrait_peek
  goBack_fresh hb h := (Together.goBack hb).arrival h (inTrait_goBack _)
  narrow_state h hwhole _ := Together.narrow _ h hwhole

/-- Two parsers over one text read alike, and stay together. -/
theorem reads (T : Twins σ τ) (entry : Entry) :
    Coupled T.Together Eq (entry.read : Parse σ entry.Tree) entry.read := by
  intro p q h
  have hread := T.simulation.entry entry h
  exact ⟨hread.matching, hread.states (fun _ _ h => h.states) fun _ _ h => h.states⟩

/-- Two sources at the start of the text. -/
theorem beside_ofSource {s : σ} {s' : τ} (hs : T.left s 0) (hs' : T.right s' 0)
    (tabWidth : UInt32) : T.beside 0 (Walker.ofSource s tabWidth) (Walker.ofSource s' tabWidth) :=
  ⟨0, Nat.le_refl 0, hs, hs', rfl, rfl, rfl⟩

/-- Parsers over two sources start together, or stop at the same error. -/
theorem ofWalker {w : Walker σ} {v : Walker τ} (h : T.beside 0 w v) :
    Matching T.Together (Parser.ofWalker w) (Parser.ofWalker v) := by
  obtain ⟨hresult, hstep⟩ := skip h
  rw [Parser.ofWalker, Parser.ofWalker]
  rcases hw : Lexer.skip.run w with ⟨r, w'⟩
  rcases hv : Lexer.skip.run v with ⟨r', v'⟩
  rw [hw, hv] at hresult hstep
  cases hresult with
  | error e => exact .error _
  | ok _ =>
    obtain ⟨n, -, hn⟩ := hstep
    have hoffset := hn.offset_eq
    have hplace : w'.place.offset ≤ T.text.content.size := hoffset ▸ hn.position_le
    rcases lexNext hplace ⟨n, Nat.le_of_eq hoffset, hn⟩ with
      ⟨token, w'', v'', hw', hv', hstep, hlt⟩ | ⟨e, w'', v'', hw', hv', hstep, hlt⟩
    · simp only [hw', hv']
      exact .ok ⟨hstep, rfl, hn.place_eq, rfl, hplace, hlt⟩
    · simp only [hw', hv']
      exact .error _

end Twins

/-! ## Sessions -/

namespace Lexer

/-- What a lexer can be asked for. -/
inductive Request where
  | skip
  | next
  | tokenize
deriving DecidableEq, Repr

variable {σ : Type} [ByteSource σ]

/-- Serve a request; what it delivers is a list of tokens. -/
def Request.serve : Request → Lex σ (List Token)
  | .skip => do
    Lexer.skip
    return []
  | .next => return [← Lexer.next]
  | .tokenize => return (← Lexer.tokenize).toList

/-- Serve requests one after the other; take down each result and the place then. -/
def transcript : List Request → StateM (Walker σ) (List (Except LexError (List Token) × Place))
  | [] => return []
  | request :: requests => do
    let result ← request.serve.run
    let place := (← get).place
    return (result, place) :: (← transcript requests)

/-- A session with a lexer over a source, from its first byte on. -/
def session (requests : List Request) (source : σ) (tabWidth : UInt32) :
    List (Except LexError (List Token) × Place) :=
  ((transcript requests).run (Walker.ofSource source tabWidth)).1

end Lexer

namespace Entry

/-- What a reading comes to, and the token and the place that it leaves behind. -/
structure Report where
  entry : Entry
  result : Except SyntaxError entry.Tree
  next : Token
  place : Place

variable {σ : Type} [ByteSource σ]

/-- Read one thing after the other, also behind an error. -/
def transcript : List Entry → StateM (Parser σ) (List Report)
  | [] => return []
  | entry :: entries => do
    let result ← entry.read.run
    let p ← get
    return ⟨entry, result, p.current, p.start⟩ :: (← transcript entries)

/-- A session with a parser over a source: the token that it starts at and what the readings come
to, or the error that keeps it from starting. -/
def session (entries : List Entry) (source : σ) (tabWidth : UInt32) :
    Except SyntaxError (Token × List Report) :=
  (Parser.ofSource source tabWidth).map fun p => (p.current, ((transcript entries).run p).1)

end Entry

namespace Twins

variable {σ τ : Type} [ByteSource σ] [ByteSource τ] {T : Twins σ τ} {s : σ} {s' : τ}

theorem serve (request : Lexer.Request) :
    Coupled (T.beside 0) Eq request.serve request.serve := by
  cases request with
  | skip => exact skip.bindEq fun _ => .pure rfl
  | next => exact next.bindEq fun _ => .pure rfl
  | tokenize => exact tokenize.bindEq fun _ => .pure rfl

theorem lexerTranscript (requests : List Lexer.Request) :
    Paired (T.beside 0) Eq (Lexer.transcript requests) (Lexer.transcript requests) := by
  induction requests with
  | nil => exact .pure rfl
  | cons request requests ih =>
    have hserve : Paired (T.beside 0) Eq request.serve.run request.serve.run :=
      fun _ _ h => ⟨(serve request h).1.eq, (serve request h).2⟩
    refine hserve.bindEq fun result => Paired.get.bind fun w v h => ?_
    obtain ⟨n, -, hn⟩ := h
    rw [hn.place_eq]
    exact ih.bindEq fun _ => .pure rfl

theorem lexerSession (hs : T.left s 0) (hs' : T.right s' 0) (requests : List Lexer.Request)
    (tabWidth : UInt32) :
    Lexer.session requests s tabWidth = Lexer.session requests s' tabWidth :=
  (lexerTranscript requests (beside_ofSource hs hs' tabWidth)).1

theorem entryTranscript (entries : List Entry) :
    Paired T.Together Eq (Entry.transcript entries) (Entry.transcript entries) := by
  induction entries with
  | nil => exact .pure rfl
  | cons entry entries ih =>
    have hread : Paired T.Together Eq (entry.read : Parse σ _).run (entry.read : Parse τ _).run :=
      fun _ _ h => ⟨(T.reads entry h).1.eq, (T.reads entry h).2⟩
    refine hread.bindEq fun result => Paired.get.bind fun p q h => ?_
    rw [h.current_eq, h.start_eq]
    exact ih.bindEq fun _ => .pure rfl

theorem entrySession (hs : T.left s 0) (hs' : T.right s' 0) (entries : List Entry)
    (tabWidth : UInt32) :
    Entry.session entries s tabWidth = Entry.session entries s' tabWidth := by
  have hstart := ofWalker (beside_ofSource hs hs' tabWidth)
  rw [Entry.session, Entry.session, Parser.ofSource, Parser.ofSource]
  revert hstart
  generalize Parser.ofWalker (Walker.ofSource s tabWidth) = a
  generalize Parser.ofWalker (Walker.ofSource s' tabWidth) = b
  rintro (h | e)
  · refine congrArg Except.ok (Prod.ext h.current_eq ?_)
    exact (entryTranscript entries h).1
  · rfl

end Twins

/-! ## Three sources of one text -/

namespace Text

variable (t : Text)

/-- The text in memory, at its first byte. -/
def inMemory : Buffer := Buffer.ofBytes t.content t.name

/-- The text in memory, searched and skipped byte by byte. -/
def stepwise : Stepped Buffer := ⟨t.inMemory⟩

/-- The text as a reader without failures delivers it, in chunks of a size. -/
def inChunks (chunkSize : Nat) : Chunked :=
  Chunked.ofReader { content := t.content } t.name chunkSize

theorem inMemory_shows : t.InBuffer t.inMemory 0 := ⟨rfl, rfl, rfl⟩

/-- Stepping through a buffer needs no bound for addresses. -/
theorem stepwise_faithful :
    t.Faithful (addressLimit - 1) fun (s : Stepped Buffer) n => t.InBuffer s.inner n :=
  ((t.buffer (t.content.size + addressLimit)).stepped (by simp [addressLimit, UInt64.size])).mono
    (by omega)

/-- For every text and every size of chunks, a source of chunks, a buffer, and a buffer that is
searched and skipped byte by byte cannot be told apart. Calls that go back no further than the text
reaches and look at addresses below the last one get the same answers and lead to the same
positions, and no failure is ever reported. Sessions with a lexer or a parser come to the same
tokens, trees, errors and places, whatever the tab width, if the text ends so far from the last
address that looking ahead of it makes sense. -/
theorem sources_interchangeable (chunkSize : Nat) :
    (∀ calls, Call.Allowed calls t.inMemory →
      ((Call.transcript calls).run (t.inChunks chunkSize)).1 =
          ((Call.transcript calls).run t.inMemory).1 ∧
        ((Call.transcript calls).run t.stepwise).1 =
          ((Call.transcript calls).run t.inMemory).1 ∧
        (Chunked.takeFailure.run
          ((Call.transcript calls).run (t.inChunks chunkSize)).2).1 = none) ∧
    (t.content.size + 4 < addressLimit → ∀ tabWidth,
      (∀ requests,
        Lexer.session requests (t.inChunks chunkSize) tabWidth =
            Lexer.session requests t.inMemory tabWidth ∧
          Lexer.session requests t.stepwise tabWidth =
            Lexer.session requests t.inMemory tabWidth) ∧
      ∀ entries,
        Entry.session entries (t.inChunks chunkSize) tabWidth =
            Entry.session entries t.inMemory tabWidth ∧
          Entry.session entries t.stepwise tabWidth =
            Entry.session entries t.inMemory tabWidth) := by
  have hchunks := InChunks.start t chunkSize
  have hmemory := t.inMemory_shows
  refine ⟨fun calls hcalls => ?_, fun hsize tabWidth => ?_⟩
  · obtain ⟨hanswers, n, hend⟩ := Call.transcript_eq t.chunks calls hchunks hmemory hcalls
    have hsteps := Call.transcript_eq (s := t.stepwise) t.stepwise_faithful calls hmemory hmemory
      hcalls
    exact ⟨hanswers, hsteps.1, hend.clean⟩
  · have hroom : t.content.size + 3 < addressLimit - 1 := by omega
    let chunked : Twins Chunked Buffer :=
      ⟨t, addressLimit - 1, t.InChunks, t.InBuffer, t.chunks, t.buffer _, hroom⟩
    let stepped : Twins (Stepped Buffer) Buffer :=
      ⟨t, addressLimit - 1, fun s n => t.InBuffer s.inner n, t.InBuffer, t.stepwise_faithful,
        t.buffer _, hroom⟩
    refine ⟨fun requests => ⟨?_, ?_⟩, fun entries => ⟨?_, ?_⟩⟩
    · exact chunked.lexerSession hchunks hmemory requests tabWidth
    · exact stepped.lexerSession hmemory hmemory requests tabWidth
    · exact chunked.entrySession hchunks hmemory entries tabWidth
    · exact stepped.entrySession hmemory hmemory entries tabWidth

/-- Three bytes in chunks of two: a look ahead, a search and a way back across the border of the
chunks, and a session with the lexer and one with the parser. -/
theorem sources_interchangeable_threeBytes :
    let t : Text := ⟨"three", #[97, 43, 98]⟩
    let calls : List Call := [.read 1, .advance, .find 98, .reset 0, .skip 2]
    Call.Allowed calls t.inMemory ∧ t.content.size + 4 < addressLimit ∧
      ((Call.transcript calls).run (t.inChunks 2)).1 =
        ((Call.transcript calls).run t.inMemory).1 ∧
      Lexer.session [.next, .tokenize] (t.inChunks 2) 4 =
        Lexer.session [.next, .tokenize] t.inMemory 4 ∧
      Entry.session [.expr, .eof] (t.inChunks 2) 4 = Entry.session [.expr, .eof] t.inMemory 4 := by
  intro t calls
  have hcalls : Call.Allowed calls t.inMemory := by decide
  have hsize : t.content.size + 4 < addressLimit := by decide
  obtain ⟨hasked, hread⟩ := t.sources_interchangeable 2
  obtain ⟨hlexed, hparsed⟩ := hread hsize 4
  exact ⟨hcalls, hsize, (hasked calls hcalls).1, (hlexed _).1, (hparsed _).1⟩

end Text

end ScriptFront
