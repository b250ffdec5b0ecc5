import ScriptFront.Proofs.Lexing.Layouts
import ScriptFront.Proofs.Lexing.Starts
import ScriptFront.Proofs.Speculation.Traceless

/-!
# Lexical errors are stable

A lexer is asked for tokens, asked to go to the next one, and set back to places that it has stood
at, in any order and whatever the answers are. Where it tells an error, it stands in front of what
it tells; asked again, it tells the same error, and does not move.

- `Lexer.Visits`: where such a session leads.
- `Lexer.Delivers`: the tokens in front of an error.
- `Lexer.delivers_of_serve`: every error is one of the next token behind those delivered.
- `Text.errors_stable`: what is known of an error, over every source of a text.
-/

namespace ScriptFront

open Walker

-- What a reading comes to is told by the rules; nothing is to be run to find out.
attribute [local irreducible] Ends

namespace Lexer

variable {σ : Type} [ByteSource σ] {w v : Walker σ} {e : LexError}

/-! ## Sessions -/

/-- Where requests lead, whatever they come to, and setting back to places stood at before. The list
holds these places. -/
inductive Visits (origin : Walker σ) : List Place → Walker σ → Prop where
  | start : Visits origin [origin.place] origin
  | serve {seen : List Place} {w : Walker σ} (request : Request) (h : Visits origin seen w) :
    Visits origin ((request.serve.run w).2.place :: seen) (request.serve.run w).2
  | reset {seen : List Place} {w : Walker σ} {place : Place} (hplace : place ∈ seen)
    (h : Visits origin seen w) : Visits origin seen ((Walker.reset place).run w).2

/-- The lexer takes tokens, one after the other and none of them the last one of the text. -/
inductive Delivers : Walker σ → List Token → Walker σ → Prop where
  | nil (w : Walker σ) : Delivers w [] w
  | cons {w v u : Walker σ} {token : Token} {tokens : List Token}
    (hnext : Lexer.next.run w = (.ok token, v)) (hkind : token.kind ≠ .eof)
    (hmore : Delivers v tokens u) : Delivers w (token :: tokens) u

/-! ## Errors -/

/-- A run stops at the error that stands in the place of a token. -/
theorem delivers_of_runOnto {steps : Nat} {taken tokens : Array Token}
    (h : (runOnto steps taken).run w = ((tokens, some e), v)) :
    ∃ more u, Delivers w more u ∧ Lexer.next.run u = (.error e, v) := by
  induction steps generalizing w taken with
  | zero => cases h
  | succ steps ih =>
    rcases hnext : Lexer.next.run w with ⟨e' | token, u⟩
    · rw [runOnto_error hnext] at h
      cases h
      exact ⟨[], w, .nil w, hnext⟩
    · rw [runOnto_ok hnext] at h
      by_cases hkind : token.kind = .eof
      · rw [if_pos hkind] at h
        cases h
      · rw [if_neg hkind] at h
        obtain ⟨more, t, hmore, herror⟩ := ih h
        exact ⟨token :: more, t, .cons hnext hkind hmore, herror⟩

/-- Whatever was asked for, the error stands in the place of the next token, perhaps behind others
if all were asked for. -/
theorem delivers_of_serve {request : Request} (h : request.serve.run w = (.error e, v)) :
    ∃ tokens u, Delivers w tokens u ∧ (request ≠ .tokenize → tokens = []) ∧
      Lexer.next.run u = (.error e, v) := by
  cases request with
  | skip =>
    rcases hskip : Lexer.skip.run w with ⟨e' | _, u⟩
    · have hserve : Request.skip.serve.run w = (.error e', u) := run_bind_error hskip
      rw [hserve] at h
      cases h
      exact ⟨[], w, .nil w, fun _ => rfl, run_bind_error hskip⟩
    · have hserve : Request.skip.serve.run w = (.ok [], u) := run_bind_ok hskip
      rw [hserve] at h
      cases h
  | next =>
    rcases hnext : Lexer.next.run w with ⟨e' | token, u⟩
    · have hserve : Request.next.serve.run w = (.error e', u) := run_bind_error hnext
      rw [hserve] at h
      cases h
      exact ⟨[], w, .nil w, fun _ => rfl, hnext⟩
    · have hserve : Request.next.serve.run w = (.ok [token], u) := run_bind_ok hnext
      rw [hserve] at h
      cases h
  | tokenize =>
    rcases hrun : Lexer.run.run w with ⟨⟨tokens, error⟩, u⟩
    have htokenize := run_tokenize hrun
    cases error with
    | none =>
      have hserve : Request.tokenize.serve.run w = (.ok tokens.toList, u) := run_bind_ok htokenize
      rw [hserve] at h
      cases h
    | some e' =>
      have hserve : Request.tokenize.serve.run w = (.error e', u) := run_bind_error htokenize
      rw [hserve] at h
      cases h
      have honto : (runOnto (w.extent + 1) #[]).run w = ((tokens, some e), v) := hrun
      obtain ⟨more, u, hmore, herror⟩ := delivers_of_runOnto honto
      exact ⟨more, u, hmore, fun hne => absurd rfl hne, herror⟩

end Lexer

/-! ## Over a text in memory -/

namespace Walker

variable {w v : Walker Buffer} {e : LexError}

theorem passes_of_skip_error (h : Lexer.skip.run w = (.error e, v)) : ∃ gap, w.Passes gap v := by
  obtain ⟨gap, hgap, -⟩ := stopped_of_next (run_next_of_skip_error h)
  exact ⟨gap, hgap.passes⟩

theorem passes_next (w : Walker Buffer) : ∃ bytes, w.Passes bytes (Lexer.next.run w).2 := by
  rcases hnext : Lexer.next.run w with ⟨e | token, v⟩
  · obtain ⟨gap, hgap, -⟩ := stopped_of_next hnext
    exact ⟨gap, hgap.passes⟩
  · exact passes_of_next hnext

theorem passes_runOnto (w : Walker Buffer) (steps : Nat) (taken : Array Token) :
    ∃ bytes, w.Passes bytes ((Lexer.runOnto steps taken).run w).2 := by
  induction steps generalizing w taken with
  | zero => exact ⟨[], .refl w⟩
  | succ steps ih =>
    obtain ⟨bytes, hbytes⟩ := w.passes_next
    rcases hnext : Lexer.next.run w with ⟨e | token, v⟩
    · rw [hnext] at hbytes
      rw [Lexer.runOnto_error hnext]
      exact ⟨bytes, hbytes⟩
    · rw [hnext] at hbytes
      rw [Lexer.runOnto_ok hnext]
      split
      · exact ⟨bytes, hbytes⟩
      · obtain ⟨more, hmore⟩ := ih v (taken.push token)
        exact ⟨bytes ++ more, hbytes.trans hmore⟩

/-- No request leads back. -/
theorem passes_serve (w : Walker Buffer) (request : Lexer.Request) :
    ∃ bytes, w.Passes bytes (request.serve.run w).2 := by
  cases request with
  | skip =>
    rcases hskip : Lexer.skip.run w with ⟨e | _, v⟩
    · have hserve : Lexer.Request.skip.serve.run w = (.error e, v) := run_bind_error hskip
      rw [hserve]
      exact passes_of_skip_error hskip
    · have hserve : Lexer.Request.skip.serve.run w = (.ok [], v) := run_bind_ok hskip
      rw [hserve]
      exact passes_of_skip hskip
  | next =>
    have hserve : (Lexer.Request.next.serve.run w).2 = (Lexer.next.run w).2 := by
      rcases hnext : Lexer.next.run w with ⟨e | token, v⟩
      · exact congrArg Prod.snd (run_bind_error hnext)
      · exact congrArg Prod.snd (run_bind_ok hnext)
    rw [hserve]
    exact w.passes_next
  | tokenize =>
    have hserve : (Lexer.Request.tokenize.serve.run w).2 = (Lexer.run.run w).2 := by
      rcases hrun : Lexer.run.run w with ⟨⟨tokens, e | error⟩, v⟩
      · exact congrArg Prod.snd (run_bind_ok (Lexer.run_tokenize hrun))
      · exact congrArg Prod.snd (run_bind_error (Lexer.run_tokenize hrun))
    rw [hserve]
    exact w.passes_runOnto (w.extent + 1) #[]

/-- Asked again where it failed, the lexer tells the same error as often as it is asked. -/
theorem transcript_again (h : Lexer.next.run v = (.error e, v)) (count : Nat) :
    ((Lexer.transcript (.replicate count .next)).run v).1 =
    .replicate count (.error e, v.place) := by
  induction count with
  | zero => rfl
  | succ count ih =>
    have hserve : Lexer.Request.next.serve.run v = (.error e, v) := run_bind_error h
    have hfirst : ((Lexer.transcript (.next :: .replicate count .next)).run v).1 =
        ((Lexer.Request.next.serve.run v).1, (Lexer.Request.next.serve.run v).2.place) ::
          ((Lexer.transcript (.replicate count .next)).run (Lexer.Request.next.serve.run v).2).1 :=
      rfl
    rw [List.replicate_succ, List.replicate_succ, hfirst, hserve, ih]

end Walker

/-! ## Over every source -/

namespace Twins

variable {σ : Type} [ByteSource σ] {T : Twins σ Buffer} {origin : Walker Buffer}

/-- A walker stands at a byte of the text, with the place that all bytes in front of it lead to. -/
def Placed (T : Twins σ Buffer) (origin : Walker Buffer) (w : Walker σ) : Prop :=
  ∃ b bytes, T.beside 0 w b ∧ origin.Passes bytes b

/-- The same, of a place that has been taken down. -/
def Noted (origin : Walker Buffer) (place : Place) : Prop :=
  ∃ b bytes, b.place = place ∧ origin.Passes bytes b

theorem Placed.noted {w : Walker σ} (h : T.Placed origin w) : Noted origin w.place := by
  obtain ⟨b, bytes, ⟨n, -, hn⟩, hbytes⟩ := h
  exact ⟨b, bytes, hn.place_eq.symm, hbytes⟩

theorem Placed.serve {w : Walker σ} (h : T.Placed origin w) (request : Lexer.Request) :
    T.Placed origin (request.serve.run w).2 := by
  obtain ⟨b, bytes, hbeside, hbytes⟩ := h
  obtain ⟨more, hmore⟩ := b.passes_serve request
  exact ⟨_, bytes ++ more, (Twins.serve request hbeside).2, hbytes.trans hmore⟩

theorem Placed.reset {w : Walker σ} (h : T.Placed origin w)
    (htext : origin.source.content = T.text.content) {place : Place}
    (hplace : Noted origin place) : T.Placed origin ((Walker.reset place).run w).2 := by
  obtain ⟨b, bytes, hbeside, hbytes⟩ := h
  obtain ⟨c, front, rfl, hfront⟩ := hplace
  have hsame : c.SameText b := hfront.toSameText.symm.trans hbytes.toSameText
  have hle : c.place.offset ≤ T.text.content.size := by
    rw [← htext, ← hfront.content_eq]
    exact c.source.position_le
  have hreset := Twins.reset (Nat.zero_le _) hle hbeside
  rw [run_reset hsame] at hreset
  exact ⟨c, front, hreset, hfront⟩

/-- Sessions lead to bytes of the text, and so do the places that they have stood at. -/
theorem Placed.visits {start w : Walker σ} {seen : List Place} (hstart : T.Placed origin start)
    (htext : origin.source.content = T.text.content) (h : Lexer.Visits start seen w) :
    T.Placed origin w ∧ ∀ place ∈ seen, Noted origin place := by
  induction h with
  | start => exact ⟨hstart, by simpa using hstart.noted⟩
  | serve request h ih =>
    have hserved := ih.1.serve request
    exact ⟨hserved, List.forall_mem_cons.2 ⟨hserved.noted, ih.2⟩⟩
  | reset hplace h ih => exact ⟨ih.1.reset htext (ih.2 _ hplace), ih.2⟩

/-- Tokens are delivered alike from both sources. -/
theorem Placed.delivers {w u : Walker σ} {tokens : List Token} (hw : T.Placed origin w)
    (h : Lexer.Delivers w tokens u) : T.Placed origin u := by
  induction h with
  | nil => exact hw
  | @cons w v u token tokens hnext hkind hmore ih =>
    obtain ⟨b, bytes, hbeside, hbytes⟩ := hw
    obtain ⟨more, hpasses⟩ := b.passes_next
    have hstep := (Twins.next hbeside).2
    rw [hnext] at hstep
    exact ih ⟨_, bytes ++ more, hstep, hbytes.trans hpasses⟩

end Twins

namespace Text

variable {σ : Type} [ByteSource σ] {t : Text} {limit : Nat} {shows : σ → Nat → Prop} {s : σ}

/-- Wherever a session has led to, and whatever is asked for then: where the answer is an error, the
lexer stands at the place that the error tells, which is the place behind all bytes in front of it.
What is wrong begins there; between there and the last token delivered, or where the lexer stood
before, there is nothing but white space and complete comments; and any number of further calls
tell the same error at the same place. -/
theorem errors_stable (hfaithful : t.Faithful limit shows) (hroom : t.content.size + 3 < limit)
    (hs : shows s 0) {tabWidth : UInt32} {seen : List Place} {w v : Walker σ}
    (hw : Lexer.Visits (Walker.ofSource s tabWidth) seen w) {request : Lexer.Request} {e : LexError}
    (hrun : request.serve.run w = (.error e, v)) :
    let left (place : Place) := t.content.toList.drop place.offset
    e.place = v.place.stored ∧ (t.content.size < 2 ^ 32 → e.place = v.place) ∧
      v.place = Place.start.afterAll tabWidth (t.content.toList.take v.place.offset) ∧
      e.fault.At (left v.place) ∧
      (∃ tokens u gap, Lexer.Delivers w tokens u ∧ (request ≠ .tokenize → tokens = []) ∧
        left u.place = gap ++ left v.place ∧ Trivia gap (left v.place)) ∧
      ∀ count, ((Lexer.transcript (.replicate count .next)).run v).1 =
        .replicate count (.error e, v.place) := by
  intro left
  let T := besideMemory hfaithful hroom
  let origin := Walker.ofSource t.inMemory tabWidth
  have hstart : T.Placed origin (Walker.ofSource s tabWidth) :=
    ⟨origin, [], Twins.beside_ofSource hs t.inMemory_shows tabWidth, .refl origin⟩
  obtain ⟨hplaced, -⟩ := hstart.visits rfl hw
  obtain ⟨tokens, u, htokens, hnone, hnext⟩ := Lexer.delivers_of_serve hrun
  -- The same error stands behind the same tokens of the text in memory.
  obtain ⟨b, bytes, hbeside, hbytes⟩ := hplaced.delivers htokens
  obtain ⟨hresult, hbehind⟩ := Twins.next hbeside
  rcases hmemory : Lexer.next.run b with ⟨r, c⟩
  rw [hnext, hmemory] at hresult hbehind
  cases hresult
  obtain ⟨gap, hgap, hfault, hstored⟩ := stopped_of_next hmemory
  have hu : u.place = b.place := by
    obtain ⟨n, -, hn⟩ := hbeside
    exact hn.place_eq
  have hv : v.place = c.place := by
    obtain ⟨n, -, hn⟩ := hbehind
    exact hn.place_eq
  have hc := (hbytes.trans hgap.passes).of_start
  have hleft : left v.place = c.rest := by
    rw [hv]
    exact hc.2.1.symm
  have hleft' : left u.place = b.rest := by
    rw [hu]
    exact hbytes.of_start.2.1.symm
  rw [hleft, hv]
  refine ⟨hstored, fun hsize => ?_, hc.2.2, hfault, ⟨tokens, u, gap, htokens, hnone, ?_, ?_⟩, ?_⟩
  · rw [hstored]
    exact Place.stored_eq (Nat.le_trans hc.1 (Nat.le_pred_of_lt hsize))
  · rw [hleft', hgap.rest_eq]
  · exact hgap.trivia
  · intro count
    rw [← transcript_again (run_next_again hmemory) count]
    exact (Twins.lexerTranscript _ hbehind).1

/-- In chunks of two bytes: all tokens are asked for, the lexer is set back to the start, and they
are asked for again. The character is wrong in the same place, as often as it is asked for. -/
theorem errors_stable_setBack :
    let t : Text := ⟨"quoted", utf8Bytes "x /*é*/\t'ab'"⟩
    let start := Walker.ofSource (t.inChunks 2) 4
    let e : LexError := ⟨.malformedCharacter, ⟨⟨1, 13⟩, 9⟩⟩
    t.content.size + 3 < addressLimit - 1 ∧ ∃ seen w v, Lexer.Visits start seen w ∧
      seen.length = 2 ∧ Lexer.Request.tokenize.serve.run w = (.error e, v) ∧ v.place = e.place ∧
      ((Lexer.transcript [.next, .next]).run v).1 = [(.error e, v.place), (.error e, v.place)] := by
  intro t start e
  have hroom : t.content.size + 3 < addressLimit - 1 := by decide
  have hfails : errorOf? (Lexer.Request.tokenize.serve.run
      ((Walker.reset start.place).run (Lexer.Request.tokenize.serve.run start).2).2).1 =
        some e := by decide +kernel
  have hvisits : Lexer.Visits start _ _ := .serve .tokenize .start
  have hback := hvisits.reset (List.mem_cons_of_mem _ List.mem_cons_self)
  generalize ((Walker.reset start.place).run (Lexer.Request.tokenize.serve.run start).2).2 = w
    at hfails hback
  rcases hrun : Lexer.Request.tokenize.serve.run w with ⟨r, v⟩
  rw [hrun] at hfails
  obtain rfl : r = .error e := eq_error_of_errorOf? hfails
  obtain ⟨-, hplace, -, -, -, hagain⟩ :=
    t.errors_stable t.chunks hroom (InChunks.start t 2) hback hrun
  exact ⟨hroom, _, w, v, hback, rfl, hrun, (hplace (by decide)).symm, hagain 2⟩

/-- Offsets are told in 32 bits: that of a comment that is not closed, behind a line of so many
bytes that it does not fit, is told as the largest one that does, and the lexer stands elsewhere. -/
theorem errors_capped :
    let line := lineCommentOpen ++ List.replicate (2 ^ 32) (byteOf 'x') ++ [newline]
    let start := Walker.ofSource (Buffer.ofBytes (line ++ commentOpen).toArray) 4
    ∃ e v, Lexer.Visits start [start.place] start ∧
      Lexer.Request.next.serve.run start = (.error e, v) ∧ e.place.offset ≠ v.place.offset := by
  intro line start
  have hbody : newline ∉ List.replicate (2 ^ 32) (byteOf 'x') := fun h =>
    absurd (List.eq_of_mem_replicate h) (by decide)
  have hgap : Trivia line commentOpen :=
    .line hbody (fun b hb => by cases hb; rfl) (.blank rfl (.nil _))
  obtain ⟨v, hrun, hv⟩ := hgap.run_next_unclosed (w := start) rfl ⟨[], rfl, by decide⟩
  have hserve : Lexer.Request.next.serve.run start = (.error _, v) := run_bind_error hrun
  have hoffset : v.place.offset = 0 + line.length := by
    rw [hv.place_eq, Place.offset_afterAll]
    rfl
  have hlength : line.length = 2 + 2 ^ 32 + 1 := by
    rw [List.length_append, List.length_append, List.length_replicate]
    rfl
  refine ⟨_, v, .start, hserve, ?_⟩
  show min v.place.offset counterLimit ≠ v.place.offset
  rw [hoffset, hlength]
  decide

end Text

end ScriptFront
