import ScriptFront.Proofs.Speculation.Mirrored

/-!
# Lookaheads leave no trace

A fresh parser is at a token of its text, so all that is known of steady readings is known of every
reading from it on.

- `Course.ofWalker`: every text has a course, and how it ends is how the lexer ends.
- `Course.ofSource`: a fresh parser over a source of the text is steady.
- `Text.lookaheads_traceless`: no lookahead of a reading ever leaves a trace.
-/

namespace ScriptFront

open ScriptFront.Parser

-- What a reading comes to is told by the rules; nothing is to be run to find out.
attribute [local irreducible] Ends

namespace Lexer

variable {σ : Type} [ByteSource σ] {w v : Walker σ} {tokens : Array Token}

/-- All tokens, or the error, are told by the run that finds both. -/
theorem run_tokenize {error : Option LexError} (h : Lexer.run.run w = ((tokens, error), v)) :
    Lexer.tokenize.run w = match error with
      | none => (.ok tokens, v)
      | some e => (.error e, v) := by
  have hrun : (walk Lexer.run : Lex σ _).run w = (.ok (tokens, error), v) := by
    show (Except.ok (Lexer.run.run w).1, (Lexer.run.run w).2) = _
    rw [h]
  unfold Lexer.tokenize
  rw [run_bind_ok hrun]
  cases error <;> rfl

end Lexer

namespace Course

/-! ## The start -/

/-- The lexer ends as the tokens of the text end. -/
def Ended (C : Course) : Prop :=
  match C.ending with
  | none => ∃ tokens, (Lexer.tokenize.run C.origin).1 = .ok tokens
  | some (e, _) => (Lexer.tokenize.run C.origin).1 = .error e

/-- Every text has a course. -/
theorem ofWalker (w : Walker Buffer) : ∃ C : Course, C.origin = w ∧ C.Ended := by
  have hsteps : w.rest.length < w.extent + 1 := by
    have hle := w.length_rest_le
    omega
  obtain ⟨tokens, ending, v, hrun, hfinishes⟩ := Walker.Finishes.of_runOnto hsteps #[]
  refine ⟨⟨w, ending, hfinishes⟩, rfl, ?_⟩
  have htokenize := Lexer.run_tokenize (w := w) hrun
  unfold Ended
  cases ending with
  | none => exact ⟨tokens, congrArg Prod.fst htokenize⟩
  | some end_ => exact congrArg Prod.fst htokenize

/-- A parser over the text starts at a token of it, or the text begins with an error. -/
theorem start (C : Course) :
    match Parser.ofWalker C.origin with
    | .ok p => C.Fresh p
    | .error e => C.Told e := by
  unfold Parser.ofWalker
  rcases hskip : Lexer.skip.run C.origin with ⟨e | _, v⟩
  · exact .of_next C.finishes (Walker.run_next_of_skip_error hskip)
  · obtain ⟨gap, hv, -⟩ := Ends.ok (Ends.skip C.origin) hskip
    have hfinishes : v.Finishes C.ending :=
      .of_next_eq (Walker.run_next_of_skip hskip).symm C.finishes
    rcases hnext : Lexer.next.run v with ⟨e | token, u⟩
    · simp only [hnext]
      exact .of_next hfinishes hnext
    · simp only [hnext]
      exact ⟨⟨v, hv.toSameText, rfl, Walker.settled_of_skip hskip, hnext⟩, hfinishes.behind hnext⟩

section Sources

variable {σ : Type} [ByteSource σ] {C : Course} {T : Twins σ Buffer} {s : σ} {b : Buffer}
  {tabWidth : UInt32}

/-- A parser over a source of the text starts at a token of it, or the text begins with an error. -/
theorem ofSource (hs : T.left s 0) (hb : T.right b 0)
    (horigin : C.origin = Walker.ofSource b tabWidth) :
    match Parser.ofSource s tabWidth with
    | .ok p => Mirrors T C.Fresh p p
    | .error e => C.Told e := by
  have htogether := Twins.ofWalker (Twins.beside_ofSource hs hb tabWidth)
  have hstart := C.start
  rw [horigin] at hstart
  unfold Parser.ofSource
  revert htogether hstart
  generalize Parser.ofWalker (Walker.ofSource s tabWidth) = r
  generalize Parser.ofWalker (Walker.ofSource b tabWidth) = r'
  intro htogether hstart
  cases htogether with
  | @ok p q hpq => exact ⟨rfl, q, hpq, hstart⟩
  | error e => exact hstart

end Sources

end Course

namespace Text

section

variable {σ : Type} [ByteSource σ] {t : Text} {limit : Nat} {shows : σ → Nat → Prop} {s : σ}

/-- A kind of sources of a text, and the text in memory. -/
def besideMemory (hfaithful : t.Faithful limit shows) (hroom : t.content.size + 3 < limit) :
    Twins σ Buffer :=
  ⟨t, limit, shows, t.InBuffer, hfaithful, t.buffer limit, hroom⟩

/-- Whatever a fresh parser over a faithful source reads, no lookahead on the way leaves a trace:
behind a guard that raises an alarm wherever one would, every reading comes to the same result, in
the same state. An alarm may do what it likes, be it in the middle of a lookahead; it may change the
tab width, say, which nothing ever changes back. So none is raised. -/
theorem lookaheads_traceless (hfaithful : t.Faithful limit shows)
    (hroom : t.content.size + 3 < limit) (hs : shows s 0) {tabWidth : UInt32} {p : Parser σ}
    (hp : Parser.ofSource s tabWidth = .ok p) (entry : Entry)
    (alarm : (α : Type) → Parse σ α) :
    ((Lookaheads.guarded alarm).read entry).run p = entry.read.run p := by
  let T := besideMemory hfaithful hroom
  obtain ⟨C, horigin, -⟩ := Course.ofWalker (Walker.ofSource t.inMemory tabWidth)
  have hfresh := Course.ofSource (T := T) hs t.inMemory_shows horigin
  rw [hp] at hfresh
  have hsteady : (C.simulation T).state p p := (C.simulation T).state_of_fresh hfresh
  exact (C.restores T).run_read alarm entry hsteady

end

/-- A generic call, an `<` that is none, and a lambda, in chunks of two bytes. -/
theorem lookaheads_traceless_twoBytes :
    let t : Text := ⟨"lookaheads", utf8Bytes "f<a<b>>(|x| \x7b \x7d)<y"⟩
    let s := t.inChunks 2
    t.content.size + 3 < addressLimit - 1 ∧ (Parser.ofSource s 4).isOk ∧
      ∀ p, Parser.ofSource s 4 = .ok p → ∀ alarm : (α : Type) → Parse Chunked α,
        ((Lookaheads.guarded alarm).read .expr).run p = (Entry.read .expr).run p := by
  intro t s
  have hroom : t.content.size + 3 < addressLimit - 1 := by decide
  refine ⟨hroom, by decide +kernel, fun p hp alarm => ?_⟩
  exact t.lookaheads_traceless t.chunks hroom (InChunks.start t 2) hp .expr alarm

end Text

end ScriptFront
