import ScriptFront.Proofs.Lexing.Starts
import ScriptFront.Proofs.Shapes.Texts
import ScriptFront.Proofs.Speculation.Failing

/-!
# The places of errors

An error is told at the start of a token, be it the current one or one that a bookmark was taken of.
A reading that cuts symbols sees tokens that start inside of a symbol, and no others besides those
of the lexer; and what an error quotes is the token where it is told.

- `Course.Marks`: what is known of an error that the lexer does not tell.
- `Course.Placed`: a steady reading, at a place where a token can start.
- `Text.errors_placed`: the places of all errors.
-/

namespace ScriptFront

open ScriptFront.Parser

-- What a reading comes to is told by the rules; nothing is to be run to find out.
attribute [local irreducible] Ends

namespace Course

section States

variable (C : Course)

/-- The lexer comes to the place, or it is in a run of symbols. -/
def Front (place : Place) : Prop := ∃ w, w.place = place ∧ Walker.Strays C.origin w

/-- A token, or what is left of it when it is cut, has this text. -/
def Reads (token : Token) (text : String) : Prop :=
  text = token.text ∨ ∃ whole part : Symbol, token.kind = whole ∧ whole.cut? = some part ∧
    text = TokenKind.describe part

/-- An error that is not the lexer's is told where a token starts, and quotes that token. -/
def Marks (e : SyntaxError) : Prop :=
  (∀ f, e.fault ≠ .lexical f) → ∃ place token behind, C.Stands place token behind ∧
    C.Front place ∧ e.place = place.stored ∧ ∀ text, e.fault.found? = some text → Reads token text

/-- A steady reading at a place where a token can start. -/
structure Placed (p : Parser Buffer) : Prop where
  steady : C.Steady p
  front : C.Front p.start
  behind : Walker.Strays C.origin p.lexer
  reads : ∃ token behind, C.Stands p.start token behind ∧ Reads token p.current.text

end States

variable {C : Course} {p q : Parser Buffer} {e : SyntaxError}

theorem Marks.of_lexical (h : e.IsLexical) : C.Marks e := by
  obtain ⟨e', rfl⟩ := h
  intro hnot
  exact absurd rfl (hnot e'.fault)

/-- A fresh token behind white space that the lexer skips. -/
theorem placed_of_fresh (h : C.Fresh p) (hfront : C.Front p.start)
    (hbehind : Walker.Strays C.origin p.lexer) : C.Placed p :=
  ⟨.inl h, hfront, hbehind, p.current, p.lexer, h, .inl rfl⟩

/-- Behind where a token can start, the next one can start too. -/
theorem strays_behind {place : Place} {token : Token} {behind : Walker Buffer}
    (h : C.Stands place token behind) (hfront : C.Front place) :
    Walker.Strays C.origin behind := by
  obtain ⟨w, hw, hplace, hsettled, hnext⟩ := h.front
  obtain ⟨w', hplace', hstrays⟩ := hfront
  have hsame : w = w' := Walker.eq_of_place (hstrays.sameText.symm.trans hw)
    (hplace.trans hplace'.symm)
  subst hsame
  exact (hstrays.next (Walker.run_skip_of_settled hsettled)).2 _ _ hnext

namespace Placed

theorem withTrait (inTrait : Bool) (h : C.Placed p) : C.Placed { p with inTrait } :=
  ⟨h.steady.withTrait inTrait, h.front, h.behind, h.reads⟩

theorem advance (h : C.Placed p) :
    Ends (fun e q => C.Marks e ∧ C.Adrift q) Parser.advance p
      fun _ q => C.Placed q ∧ C.Fresh q := by
  have hplace : Ends (fun _ _ => True) Parser.advance p fun _ q =>
      C.Front q.start ∧ Walker.Strays C.origin q.lexer := by
    unfold Ends
    rcases hskip : Lexer.skip.run p.lexer with ⟨e | _, v⟩
    · rw [run_advance_unskipped hskip]
      trivial
    · obtain ⟨hv, hnext⟩ := h.behind.next hskip
      rcases hrun : Lexer.next.run v with ⟨e | token, u⟩
      · rw [run_advance_error hskip hrun]
        trivial
      · rw [run_advance_ok hskip hrun]
        exact ⟨⟨v, rfl, hv⟩, hnext token u hrun⟩
  refine (((Course.advance h.steady).and Ends.lexical_advance).and hplace).imp ?_ ?_
  · rintro e q ⟨⟨⟨-, hadrift⟩, hlexical⟩, -⟩
    exact ⟨.of_lexical hlexical, hadrift⟩
  · rintro t q ⟨⟨hfresh, -⟩, hfront, hbehind⟩
    exact ⟨placed_of_fresh hfresh hfront hbehind, hfresh⟩

/-- Looking at the next token changes nothing. -/
theorem peek (h : C.Placed p) :
    Ends (fun e q => C.Marks e ∧ C.Adrift q) Parser.peek p fun _ q => C.Placed q := by
  obtain ⟨result, hrun, -⟩ := Course.peek h.steady
  have hstays : Ends (fun _ q => q = p) Parser.peek p fun _ q => q = p := by
    refine Ends.of_state (S := fun q => q = p) ?_
    rw [hrun]
  refine (hstays.and Ends.lexical_peek).imp ?_ ?_
  · rintro e _ ⟨rfl, hlexical⟩
    exact ⟨.of_lexical hlexical, h.steady.sameText⟩
  · rintro _ _ ⟨rfl, -⟩
    exact h

theorem goBack {b : Bookmark} (hknown : C.Known b) (hfront : C.Front b.start)
    (h : C.Adrift p) :
    Ends (fun e q => C.Marks e ∧ C.Adrift q) (Parser.goBack b) p
      fun _ q => C.Placed q ∧ C.Fresh q := by
  obtain ⟨token, behind, hstands, hrun⟩ := Course.goBack hknown h
  exact .of_run hrun ⟨placed_of_fresh hstands hfront (strays_behind hstands hfront), hstands⟩

/-- What is left of a symbol is at its start, and the rest of it is in a run. -/
theorem narrow (h : C.Placed p) {whole part : Symbol} (hwhole : p.current.kind = whole)
    (hpart : whole.cut? = some part) : C.Placed ((Parser.narrow part 1).run p).2 := by
  have hfresh : C.Fresh p := by
    refine h.steady.fresh ?_ ?_
    · rw [hwhole]
      exact (ne_of_cut hpart).1
    · rw [hwhole]
      exact (ne_of_cut hpart).2
  obtain ⟨w, b, more, hw, hplace, hfirst, -, hrun, -⟩ := split_of_narrow hfresh hwhole hpart
  have hstrays : Walker.Strays C.origin w := by
    obtain ⟨w', hplace', hstrays⟩ := h.front
    rw [Walker.eq_of_place (hstrays.sameText.symm.trans hw) (hplace.trans hplace'.symm)]
    exact hstrays
  refine ⟨.inr (Course.narrow hfresh hwhole hpart), h.front, ?_, ?_⟩
  · refine hstrays.further hfirst fun c hc => hrun c ?_
    rw [List.mem_singleton.1 hc]
    exact List.mem_cons_self
  · exact ⟨p.current, p.lexer, hfresh, .inr ⟨whole, part, hwhole, hpart, rfl⟩⟩

end Placed

/-! ## Readings -/

/-- What a step comes to, it comes to beside itself. -/
theorem arrival_self {α : Type} {x : Parse Buffer α} {E R : Parser Buffer → Prop}
    (hx : Ends (fun e q => C.Marks e ∧ E q) x p fun _ q => R q)
    (hinTrait : (x.run p).2.inTrait = p.inTrait) :
    Arrival C.Marks (Kept (fun p q => p = q ∧ E p) p.inTrait) Eq
      (Kept (fun p q => p = q ∧ R p) p.inTrait) (x.run p) (x.run p) := by
  unfold Ends at hx
  rcases hrun : x.run p with ⟨e | a, q⟩
  · rw [hrun] at hx hinTrait
    exact .error hx.1 ⟨⟨rfl, hx.2⟩, hinTrait⟩
  · rw [hrun] at hx hinTrait
    exact .ok rfl ⟨⟨rfl, hx⟩, hinTrait⟩

/-- Readings at places where tokens can start. -/
def places (C : Course) : Simulation Buffer Buffer where
  state p q := p = q ∧ C.Placed p
  fresh p q := p = q ∧ C.Placed p ∧ C.Fresh p
  adrift p q := p = q ∧ C.Adrift p
  known b := C.Known b ∧ C.Front b.start
  told := C.Marks
  state_of_fresh h := ⟨h.1, h.2.1⟩
  fresh_of_kind h hgt hpipe := ⟨h.1, h.2, h.2.steady.fresh hgt hpipe⟩
  adrift_of_state h := ⟨h.1, h.2.steady.sameText⟩
  current_eq h := congrArg Parser.current h.1
  start_eq h := congrArg Parser.start h.1
  known_start h := ⟨h.2.steady.known, h.2.front⟩
  inTrait_eq h := congrArg Parser.inTrait h.1
  extent_eq h := congrArg (fun p => p.lexer.extent) h.1
  name_eq h := congrArg Parser.sourceName h.1
  state_withTrait inTrait h := ⟨h.1 ▸ rfl, h.2.withTrait inTrait⟩
  adrift_withTrait inTrait h := ⟨h.1 ▸ rfl, h.2⟩
  told_here := by
    rintro p _ fault ⟨-, h⟩ - hfound -
    obtain ⟨token, behind, hstands, hreads⟩ := h.reads
    refine ⟨p.start, token, behind, hstands, h.front, h.steady.place_eq, fun text htext => ?_⟩
    have hsome : some p.current.text = some text := hfound.symm.trans htext
    rw [← Option.some.inj hsome]
    exact hreads
  told_at := by
    rintro b fault ⟨⟨token, behind, hstands⟩, hfront⟩ - hfound -
    refine ⟨b.start, token, behind, hstands, hfront, rfl, fun text htext => ?_⟩
    have hsome : none = some text := hfound.symm.trans htext
    cases hsome
  told_within context h hfault := h hfault
  advance_fresh := by
    rintro p _ ⟨rfl, h⟩
    exact arrival_self h.advance inTrait_advance
  peek_state := by
    rintro p _ ⟨rfl, h⟩
    exact arrival_self h.peek inTrait_peek
  goBack_fresh := by
    rintro b p _ ⟨hknown, hfront⟩ ⟨rfl, h⟩
    exact arrival_self (Placed.goBack hknown hfront h) (inTrait_goBack b)
  narrow_state := by
    rintro p _ whole part ⟨rfl, h⟩ hwhole hpart
    exact ⟨rfl, h.narrow hwhole hpart⟩

/-- A parser over the text starts where a token can start. -/
theorem placed_of_start (h : Parser.ofWalker C.origin = .ok p) : C.Placed p := by
  have hfresh := C.start
  rw [h] at hfresh
  unfold Parser.ofWalker at h
  rcases hskip : Lexer.skip.run C.origin with ⟨e | _, v⟩
  · rw [hskip] at h
    cases h
  · obtain ⟨hv, hbehind⟩ := (Walker.Strays.of_comes .here).next hskip
    rw [hskip] at h
    rcases hnext : Lexer.next.run v with ⟨e | token, u⟩
    · simp only [hnext] at h
      cases h
    · simp only [hnext] at h
      cases h
      exact placed_of_fresh hfresh ⟨v, rfl, hv⟩ (hbehind token u hnext)

/-- An error that a reading of the text stops at marks a token, unless the lexer tells of it. -/
theorem marks_of_run {b : Buffer} {tabWidth : UInt32}
    (horigin : C.origin = Walker.ofSource b tabWidth)
    (entry : Entry) (h : Parser.run entry.read b tabWidth = .error e) : C.Marks e := by
  unfold Parser.run Parser.ofSource at h
  rw [← horigin] at h
  cases hp : Parser.ofWalker C.origin with
  | error e' =>
    rw [hp] at h
    cases h
    refine .of_lexical ?_
    unfold Parser.ofWalker at hp
    rcases hskip : Lexer.skip.run C.origin with ⟨e | _, v⟩
    · rw [hskip] at hp
      cases hp
      exact ⟨e, rfl⟩
    · rw [hskip] at hp
      rcases hnext : Lexer.next.run v with ⟨e | token, u⟩
      · simp only [hnext] at hp
        cases hp
        exact ⟨e, rfl⟩
      · simp only [hnext] at hp
        cases hp
  | ok p =>
    rw [hp] at h
    have hread : Arrival C.Marks _ _ _ _ _ := C.places.entry entry ⟨rfl, placed_of_start hp⟩
    have herror : ((entry.read : Parse Buffer entry.Tree).run p).1 = .error e := h
    rcases hrun : (entry.read : Parse Buffer entry.Tree).run p with ⟨r, q⟩
    rw [hrun] at hread herror
    subst herror
    cases hread with
    | error told states => exact told

end Course

/-! ## Texts -/

namespace Text

/-- What the lexer finds at a place of the text. -/
def tokenAt (t : Text) (tabWidth : UInt32) (place : Place) : Except LexError Token :=
  (Lexer.next.run ((Walker.reset place).run (Walker.ofSource t.inMemory tabWidth)).2).1

section

variable {σ : Type} [ByteSource σ] {t : Text} {limit : Nat} {shows : σ → Nat → Prop} {s : σ}

/-- The lexer's error, told by all that a run of the lexer finds. -/
theorem error_of_tokenize {w v : Walker σ} {tokens : Array Token} {error : Option LexError}
    {e : LexError} (h : Lexer.run.run w = ((tokens, error), v))
    (he : (Lexer.tokenize.run w).1 = .error e) : error = some e := by
  rw [Lexer.run_tokenize h] at he
  cases error with
  | none => cases he
  | some e' =>
    cases he
    rfl

/-- An error that a fresh parser over a faithful source stops at is told at a place of the text,
with the line and the column that a walk over all bytes in front of it comes to. An error of the
lexer is the one that the lexer comes to in the whole text, told where the text goes wrong. Any
other error is told where a token of the lexer starts, be it the end of the text, or inside of a
symbol, which has been cut; and what it quotes is the token that starts there, or the part of it
that is cut off. -/
theorem errors_placed (hfaithful : t.Faithful limit shows) (hroom : t.content.size + 3 < limit)
    (hs : shows s 0) (hsize : t.content.size < 2 ^ 32) (tabWidth : UInt32) (entry : Entry)
    {e : SyntaxError} (h : Parser.run entry.read s tabWidth = .error e) :
    let bytes := t.content.toList
    let lexed := (Lexer.run.run (Walker.ofSource s tabWidth)).1
    e.place.offset ≤ t.content.size ∧
      e.place = Place.start.afterAll tabWidth (bytes.take e.place.offset) ∧
      ((∃ fault, e.fault = .lexical fault ∧ lexed.2 = some ⟨fault, e.place⟩ ∧
          fault.At (bytes.drop e.place.offset)) ∨
        ((∀ fault, e.fault ≠ .lexical fault) ∧
          (∃ token ∈ lexed.1, token.place = e.place ∨ ∃ symbol : Symbol, token.kind = symbol ∧
            token.place.offset < e.place.offset ∧
            e.place.offset < token.place.offset + symbol.bytes.length) ∧
          ∃ token, t.tokenAt tabWidth e.place = .ok token ∧ token.place = e.place ∧
            ∀ text, e.fault.found? = some text → Course.Reads token text)) := by
  intro bytes lexed
  let T := besideMemory hfaithful hroom
  have hb : T.right t.inMemory 0 := t.inMemory_shows
  obtain ⟨C, horigin, hended⟩ := Course.ofWalker (Walker.ofSource t.inMemory tabWidth)
  have hlexed : lexed = (Lexer.run.run C.origin).1 := by
    rw [horigin]
    exact (Twins.run (Twins.beside_ofSource (T := T) hs hb tabWidth)).1
  have hstored {w : Walker Buffer} (hw : C.origin.SameText w) : w.place.stored = w.place := by
    refine stored_of_sameText ?_ hw
    rw [horigin]
    exact Nat.le_pred_of_lt hsize
  by_cases hlexical : ∃ fault, e.fault = .lexical fault
  · obtain ⟨fault, hfault⟩ := hlexical
    obtain ⟨error, place, hending, rfl, hplace⟩ :=
      (Course.told_of_run hs hb horigin entry h).lexical fault hfault
    obtain ⟨front, w, hpasses, hat, herror⟩ := C.finishes.passes hending
    rw [hstored hpasses.toSameText, hplace] at herror
    rw [horigin] at hpasses
    obtain ⟨hle, hrest, hfold⟩ := hpasses.of_start
    rw [← herror] at hle hrest hfold
    refine ⟨hle, hfold, .inl ⟨error.fault, hfault, ?_, ?_⟩⟩
    · unfold Course.Ended at hended
      rw [hending] at hended
      rw [hlexed]
      refine (error_of_tokenize (w := C.origin) rfl hended).trans ?_
      rw [← hplace]
    · rw [hrest] at hat
      exact hat
  · have hnot : ∀ fault, e.fault ≠ .lexical fault := fun fault hfault => hlexical ⟨fault, hfault⟩
    rw [Twins.run_read (T := T) hs hb] at h
    obtain ⟨place, token, behind, hstands, ⟨w, rfl, hstrays⟩, hplace, hquotes⟩ :=
      Course.marks_of_run horigin entry h hnot
    obtain ⟨v, hv, hvplace, hsettled, hnext⟩ := hstands.front
    obtain rfl := Walker.eq_of_place (hstrays.sameText.symm.trans hv) hvplace
    have htoken := hstands.place_eq
    rw [hstored hv] at hplace htoken
    obtain ⟨front, hpasses⟩ := hstrays.passes
    rw [horigin] at hpasses
    obtain ⟨hle, -, hfold⟩ := hpasses.of_start
    rw [← hplace] at hle hfold
    refine ⟨hle, hfold, .inr ⟨hnot, ?_, token, ?_, htoken.trans hplace.symm, hquotes⟩⟩
    · rw [hlexed]
      rcases hstrays.cases with hcomes | ⟨whole, symbol, front, back, hinside⟩
      · exact ⟨token, (hcomes.yields (.here hnext)).mem_run, .inl (htoken.trans hplace.symm)⟩
      · obtain ⟨u, hu, hfront⟩ := hinside.passes
        have husame : C.origin.SameText u := hv.trans hfront.toSameText.symm
        rw [hstored husame] at hu
        have hoffset : v.place.offset = u.place.offset + front.length := hfront.offset_eq
        have hlength := congrArg List.length hinside.bytes_eq
        have hfront' := List.length_pos_iff.2 hinside.front_ne
        have hback := List.length_pos_iff.2 hinside.back_ne
        rw [List.length_append] at hlength
        refine ⟨whole, hinside.yields.mem_run, .inr ⟨symbol, hinside.kind_eq, ?_, ?_⟩⟩
        · rw [hu, hplace]
          omega
        · rw [hu, hplace]
          omega
    · unfold tokenAt
      rw [hplace, ← horigin, Walker.run_reset hv.symm, hnext]

end

/-- A type with one bracket too many, in chunks of two bytes: what is left of the symbol is
quoted. -/
theorem errors_placed_behindCut :
    let t : Text := ⟨"cut", utf8Bytes "let x: a<b>>;"⟩
    let s := t.inChunks 2
    let e : SyntaxError := ⟨.wrongToken Symbol.semicolon ">", ⟨⟨1, 12⟩, 11⟩, none⟩
    t.content.size + 3 < addressLimit - 1 ∧ t.content.size < 2 ^ 32 ∧
      Parser.run (Entry.read .statement) s 4 = .error e ∧
      e.place = Place.start.afterAll 4 (t.content.toList.take 11) ∧
      ∃ token, t.tokenAt 4 e.place = .ok token ∧ token.place = e.place ∧
        Course.Reads token ">" := by
  intro t s e
  have hroom : t.content.size + 3 < addressLimit - 1 := by decide
  have hsize : t.content.size < 2 ^ 32 := by decide
  have hread : errorOf? (Parser.run (Entry.read .statement) s 4) = some e := by decide +kernel
  have hread' := eq_error_of_errorOf? hread
  obtain ⟨-, hfold, hplaced⟩ :=
    t.errors_placed (s := s) t.chunks hroom (InChunks.start t 2) hsize 4 .statement hread'
  refine ⟨hroom, hsize, hread', hfold, ?_⟩
  rcases hplaced with ⟨fault, hfault, -⟩ | ⟨-, -, token, htoken, hplace, hquotes⟩
  · cases hfault
  · exact ⟨token, htoken, hplace, hquotes ">" rfl⟩

/-- Whether no token starts at an offset, and no symbol goes on there. -/
def avoids (offset : Nat) (tokens : Array Token) : Bool :=
  tokens.toList.all fun token => decide (token.place.offset ≠ offset) &&
    match token.kind with
    | .symbol symbol => decide (offset < token.place.offset ∨
        token.place.offset + symbol.bytes.length ≤ offset)
    | _ => true

/-- Of a source that cannot be read to its end, an error may be told inside of a comment, where no
token starts and none goes on, be it that the text ends there, as it does for a lexer over the
source, or that all of it is there. -/
theorem errors_misplaced_unreadable :
    let content := utf8Bytes "f          </*:void */|a:"
    let s := Chunked.ofReader { content, failsAt := some 25 } "unreadable" 14
    ∃ e, Parser.run (Entry.read .expr) s 4 = .error e ∧ (∀ fault, e.fault ≠ .lexical fault) ∧
      avoids e.place.offset (Lexer.run.run (Walker.ofSource s 4)).1.1 ∧
      avoids e.place.offset (Lexer.run.run (Walker.ofSource (Buffer.ofBytes content) 4)).1.1 := by
  intro content s
  have hread : errorOf? (Parser.run (Entry.read .expr) s 4) =
      some ⟨.misplacedVoid (.parameter (some "a")), ⟨⟨1, 26⟩, 15⟩, some .lambda⟩ := by
    decide +kernel
  refine ⟨_, eq_error_of_errorOf? hread, nofun, ?_, ?_⟩
  · decide +kernel
  · decide +kernel

end Text

end ScriptFront
