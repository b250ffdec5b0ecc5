import ScriptFront.Proofs.Coupling.Parser
import ScriptFront.Proofs.Lexing.Endings

/-!
# Steady readings

A reading is *steady* if its current token is what the text has at its start, or the first byte of
a symbol that was cut, and if the lexer behind it comes to the end that the text comes to. Every
step leads from a steady reading to a steady one or stops at an error that the text bears out: a
lexical error is the one that the tokens of the text end at, and any other error is in front of it.

- `Course`: a text and how its tokens end.
- `Course.Fresh`, `Course.Cut`, `Course.Steady`, `Course.Adrift`: what is known of a reading.
- `Course.Told`: what is known of an error.
- `Course.advance`, `Course.peek`, `Course.goBack`, `Course.narrow`: what one step does.
-/

namespace ScriptFront

open ScriptFront.Parser

-- What a reading comes to is told by the rules; nothing is to be run to find out.
attribute [local irreducible] Ends

/-- A text, from its first byte on, and how its tokens end. -/
structure Course where
  origin : Walker Buffer
  ending : Option (LexError × Place)
  finishes : origin.Finishes ending

namespace Course

/-! ## What is known of a reading -/

section States

variable (C : Course)

/-- At a place, the text has a token, and the lexer behind it comes to the end of the text. -/
structure Stands (place : Place) (token : Token) (behind : Walker Buffer) : Prop where
  front : ∃ w, C.origin.SameText w ∧ w.place = place ∧ w.Settled ∧
    Lexer.next.run w = (.ok token, behind)
  finishes : behind.Finishes C.ending

/-- A bookmark of a token of the text. -/
def Known (b : Bookmark) : Prop := ∃ token behind, C.Stands b.start token behind

/-- The current token is what the text has at its start. -/
def Fresh (p : Parser Buffer) : Prop := C.Stands p.start p.current p.lexer

/-- The current token is the first byte of a longer symbol. -/
structure Cut (p : Parser Buffer) : Prop where
  kind : p.current.kind = Symbol.gt ∨ p.current.kind = Symbol.pipe
  place_eq : p.current.place = p.start.stored
  known : C.Known ⟨p.start⟩
  sameText : C.origin.SameText p.lexer
  finishes : p.lexer.Finishes C.ending

/-- The current token is what the text has at its start, or a part of it. -/
def Steady (p : Parser Buffer) : Prop := C.Fresh p ∨ C.Cut p

/-- The lexer is somewhere in the text. -/
def Adrift (p : Parser Buffer) : Prop := C.origin.SameText p.lexer

/-- A place in front of the error that the tokens end at. -/
def InFront (place : Place) : Prop := ∀ e q, C.ending = some (e, q) → place.offset < q.offset

/-- A lexical error is the one that the tokens end at; any other error is in front of that. -/
structure Told (e : SyntaxError) : Prop where
  lexical : ∀ f, e.fault = .lexical f →
    ∃ error q, C.ending = some (error, q) ∧ error.fault = f ∧ error.place = e.place
  other : (∀ f, e.fault ≠ .lexical f) → ∃ q : Place, e.place = q.stored ∧ C.InFront q

end States

variable {C : Course} {p q : Parser Buffer} {b : Bookmark} {place : Place} {token : Token}
  {behind : Walker Buffer}

namespace Stands

theorem sameText (h : C.Stands place token behind) : C.origin.SameText behind := by
  obtain ⟨w, hw, -, -, hnext⟩ := h.front
  exact hw.trans (Walker.sameText_of_next hnext)

theorem place_eq (h : C.Stands place token behind) : token.place = place.stored := by
  obtain ⟨w, -, rfl, hsettled, hnext⟩ := h.front
  exact (Walker.token_of_next hsettled hnext).1

/-- No error is behind the last token. -/
theorem ending_of_eof (h : C.Stands place token behind) (hkind : token.kind = .eof) :
    C.ending = none := by
  obtain ⟨w, -, -, -, hnext⟩ := h.front
  have hrest := Walker.rest_of_eof hnext hkind
  exact h.finishes.of_eof (Walker.run_next_atEnd hrest) rfl

/-- A token of the text is in front of the error that the tokens end at. -/
theorem inFront (h : C.Stands place token behind) : C.InFront place := by
  intro e q hending
  obtain ⟨w, -, rfl, -, hnext⟩ := h.front
  by_cases hkind : token.kind = .eof
  · rw [h.ending_of_eof hkind] at hending
    cases hending
  · have hless := Walker.position_of_next hnext hkind
    have hle := (h.finishes.place_eq hending).2
    exact Nat.lt_of_lt_of_le hless hle

end Stands

namespace Steady

theorem known (h : C.Steady p) : C.Known ⟨p.start⟩ := by
  rcases h with hfresh | hcut
  · exact ⟨p.current, p.lexer, hfresh⟩
  · exact hcut.known

theorem place_eq (h : C.Steady p) : p.current.place = p.start.stored := by
  rcases h with hfresh | hcut
  · exact Stands.place_eq hfresh
  · exact hcut.place_eq

theorem sameText (h : C.Steady p) : C.origin.SameText p.lexer := by
  rcases h with hfresh | hcut
  · exact Stands.sameText hfresh
  · exact hcut.sameText

theorem finishes (h : C.Steady p) : p.lexer.Finishes C.ending := by
  rcases h with hfresh | hcut
  · exact Stands.finishes hfresh
  · exact hcut.finishes

theorem fresh (h : C.Steady p) (hgt : p.current.kind ≠ Symbol.gt)
    (hpipe : p.current.kind ≠ Symbol.pipe) : C.Fresh p := by
  rcases h with hfresh | hcut
  · exact hfresh
  · rcases hcut.kind with hkind | hkind
    · exact absurd hkind hgt
    · exact absurd hkind hpipe

theorem withTrait (inTrait : Bool) (h : C.Steady p) : C.Steady { p with inTrait } := by
  rcases h with hfresh | hcut
  · exact .inl hfresh
  · exact .inr ⟨hcut.kind, hcut.place_eq, hcut.known, hcut.sameText, hcut.finishes⟩

theorem ending_of_eof (h : C.Steady p) (hkind : p.current.kind = .eof) : C.ending = none := by
  refine Stands.ending_of_eof (h.fresh ?_ ?_) hkind
  · rw [hkind]
    nofun
  · rw [hkind]
    nofun

end Steady

/-! ## What is known of an error -/

namespace Told

variable {fault : SyntaxFault}

theorem at_known (h : C.Known b) (hfault : ∀ f, fault ≠ .lexical f) :
    C.Told ⟨fault, b.place, none⟩ where
  lexical f hf := absurd hf (hfault f)
  other _ := by
    obtain ⟨token, behind, hstands⟩ := h
    exact ⟨b.start, rfl, hstands.inFront⟩

theorem here (h : C.Steady p) (hfault : ∀ f, fault ≠ .lexical f) :
    C.Told ⟨fault, p.current.place, none⟩ := by
  rw [h.place_eq]
  exact at_known h.known hfault

theorem within {e : SyntaxError} (context : ErrorContext) (h : C.Told e) :
    C.Told (e.within context) := ⟨h.lexical, h.other⟩

/-- The error that the lexer meets is the one that the tokens end at. -/
theorem of_next {w v : Walker Buffer} {e : LexError} (hw : w.Finishes C.ending)
    (h : Lexer.next.run w = (.error e, v)) : C.Told e.toSyntaxError where
  lexical f hf := by
    cases hf
    exact ⟨e, v.place, hw.of_error h, rfl, rfl⟩
  other hnot := absurd rfl (hnot e.fault)

end Told

/-! ## Steps -/

/-- Taking a token leads to a fresh one, or the text ends at an error. -/
theorem advance (h : C.Steady p) :
    Ends (fun e q => C.Told e ∧ C.Adrift q) Parser.advance p (fun _ q => C.Fresh q) := by
  have hsame := h.sameText
  unfold Ends Parser.advance
  rcases hskip : Lexer.skip.run p.lexer with ⟨e | _, v⟩
  · have hnext := Walker.run_next_of_skip_error hskip
    obtain ⟨gap, hv, -⟩ := Walker.stopped_of_next hnext
    rw [run_bind_error (run_lex_error hskip)]
    exact ⟨.of_next h.finishes hnext, hsame.trans hv.toSameText⟩
  · obtain ⟨gap, hv, -⟩ := Ends.ok (Ends.skip p.lexer) hskip
    have hsame' := hsame.trans hv.toSameText
    have hfinishes : v.Finishes C.ending :=
      .of_next_eq (Walker.run_next_of_skip hskip).symm h.finishes
    rw [run_bind_ok (run_lex_ok hskip), run_modify_bind]
    generalize hp' : ({ p with lexer := v, start := v.place } : Parser Buffer) = p'
    have hlexer : p'.lexer = v := by rw [← hp']
    have hstart : p'.start = v.place := by rw [← hp']
    rcases hnext : Lexer.next.run v with ⟨e | token, u⟩
    · obtain ⟨gap, hu, -⟩ := Walker.stopped_of_next hnext
      rw [← hlexer] at hnext
      rw [run_bind_error (run_lex_error hnext)]
      exact ⟨.of_next hfinishes (hlexer ▸ hnext), hsame'.trans hu.toSameText⟩
    · have hstands : C.Stands v.place token u :=
        ⟨⟨v, hsame', rfl, Walker.settled_of_skip hskip, hnext⟩, hfinishes.behind hnext⟩
      rw [← hlexer] at hnext
      rw [← hstart] at hstands
      rw [run_bind_ok (run_lex_ok hnext)]
      exact hstands

/-- Looking at the next token changes nothing. -/
theorem peek (h : C.Steady p) :
    ∃ result, (Parser.peek : Parse Buffer Token).run p = (result, p) ∧
      ∀ e, result = .error e → C.Told e := by
  rcases hnext : Lexer.next.run p.lexer with ⟨e | token, v⟩
  · refine ⟨.error e.toSyntaxError, ?_, ?_⟩
    · obtain ⟨gap, hv, -⟩ := Walker.stopped_of_next hnext
      have hreset : (Walker.reset p.lexer.place v).2 = p.lexer :=
        congrArg Prod.snd (Walker.run_reset hv.toSameText)
      rw [run_peek_error hnext, hreset]
    · rintro _ ⟨⟩
      exact .of_next h.finishes hnext
  · refine ⟨.ok token, ?_, nofun⟩
    have hreset : (Walker.reset p.lexer.place v).2 = p.lexer :=
      congrArg Prod.snd (Walker.run_reset (Walker.sameText_of_next hnext))
    rw [run_peek_ok hnext, hreset]

/-- From everywhere in the text, the way back to a token leads to where it is current. -/
theorem goBack (hb : C.Known b) (h : C.Adrift p) :
    ∃ token behind, C.Stands b.start token behind ∧
      (Parser.goBack b).run p = (.ok (), ⟨behind, token, b.start, p.inTrait⟩) := by
  obtain ⟨token, behind, hstands⟩ := hb
  refine ⟨token, behind, hstands, ?_⟩
  obtain ⟨w, hw, hplace, -, hnext⟩ := hstands.front
  have hreset : ((Walker.reset b.start).run p.lexer).2 = w := by
    rw [← hplace, Walker.run_reset (hw.symm.trans h)]
  unfold Parser.goBack
  rw [run_modify_bind]
  generalize hp' : ({ p with lexer := (Walker.reset b.start p.lexer).2, start := b.start } :
    Parser Buffer) = p'
  have hlexer : p'.lexer = w := by
    rw [← hp']
    exact hreset
  rw [← hlexer] at hnext
  rw [run_bind_ok (run_lex_ok hnext), ← hp']
  rfl

/-- From everywhere in the text, the way back to a fresh token leads to the state that it was
current in. -/
theorem goBack_fresh (hp : C.Fresh p) (hq : C.Adrift q) (hinTrait : q.inTrait = p.inTrait) :
    (Parser.goBack ⟨p.start⟩).run q = (.ok (), p) := by
  obtain ⟨token, behind, hstands, hrun⟩ := goBack (b := ⟨p.start⟩) ⟨p.current, p.lexer, hp⟩ hq
  obtain ⟨w, hw, hplace, -, hnext⟩ := hstands.front
  obtain ⟨w', hw', hplace', -, hnext'⟩ := Stands.front hp
  have hsame : w' = w := Walker.eq_of_place (hw.symm.trans hw') (hplace'.trans hplace.symm)
  rw [hsame, hnext] at hnext'
  obtain ⟨htoken, hbehind⟩ := Prod.mk.inj hnext'
  rw [hrun, hinTrait, hbehind, Except.ok.inj htoken]

/-- A symbol that is cut is a run, and its first byte is what is left. -/
theorem bytes_of_cut {whole part : Symbol} (h : whole.cut? = some part) :
    (part = .gt ∨ part = .pipe) ∧ ∃ b more, whole.bytes = b :: more ∧ Walker.isRunByte b ∧
      b ≠ newline ∧ b ≠ tabulator := by
  cases whole <;> cases h
  all_goals exact ⟨by decide, _, _, rfl, by decide⟩

/-- What is left of a symbol is not cut again. -/
theorem ne_of_cut {whole part : Symbol} (h : whole.cut? = some part) :
    (whole : TokenKind) ≠ Symbol.gt ∧ (whole : TokenKind) ≠ Symbol.pipe := by
  cases whole <;> cases h
  all_goals exact ⟨nofun, nofun⟩

/-- A symbol that is cut is cut behind its first byte: the lexer has the rest of it before it. -/
theorem split_of_narrow (h : C.Fresh p) {whole part : Symbol} (hwhole : p.current.kind = whole)
    (hpart : whole.cut? = some part) :
    ∃ w b more, C.origin.SameText w ∧ w.place = p.start ∧
      w.Passes [b] ((Parser.narrow part 1).run p).2.lexer ∧
      ((Parser.narrow part 1).run p).2.lexer.Passes more p.lexer ∧
      (∀ c ∈ b :: more, Walker.isRunByte c) ∧ whole.bytes = b :: more := by
  obtain ⟨w, hw, hplace, hsettled, hnext⟩ := Stands.front h
  have hpasses := Walker.passes_of_symbol hsettled hnext hwhole
  obtain ⟨-, b, more, hbytes, hb, hline, htab⟩ := bytes_of_cut hpart
  have hrun := Walker.isRunByte_of_mem hbytes hb
  rw [hbytes] at hpasses hrun
  have hfirst := Walker.passes_advance hpasses.rest_eq
  generalize (Walker.advance.run w).2 = v at hfirst
  have hmore : v.Passes more p.lexer := hpasses.cancel hfirst
  have hrest : v.place = ⟨⟨p.start.line, p.start.column + 1⟩, p.start.offset + 1⟩ := by
    rw [hfirst.place_eq, ← hplace, Place.afterAll_cons, Place.afterAll_nil, Place.after,
      Position.after, if_neg hline, if_neg htab]
  have hlexer : ((Parser.narrow part 1).run p).2.lexer = v := by
    have hreset := congrArg Prod.snd (Walker.run_reset hmore.toSameText)
    rw [hrest] at hreset
    exact hreset
  rw [hlexer]
  exact ⟨w, b, more, hw, hplace, hfirst, hmore, hrun, hbytes⟩

/-- The lexer behind what is left of a symbol has the rest of the symbol before it, which is a part
of a run. -/
theorem passes_of_narrow (h : C.Fresh p) {whole part : Symbol} (hwhole : p.current.kind = whole)
    (hpart : whole.cut? = some part) :
    ∃ more, (∀ c ∈ more, Walker.isRunByte c) ∧
      ((Parser.narrow part 1).run p).2.lexer.Passes more p.lexer := by
  obtain ⟨_, b, more, -, -, -, hmore, hrun, -⟩ := split_of_narrow h hwhole hpart
  exact ⟨more, fun c hc => hrun c (List.mem_cons_of_mem b hc), hmore⟩

/-- Of a symbol that is cut, the rest comes to the end that the text comes to. -/
theorem narrow (h : C.Fresh p) {whole part : Symbol} (hwhole : p.current.kind = whole)
    (hpart : whole.cut? = some part) : C.Cut ((Parser.narrow part 1).run p).2 := by
  obtain ⟨more, hrun, hpasses⟩ := passes_of_narrow h hwhole hpart
  have hkind := (bytes_of_cut hpart).1
  have hplace : p.current.place = p.start.stored := Stands.place_eq h
  refine ⟨?_, hplace, ⟨p.current, p.lexer, h⟩, ?_, ?_⟩
  · exact hkind.imp (congrArg TokenKind.symbol) (congrArg TokenKind.symbol)
  · exact (Stands.sameText h).trans hpasses.toSameText.symm
  · exact .realigned hrun hpasses (Stands.finishes h)

end Course

end ScriptFront
