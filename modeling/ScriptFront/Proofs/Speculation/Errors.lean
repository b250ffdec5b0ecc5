import ScriptFront.Proofs.Speculation.Traceless

/-!
# Errors of readings and of the lexer

A reading meets the tokens of a text one by one, looks ahead and goes back, drops errors that a
lookahead met, and cuts symbols in two. Nevertheless it knows no other lexical error than the one
that the tokens of the text end at, and every other error that it stops at is in front of that.

- `Course.told_of_run`: what is known of the error that a reading stops at.
- `Parser.ends_parseUnit`: a unit is read up to the end of the text.
- `Text.errors_agree`: what readings and the lexer have to say about the errors of a text.
- `Text.errors_disagree_unreadable`: not so where a source cannot be read to its end.
-/

namespace ScriptFront

open ScriptFront.Parser

-- What a reading comes to is told by the rules; nothing is to be run to find out.
attribute [local irreducible] Ends

/-! ## Phases -/

/-- Just the faults of the lexer have codes of the lexer. -/
theorem SyntaxFault.phase_code (fault : SyntaxFault) :
    fault.code.phase = .lexical ↔ ∃ f, fault = .lexical f := by
  cases fault with
  | lexical f =>
    refine ⟨fun _ => ⟨f, rfl⟩, fun _ => ?_⟩
    cases f <;> rfl
  | _ => exact ⟨nofun, nofun⟩

/-! ## The end of a unit -/

namespace Ends

variable {σ α : Type} {mode : Mode} {p : Parser σ}

/-- Every reading ends somewhere. -/
theorem anyhow {ε s : Type} (x : ExceptT ε (StateM s) α) (p : s) :
    Ends (fun _ _ => True) x p fun _ _ => True := by
  unfold Ends
  rcases x.run p with ⟨_ | _, _⟩ <;> trivial

/-- Items are read until a token of the kind is there. -/
theorem whileOnto_checkNot (close : TokenKind) (item : Parse σ (Yield mode α)) (steps : Nat)
    (taken : Yield mode (Array α)) :
    Ends (fun _ _ => True) (Parser.whileOnto (Parser.checkNot close) item steps taken)
      p fun _ q => q.current.kind = close := by
  induction steps generalizing taken p with
  | zero => exact failAtStart trivial
  | succ steps ih =>
    refine checkNot (ite (fun _ => ?_) fun hk => ?_)
    · exact Ends.bind (anyhow item p) fun next q _ => ih _
    · exact pure (by simpa using hk)

end Ends

/-- A unit is read up to the end of the text. -/
theorem Parser.ends_parseUnit {σ : Type} [ByteSource σ] (p : Parser σ) :
    Ends (fun _ _ => True) (parseUnit : Parse σ CodeUnit) p fun _ q => q.current.kind = .eof := by
  refine Ends.bind (Ends.anyhow _ p) fun g q _ => ?_
  refine Ends.bind (Ends.anyhow _ q) fun state q _ => ?_
  refine Ends.bind (Ends.anyhow _ q) fun includes q _ => ?_
  refine Ends.bind ?_ fun namespaces q hq => Ends.pure hq
  refine Ends.listBound ?_
  exact Ends.bind (Ends.whileOnto_checkNot .eof _ _ _) fun _ q hq => Ends.pure hq

/-! ## Errors of steady readings -/

namespace Walker.Finishes

variable {w : Walker Buffer} {ending : Option (LexError × Place)} {e : LexError} {place : Place}

/-- An error is found inside of the text. -/
theorem offset_le (h : w.Finishes ending) (hending : ending = some (e, place)) :
    place.offset ≤ w.source.content.size := by
  induction h with
  | eof hnext hkind => cases hending
  | @error w v e hnext =>
    cases hending
    obtain ⟨gap, hv, -, -⟩ := stopped_of_next hnext
    rw [← hv.content_eq]
    exact v.source.position_le
  | token hnext hkind hmore ih =>
    rw [← (sameText_of_next hnext).content_eq]
    exact ih hending

end Walker.Finishes

/-- What is known of two readings is known of the first one. -/
theorem Arrival.ends {ε s t α β : Type} {T : ε → Prop} {E R : s → t → Prop} {V : α → β → Prop}
    {x : ExceptT ε (StateM s) α} {y : ExceptT ε (StateM t) β} {p : s} {q : t}
    (h : Arrival T E V R (x.run p) (y.run q)) :
    Ends (fun e _ => T e) x p fun _ p' => ∃ q', R p' q' := by
  unfold Ends
  revert h
  generalize x.run p = r
  generalize y.run q = r'
  rintro (⟨-, hstates⟩ | ⟨htold, -⟩)
  · exact ⟨_, hstates⟩
  · exact htold

namespace Course

variable {σ : Type} [ByteSource σ] {C : Course} {T : Twins σ Buffer} {s : σ} {b : Buffer}
  {tabWidth : UInt32}

/-- A reading from a token of the text on ends at a steady state, or at an error that the text
tells. -/
theorem ends_read {p : Parser σ} (h : Mirrors T C.Fresh p p) (entry : Entry) :
    Ends (fun e _ => C.Told e) entry.read p fun _ q => ∃ d, T.Together q d ∧ C.Steady d := by
  have hread := (C.simulation T).entry entry ((C.simulation T).state_of_fresh h)
  unfold Simulation.CoupledAt at hread
  refine hread.ends.mono ?_
  rintro _ q ⟨_, hstates, -⟩
  exact hstates.image

/-- The error that a reading of a source stops at is told by the text. -/
theorem told_of_run (hs : T.left s 0) (hb : T.right b 0)
    (horigin : C.origin = Walker.ofSource b tabWidth) (entry : Entry) {e : SyntaxError}
    (h : Parser.run entry.read s tabWidth = .error e) : C.Told e := by
  have hstart := ofSource hs hb horigin
  unfold Parser.run at h
  cases hp : Parser.ofSource s tabWidth with
  | error e' =>
    rw [hp] at hstart h
    cases h
    exact hstart
  | ok p =>
    rw [hp] at hstart h
    have hread := ends_read hstart entry
    have herror : (entry.read.run p).1 = .error e := h
    unfold Ends at hread
    rcases hrun : entry.read.run p with ⟨r, q⟩
    rw [hrun] at hread herror
    subst herror
    exact hread

/-- If a whole unit can be read, the text ends without an error. -/
theorem ending_of_run (hs : T.left s 0) (hb : T.right b 0)
    (horigin : C.origin = Walker.ofSource b tabWidth) {unit : CodeUnit}
    (h : Parser.run parseUnit s tabWidth = .ok unit) : C.ending = none := by
  have hstart := ofSource hs hb horigin
  unfold Parser.run at h
  cases hp : Parser.ofSource s tabWidth with
  | error e =>
    rw [hp] at h
    cases h
  | ok p =>
    rw [hp] at hstart h
    have hread := ends_read hstart .unit
    have hend := Parser.ends_parseUnit p
    have hunit : ((parseUnit : Parse σ CodeUnit).run p).1 = .ok unit := h
    rcases hrun : (parseUnit : Parse σ CodeUnit).run p with ⟨r, q⟩
    rw [hrun] at hunit
    subst hunit
    obtain ⟨d, hd, hsteady⟩ := Ends.ok hread hrun
    have hkind := Ends.ok hend hrun
    rw [hd.current_eq] at hkind
    exact hsteady.ending_of_eof hkind

end Course

/-! ## Texts -/

namespace Text

variable {σ : Type} [ByteSource σ] {t : Text} {limit : Nat} {shows : σ → Nat → Prop} {s : σ}

/-- A reading of a source and the lexer agree on the errors of the text. If the reading stops at a
lexical error, the lexer stops at the same one. If it stops at another error and the lexer stops as
well, the lexer stops further on: the places that the errors are told at are told apart by their
offsets, before these are cut down to what can be stored, and also after that if the text is not
longer. And if a whole unit can be read, the lexer comes to the end of the text. -/
theorem errors_agree (hfaithful : t.Faithful limit shows) (hroom : t.content.size + 3 < limit)
    (hs : shows s 0) (tabWidth : UInt32) :
    (∀ (entry : Entry) (e : SyntaxError), Parser.run entry.read s tabWidth = .error e →
      (e.code.phase = .lexical → ∃ error : LexError,
        (Lexer.tokenize.run (Walker.ofSource s tabWidth)).1 = .error error ∧
          e = { error.toSyntaxError with context := e.context }) ∧
      (e.code.phase = .syntactic → ∀ error : LexError,
        (Lexer.tokenize.run (Walker.ofSource s tabWidth)).1 = .error error →
          (∃ place place' : Place, e.place = place.stored ∧ error.place = place'.stored ∧
            place.offset < place'.offset) ∧
          (t.content.size ≤ counterLimit → e.place.offset < error.place.offset))) ∧
    ∀ unit : CodeUnit, Parser.run parseUnit s tabWidth = .ok unit →
      ∃ tokens, (Lexer.tokenize.run (Walker.ofSource s tabWidth)).1 = .ok tokens := by
  let T := besideMemory hfaithful hroom
  have hb : T.right t.inMemory 0 := t.inMemory_shows
  obtain ⟨C, horigin, hended⟩ := Course.ofWalker (Walker.ofSource t.inMemory tabWidth)
  have hlexer : (Lexer.tokenize.run (Walker.ofSource s tabWidth)).1 =
      (Lexer.tokenize.run C.origin).1 := by
    rw [horigin]
    exact (Twins.tokenize (Twins.beside_ofSource (T := T) hs hb tabWidth)).1.eq
  rw [hlexer]
  unfold Course.Ended at hended
  refine ⟨fun entry e he => ?_, fun unit hunit => ?_⟩
  · have htold := Course.told_of_run hs hb horigin entry he
    refine ⟨fun hphase => ?_, fun hphase error herror => ?_⟩
    · obtain ⟨f, hf⟩ := e.fault.phase_code.1 hphase
      obtain ⟨error, q, hending, hfault, hplace⟩ := htold.lexical f hf
      rw [hending] at hended
      refine ⟨error, hended, ?_⟩
      obtain ⟨fault, place, context⟩ := e
      cases hf
      cases hfault
      cases hplace
      rfl
    · have hnot : ∀ f, e.fault ≠ .lexical f := by
        intro f hf
        have hlexical : e.code.phase = .lexical := e.fault.phase_code.2 ⟨f, hf⟩
        rw [hphase] at hlexical
        cases hlexical
      obtain ⟨q, hplace, hfront⟩ := htold.other hnot
      cases hending : C.ending with
      | none =>
        rw [hending] at hended
        obtain ⟨tokens, htokens⟩ := hended
        rw [htokens] at herror
        cases herror
      | some end_ =>
        obtain ⟨error', q'⟩ := end_
        rw [hending] at hended
        obtain rfl : error' = error := Except.error.inj (hended.symm.trans herror)
        have hless := hfront error' q' hending
        have hplace' := (C.finishes.place_eq hending).1
        refine ⟨⟨q, q', hplace, hplace', hless⟩, fun hsize => ?_⟩
        have hle := C.finishes.offset_le hending
        have hcontent : C.origin.source.content = t.content := by
          rw [horigin]
          rfl
        rw [hcontent] at hle
        rw [hplace, hplace', Place.stored_eq, Place.stored_eq]
        · exact hless
        · omega
        · omega
  · have hending := Course.ending_of_run hs hb horigin hunit
    rw [hending] at hended
    exact hended

/-- A brace where a name should be, and a faulty character further on, in chunks of two bytes. -/
theorem errors_agree_twoErrors :
    let t : Text := ⟨"errors", utf8Bytes "namespace \x7b \x27cc\x27"⟩
    let s := t.inChunks 2
    let e : SyntaxError := ⟨.missingIdentifier "\x7b", ⟨⟨1, 11⟩, 10⟩, none⟩
    let error : LexError := ⟨.malformedCharacter, ⟨⟨1, 13⟩, 12⟩⟩
    t.content.size + 3 < addressLimit - 1 ∧ t.content.size ≤ counterLimit ∧
      Parser.run (Entry.read .unit) s 4 = .error e ∧
      (Lexer.tokenize.run (Walker.ofSource s 4)).1 = .error error ∧
      e.place.offset < error.place.offset := by
  intro t s e error
  have hroom : t.content.size + 3 < addressLimit - 1 := by decide
  have hsize : t.content.size ≤ counterLimit := by decide
  have hread : errorOf? (Parser.run (Entry.read .unit) s 4) = some e := by decide +kernel
  have hlex : errorOf? (Lexer.tokenize.run (Walker.ofSource s 4)).1 = some error := by
    decide +kernel
  have hread' := eq_error_of_errorOf? hread
  have hlex' := eq_error_of_errorOf? hlex
  have hagree := (t.errors_agree t.chunks hroom (InChunks.start t 2) 4).1 .unit e hread'
  exact ⟨hroom, hsize, hread', hlex', (hagree.2 rfl error hlex').2 hsize⟩

/-- Of a source that cannot be read to its end, a failed load leaves what is in front of the chunk
that it should have brought. A reading that went back has other chunks than the lexer, so here it
stops inside of the character, in front of which the text ends for the lexer. -/
theorem errors_disagree_unreadable :
    let s := Chunked.ofReader { content := utf8Bytes "a<b+\x27c\x27", failsAt := some 6 }
      "unreadable" 5
    ∃ e tokens, Parser.run (Entry.read .expr) s 4 = .error e ∧ e.code.phase = .lexical ∧
      (Lexer.tokenize.run (Walker.ofSource s 4)).1 = .ok tokens := by
  intro s
  have hread : errorOf? (Parser.run (Entry.read .expr) s 4) =
      some ⟨.lexical .malformedCharacter, ⟨⟨1, 5⟩, 4⟩, none⟩ := by decide +kernel
  have hlex : (Lexer.tokenize.run (Walker.ofSource s 4)).1.isOk := by decide +kernel
  obtain ⟨tokens, htokens⟩ := exists_ok_of_isOk hlex
  exact ⟨_, tokens, eq_error_of_errorOf? hread, rfl, htokens⟩

end Text

end ScriptFront
