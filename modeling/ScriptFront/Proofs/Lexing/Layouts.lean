import ScriptFront.Proofs.Lexing.Failing
import ScriptFront.Proofs.Lexing.Locality
import ScriptFront.Proofs.Lexing.Starts

/-!
# Texts that differ in layout

Two texts are *relaid* if they are the same tokens in the same order, with other white space and
other comments between them. The lexer goes through both of them token by token; and as a symbol
that is cut in one of them is cut in the other one too, it does so from inside of a run of symbols
on.

- `Trivia.unique`: what is skipped is told by the text.
- `Lexes`: the bytes that the lexer takes for one token.
- `Relaid`: the same tokens with other things between them.
- `Relaid.of_finishes`: every text that lexes completely is relaid as it is.
- `Beside.next`: the next tokens of two such texts say the same.
-/

namespace ScriptFront

open Walker

-- What a reading comes to is told by the rules; nothing is to be run to find out.
attribute [local irreducible] Ends

/-! ## Between tokens -/

/-- Nothing that is skipped begins here: the text ends, or there is a token or a fault. -/
def Unskippable (rest : List UInt8) : Prop :=
  rest = [] ∨ Takes.opensToken rest ∨ LexFault.unclosedComment.At rest

/-- A comment goes as far as to where it is closed first. -/
theorem isCommentBody_unique {body body' rest rest' : List UInt8} (h : isCommentBody body)
    (h' : isCommentBody body')
    (heq : body ++ commentClose ++ rest = body' ++ commentClose ++ rest') :
    body = body' := by
  -- A longer body goes on where the shorter one is closed.
  have hopen {b : UInt8} {bytes rest rest' : List UInt8} (h : isCommentBody (b :: bytes))
      (heq : commentClose ++ rest = b :: bytes ++ commentClose ++ rest') : False := by
    simp only [isCommentBody, Bool.and_eq_true, Bool.not_eq_true'] at h
    rw [← Ends.isPrefixOf_append_commentClose _ rest', ← heq] at h
    have hcloses : commentClose.isPrefixOf (commentClose ++ rest) = true :=
      List.isPrefixOf_iff_prefix.2 (List.prefix_append _ _)
    rw [hcloses] at h
    exact absurd h.1 (by decide)
  induction body generalizing body' with
  | nil =>
    cases body' with
    | nil => rfl
    | cons b bytes => exact (hopen h' heq).elim
  | cons b bytes ih =>
    cases body' with
    | nil => exact (hopen h heq.symm).elim
    | cons c bytes' =>
      simp only [List.cons_append, List.cons.injEq] at heq
      obtain ⟨rfl, heq⟩ := heq
      simp only [isCommentBody, Bool.and_eq_true] at h h'
      rw [ih h.2 h'.2 heq]

/-- A line goes as far as to where a newline stands first. -/
theorem line_unique {body body' rest rest' : List UInt8} (h : newline ∉ body) (h' : newline ∉ body')
    (hend : ∀ b ∈ rest.head?, b = newline) (hend' : ∀ b ∈ rest'.head?, b = newline)
    (heq : body ++ rest = body' ++ rest') : body = body' := by
  rcases List.append_eq_append_iff.1 heq with ⟨more, hbody, hrest⟩ | ⟨more, hbody, hrest⟩
  · cases more with
    | nil => rw [hbody, List.append_nil]
    | cons b more =>
      rw [hrest] at hend
      obtain rfl : b = newline := hend b rfl
      exact absurd (hbody ▸ List.mem_append_right body List.mem_cons_self) h'
  · cases more with
    | nil => rw [hbody, List.append_nil]
    | cons b more =>
      rw [hrest] at hend'
      obtain rfl : b = newline := hend' b rfl
      exact absurd (hbody ▸ List.mem_append_right body' List.mem_cons_self) h

namespace Trivia

variable {gap gap' rest rest' : List UInt8}

/-- It begins with a blank or with the slash of a comment. -/
theorem head (h : Trivia gap rest) (hne : gap ≠ []) : ∃ b more, gap = b :: more ∧
    (isBlank b ∨ b = byteOf '/') := by
  cases h with
  | nil => exact absurd rfl hne
  | blank hb hgap => exact ⟨_, _, rfl, .inl hb⟩
  | line hbody hend hgap => exact ⟨_, _, rfl, .inr rfl⟩
  | block hbody hgap => exact ⟨_, _, rfl, .inr rfl⟩

/-- Nothing is skipped where nothing that is skipped begins. -/
theorem eq_nil_of_unskippable (h : Trivia gap rest) (hhalt : Unskippable (gap ++ rest)) :
    gap = [] := by
  rcases hhalt with hnil | hopens | ⟨body, hopen, hbody⟩
  · exact (List.append_eq_nil_iff.1 hnil).1
  · cases h with
    | nil => rfl
    | blank hb hgap =>
      rw [List.cons_append, Takes.opensToken, hb] at hopens
      cases hopens
    | line hbody hend hgap =>
      rw [List.append_assoc, List.append_assoc] at hopens
      cases hopens
    | block hbody hgap =>
      rw [List.append_assoc, List.append_assoc, List.append_assoc] at hopens
      cases hopens
  · exact not_skipped h hopen hbody

/-- What is skipped of a text is told by the text. -/
theorem unique (h : Trivia gap rest) (h' : Trivia gap' rest') (heq : gap ++ rest = gap' ++ rest')
    (hhalt : Unskippable rest) (hhalt' : Unskippable rest') : gap = gap' := by
  induction h generalizing gap' with
  | nil rest =>
    rw [List.nil_append] at heq
    exact (h'.eq_nil_of_unskippable (heq ▸ hhalt)).symm
  | @blank b gap rest hb hgap ih =>
    cases h' with
    | nil =>
      rw [List.nil_append] at heq
      exact (Trivia.blank hb hgap).eq_nil_of_unskippable (heq ▸ hhalt')
    | blank hb' hgap' =>
      obtain ⟨rfl, htail⟩ := List.cons.inj heq
      rw [ih hgap' htail hhalt]
    | line hbody' hend' hgap' =>
      obtain ⟨rfl, -⟩ := List.cons.inj heq
      cases hb
    | block hbody' hgap' =>
      obtain ⟨rfl, -⟩ := List.cons.inj heq
      cases hb
  | @line body gap rest hbody hend hgap ih =>
    cases h' with
    | nil =>
      rw [List.nil_append] at heq
      exact (Trivia.line hbody hend hgap).eq_nil_of_unskippable (heq ▸ hhalt')
    | blank hb' hgap' =>
      obtain ⟨rfl, -⟩ := List.cons.inj heq
      cases hb'
    | @line body' gap' rest' hbody' hend' hgap' =>
      rw [List.append_assoc, List.append_assoc, List.append_assoc, List.append_assoc] at heq
      have hlines := List.append_cancel_left heq
      obtain rfl := line_unique hbody hbody' hend hend' hlines
      rw [ih hgap' (List.append_cancel_left hlines) hhalt]
    | block hbody' hgap' =>
      obtain ⟨-, htail⟩ := List.cons.inj heq
      exact absurd (List.cons.inj htail).1 (by decide)
  | @block body gap rest hbody hgap ih =>
    cases h' with
    | nil =>
      rw [List.nil_append] at heq
      exact (Trivia.block hbody hgap).eq_nil_of_unskippable (heq ▸ hhalt')
    | blank hb' hgap' =>
      obtain ⟨rfl, -⟩ := List.cons.inj heq
      cases hb'
    | line hbody' hend' hgap' =>
      obtain ⟨-, htail⟩ := List.cons.inj heq
      exact absurd (List.cons.inj htail).1 (by decide)
    | @block body' gap' rest' hbody' hgap' =>
      have hassoc (body gap rest : List UInt8) : commentOpen ++ body ++
        commentClose ++ gap ++ rest =
          commentOpen ++ (body ++ commentClose ++ (gap ++ rest)) := by
        simp only [List.append_assoc]
      rw [hassoc, hassoc] at heq
      have hbodies := List.append_cancel_left heq
      obtain rfl := isCommentBody_unique hbody hbody' hbodies
      rw [ih hgap' (List.append_cancel_left hbodies) hhalt]

variable {w v : Walker Buffer}

/-- What is skipped of a text is all that may be skipped in front of what stops it. -/
theorem skips (h : Trivia gap rest) (hw : w.rest = gap ++ rest) (hhalt : Unskippable rest)
    (hv : w.Skips w.place gap' v) (hhalt' : Unskippable v.rest) :
    w.Skips w.place gap v ∧ v.rest = rest := by
  have heq := hw.symm.trans hv.rest_eq
  obtain rfl := h.unique hv.trivia heq hhalt hhalt'
  exact ⟨hv, (List.append_cancel_left heq).symm⟩

/-- All that may be skipped in front of a token or the end is skipped. -/
theorem run_skip (h : Trivia gap rest) (hw : w.rest = gap ++ rest)
    (hsettled : rest = [] ∨ Takes.opensToken rest) :
    ∃ v, Lexer.skip.run w = (.ok (), v) ∧ w.SameText v ∧ v.rest = rest := by
  have hhalt : Unskippable rest := hsettled.imp id .inl
  have hskip := Ends.skip w
  unfold Ends at hskip
  rcases hrun : Lexer.skip.run w with ⟨e | _, v⟩
  · rw [hrun] at hskip
    obtain ⟨gap', hv, -⟩ := hskip
    obtain ⟨-, hunclosed, -⟩ := unclosed_of_skip hrun
    have hrest := (h.skips hw hhalt hv (.inr (.inr hunclosed))).2
    have hsettled' : v.Settled := by
      unfold Walker.Settled
      rw [hrest]
      exact hsettled
    exact absurd hsettled' (not_settled hunclosed)
  · rw [hrun] at hskip
    obtain ⟨gap', hv, hsettled'⟩ := hskip
    exact ⟨v, rfl, hv.toSameText, (h.skips hw hhalt hv (hsettled'.imp id .inl)).2⟩

/-- In front of a comment that is not closed as well, and the comment is told. -/
theorem run_next_unclosed (h : Trivia gap rest) (hw : w.rest = gap ++ rest)
    (hunclosed : LexFault.unclosedComment.At rest) :
    ∃ v, Lexer.next.run w = (.error ⟨.unclosedComment, v.place.stored⟩, v) ∧
      w.Skips w.place gap v := by
  have hhalt : Unskippable rest := .inr (.inr hunclosed)
  have hskip := Ends.skip w
  unfold Ends at hskip
  rcases hrun : Lexer.skip.run w with ⟨e | _, v⟩
  · rw [hrun] at hskip
    obtain ⟨gap', hv, -⟩ := hskip
    obtain ⟨-, hunclosed', rfl⟩ := unclosed_of_skip hrun
    exact ⟨v, run_next_of_skip_error hrun, (h.skips hw hhalt hv (.inr (.inr hunclosed'))).1⟩
  · rw [hrun] at hskip
    obtain ⟨gap', hv, hsettled⟩ := hskip
    have hrest := (h.skips hw hhalt hv (hsettled.imp id .inl)).2
    exact absurd hsettled (not_settled (hrest ▸ hunclosed))

end Trivia

/-! ## Tokens -/

/-- In front of `rest`, the lexer takes the bytes `slice` for one token. -/
structure Lexes (lexeme : TokenKind × String) (slice rest : List UInt8) : Prop where
  opens : Takes.opensToken (slice ++ rest)
  scans : ∃ v, Lexer.scan.run (Walker.ofSource (Buffer.ofBytes (slice ++ rest).toArray)) =
    (.ok lexeme, v) ∧ v.rest = rest

/-- Two rests of texts that may only be told apart behind a stop. -/
def Glued (rest rest' : List UInt8) : Prop :=
  ∃ common a a', rest = common ++ a ∧ rest' = common ++ a' ∧ AtStop a ∧ AtStop a' ∧
    (a'[0]?.getD endByte = byteOf '/' → a[0]?.getD endByte = byteOf '/')

theorem atStop_nil : AtStop [] := List.mem_of_getElem? (i := 5) rfl

namespace Glued

variable {slice left rest rest' : List UInt8} {w w' v : Walker Buffer} {lexeme : TokenKind × String}

theorem refl (rest : List UInt8) : Glued rest rest :=
  ⟨rest, [], [], (List.append_nil _).symm, (List.append_nil _).symm, atStop_nil, atStop_nil, id⟩

/-- A token that is taken in front of the one rest is taken in front of the other one. -/
theorem run_scan (h : Glued rest rest') (hne : slice ≠ []) (hw : w.rest = slice ++ rest)
    (hw' : w'.rest = slice ++ rest') (hrun : Lexer.scan.run w = (.ok lexeme, v))
    (hv : v.rest = left ++ rest) :
    ∃ v', Lexer.scan.run w' = (.ok lexeme, v') ∧ v'.rest = left ++ rest' := by
  obtain ⟨common, a, a', rfl, rfl, ha, ha', -⟩ := h
  obtain ⟨b, bytes, rfl⟩ := List.exists_cons_of_ne_nil hne
  rw [← List.append_assoc] at hw hw' hv
  have hkeeps : a.length ≤ v.rest.length := by
    rw [hv, List.length_append]
    exact Nat.le_add_left _ _
  obtain ⟨bytes', v', hrun', hleft, hleft'⟩ := Local.scan ha ha' hw hw' hrun hkeeps
  rw [hv] at hleft
  refine ⟨v', hrun', ?_⟩
  rw [hleft', ← List.append_cancel_right hleft, List.append_assoc]

/-- No comment begins in front of the other rest either. -/
theorem opensToken (h : Glued rest rest') (hne : slice ≠ [])
    (hopens : Takes.opensToken (slice ++ rest)) : Takes.opensToken (slice ++ rest') := by
  obtain ⟨common, a, a', rfl, rfl, ha, ha', hslash⟩ := h
  obtain ⟨b, bytes, rfl⟩ := List.exists_cons_of_ne_nil hne
  rw [← List.append_assoc, List.cons_append, List.cons_append] at hopens ⊢
  rw [Takes.opensToken] at hopens ⊢
  cases hbytes : bytes ++ common with
  | cons c more =>
    rw [hbytes] at hopens
    exact hopens
  | nil =>
    -- Only the second byte may be another one, and it opens no comment.
    rw [hbytes, List.nil_append] at hopens
    rw [List.nil_append]
    have hstar : a'[0]?.getD endByte ≠ byteOf '*' := by
      intro hstar
      have hstop : a'[0]?.getD endByte ∈ stops := ha'
      rw [hstar] at hstop
      exact absurd hstop (by decide)
    simp only [Bool.and_eq_true, Bool.not_eq_true', Bool.and_eq_false_iff,
      decide_eq_false_iff_not] at hopens ⊢
    exact ⟨⟨hopens.1.1, hopens.1.2.imp_right fun h h' => h (hslash h')⟩, .inr hstar⟩

end Glued

namespace Lexes

variable {lexeme : TokenKind × String} {slice rest rest' : List UInt8} {w : Walker Buffer}

/-- What the scanner comes to can be computed. -/
theorem of_run (hopens : Takes.opensToken (slice ++ rest))
    (hrun : (Lexer.scan.run (Walker.ofSource (Buffer.ofBytes (slice ++ rest).toArray))).1 =
      .ok lexeme)
    (hrest : (Lexer.scan.run (Walker.ofSource (Buffer.ofBytes (slice ++ rest).toArray))).2.rest =
      rest) : Lexes lexeme slice rest := ⟨hopens, _, Prod.ext hrun rfl, hrest⟩

theorem rest_ofBytes (bytes : List UInt8) :
    (Walker.ofSource (Buffer.ofBytes bytes.toArray)).rest = bytes := rfl

theorem ne_nil (h : Lexes lexeme slice rest) : slice ≠ [] := by
  obtain ⟨v, hrun, hv⟩ := h.scans
  have hfront := rest_ofBytes (slice ++ rest)
  have hopens := h.opens
  cases hbytes : slice ++ rest with
  | nil =>
    rw [hbytes] at hopens
    cases hopens
  | cons b tail =>
    rw [hbytes, Takes.opensToken] at hopens
    simp only [Bool.and_eq_true, Bool.not_eq_true'] at hopens
    obtain ⟨taken, hpasses, hspells⟩ :=
      Ends.ok (Ends.scan (hfront.trans hbytes) hopens.1.1) hrun
    have htaken : slice ++ rest = taken ++ rest := by
      rw [← hfront, hpasses.rest_eq, hv]
    rw [List.append_cancel_right htaken]
    exact hspells.slice_ne_nil

/-- The token is taken from any walker on that has the bytes in front. -/
theorem run_scan (h : Lexes lexeme slice rest) (hglued : Glued rest rest')
    (hw : w.rest = slice ++ rest') :
    ∃ v, Lexer.scan.run w = (.ok lexeme, v) ∧ v.rest = rest' := by
  obtain ⟨v, hrun, hv⟩ := h.scans
  exact hglued.run_scan h.ne_nil (rest_ofBytes _) hw hrun (hv.trans (List.nil_append _).symm)

end Lexes

/-- In front of the end, there is nothing but white space and comments. -/
theorem trivia_of_eof {w v : Walker Buffer} {token : Token}
    (hnext : Lexer.next.run w = (.ok token, v)) (hkind : token.kind = .eof) : Trivia w.rest [] := by
  obtain ⟨gap, slice, mid, hmid, hslice, -, hend | hspells⟩ := Ends.ok (Ends.next w) hnext
  · obtain ⟨-, -, -, hrest⟩ := hend
    have htrivia := hmid.trivia
    rw [hmid.rest_eq, hrest, List.append_nil]
    rwa [hrest] at htrivia
  · rw [hkind] at hspells
    nomatch hspells.wellFormed

/-- A token that the lexer takes stands behind what is skipped. -/
theorem lexes_of_next {w v : Walker Buffer} {token : Token}
    (hnext : Lexer.next.run w = (.ok token, v)) (hkind : token.kind ≠ .eof) :
    ∃ gap slice mid, Lexer.skip.run w = (.ok (), mid) ∧ w.Passes gap mid ∧
      Trivia gap (slice ++ v.rest) ∧ mid.Passes slice v ∧
      Lexes (token.kind, token.text) slice v.rest := by
  rcases hskip : Lexer.skip.run w with ⟨e | _, mid⟩
  · rw [run_next_of_skip_error hskip] at hnext
    cases hnext
  · obtain ⟨gap, hgap, hsettled⟩ := Ends.ok (Ends.skip w) hskip
    rw [run_next_of_skip hskip] at hnext
    obtain ⟨slice, hslice, hspells⟩ := lexed_of_next hsettled hnext hkind
    have hscan := (token_of_next hsettled hnext).2
    have htrivia := hgap.trivia
    rw [hslice.rest_eq] at htrivia
    refine ⟨gap, slice, mid, rfl, hgap.passes, htrivia, hslice, ?_, ?_⟩
    · rcases hsettled with hnil | hopens
      · rw [hslice.rest_eq] at hnil
        exact absurd (List.append_eq_nil_iff.1 hnil).1 hspells.slice_ne_nil
      · rwa [hslice.rest_eq] at hopens
    · exact (Glued.refl v.rest).run_scan hspells.slice_ne_nil hslice.rest_eq
        (Lexes.rest_ofBytes _) hscan (List.nil_append _).symm

/-! ## Other layouts -/

/-- What stands between two tokens is left as it is, or something else that begins with a blank is
put in its place. -/
def Replaces (gap gap' : List UInt8) : Prop :=
  gap' = gap ∨ (gap ≠ [] ∧ ∃ b more, gap' = b :: more ∧ isBlank b)

/-- The same tokens, with other white space and other comments between them. -/
inductive Relaid : List UInt8 → List UInt8 → Prop where
  | finished {gap gap' : List UInt8} (hgap : Trivia gap []) (hgap' : Trivia gap' [])
    (h : Replaces gap gap') : Relaid gap gap'
  | token {gap gap' slice rest rest' : List UInt8} {lexeme : TokenKind × String}
    (hgap : Trivia gap (slice ++ rest)) (hslice : Lexes lexeme slice rest)
    (hgap' : Trivia gap' (slice ++ rest')) (h : Replaces gap gap') (hmore : Relaid rest rest') :
    Relaid (gap ++ (slice ++ rest)) (gap' ++ (slice ++ rest'))

/-- Inside of a run of symbols that are ever cut, or between two tokens: the run ends in both texts
at the same tokens. -/
def Beside (bytes bytes' : List UInt8) : Prop :=
  ∃ run rest rest', bytes = run ++ rest ∧ bytes' = run ++ rest' ∧ (∀ c ∈ run, isRunByte c) ∧
    Apart isRunByte rest ∧ Relaid rest rest'

/-- Behind what is skipped, the lexer takes a token, and has `rest` left. -/
def Taking (w : Walker Buffer) (lexeme : TokenKind × String) (rest : List UInt8) : Prop :=
  ∃ mid v, Lexer.skip.run w = (.ok (), mid) ∧
    Lexer.next.run mid = (.ok ⟨lexeme.1, lexeme.2, mid.place.stored⟩, v) ∧ v.rest = rest

theorem taking_of_scan {w mid v : Walker Buffer} {lexeme : TokenKind × String}
    (hskip : Lexer.skip.run w = (.ok (), mid)) (hscan : Lexer.scan.run mid = (.ok lexeme, v)) :
    Taking w lexeme v.rest := by
  refine ⟨mid, v, hskip, ?_, rfl⟩
  rw [run_next_settled (settled_of_skip hskip), hscan]

theorem Taking.next {w : Walker Buffer} {lexeme : TokenKind × String} {rest : List UInt8}
    (h : Taking w lexeme rest) :
    ∃ token v, Lexer.next.run w = (.ok token, v) ∧ token.kind = lexeme.1 ∧ v.rest = rest := by
  obtain ⟨mid, v, hskip, hnext, hrest⟩ := h
  exact ⟨_, v, (run_next_of_skip hskip).trans hnext, rfl, hrest⟩

namespace Replaces

variable {gap gap' rest : List UInt8}

theorem mem_stops {b : UInt8} (h : isBlank b ∨ b = byteOf '/') : b ∈ stops := by
  rcases h with hb | rfl
  · simp only [isBlank, Bool.or_eq_true, decide_eq_true_eq] at hb
    rcases hb with ((rfl | rfl) | rfl) | rfl <;> decide
  · decide

theorem glued (h : Replaces gap gap') (hne : gap' ≠ gap)
    (hgap : Trivia gap rest) (tail tail' : List UInt8) : Glued (gap ++ tail) (gap' ++ tail') := by
  obtain ⟨hgap_ne, b', more', rfl, hb'⟩ := h.resolve_left hne
  obtain ⟨b, more, rfl, hb⟩ := hgap.head hgap_ne
  refine ⟨[], _, _, rfl, rfl, mem_stops hb, mem_stops (.inl hb'), fun hslash => ?_⟩
  obtain rfl : b' = byteOf '/' := hslash
  exact absurd hb' (by decide)

end Replaces

namespace Relaid

variable {rest rest' : List UInt8} {w w' : Walker Buffer}

theorem glued (h : Relaid rest rest') : Glued rest rest' := by
  induction h with
  | @finished gap gap' hgap hgap' h =>
    by_cases hsame : gap' = gap
    · rw [hsame]
      exact .refl gap
    · have hglued := h.glued hsame hgap [] []
      rwa [List.append_nil, List.append_nil] at hglued
  | @token gap gap' slice rest rest' lexeme hgap hslice hgap' h hmore ih =>
    by_cases hsame : gap' = gap
    · obtain ⟨common, a, a', rfl, rfl, hstops⟩ := ih
      rw [hsame]
      refine ⟨gap ++ (slice ++ common), a, a', ?_, ?_, hstops⟩ <;> simp only [List.append_assoc]
    · exact h.glued hsame hgap _ _

/-- A token that is a symbol of a run is a part of the run. -/
theorem isRunByte_of_lexes {lexeme : TokenKind × String} {b : UInt8} {more rest : List UInt8}
    (h : Lexes lexeme (b :: more) rest) (hb : isRunByte b) : ∀ c ∈ b :: more, isRunByte c := by
  obtain ⟨v, hrun, hv⟩ := h.scans
  have hfront := Lexes.rest_ofBytes (b :: more ++ rest)
  obtain ⟨hsettled, s, u, hnext, hpasses, hclass⟩ := run_next_runByte hfront hb
  have hscan := (token_of_next hsettled hnext).2
  rw [hrun] at hscan
  obtain ⟨-, rfl⟩ := Prod.mk.inj hscan
  have hbytes : b :: more ++ rest = s.bytes ++ rest := by
    rw [← hfront, hpasses.rest_eq, hv]
  rw [List.append_cancel_right hbytes]
  exact hclass

/-- From where two tokens end, the run that follows is gone through in both texts. -/
theorem beside (h : Relaid rest rest') : Beside rest rest' := by
  have hapart {gap rest tail : List UInt8} (hgap : Trivia gap rest) (hne : gap ≠ []) :
      Apart isRunByte (gap ++ tail) := by
    obtain ⟨b, more, rfl, hb⟩ := hgap.head hne
    have hall : ∀ b ∈ stops, isRunByte b = false := none_of_any (by decide)
    exact hall b (Replaces.mem_stops hb)
  induction h with
  | @finished gap gap' hgap hgap' h =>
    refine ⟨[], gap, gap', rfl, rfl, fun _ hc => absurd hc List.not_mem_nil, ?_,
      .finished hgap hgap' h⟩
    by_cases hne : gap = []
    · rw [hne]
      rfl
    · rw [← List.append_nil gap]
      exact hapart hgap hne
  | @token gap gap' slice rest rest' lexeme hgap hslice hgap' h hmore ih =>
    have hwhole := Relaid.token hgap hslice hgap' h hmore
    have hstay (hapart : Apart isRunByte (gap ++ (slice ++ rest))) :
        Beside (gap ++ (slice ++ rest)) (gap' ++ (slice ++ rest')) :=
      ⟨[], _, _, rfl, rfl, fun _ hc => absurd hc List.not_mem_nil, hapart, hwhole⟩
    by_cases hne : gap = []
    · obtain ⟨b, more, rfl⟩ := List.exists_cons_of_ne_nil hslice.ne_nil
      by_cases hb : isRunByte b
      · obtain rfl : gap' = gap := h.resolve_right fun h => h.1 hne
        obtain ⟨run, tail, tail', rfl, rfl, hrun, htail, hmore'⟩ := ih
        refine ⟨b :: more ++ run, tail, tail', ?_, ?_, ?_, htail, hmore'⟩
        · rw [hne, List.nil_append, List.append_assoc]
        · rw [hne, List.nil_append, List.append_assoc]
        · intro c hc
          rcases List.mem_append.1 hc with hc | hc
          · exact isRunByte_of_lexes hslice hb c hc
          · exact hrun c hc
      · refine hstay ?_
        rw [hne]
        exact Bool.eq_false_iff.2 hb
    · exact hstay (hapart hgap hne)

/-- The next tokens say the same. -/
theorem next (h : Relaid w.rest w'.rest) :
    ∃ lexeme rest rest', Taking w lexeme rest ∧ Taking w' lexeme rest' ∧ Relaid rest rest' := by
  generalize hw : w.rest = bytes at h
  generalize hw' : w'.rest = bytes' at h
  cases h with
  | @finished gap gap' hgap hgap' h =>
    have hend {w : Walker Buffer} {gap : List UInt8} (hw : w.rest = gap) (hgap : Trivia gap []) :
        Taking w (.eof, Lexer.eofText) [] := by
      obtain ⟨mid, hskip, -, hrest⟩ :=
        hgap.run_skip (hw.trans (List.append_nil gap).symm) (.inl rfl)
      exact ⟨mid, mid, hskip, run_next_atEnd hrest, hrest⟩
    exact ⟨_, [], [], hend hw hgap, hend hw' hgap', .finished (.nil []) (.nil []) (.inl rfl)⟩
  | @token gap gap' slice rest rest' lexeme hgap hslice hgap' h hmore =>
    have htakes {w : Walker Buffer} {gap tail : List UInt8} (hw : w.rest = gap ++ (slice ++ tail))
        (hgap : Trivia gap (slice ++ tail)) (hglued : Glued rest tail) : Taking w lexeme tail := by
      have hopens := hglued.opensToken hslice.ne_nil hslice.opens
      obtain ⟨mid, hskip, -, hmid⟩ := hgap.run_skip hw (.inr hopens)
      obtain ⟨v, hscan, rfl⟩ := hslice.run_scan hglued hmid
      exact taking_of_scan hskip hscan
    exact ⟨lexeme, rest, rest', htakes hw hgap (.refl rest), htakes hw' hgap' hmore.glued, hmore⟩

/-- Both texts lex completely. -/
theorem finishes (h : Relaid w.rest w'.rest) : w.Finishes none ∧ w'.Finishes none := by
  induction hlength : w.rest.length using Nat.strongRecOn generalizing w w' with
  | ind length ih =>
    obtain ⟨lexeme, rest, rest', htaking, htaking', hmore⟩ := h.next
    obtain ⟨token, v, hnext, hkind, rfl⟩ := htaking.next
    obtain ⟨token', v', hnext', hkind', rfl⟩ := htaking'.next
    by_cases heof : lexeme.1 = .eof
    · exact ⟨.eof hnext (hkind.trans heof), .eof hnext' (hkind'.trans heof)⟩
    · have hlt := position_of_next hnext (hkind ▸ heof)
      have hless : v.rest.length < length := by
        have hleft := v.length_rest
        have hleft' := w.length_rest
        rw [(sameText_of_next hnext).content_eq] at hleft
        omega
      obtain ⟨hv, hv'⟩ := ih _ hless hmore rfl
      exact ⟨.token hnext (hkind ▸ heof) hv, .token hnext' (hkind' ▸ heof) hv'⟩

/-- A text that lexes completely is relaid as it is. -/
theorem of_finishes (h : w.Finishes none) : Relaid w.rest w.rest := by
  generalize hending : none = ending at h
  induction h with
  | @eof w v token hnext hkind =>
    have htrivia := trivia_of_eof hnext hkind
    exact .finished htrivia htrivia (.inl rfl)
  | error hnext => cases hending
  | @token w v token ending hnext hkind hmore ih =>
    obtain ⟨gap, slice, mid, -, hgap, htrivia, hslice, hlexes⟩ := lexes_of_next hnext hkind
    rw [hgap.rest_eq, hslice.rest_eq]
    exact .token htrivia hlexes htrivia (.inl rfl) (ih hending)

end Relaid

/-- The next tokens say the same, also from inside of a run of symbols on. -/
theorem Beside.next {w w' : Walker Buffer} (h : Beside w.rest w'.rest) :
    ∃ lexeme rest rest', Taking w lexeme rest ∧ Taking w' lexeme rest' ∧ Beside rest rest' := by
  obtain ⟨run, rest, rest', hw, hw', hrun, hapart, hmore⟩ := h
  cases run with
  | nil =>
    have hrelaid : Relaid w.rest w'.rest := by
      rw [hw, hw']
      exact hmore
    obtain ⟨lexeme, left, left', htakes, htakes', hleft⟩ := hrelaid.next
    exact ⟨lexeme, left, left', htakes, htakes', hleft.beside⟩
  | cons b more =>
    have hb := hrun b List.mem_cons_self
    have hsettled := (run_next_runByte hw hb).1
    have hsettled' := (run_next_runByte hw' hb).1
    obtain ⟨s, v, left, hnext, hsplit, -, hleft⟩ := run_next_inRun hw hrun hapart
    have hscan := (token_of_next hsettled hnext).2
    obtain ⟨v', hscan', hleft'⟩ :=
      hmore.glued.run_scan (List.cons_ne_nil b more) hw hw' hscan hleft
    refine ⟨_, v.rest, v'.rest, taking_of_scan (run_skip_of_settled hsettled) hscan,
      taking_of_scan (run_skip_of_settled hsettled') hscan', ?_⟩
    refine ⟨left, rest, rest', hleft, hleft', fun c hc => hrun c ?_, hapart, hmore⟩
    rw [hsplit]
    exact List.mem_append_right _ hc

end ScriptFront
