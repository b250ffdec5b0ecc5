import ScriptFront.Proofs.Lexing.Separation

/-!
# Texts in front of other texts

Bytes *join* what follows if the lexer takes the same tokens of them as if they were a whole text,
and is in front of what follows then. White space that begins with a newline can be put behind every
text that lexes completely. Where a symbol is cut, the lexer goes through such a text from inside of
a run of symbols, and still takes what it would take of the text alone.

- `Joins`: the tokens of bytes, also in front of something.
- `Joins.of_finishes`: in front of a newline.
- `Along`: from where tokens end, or inside of a run of symbols.
- `Along.next`: the next token is the same, whatever of this follows.
-/

namespace ScriptFront

open Walker

-- What a reading comes to is told by the rules; nothing is to be run to find out.
attribute [local irreducible] Ends

/-! ## One token -/

/-- Behind `gap`, which is skipped, the lexer takes `slice` for a token, and has `rest` left. -/
def Walker.TakesNext (w : Walker Buffer) (gap slice : List UInt8) (lexeme : TokenKind × String)
    (rest : List UInt8) : Prop :=
  ∃ mid v, Lexer.skip.run w = (.ok (), mid) ∧ w.Passes gap mid ∧
    Lexer.next.run mid = (.ok ⟨lexeme.1, lexeme.2, mid.place.stored⟩, v) ∧ mid.Passes slice v ∧
    v.rest = rest

namespace Walker

variable {w mid : Walker Buffer} {gap slice rest : List UInt8} {lexeme : TokenKind × String}

/-- All that is skipped is passed. -/
theorem passes_of_trivia (hgap : Trivia gap rest) (hw : w.rest = gap ++ rest)
    (hsettled : rest = [] ∨ Takes.opensToken rest) :
    ∃ mid, Lexer.skip.run w = (.ok (), mid) ∧ w.Passes gap mid ∧ mid.rest = rest := by
  obtain ⟨mid, hskip, -, hmid⟩ := hgap.run_skip hw hsettled
  obtain ⟨gap', hpasses⟩ := passes_of_skip hskip
  have hsplit := hpasses.rest_eq
  rw [hw, hmid] at hsplit
  rw [← List.append_cancel_right hsplit] at hpasses
  exact ⟨mid, hskip, hpasses, hmid⟩

theorem takesNext (hgap : Trivia gap (slice ++ rest)) (hslice : Lexes lexeme slice rest)
    (hw : w.rest = gap ++ (slice ++ rest)) : w.TakesNext gap slice lexeme rest := by
  obtain ⟨mid, hskip, hpasses, hmid⟩ := passes_of_trivia hgap hw (.inr hslice.opens)
  obtain ⟨-, v, hnext, hslice⟩ := hslice.run_next hmid
  exact ⟨mid, v, hskip, hpasses, hnext, hslice, hslice.further.rest_append hmid rfl⟩

theorem takesNext_eof (hgap : Trivia gap []) (hw : w.rest = gap) :
    w.TakesNext gap [] (.eof, Lexer.eofText) [] := by
  obtain ⟨mid, hskip, hpasses, hmid⟩ :=
    passes_of_trivia hgap (hw.trans (List.append_nil gap).symm) (.inl rfl)
  exact ⟨mid, mid, hskip, hpasses, run_next_atEnd hmid, .refl mid, hmid⟩

theorem TakesNext.taking (h : w.TakesNext gap slice lexeme rest) : Taking w lexeme rest := by
  obtain ⟨mid, v, hskip, -, hnext, -, hrest⟩ := h
  exact ⟨mid, v, hskip, hnext, hrest⟩

/-- Inside of a run of symbols, the next symbol is told by the run. -/
theorem exists_symbol_inRun {b : UInt8} {more : List UInt8} (hrun : ∀ c ∈ b :: more, isRunByte c) :
    ∃ (s : Symbol) (left : List UInt8), b :: more = s.bytes ++ left ∧
      ∀ (tail : List UInt8) (w : Walker Buffer), Apart isRunByte tail →
        w.rest = b :: more ++ tail →
          w.TakesNext [] s.bytes (.symbol s, s.spelling) (left ++ tail) := by
  have hin {tail : List UInt8} {w : Walker Buffer} (htail : Apart isRunByte tail)
      (hw : w.rest = b :: more ++ tail) :
      ∃ (s : Symbol) (left : List UInt8), b :: more = s.bytes ++ left ∧
        w.TakesNext [] s.bytes (.symbol s, s.spelling) (left ++ tail) ∧
        ∀ t : Symbol, t.bytes <+: b :: more → t.bytes.length ≤ s.bytes.length := by
    obtain ⟨hsettled, -⟩ := run_next_runByte hw (hrun b List.mem_cons_self)
    obtain ⟨s, v, left, hnext, hsplit, hpasses, hv⟩ := run_next_inRun hw hrun htail
    refine ⟨s, left, hsplit, ⟨w, v, run_skip_of_settled hsettled, .refl w, hnext, hpasses, hv⟩, ?_⟩
    intro t ht
    have hprefix : t.bytes <+: w.rest := hw ▸ ht.trans (List.prefix_append _ _)
    obtain ⟨s', v', hnext', -, hlongest⟩ := run_next_symbol hprefix hsettled
    rw [hnext] at hnext'
    obtain rfl : s = s' := by
      have hkind := congrArg Token.kind (Except.ok.inj (Prod.mk.inj hnext').1)
      exact TokenKind.symbol.inj hkind
    exact hlongest t hprefix
  have hnil : Apart isRunByte [] := rfl
  obtain ⟨s, left, hsplit, -, hlongest⟩ :=
    hin hnil ((Lexes.rest_ofBytes _).trans (List.append_nil _).symm)
  refine ⟨s, left, hsplit, fun tail w htail hw => ?_⟩
  obtain ⟨s', left', hsplit', htakes, hlongest'⟩ := hin htail hw
  -- Each of the two symbols is the longest one.
  have hs : s.bytes <+: b :: more := hsplit ▸ List.prefix_append _ _
  have hs' : s'.bytes <+: b :: more := hsplit' ▸ List.prefix_append _ _
  have hlength := Nat.le_antisymm (hlongest' s hs) (hlongest s' hs')
  obtain rfl : s = s' := by
    refine Symbol.bytes_injective (List.IsPrefix.eq_of_length ?_ hlength)
    exact List.prefix_of_prefix_length_le hs hs' (Nat.le_of_eq hlength)
  obtain rfl : left = left' := List.append_cancel_left (hsplit.symm.trans hsplit')
  exact htakes

end Walker

namespace Trivia

variable {gap gap' rest rest' slice tail : List UInt8}

/-- What is skipped in front of a token is skipped whatever stands behind the token. -/
theorem before (h : Trivia gap (slice ++ rest)) (hne : slice ≠ []) :
    Trivia gap (slice ++ rest') := by
  obtain ⟨b, more, rfl⟩ := List.exists_cons_of_ne_nil hne
  generalize hfront : b :: more ++ rest = front at h
  induction h with
  | nil => exact .nil _
  | blank hb hgap ih => exact .blank hb (ih hfront)
  | @line body gap _ hbody hend hgap ih =>
    refine .line hbody (fun c hc => hend c ?_) (ih hfront)
    subst hfront
    cases gap with
    | nil => exact hc
    | cons => exact hc
  | block hbody hgap ih => exact .block hbody (ih hfront)

/-- What is skipped in front of something is skipped at the end too. -/
theorem atEnd (h : Trivia gap rest) : Trivia gap [] := by
  induction h with
  | nil => exact .nil []
  | blank hb hgap ih => exact .blank hb ih
  | @line body gap rest hbody hend hgap ih =>
    refine .line hbody (fun c hc => hend c ?_) ih
    cases gap with
    | nil => nomatch hc
    | cons => exact hc
  | block hbody hgap ih => exact .block hbody ih

/-- What is skipped at the end is skipped in front of a newline. -/
theorem before_newline (h : Trivia gap []) (tail : List UInt8) : Trivia gap (newline :: tail) := by
  generalize hnil : [] = rest at h
  induction h with
  | nil => exact .nil _
  | blank hb hgap ih => exact .blank hb (ih hnil)
  | @line body gap rest hbody hend hgap ih =>
    refine .line hbody (fun c hc => ?_) (ih hnil)
    cases gap with
    | nil => exact (Option.some.inj hc).symm
    | cons => exact hend c hc
  | block hbody hgap ih => exact .block hbody (ih hnil)

/-- What is skipped goes on with what is skipped behind it. -/
theorem append (h : Trivia gap (gap' ++ rest)) (h' : Trivia gap' rest) :
    Trivia (gap ++ gap') rest := by
  generalize hfront : gap' ++ rest = front at h
  induction h with
  | nil => exact h'
  | blank hb hgap ih => exact .blank hb (ih hfront)
  | @line body gap _ hbody hend hgap ih =>
    subst hfront
    rw [List.append_assoc]
    refine .line hbody ?_ (ih rfl)
    rwa [List.append_assoc]
  | @block body gap _ hbody hgap ih =>
    rw [List.append_assoc]
    exact .block hbody (ih hfront)

/-- What is skipped does not begin inside of a run of symbols. -/
theorem apart (h : Trivia gap rest) (hne : gap ≠ []) (tail : List UInt8) :
    Apart isRunByte (gap ++ tail) := by
  obtain ⟨b, more, rfl, hb⟩ := h.head hne
  have hall : ∀ b ∈ stops, isRunByte b = false := none_of_any (by decide)
  exact hall b (Replaces.mem_stops hb)

/-- White space is skipped. -/
theorem of_blanks (h : ∀ b ∈ gap, isBlank b) : Trivia gap rest := by
  induction gap with
  | nil => exact .nil rest
  | cons b gap ih =>
    exact .blank (h b List.mem_cons_self) (ih fun c hc => h c (List.mem_cons_of_mem b hc))

end Trivia

/-! ## Bytes in front of others -/

/-- The lexer takes the tokens of these bytes as if they were a whole text, and is in front of
`tail` then. -/
inductive Joins (tail : List UInt8) : List UInt8 → Prop where
  | finished {gap : List UInt8} (hgap : Trivia gap tail) : Joins tail gap
  | token {gap slice rest : List UInt8} {lexeme : TokenKind × String}
    (hgap : Trivia gap (slice ++ rest)) (hslice : Lexes lexeme slice rest)
    (hslice' : Lexes lexeme slice (rest ++ tail)) (hmore : Joins tail rest) :
    Joins tail (gap ++ (slice ++ rest))

/-- What may stand behind bytes that join `tail`: this, nothing, or a newline and something else. -/
def Follows (tail more : List UInt8) : Prop :=
  more = tail ∨ more = [] ∨ ∃ others, more = newline :: others

namespace Lexes

variable {lexeme : TokenKind × String} {slice rest rest' tail more : List UInt8}

/-- A token is taken in front of all that cannot be told apart. -/
theorem glued (h : Lexes lexeme slice rest) (hglued : Glued rest rest') :
    Lexes lexeme slice rest' := by
  obtain ⟨v, hrun, hv⟩ := h.run_scan hglued (rest_ofBytes (slice ++ rest'))
  exact ⟨hglued.opensToken h.ne_nil h.opens, v, hrun, hv⟩

theorem before_newline (h : Lexes lexeme slice rest) (tail : List UInt8) :
    Lexes lexeme slice (rest ++ newline :: tail) := by
  refine h.glued ⟨rest, [], newline :: tail, (List.append_nil rest).symm, rfl, atStop_nil, ?_, ?_⟩
  · exact atStop_blank rfl tail
  · intro hslash
    have hne : newline ≠ byteOf '/' := by decide
    exact absurd hslash hne

/-- A token is taken whatever of this follows. -/
theorem follows (h : Lexes lexeme slice rest) (h' : Lexes lexeme slice (rest ++ tail))
    (hmore : Follows tail more) : Lexes lexeme slice (rest ++ more) := by
  rcases hmore with rfl | rfl | ⟨others, rfl⟩
  · exact h'
  · rwa [List.append_nil]
  · exact h.before_newline others

end Lexes

namespace Joins

variable {tail bytes : List UInt8} {w : Walker Buffer}

/-- A token may stand in front. -/
theorem front {slice rest : List UInt8} {lexeme : TokenKind × String}
    (hslice : Lexes lexeme slice rest)
    (hslice' : Lexes lexeme slice (rest ++ tail)) (hmore : Joins tail rest) :
    Joins tail (slice ++ rest) :=
  .token (.nil (slice ++ rest)) hslice hslice' hmore

/-- Bytes that join something lex completely. -/
theorem finishes (h : Joins tail bytes) (hw : w.rest = bytes) : w.Finishes none := by
  induction h generalizing w with
  | finished hgap =>
    obtain ⟨token, v, hnext, hkind, hv⟩ := (takesNext_eof hgap.atEnd hw).taking.next
    exact .eof hnext hkind
  | @token gap slice rest lexeme hgap hslice hslice' hmore ih =>
    obtain ⟨token, v, hnext, hkind, hv⟩ := (takesNext hgap hslice hw).taking.next
    refine .token hnext ?_ (ih hv)
    rw [hkind]
    intro heof
    have hformed := hslice.spells.wellFormed
    rw [heof] at hformed
    nomatch hformed

/-- A text that lexes completely joins all that begins with a newline. -/
theorem of_finishes (h : w.Finishes none) (tail : List UInt8) : Joins (newline :: tail) w.rest := by
  generalize hending : none = ending at h
  induction h with
  | eof hnext hkind => exact .finished ((trivia_of_eof hnext hkind).before_newline tail)
  | error hnext => cases hending
  | @token w v token ending hnext hkind hmore ih =>
    obtain ⟨gap, slice, mid, -, hgap, htrivia, hslice, hlexes⟩ := lexes_of_next hnext hkind
    rw [hgap.rest_eq, hslice.rest_eq]
    exact .token htrivia hlexes (hlexes.before_newline tail) (ih hending)

/-- Something that is skipped may stand in front. -/
theorem behind_trivia {gap : List UInt8} (hgap : Trivia gap (bytes ++ tail))
    (h : Joins tail bytes) : Joins tail (gap ++ bytes) := by
  cases h with
  | finished hgap' => exact .finished (hgap.append hgap')
  | @token gap' slice rest lexeme hgap' hslice hslice' hmore =>
    have hfront : gap ++ (gap' ++ (slice ++ rest)) = gap ++ gap' ++ (slice ++ rest) :=
      (List.append_assoc _ _ _).symm
    rw [hfront]
    refine .token (.append ?_ hgap') hslice hslice' hmore
    have hne : gap' ++ slice ≠ [] := List.append_ne_nil_of_right_ne_nil _ hslice.ne_nil
    have hfront' : Trivia gap (gap' ++ slice ++ (rest ++ tail)) := by
      simpa only [List.append_assoc] using hgap
    have h : Trivia gap (gap' ++ slice ++ rest) := hfront'.before hne
    rwa [List.append_assoc] at h

/-- Bytes go on with what follows them. -/
theorem append {more : List UInt8} (h : Joins tail bytes) (hmore : Follows tail more)
    (h' : Joins [] more) : Joins [] (bytes ++ more) := by
  induction h with
  | @finished gap hgap =>
    refine behind_trivia ?_ h'
    rw [List.append_nil]
    rcases hmore with rfl | rfl | ⟨others, rfl⟩
    · exact hgap
    · exact hgap.atEnd
    · exact hgap.atEnd.before_newline others
  | @token gap slice rest lexeme hgap hslice hslice' hrest ih =>
    have hlexes := hslice.follows hslice' hmore
    rw [List.append_assoc, List.append_assoc]
    exact .token (hgap.before hslice.ne_nil) hlexes (by rwa [List.append_nil]) ih

end Joins

/-- From where a token ends, or from inside of a run of symbols that are ever cut, up to `tail`. -/
def Along (tail bytes : List UInt8) : Prop :=
  ∃ run rest, bytes = run ++ rest ∧ (∀ c ∈ run, isRunByte c) ∧ Apart isRunByte (rest ++ tail) ∧
    Joins tail rest

theorem Joins.along {tail bytes : List UInt8} (h : Joins tail bytes)
    (htail : Apart isRunByte tail) : Along tail bytes := by
  have hnone : ∀ c ∈ ([] : List UInt8), isRunByte c := fun _ hc => absurd hc List.not_mem_nil
  induction h with
  | @finished gap hgap =>
    refine ⟨[], gap, rfl, hnone, ?_, .finished hgap⟩
    by_cases hne : gap = []
    · rwa [hne]
    · exact hgap.apart hne tail
  | @token gap slice rest lexeme hgap hslice hslice' hmore ih =>
    have hwhole := Joins.token hgap hslice hslice' hmore
    by_cases hne : gap = []
    · obtain ⟨b, more, rfl⟩ := List.exists_cons_of_ne_nil hslice.ne_nil
      by_cases hb : isRunByte b
      · obtain ⟨run, left, rfl, hrun, hleft, hmore'⟩ := ih
        refine ⟨b :: more ++ run, left, ?_, ?_, hleft, hmore'⟩
        · rw [hne, List.nil_append, List.append_assoc]
        · intro c hc
          rcases List.mem_append.1 hc with hc | hc
          · exact Relaid.isRunByte_of_lexes hslice hb c hc
          · exact hrun c hc
      · refine ⟨[], _, rfl, hnone, ?_, hwhole⟩
        rw [hne]
        exact Bool.eq_false_iff.2 hb
    · refine ⟨[], gap ++ (slice ++ rest), rfl, hnone, ?_, hwhole⟩
      rw [List.append_assoc]
      exact hgap.apart hne _

namespace Along

variable {tail bytes : List UInt8}

/-- Nothing but trivia is left, or a token is taken, which is the same whatever of this follows. -/
theorem next (h : Along tail bytes) (htail : Apart isRunByte tail) :
    Trivia bytes tail ∨ ∃ gap slice rest lexeme, lexeme.1 ≠ .eof ∧ bytes = gap ++ (slice ++ rest) ∧
      Along tail rest ∧ ∀ more, Follows tail more → ∀ w : Walker Buffer, w.rest = bytes ++ more →
        w.TakesNext gap slice lexeme (rest ++ more) := by
  obtain ⟨run, rest, rfl, hrun, hapart, hjoins⟩ := h
  have hapart' {more : List UInt8} (hmore : Follows tail more) :
      Apart isRunByte (rest ++ more) := by
    cases rest with
    | cons => exact hapart
    | nil =>
      rcases hmore with rfl | rfl | ⟨others, rfl⟩
      · exact hapart
      · rfl
      · rfl
  cases run with
  | cons b more =>
    obtain ⟨s, left, hsplit, htakes⟩ := exists_symbol_inRun hrun
    refine .inr ⟨[], s.bytes, left ++ rest, (.symbol s, s.spelling), nofun, ?_,
      ⟨left, rest, rfl, fun c hc => hrun c ?_, hapart, hjoins⟩, fun more hmore w hw => ?_⟩
    · rw [hsplit, List.nil_append, List.append_assoc]
    · rw [hsplit]
      exact List.mem_append_right _ hc
    · rw [List.append_assoc]
      exact htakes _ w (hapart' hmore) (hw.trans (List.append_assoc _ _ _))
  | nil =>
    cases hjoins with
    | finished hgap => exact .inl hgap
    | @token gap slice rest lexeme hgap hslice hslice' hmore =>
      have hkind : lexeme.1 ≠ .eof := by
        intro heof
        have hformed := hslice.spells.wellFormed
        rw [heof] at hformed
        nomatch hformed
      refine .inr ⟨gap, slice, rest, lexeme, hkind, rfl,
        hmore.along htail, fun more hfollows w hw => ?_⟩
      refine takesNext (hgap.before hslice.ne_nil) (hslice.follows hslice' hfollows) ?_
      rw [hw, List.nil_append, List.append_assoc, List.append_assoc]

end Along

end ScriptFront
