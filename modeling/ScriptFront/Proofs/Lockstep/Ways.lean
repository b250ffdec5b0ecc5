import ScriptFront.Proofs.Lockstep.Units

/-!
# The way of a reading

A reading takes tokens, cuts symbols, and goes back to tokens that it has left. What is left of the
text in front of the current token grows smaller with every token that is taken, whatever state a
reading was in, be it one that another reading stopped in.

- `Parser.Goes`: the steps from one state of a parser to a later one, with parts of traits apart.
- `Parser.Sound`: what is known of a parser over a text, also behind an error.
- `Parser.ways`: sound parsers in lockstep with themselves, and the ways that they go.
-/

namespace ScriptFront

open ScriptFront.Parser

-- What a reading comes to is told by the rules; nothing is to be run to find out.
attribute [local irreducible] Ends

namespace Parser

/-! ## Ways -/

/-- A state of a parser leads to another one: tokens other than `self` are taken, symbols are cut,
and the current token is gone back to. Where there can be traits, parts of them are read as a whole
behind their headers; no more is said of these. The way through a header leads to what a reading of
it leads to, but for what a source keeps for itself. -/
inductive Goes {σ : Type} [ByteSource σ] (g : Grammar σ) (traits : Prop) :
    Parser σ → Parser σ → Prop where
  | done (p : Parser σ) : Goes g traits p p
  | take {p q r : Parser σ} {token : Token}
    (step : (advance : Parse σ Token).run p = (.ok token, q))
    (kind_ne : p.current.kind ≠ Keyword.selfKw) (more : Goes g traits q r) : Goes g traits p r
  | cut {p r : Parser σ} {whole part : Symbol} (kind_eq : p.current.kind = whole)
    (cut_eq : whole.cut? = some part) (more : Goes g traits ((narrow part 1).run p).2 r) :
    Goes g traits p r
  | again {p q r : Parser σ} (step : (goBack ⟨p.start⟩ : Parse σ Unit).run p = (.ok (), q))
    (current_eq : q.current = p.current) (more : Goes g traits q r) : Goes g traits p r
  | body {p q w q' r : Parser σ} {head : String × Option GenericDecl}
    {body : Option TypeExpr × List TraitFunctionDecl} (inTraits : traits)
    (header : g.traitHead.run p = (.ok head, q)) (way : Goes g traits p w)
    (view_eq : w.view = q.view)
    (part : g.traitBody.run { q with inTrait := true } = (.ok body, q'))
    (more : Goes g traits { q' with inTrait := p.inTrait } r) : Goes g traits p r

theorem Goes.trans {σ : Type} [ByteSource σ] {g : Grammar σ} {traits : Prop} {p q r : Parser σ}
    (h : Goes g traits p q) (h' : Goes g traits q r) : Goes g traits p r := by
  induction h with
  | done p => exact h'
  | take step kind_ne more ih => exact .take step kind_ne (ih h')
  | cut kind_eq cut_eq more ih => exact .cut kind_eq cut_eq (ih h')
  | again step current_eq more ih => exact .again step current_eq (ih h')
  | body inTraits header way view_eq part more ihWay ih =>
    exact .body inTraits header way view_eq part (ih h')

/-! ## Parsers over a text -/

/-- Of the text, `left` bytes are in front of the parser. The lexer is behind the start of the
current token, or it stands there and finds no token, or the text is at its end. -/
structure Sound (origin : Walker Buffer) (left : Nat) (p : Parser Buffer) : Prop where
  sameText : origin.SameText p.lexer
  left_eq : p.start.offset + left = origin.source.content.size
  front : ∃ w, origin.SameText w ∧ w.place = p.start ∧ w.Settled
  ahead : p.start.offset < p.lexer.source.position ∨
    (p.lexer.place = p.start ∧ ∃ e, Lexer.next.run p.lexer = (.error e, p.lexer)) ∨
    (p.lexer.rest = [] ∧ left = 0 ∧ p.current.kind = .eof)

/-- If there is a token at the start of the current one, it is that one. -/
def Shows (origin : Walker Buffer) (p : Parser Buffer) : Prop :=
  ∀ {w v : Walker Buffer} {token : Token}, origin.SameText w → w.place = p.start →
    Lexer.next.run w = (.ok token, v) → p.current = token

/-- A sound parser, at a token of the text or at what is left of one. -/
structure Standing (origin : Walker Buffer) (left : Nat) (p : Parser Buffer) : Prop
    extends Sound origin left p where
  shows : p.current.kind = Symbol.gt ∨ p.current.kind = Symbol.pipe ∨ Shows origin p

variable {origin w v : Walker Buffer} {left : Nat} {p q : Parser Buffer} {token : Token}
  {e : LexError}

/-- What is left in front of a walker over the text. -/
theorem left_of_sameText (h : origin.SameText w) :
    w.place.offset + w.rest.length = origin.source.content.size := by
  have hlength := w.length_rest
  have hle := w.source.position_le
  rw [h.content_eq] at hlength hle
  have hoffset : w.place.offset = w.source.position := rfl
  omega

/-- At a token of the text, a parser is sound and shows it. -/
theorem standing_of_next (hsame : origin.SameText w) (hw : w.Settled)
    (h : Lexer.next.run w = (.ok token, v)) (inTrait : Bool) :
    Standing origin w.rest.length ⟨v, token, w.place, inTrait⟩ ∧
      Shows origin ⟨v, token, w.place, inTrait⟩ := by
  have hshows : Shows origin ⟨v, token, w.place, inTrait⟩ := by
    intro w' v' token' hsame' hplace h'
    rw [Walker.eq_of_place (hsame.symm.trans hsame') hplace, h] at h'
    exact Except.ok.inj (Prod.mk.inj h').1
  refine ⟨⟨⟨hsame.trans (Walker.sameText_of_next h), left_of_sameText hsame, ⟨w, hsame, rfl, hw⟩,
    ?_⟩, .inr (.inr hshows)⟩, hshows⟩
  by_cases hkind : token.kind = .eof
  · have hrest := Walker.rest_of_settled_eof hw h hkind
    refine .inr (.inr ⟨Walker.rest_of_eof h hkind, ?_, hkind⟩)
    rw [hrest]
    rfl
  · exact .inl (Walker.position_of_next h hkind)

/-- Where no token is found at the place that was gone to, the parser stands there with the token
that it had. -/
theorem standing_of_error (hsame : origin.SameText w) (hw : w.Settled)
    (h : Lexer.next.run w = (.error e, v)) (current : Token) (inTrait : Bool) :
    Standing origin w.rest.length ⟨v, current, w.place, inTrait⟩ := by
  obtain ⟨rfl, -, -⟩ := Walker.run_next_stuck hw h
  refine ⟨⟨hsame, left_of_sameText hsame, ⟨v, hsame, rfl, hw⟩, .inr (.inl ⟨rfl, e, h⟩)⟩,
    .inr (.inr ?_)⟩
  intro w' v' token' hsame' hplace h'
  rw [Walker.eq_of_place (hsame.symm.trans hsame') hplace, h] at h'
  cases h'

/-! ## Steps -/

namespace Standing

theorem withTrait (inTrait : Bool) (h : Standing origin left p) :
    Standing origin left { p with inTrait } :=
  ⟨⟨h.sameText, h.left_eq, h.front, h.ahead⟩, h.shows⟩

/-- In front of the lexer there is no more than in front of the parser. -/
theorem start_le (h : Standing origin left p) : p.start.offset ≤ p.lexer.source.position := by
  rcases h.ahead with hlt | ⟨hplace, -⟩ | ⟨hrest, hleft, -⟩
  · exact Nat.le_of_lt hlt
  · exact Nat.le_of_eq (congrArg Place.offset hplace).symm
  · have hlexer := left_of_sameText h.sameText
    have heq := h.left_eq
    rw [hrest] at hlexer
    show p.start.offset ≤ p.lexer.place.offset
    simp only [List.length_nil] at hlexer
    omega

/-- A token is taken: less is left than before, unless it was the last one. If none is found, the
parser goes on standing. -/
theorem advance (h : Standing origin left p) :
    Ends (fun e q => e.fault ≠ .tooDeep ∧ ∃ left', Standing origin left' q) Parser.advance p
      fun t q => t = p.current ∧ ∃ left', Standing origin left' q ∧ Shows origin q ∧
        left' ≤ left ∧ (p.current.kind ≠ .eof → left' < left) := by
  unfold Ends
  rcases hskip : Lexer.skip.run p.lexer with ⟨e | _, v⟩
  · -- In front of a comment that is not closed, nothing but the place of the lexer changes.
    rw [run_advance_unskipped hskip]
    have hnext := Walker.run_next_of_skip_error hskip
    obtain ⟨hsame, -, -⟩ := Walker.unclosed_of_skip hskip
    have hmoved := Walker.position_of_stopped (Walker.stopped_of_next hnext)
    refine ⟨nofun, left, ⟨h.sameText.trans hsame, h.left_eq, h.front, ?_⟩, h.shows⟩
    rcases h.ahead with hlt | ⟨hplace, e', hstuck⟩ | ⟨hrest, -⟩
    · exact .inl (Nat.lt_of_lt_of_le hlt hmoved)
    · rw [hnext] at hstuck
      obtain ⟨-, rfl⟩ := Prod.mk.inj hstuck
      exact .inr (.inl ⟨hplace, e, hnext⟩)
    · rw [Walker.run_next_atEnd hrest] at hnext
      cases hnext
  · obtain ⟨gap, hgap, -⟩ := Ends.ok (Ends.skip p.lexer) hskip
    have hsame := h.sameText.trans hgap.toSameText
    have hsettled := Walker.settled_of_skip hskip
    rcases hnext : Lexer.next.run v with ⟨e | token, u⟩
    · rw [run_advance_error hskip hnext]
      exact ⟨nofun, _, standing_of_error hsame hsettled hnext p.current p.inTrait⟩
    · rw [run_advance_ok hskip hnext]
      obtain ⟨hstanding, hshows⟩ := standing_of_next hsame hsettled hnext p.inTrait
      have hbehind : v.place.offset = p.lexer.source.position + gap.length := by
        rw [hgap.place_eq, Place.offset_afterAll]
        rfl
      have hle := h.start_le
      have hleft := h.left_eq
      have hleft' := left_of_sameText hsame
      refine ⟨rfl, _, hstanding, hshows, by omega, fun hkind => ?_⟩
      rcases h.ahead with hlt | ⟨-, e', hstuck⟩ | ⟨-, -, heof⟩
      · omega
      · rw [Walker.run_next_of_skip hskip, hnext] at hstuck
        cases hstuck
      · exact absurd heof hkind

/-- From anywhere in the text, the way back to the current token leads to where it is current, or to
where no token is found. -/
theorem goBack (h : Standing origin left p) (hq : origin.SameText q.lexer) :
    Ends (fun e r => e.fault ≠ .tooDeep ∧ ∃ left, Standing origin left r)
      (Parser.goBack ⟨p.start⟩) q fun _ r => (∃ left, Standing origin left r) ∧
        (Shows origin p → r.current = p.current ∧ Standing origin left r ∧ Shows origin r) := by
  obtain ⟨w, hw, hplace, hsettled⟩ := h.front
  have hreset : ((Walker.reset p.start).run q.lexer).2 = w := by
    rw [← hplace, Walker.run_reset (hw.symm.trans hq)]
  have hleft : left = w.rest.length := by
    have hw' := left_of_sameText hw
    have hp := h.left_eq
    rw [hplace] at hw'
    omega
  unfold Ends
  rcases hnext : Lexer.next.run w with ⟨e | token, v⟩
  · rw [run_goBack_error (b := ⟨p.start⟩) (hreset ▸ hnext), ← hplace]
    exact ⟨nofun, _, standing_of_error hw hsettled hnext q.current q.inTrait⟩
  · rw [run_goBack_ok (b := ⟨p.start⟩) (hreset ▸ hnext), hleft, ← hplace]
    have hnext' := standing_of_next hw hsettled hnext q.inTrait
    exact ⟨⟨_, hnext'.1⟩, fun hshows => ⟨(hshows hw hplace hnext).symm, hnext'⟩⟩

/-- A symbol is cut; the parser stays where it is. -/
theorem narrow (h : Standing origin left p) {whole part : Symbol} (hwhole : p.current.kind = whole)
    (hpart : whole.cut? = some part) :
    Standing origin left ((Parser.narrow part 1).run p).2 := by
  -- There is a byte to be cut off.
  have hlt : p.start.offset < origin.source.content.size := by
    have hlexer := left_of_sameText h.sameText
    have hle : p.lexer.source.position ≤ origin.source.content.size := by
      rw [← h.sameText.content_eq]
      exact p.lexer.source.position_le
    rcases h.ahead with hlt | ⟨hplace, e, hstuck⟩ | ⟨-, -, heof⟩
    · omega
    · cases hrest : p.lexer.rest with
      | nil =>
        rw [Walker.run_next_atEnd hrest] at hstuck
        cases hstuck
      | cons b tail =>
        rw [hrest, hplace, List.length_cons] at hlexer
        omega
    · rw [hwhole] at heof
      cases heof
  have hsame : p.lexer.SameText ((Parser.narrow part 1).run p).2.lexer := ⟨rfl, rfl, rfl⟩
  have hcut : part = .gt ∨ part = .pipe := (Course.bytes_of_cut hpart).1
  refine ⟨⟨h.sameText.trans hsame, h.left_eq, h.front, .inl ?_⟩, ?_⟩
  · show p.start.offset < min (p.start.offset + 1) p.lexer.source.content.size
    rw [h.sameText.content_eq]
    omega
  · rcases hcut with rfl | rfl
    · exact .inl rfl
    · exact .inr (.inl rfl)

end Standing

/-! ## The lockstep -/

section

variable (origin : Walker Buffer) (g : Grammar Buffer) (traits : Prop)

/-- Standing parsers in lockstep with themselves, with the ways that they go while no trait is
read. -/
def ways : Lockstep where
  state left p q := p = q ∧ Standing origin left p
  fresh left p q := p = q ∧ Standing origin left p ∧ Shows origin p
  adrift p q := p = q ∧ ∃ left, Standing origin left p
  told e e' := e = e' ∧ e.fault ≠ .tooDeep
  since p q := p.inTrait = false → Goes g traits p q
  state_of_fresh h := ⟨h.1, h.2.1⟩
  fresh_of_kind := by
    rintro left p q ⟨rfl, h⟩ hgt hpipe
    rcases h.shows with hkind | hkind | hshows
    · exact absurd hkind hgt
    · exact absurd hkind hpipe
    · exact ⟨rfl, h, hshows⟩
  adrift_of_state h := ⟨h.1, _, h.2⟩
  kind_eq h := by rw [h.1]
  text_eq h := by rw [h.1]
  inTrait_eq h := by rw [h.1]
  name_eq h := by rw [h.1]
  le_left h := by
    have hleft := h.2.left_eq
    rw [← h.2.sameText.content_eq] at hleft
    exact Nat.le.intro ((Nat.add_comm _ _).trans hleft)
  le_right h := by
    rw [← h.1]
    have hleft := h.2.left_eq
    rw [← h.2.sameText.content_eq] at hleft
    exact Nat.le.intro ((Nat.add_comm _ _).trans hleft)
  state_withTrait inTrait := by
    rintro ⟨rfl, h⟩
    exact ⟨rfl, h.withTrait inTrait⟩
  adrift_withTrait inTrait := by
    rintro ⟨rfl, left, h⟩
    exact ⟨rfl, left, h.withTrait inTrait⟩
  told_here h hfault := ⟨by rw [h.1], hfault⟩
  told_start h hfault := ⟨by rw [h.1], hfault⟩
  told_within context := by
    rintro ⟨rfl, h⟩
    exact ⟨rfl, h⟩
  code_eq h := by rw [h.1]
  advance_fresh := by
    rintro left p q ⟨rfl, h⟩
    have hadvance := h.advance
    unfold Ends at hadvance
    rcases hrun : (Parser.advance : Parse Buffer Token).run p with ⟨e | t, p'⟩
    · rw [hrun] at hadvance
      exact .error ⟨rfl, hadvance.1⟩ ⟨rfl, hadvance.2⟩
    · rw [hrun] at hadvance
      obtain ⟨rfl, left', hstanding, hshows, hle, hlt⟩ := hadvance
      exact .ok ⟨rfl, rfl⟩ ⟨left', ⟨rfl, hstanding, hshows⟩, hle, hlt⟩
  goBack_fresh := by
    rintro left p q p' q' ⟨rfl, h, hshows⟩ ⟨rfl, _, h'⟩
    have hback := h.goBack h'.sameText
    unfold Ends at hback
    rcases hrun : (Parser.goBack ⟨p.start⟩ : Parse Buffer Unit).run p' with ⟨e | _, p''⟩
    · rw [hrun] at hback
      exact .error ⟨rfl, hback.1⟩ ⟨rfl, hback.2⟩
    · rw [hrun] at hback
      exact .ok trivial ⟨rfl, (hback.2 hshows).2⟩
  narrow_state := by
    rintro left p q whole part ⟨rfl, h⟩ hwhole hpart
    exact ⟨rfl, h.narrow hwhole hpart⟩
  since_refl p _ := .done p
  since_trans h hinTrait h' hp := (h hp).trans (h' (hinTrait.trans hp))
  since_advance _ hrun hself hp := by
    refine .take hrun (fun hkind => ?_) (.done _)
    rw [hself hkind] at hp
    cases hp
  since_goBack := by
    rintro left p q p' q' p'' ⟨rfl, h, hshows⟩ ⟨rfl, _, h'⟩ hinTrait hrun -
    have hback := (Ends.ok (h.goBack h'.sameText) hrun).2 hshows
    refine .again (q := p'') ?_ hback.1 (.done p'')
    have hreset : ((Walker.reset p.start).run p'.lexer).2 =
        ((Walker.reset p.start).run p.lexer).2 :=
      Twins.reset_eq (h.sameText.symm.trans h'.sameText) p.start
    rcases hnext : Lexer.next.run ((Walker.reset p.start).run p.lexer).2 with ⟨e | token, v⟩
    · rw [run_goBack_error (b := ⟨p.start⟩) (hreset ▸ hnext)] at hrun
      cases hrun
    · rw [run_goBack_ok (b := ⟨p.start⟩) (hreset ▸ hnext)] at hrun
      rw [run_goBack_ok (b := ⟨p.start⟩) hnext, ← hinTrait]
      exact hrun
  since_narrow _ hwhole hpart _ := .cut hwhole hpart (.done _)

variable {origin g} {traits}

/-- The way through a trait leads past its body. -/
theorem ways_bridges (htraits : traits) : (ways origin g traits).Bridges g :=
  fun _ hhead hway hbody hp =>
    .body htraits hhead (hway hp) rfl hbody (.done _)

end

end Parser

end ScriptFront
