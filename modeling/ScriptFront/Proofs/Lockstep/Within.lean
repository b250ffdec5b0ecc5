import ScriptFront.Proofs.Lexing.Joining
import ScriptFront.Proofs.Lockstep.Layouts

/-!
# Texts within other texts

What is read of a text is read of its bytes too where they stand within another text, with something
in front of them and nothing but newlines behind them.

- `Inset`: the same bytes, with newlines behind the second ones.
- `Course.within`: parsers over the two texts, in lockstep.
- `Course.within_start`: from the first token of the text alone on.
-/

namespace ScriptFront

open ScriptFront.Parser Walker

-- What a reading comes to is told by the rules; nothing is to be run to find out.
attribute [local irreducible] Ends

/-! ## Bytes -/

/-- Bytes that join `tail`, and the same bytes with newlines behind them. -/
def Inset (tail bytes bytes' : List UInt8) : Prop :=
  Along tail bytes ∧ ∃ lines, bytes' = bytes ++ lines ∧ ∀ b ∈ lines, b = newline

theorem follows_lines {tail lines : List UInt8} (h : ∀ b ∈ lines, b = newline) :
    Follows tail lines := by
  cases lines with
  | nil => exact .inr (.inl rfl)
  | cons b more =>
    obtain rfl := h b List.mem_cons_self
    exact .inr (.inr ⟨more, rfl⟩)

theorem trivia_lines {lines : List UInt8} (h : ∀ b ∈ lines, b = newline) : Trivia lines [] :=
  .of_blanks fun b hb => by
    rw [h b hb]
    rfl

namespace Trivia

variable {gap rest lines : List UInt8}

/-- What is skipped at the end is skipped in front of newlines, with them. -/
theorem before_lines (h : Trivia gap rest) (hlines : ∀ b ∈ lines, b = newline) :
    Trivia (gap ++ lines) [] := by
  refine .append ?_ (trivia_lines hlines)
  rw [List.append_nil]
  cases lines with
  | nil => exact h.atEnd
  | cons b more =>
    obtain rfl := hlines b List.mem_cons_self
    exact h.atEnd.before_newline more

end Trivia

namespace Inset

variable {tail : List UInt8} {w w' : Walker Buffer}

/-- The next tokens say the same. -/
theorem next (htail : Apart isRunByte tail) (h : Inset tail w.rest w'.rest) :
    ∃ lexeme rest rest', Taking w lexeme rest ∧ Taking w' lexeme rest' ∧ Inset tail rest rest' := by
  obtain ⟨halong, lines, hrest, hlines⟩ := h
  rcases halong.next htail with htrivia | ⟨gap, slice, rest, lexeme, -, -, hmore, htakes⟩
  · refine ⟨_, [], [], (takesNext_eof htrivia.atEnd rfl).taking,
      (takesNext_eof (htrivia.before_lines hlines) hrest).taking, ?_, [], rfl, fun _ h => nomatch h⟩
    exact (Joins.finished (.nil tail)).along htail
  · have hw := htakes [] (.inr (.inl rfl)) w (List.append_nil _).symm
    rw [List.append_nil] at hw
    exact ⟨lexeme, rest, rest ++ lines, hw.taking,
      (htakes lines (follows_lines hlines) w' hrest).taking, hmore, lines, rfl, hlines⟩

theorem cons_run {bytes bytes' more : List UInt8} (h : Inset tail bytes bytes')
    (hmore : ∀ c ∈ more, isRunByte c) : Inset tail (more ++ bytes) (more ++ bytes') := by
  obtain ⟨⟨run, rest, rfl, hrun, hapart, hjoins⟩, lines, rfl, hlines⟩ := h
  refine ⟨⟨more ++ run, rest, (List.append_assoc _ _ _).symm, fun c hc => ?_, hapart, hjoins⟩,
    lines, (List.append_assoc _ _ _).symm, hlines⟩
  exact (List.mem_append.1 hc).elim (hmore c) (hrun c)

end Inset

/-! ## Parsers -/

/-- The token that the lexer takes next becomes the current one. -/
theorem Walker.TakesNext.run_advance {p : Parser Buffer} {gap slice rest : List UInt8}
    {lexeme : TokenKind × String} (h : p.lexer.TakesNext gap slice lexeme rest) :
    ∃ place p', place = p.lexer.place.afterAll p.lexer.tabWidth gap ∧
      (Parser.advance : Parse Buffer Token).run p = (.ok p.current, p') ∧
      p'.current = ⟨lexeme.1, lexeme.2, place.stored⟩ ∧ p'.start = place ∧ p'.inTrait = p.inTrait ∧
      p'.lexer.place = place.afterAll p.lexer.tabWidth slice ∧ p'.lexer.rest = rest := by
  obtain ⟨mid, v, hskip, hgap, hnext, hslice, hrest⟩ := h
  refine ⟨mid.place, _, hgap.place_eq, run_advance_ok hskip hnext, rfl, rfl, rfl, ?_, hrest⟩
  rw [← hgap.tabWidth_eq]
  exact hslice.place_eq

/-- The first token that the lexer takes is the first one that is current. -/
theorem Walker.TakesNext.ofWalker {w : Walker Buffer} {gap slice rest : List UInt8}
    {lexeme : TokenKind × String} (h : w.TakesNext gap slice lexeme rest) :
    ∃ place p, place = w.place.afterAll w.tabWidth gap ∧ Parser.ofWalker w = .ok p ∧
      p.current = ⟨lexeme.1, lexeme.2, place.stored⟩ ∧ p.start = place ∧ p.inTrait = false ∧
      p.lexer.place = place.afterAll w.tabWidth slice ∧ p.lexer.rest = rest := by
  obtain ⟨mid, v, hskip, hgap, hnext, hslice, hrest⟩ := h
  have hrun : Parser.ofWalker w =
      .ok ⟨v, ⟨lexeme.1, lexeme.2, mid.place.stored⟩, mid.place, false⟩ := by
    unfold Parser.ofWalker
    rw [hskip]
    simp only [hnext]
  refine ⟨mid.place, _, hgap.place_eq, hrun, rfl, rfl, rfl, ?_, hrest⟩
  rw [← hgap.tabWidth_eq]
  exact hslice.place_eq

namespace Course

variable {C C' : Course} {tail : List UInt8} {left left' i : Nat} {p q p' q' : Parser Buffer}

/-- A parser over a text, and one over another text that has this one within, show the same token
and have the same in front of them. -/
structure Matched (C C' : Course) (tail : List UInt8) (left : Nat) (p q : Parser Buffer) :
    Prop where
  kind_eq : p.current.kind = q.current.kind
  text_eq : p.current.text = q.current.text
  inTrait_eq : p.inTrait = q.inTrait
  inset : Inset tail p.lexer.rest q.lexer.rest
  ahead : ∃ l l', left = min l l' ∧ Ahead C.origin l p ∧ Ahead C'.origin l' q

namespace Matched

theorem withTrait (inTrait : Bool) (h : Matched C C' tail left p q) :
    Matched C C' tail left { p with inTrait } { q with inTrait } := by
  obtain ⟨l, l', hleft, hp, hq⟩ := h.ahead
  exact ⟨h.kind_eq, h.text_eq, rfl, h.inset, l, l', hleft, ⟨hp.1, hp.2, hp.3⟩, hq.1, hq.2, hq.3⟩

theorem advance (htail : Apart isRunByte tail) (h : Matched C C' tail left p q) (hp : C.Steady p)
    (hq : C'.Steady q) :
    ∃ p' q' left', (Parser.advance : Parse Buffer Token).run p = (.ok p.current, p') ∧
      (Parser.advance : Parse Buffer Token).run q = (.ok q.current, q') ∧
      (C.Fresh p' ∧ C'.Fresh q' ∧ Matched C C' tail left' p' q') ∧ left' ≤ left ∧
      (p.current.kind ≠ .eof → left' < left) := by
  obtain ⟨lexeme, rest, rest', htaking, htaking', hinset⟩ := h.inset.next htail
  obtain ⟨l, l', rfl, hahead, hahead'⟩ := h.ahead
  obtain ⟨p', m, hrun, hfresh, hkind, htext, hinTrait, rfl, hm, hle, hlt⟩ :=
    hp.advance_taking hahead htaking
  obtain ⟨q', m', hrun', hfresh', hkind', htext', hinTrait', rfl, hm', hle', hlt'⟩ :=
    hq.advance_taking hahead' htaking'
  refine ⟨p', q', min m m', hrun, hrun', ⟨hfresh, hfresh', ?_⟩, by omega, fun heof => ?_⟩
  · exact ⟨hkind.trans hkind'.symm, htext.trans htext'.symm,
      hinTrait.trans (h.inTrait_eq.trans hinTrait'.symm), hinset, m, m', rfl, hm, hm'⟩
  · have hless := hlt heof
    have hless' := hlt' (h.kind_eq ▸ heof)
    omega

/-- A symbol is cut in both texts. -/
theorem narrow (h : Matched C C' tail left p q) (hp : C.Fresh p) (hq : C'.Fresh q)
    {whole part : Symbol} (hwhole : p.current.kind = whole) (hpart : whole.cut? = some part) :
    Matched C C' tail left ((Parser.narrow part 1).run p).2 ((Parser.narrow part 1).run q).2 := by
  have hwhole' : q.current.kind = whole := h.kind_eq ▸ hwhole
  obtain ⟨-, b, more, -, -, -, hmore, hrun, hbytes⟩ := split_of_narrow hp hwhole hpart
  obtain ⟨-, b', more', -, -, -, hmore', -, hbytes'⟩ := split_of_narrow hq hwhole' hpart
  obtain ⟨rfl, rfl⟩ := List.cons.inj (hbytes.symm.trans hbytes')
  obtain ⟨l, l', rfl, hl, hl'⟩ := h.ahead
  refine ⟨rfl, rfl, h.inTrait_eq, ?_, l, l', rfl, hp.ahead_narrow hl hwhole hpart,
    hq.ahead_narrow hl' hwhole' hpart⟩
  rw [hmore.rest_eq, hmore'.rest_eq]
  exact h.inset.cons_run fun c hc => hrun c (List.mem_cons_of_mem b hc)

end Matched

/-- Parsers over two texts of one name, the second of which has the first one within. -/
def within (C C' : Course) (hname : C'.origin.source.name = C.origin.source.name)
    {tail : List UInt8} (htail : Apart isRunByte tail) : Lockstep where
  state left p q := C.Steady p ∧ C'.Steady q ∧ Matched C C' tail left p q
  fresh left p q := C.Fresh p ∧ C'.Fresh q ∧ Matched C C' tail left p q
  adrift p q := C.Adrift p ∧ C'.Adrift q ∧ p.inTrait = q.inTrait
  told e e' := e.fault = e'.fault ∧ e.context = e'.context
  since _ _ := True
  state_of_fresh h := ⟨.inl h.1, .inl h.2.1, h.2.2⟩
  fresh_of_kind h hgt hpipe :=
    ⟨h.1.fresh hgt hpipe, h.2.1.fresh (h.2.2.kind_eq ▸ hgt) (h.2.2.kind_eq ▸ hpipe), h.2.2⟩
  adrift_of_state h := ⟨h.1.sameText, h.2.1.sameText, h.2.2.inTrait_eq⟩
  kind_eq h := h.2.2.kind_eq
  text_eq h := h.2.2.text_eq
  inTrait_eq h := h.2.2.inTrait_eq
  name_eq h := h.1.sameText.name_eq.trans (hname.symm.trans h.2.1.sameText.name_eq.symm)
  le_left := by
    rintro left p q ⟨hp, -, h⟩
    obtain ⟨l, l', rfl, hahead, -⟩ := h.ahead
    rw [hp.sameText.extent_eq]
    show min l l' ≤ C.origin.source.content.size
    exact Nat.le_trans (Nat.min_le_left l l') (hahead.left_eq ▸ Nat.le_add_left _ _)
  le_right := by
    rintro left p q ⟨-, hq, h⟩
    obtain ⟨l, l', rfl, -, hahead⟩ := h.ahead
    rw [hq.sameText.extent_eq]
    show min l l' ≤ C'.origin.source.content.size
    exact Nat.le_trans (Nat.min_le_right l l') (hahead.left_eq ▸ Nat.le_add_left _ _)
  state_withTrait inTrait
    h := ⟨h.1.withTrait inTrait, h.2.1.withTrait inTrait, h.2.2.withTrait inTrait⟩
  adrift_withTrait := @adrift_withTrait C C'
  told_here _ _ := ⟨rfl, rfl⟩
  told_start _ _ := ⟨rfl, rfl⟩
  told_within := @SyntaxError.alike_within
  code_eq := @SyntaxError.code_eq_of_alike
  advance_fresh := by
    rintro left p q ⟨hp, hq, h⟩
    obtain ⟨p', q', left', hrun, hrun', hfresh, hle, hlt⟩ := h.advance htail hp hq
    rw [hrun, hrun']
    exact .ok ⟨rfl, rfl⟩ ⟨left', hfresh, hle, hlt⟩
  goBack_fresh := by
    rintro left p q p' q' ⟨hp, hq, h⟩ ⟨hp', hq', hinTrait⟩
    have hrun := goBack_fresh (p := { p with inTrait := p'.inTrait }) hp hp' rfl
    have hrun' := goBack_fresh (p := { q with inTrait := q'.inTrait }) hq hq' rfl
    rw [hrun, hrun', ← hinTrait]
    exact .ok trivial ⟨hp, hq, h.withTrait p'.inTrait⟩
  narrow_state := by
    rintro left p q whole part ⟨hp, hq, h⟩ hwhole hpart
    obtain ⟨hgt, hpipe⟩ := ne_of_cut hpart
    have hp' := hp.fresh (hwhole ▸ hgt) (hwhole ▸ hpipe)
    have hq' := hq.fresh (h.kind_eq ▸ hwhole ▸ hgt) (h.kind_eq ▸ hwhole ▸ hpipe)
    exact ⟨.inr (C.narrow hp' hwhole hpart), .inr (C'.narrow hq' (h.kind_eq ▸ hwhole) hpart),
      h.narrow hp' hq' hwhole hpart⟩
  since_refl _ := trivial
  since_trans _ _ _ := trivial
  since_advance _ _ _ := trivial
  since_goBack _ _ _ _ := trivial
  since_narrow _ _ _ := trivial

/-- The first token of the text alone is the first one of its bytes in the other text, where white
space and comments may stand in front of them. -/
theorem within_start (C C' : Course) (hname : C'.origin.source.name = C.origin.source.name)
    {tail gap bytes lines : List UInt8} (htail : Apart isRunByte tail) (hgap : Filler gap)
    (hjoins : Joins tail bytes) (hlines : ∀ b ∈ lines, b = newline) (hrest : C.origin.rest = bytes)
    {q : Parser Buffer} (hq : C'.Steady q) (hbehind : q.lexer.rest = gap ++ (bytes ++ lines))
    (hinTrait : q.inTrait = false) :
    ∃ i p q', Parser.ofWalker C.origin = .ok p ∧
      (Parser.advance : Parse Buffer Token).run q = (.ok q.current, q') ∧
      (within C C' hname htail).fresh i p q' := by
  have htakes : ∃ gap' gap'' slice lexeme rest rest', C.origin.TakesNext gap' slice lexeme rest ∧
      q.lexer.TakesNext gap'' slice lexeme rest' ∧ Inset tail rest rest' := by
    cases hjoins with
    | finished htrivia =>
      have hend : Inset tail [] [] := ⟨(Joins.finished (.nil tail)).along htail, [], rfl, nofun⟩
      refine ⟨_, _, _, _, _, _, takesNext_eof htrivia.atEnd hrest, takesNext_eof ?_ hbehind, hend⟩
      exact (hgap.trivia _).append (htrivia.before_lines hlines)
    | @token gap' slice rest lexeme htrivia hslice hslice' hmore =>
      refine ⟨gap', gap ++ gap', slice, lexeme, rest, rest ++ lines, takesNext htrivia hslice hrest,
        takesNext ?_ (hslice.follows hslice' (follows_lines hlines)) ?_,
          hmore.along htail, lines, rfl,
        hlines⟩
      · exact (hgap.trivia _).append (htrivia.before hslice.ne_nil)
      · rw [hbehind]
        simp only [List.append_assoc]
  obtain ⟨gap', gap'', slice, lexeme, rest, rest', htakes, htakes', hinset⟩ := htakes
  obtain ⟨_, p, -, hofWalker, hcurrent, -, hinTrait', -, hp⟩ := htakes.ofWalker
  obtain ⟨_, q', -, hrun, hcurrent', -, hinTrait'', -, hq'⟩ := htakes'.run_advance
  have hfresh := C.start
  rw [hofWalker] at hfresh
  have hfresh' := Ends.ok (C'.advance hq) hrun
  obtain ⟨l, hahead⟩ := Fresh.ahead hfresh
  obtain ⟨l', hahead'⟩ := Fresh.ahead hfresh'
  refine ⟨min l l', p, q', hofWalker, hrun, hfresh, hfresh', ?_, ?_, ?_, ?_, l, l', rfl, hahead,
    hahead'⟩
  · rw [hcurrent, hcurrent']
  · rw [hcurrent, hcurrent']
  · rw [hinTrait', hinTrait'', hinTrait]
  · rw [hp, hq']
    exact hinset

end Course

end ScriptFront
