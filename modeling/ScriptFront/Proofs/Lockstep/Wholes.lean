import ScriptFront.Proofs.Lockstep.Within
import ScriptFront.Proofs.Speculation.Places

/-!
# Texts that are one thing

A text that is one thing is read up to its end, so it lexes completely. Where its bytes are the last
ones of another text, what is read of it alone is read there too.

- `Parser.whole`: a reading behind which nothing is left.
- `Course.finishes_of_run`: a text that is read as a whole lexes completely.
- `Joins.opens`: a text that begins with a symbol.
- `Course.layouts_here`, `Course.layouts_behind`: the last bytes of a text, and a text of these
  alone.
- `Twins.run_whole`: wholes of faithful sources.
-/

namespace ScriptFront

open ScriptFront.Parser Walker

-- What a reading comes to is told by the rules; nothing is to be run to find out.
attribute [local irreducible] Ends

/-- Read something that nothing is left behind. -/
def Parser.whole {σ α : Type} [ByteSource σ] (reading : Parse σ α) : Parse σ α := do
  let value ← reading
  expectEof
  return value

/-! ## Wholes of sources -/

theorem Parser.of_run_whole {σ α : Type} [ByteSource σ] {x : Parse σ α} {a : α} {p p' : Parser σ}
    (h : (whole x).run p = (.ok a, p')) :
    ∃ q, x.run p = (.ok a, q) ∧ q.current.kind = .eof := by
  obtain ⟨b, q, hx, hrest⟩ := of_run_bind h
  obtain ⟨_, r, heof, hpure⟩ := of_run_bind hrest
  cases hpure
  exact ⟨q, hx, kind_of_run_mark heof⟩

/-- A whole that is read of a source is read by a parser that starts there. -/
theorem Parser.of_run {σ α : Type} [ByteSource σ] {x : Parse σ α} {s : σ} {tabWidth : UInt32}
    {a : α} (h : Parser.run (whole x) s tabWidth = .ok a) :
    ∃ p q, Parser.ofWalker (Walker.ofSource s tabWidth) = .ok p ∧ x.run p = (.ok a, q) ∧
      q.current.kind = .eof := by
  unfold Parser.run Parser.ofSource at h
  cases hp : Parser.ofWalker (Walker.ofSource s tabWidth) with
  | error e =>
    rw [hp] at h
    cases h
  | ok p =>
    rw [hp] at h
    have hresult : ((whole x).run p).1 = .ok a := h
    rcases hrun : (whole x).run p with ⟨r, p'⟩
    rw [hrun] at hresult
    subst hresult
    obtain ⟨q, hx, hkind⟩ := of_run_whole hrun
    exact ⟨p, q, rfl, hx, hkind⟩

/-- From where a source starts, a whole is read of it. -/
theorem Parser.run_of_start {σ α : Type} [ByteSource σ] {x : Parse σ α} {s : σ} {tabWidth : UInt32}
    {p p' : Parser σ} {a : α} (hp : Parser.ofWalker (Walker.ofSource s tabWidth) = .ok p)
    (h : x.run p = (.ok a, p')) : Parser.run x s tabWidth = .ok a := by
  unfold Parser.run Parser.ofSource
  rw [hp]
  exact congrArg Prod.fst h

/-- Over two faithful sources of one text, the same is read as a whole. -/
theorem Twins.run_whole {σ τ α : Type} [ByteSource σ] [ByteSource τ] {T : Twins σ τ}
    {s : σ} {s' : τ}
    (hs : T.left s 0) (hs' : T.right s' 0) (tabWidth : UInt32) {x : Parse σ α} {y : Parse τ α}
    (hxy : T.simulation.Coupled Eq x y) :
    Parser.run (whole x) s tabWidth = Parser.run (whole y) s' tabWidth := by
  have hcoupled : T.simulation.Coupled Eq (whole x) (whole y) :=
    hxy.bindEq fun _ => (T.simulation.mark .eof).bindEq fun _ => .pure rfl
  have hstart := Twins.ofWalker (beside_ofSource hs hs' tabWidth)
  unfold Parser.run Parser.ofSource
  revert hstart
  generalize Parser.ofWalker (Walker.ofSource s tabWidth) = r
  generalize Parser.ofWalker (Walker.ofSource s' tabWidth) = r'
  rintro (h | e)
  · exact (hcoupled h).matching.eq
  · rfl

/-- What is read with the grammar is read with one that is deep enough for the text. -/
theorem Parser.run_grammar {σ α : Type} [ByteSource σ] (f : Grammar σ → Parse σ α) (p : Parser σ) :
    (grammar >>= f).run p = (f (Grammar.upTo p.bound)).run p := by
  have hgrammar : (grammar : Parse σ (Grammar σ)).run p = (.ok (Grammar.upTo p.bound), p) := rfl
  exact run_bind_ok hgrammar

/-- What a grammar that is deep enough reads, another one that is deep enough reads in lockstep. -/
theorem Lockstep.run_alike {L : Lockstep} {α β : Type} {u : α → β}
    {x : Grammar Buffer → Parse Buffer α}
    (hx : ∀ {L : Lockstep} {n : Nat} {g g' : Grammar Buffer}, L.Grammars n g g' →
      L.Below n 1 (Alike u) (x g) (x g'))
    {left depth : Nat} {p q p' : Parser Buffer} {a : α} (hs : L.state left p q)
    (hdepth : q.bound ≤ depth + 1) (h : (x (Grammar.upTo p.bound)).run p = (.ok a, p')) :
    ∃ a' q' j, (x (Grammar.upTo depth)).run q = (.ok a', q') ∧ u a' = u a ∧ L.Behind j p p' q' := by
  have hle := L.le_left hs
  have hle' := L.le_right hs
  have hbound : q.bound = 4 * (q.lexer.extent + 2) := rfl
  have hg : L.Grammars (left + 1) (Grammar.upTo p.bound) (Grammar.upTo depth) := by
    refine L.upTo ?_ ?_
    · unfold bound
      omega
    · omega
  have hmeets : Meets _ _ _ _ ((x (Grammar.upTo p.bound)).run p) ((x (Grammar.upTo depth)).run q) :=
    hx hg (Nat.lt_succ_self left) hs
  rw [h] at hmeets
  generalize hrun : (x (Grammar.upTo depth)).run q = r at hmeets
  cases hmeets with
  | @ok _ a' _ q' value states =>
    obtain ⟨j, -, hbehind⟩ := states
    exact ⟨a', q', j, rfl, value.symm, hbehind⟩

namespace Course

variable {C C' : Course} {p q : Parser Buffer} {α : Type} {x : Parse Buffer α} {a : α}

/-! ## Wholes of texts in memory -/

/-- At the end of a text that lexes up to there, a whole has been read. -/
theorem Steady.run_whole (hq : C.Steady q) (h : x.run p = (.ok a, q))
    (hkind : q.current.kind = .eof) : ∃ p', (whole x).run p = (.ok a, p') := by
  have hfresh := hq.fresh (by rw [hkind]; nofun) (by rw [hkind]; nofun)
  obtain ⟨w, -, -, -, hnext⟩ := Stands.front hfresh
  have htakes := takesNext_eof (.nil []) (Walker.rest_of_eof hnext hkind)
  obtain ⟨_, q', -, hrun, -⟩ := htakes.run_advance
  unfold whole expectEof
  rw [run_bind_ok h, run_bind_ok (run_mark hkind hrun)]
  exact ⟨q', rfl⟩

/-- Where a reading that stays in place comes to a value, it is steady. -/
theorem steady_of_run (hx : C.places.Coupled Eq x x) (hp : C.Placed p) (h : x.run p = (.ok a, q)) :
    C.Steady q := by
  have hends : Arrival _ _ _ _ _ _ := hx (show C.places.state p p from ⟨rfl, hp⟩)
  rw [h] at hends
  cases hends with
  | ok value states => exact states.states.2.steady

/-- A text of which something is read as a whole lexes completely. -/
theorem finishes_of_run {w : Walker Buffer} (hx : ∀ C : Course, C.places.Coupled Eq x x)
    (hp : Parser.ofWalker w = .ok p) (h : x.run p = (.ok a, q)) (hkind : q.current.kind = .eof) :
    w.Finishes none := by
  obtain ⟨C, rfl, -⟩ := Course.ofWalker w
  have hsteady := steady_of_run (hx C) (placed_of_start hp) h
  have hfresh := hsteady.fresh (by rw [hkind]; nofun) (by rw [hkind]; nofun)
  exact Stands.ending_of_eof hfresh hkind ▸ C.finishes

/-- In a text that lexes completely, a token is always taken. -/
theorem Steady.taking (hending : C.ending = none) (h : C.Steady p) :
    ∃ lexeme rest, Taking p.lexer lexeme rest := by
  have hfinishes : p.lexer.Finishes none := hending ▸ h.finishes
  obtain ⟨lexeme, rest, -, htaking, -⟩ := (Relaid.of_finishes hfinishes).next
  exact ⟨lexeme, rest, htaking⟩

/-- How deep readings of a text may nest is told by its length. -/
theorem Steady.bound_eq (h : C.Steady p) : p.bound = 4 * (C.origin.extent + 2) := by
  unfold bound
  rw [h.sameText.extent_eq]

end Course

/-! ## Texts in front of nothing -/

/-- A symbol is told by its text and its bytes. -/
theorem Lexes.symbol_eq {s : Symbol} {text : String} {slice rest : List UInt8}
    (h : Lexes (.symbol s, text) slice rest) : text = s.spelling ∧ slice = s.bytes := by
  have hspells := h.spells
  have hwritten : slice = textBytes text := hspells.written
  cases hspells.wellFormed with
  | mark => exact ⟨rfl, hwritten.trans (Takes.bytes_mark s)⟩

/-- A text that begins with a symbol. -/
theorem Joins.opens {bytes : List UInt8} {w : Walker Buffer} {p : Parser Buffer} {s : Symbol}
    (h : Joins [] bytes) (hw : w.rest = bytes) (hp : Parser.ofWalker w = .ok p)
    (hkind : p.current.kind = s) :
    ∃ gap rest, bytes = gap ++ (s.bytes ++ rest) ∧ Trivia gap (s.bytes ++ rest) ∧
      Lexes (.symbol s, s.spelling) s.bytes rest ∧ Joins [] rest ∧ p.current.text = s.spelling ∧
      p.inTrait = false ∧ p.lexer.rest = rest := by
  cases h with
  | finished hgap =>
    obtain ⟨_, q, -, hq, hcurrent, -⟩ := (takesNext_eof hgap hw).ofWalker
    obtain rfl : p = q := Except.ok.inj (hp.symm.trans hq)
    rw [hcurrent] at hkind
    cases hkind
  | @token gap slice rest lexeme hgap hslice hslice' hmore =>
    obtain ⟨_, q, -, hq, hcurrent, -, hinTrait, -, hrest⟩ := (takesNext hgap hslice hw).ofWalker
    obtain rfl : p = q := Except.ok.inj (hp.symm.trans hq)
    obtain ⟨k, text⟩ := lexeme
    obtain rfl : k = s := by
      rw [hcurrent] at hkind
      exact hkind
    obtain ⟨rfl, rfl⟩ := hslice.symbol_eq
    refine ⟨gap, rest, rfl, hgap, hslice, hmore, ?_, hinTrait, hrest⟩
    rw [hcurrent]

/-- A text of which something is read as a whole joins nothing. -/
theorem Text.joins_of_run {t : Text} {α : Type} {x : Parse Buffer α} {a : α} {tabWidth : UInt32}
    (hx : ∀ C : Course, C.places.Coupled Eq x x)
    (h : Parser.run (whole x) t.inMemory tabWidth = .ok a) : Joins [] t.content.toList := by
  obtain ⟨p, q, hp, hrun, hkind⟩ := Parser.of_run h
  have hjoins := Joins.of_finishes (Course.finishes_of_run hx hp hrun hkind) []
  have hnone := hjoins.append (.inr (.inl rfl)) (.finished (.nil []))
  rwa [List.append_nil] at hnone

namespace Course

variable {C C' : Course} {p q : Parser Buffer}

/-! ## The last bytes of a text -/

/-- At one token, with the same bytes behind it, texts differ in nothing but what is in front. -/
theorem layouts_here (hname : C'.origin.source.name = C.origin.source.name) (hp : C.Fresh p)
    (hq : C'.Fresh q) (hkind : p.current.kind = q.current.kind)
    (htext : p.current.text = q.current.text) (hinTrait : p.inTrait = q.inTrait)
    (hrest : p.lexer.rest = q.lexer.rest) (hfinishes : p.lexer.Finishes none) :
    ∃ left, (layouts C C' hname).fresh left p q := by
  obtain ⟨l, hl⟩ := hp.ahead
  obtain ⟨l', hl'⟩ := hq.ahead
  have hbeside : Beside p.lexer.rest q.lexer.rest := by
    rw [← hrest]
    exact (Relaid.of_finishes hfinishes).beside
  exact ⟨min l l', hp, hq, hkind, htext, hinTrait, hbeside, l, l', rfl, hl, hl'⟩

/-- A text that lexes completely begins with the token that is taken next where its bytes are the
last ones of another text. -/
theorem layouts_behind (hname : C'.origin.source.name = C.origin.source.name)
    (hending : C.ending = none) (hq : C'.Steady q) (hinTrait : q.inTrait = false)
    (hrest : q.lexer.rest = C.origin.rest) :
    ∃ left p q', Parser.ofWalker C.origin = .ok p ∧
      (Parser.advance : Parse Buffer Token).run q = (.ok q.current, q') ∧
      (layouts C C' hname).fresh left p q' := by
  have hfinishes : C.origin.Finishes none := hending ▸ C.finishes
  have hrelaid : Relaid C.origin.rest q.lexer.rest := by
    rw [hrest]
    exact .of_finishes hfinishes
  obtain ⟨lexeme, rest, rest', ⟨mid, v, hskip, hnext, hrest⟩, ⟨mid', v', hskip', hnext', hrest'⟩,
    hmore⟩ := hrelaid.next
  have hofWalker : Parser.ofWalker C.origin =
      .ok ⟨v, ⟨lexeme.1, lexeme.2, mid.place.stored⟩, mid.place, false⟩ := by
    unfold Parser.ofWalker
    rw [hskip]
    simp only [hnext]
  have hfresh := C.start
  rw [hofWalker] at hfresh
  have hrun := run_advance_ok hskip' hnext'
  have hfresh' := Ends.ok (C'.advance hq) hrun
  obtain ⟨l, hl⟩ := Fresh.ahead hfresh
  obtain ⟨l', hl'⟩ := Fresh.ahead hfresh'
  have hbeside : Beside v.rest v'.rest := by
    rw [hrest, hrest']
    exact hmore.beside
  exact ⟨min l l', _, _, hofWalker, hrun, hfresh, hfresh', rfl, rfl, hinTrait.symm, hbeside, l, l',
    rfl, hl, hl'⟩

end Course

end ScriptFront
