import ScriptFront.Proofs.Lexing.Layouts
import ScriptFront.Proofs.Lockstep.Units
import ScriptFront.Proofs.Shapes.Texts

/-!
# Layout does not matter

Over two texts that differ in layout only, the same is read: what is not a place in a tree or in an
error is told by the tokens. Readings of the two texts go in lockstep, at other places and perhaps
with other numbers of bytes in front of them; where a symbol is cut, both of them are inside of the
same run of symbols.

- `Parser.Ahead`: how much of a text is in front of a parser.
- `Course.Aligned`, `Course.layouts`: parsers over the two texts, in lockstep.
- `Text.layout_irrelevant`: every reading of the two texts comes to the same.
-/

namespace ScriptFront

open ScriptFront.Parser

-- What a reading comes to is told by the rules; nothing is to be run to find out.
attribute [local irreducible] Ends

/-! ## What is in front of a parser -/

/-- Of the text, `left` bytes are in front of the parser, and the lexer is further on, unless
nothing is left. -/
structure Parser.Ahead (origin : Walker Buffer) (left : Nat) (p : Parser Buffer) : Prop where
  left_eq : p.start.offset + left = origin.source.content.size
  start_le : p.start.offset ≤ p.lexer.source.position
  start_lt : p.current.kind ≠ .eof → p.start.offset < p.lexer.source.position

namespace Course

variable {C C' : Course} {left left' i : Nat} {p q p' q' : Parser Buffer}
  {lexeme : TokenKind × String} {rest : List UInt8}

/-- A token is in front of the bytes behind it. -/
theorem Fresh.ahead (h : C.Fresh p) : ∃ left, Ahead C.origin left p := by
  obtain ⟨w, hw, hplace, hsettled, hnext⟩ := Stands.front h
  have hposition : p.start.offset = w.source.position := congrArg Place.offset hplace.symm
  obtain ⟨left, hleft⟩ := Nat.le.dest w.source.position_le
  rw [hw.content_eq] at hleft
  refine ⟨left, hposition ▸ hleft, ?_, fun hkind => ?_⟩
  · obtain ⟨gap, slice, mid, hmid, hslice, -, -⟩ := Ends.ok (Ends.next w) hnext
    have hoffset := congrArg Place.offset hmid.place_eq
    rw [Place.offset_afterAll] at hoffset
    have hmid' : mid.source.position = w.source.position + gap.length := hoffset
    rw [hposition, hslice.offset_eq, hmid']
    omega
  · rw [hposition]
    exact Walker.position_of_next hnext hkind

/-- Where a symbol is cut, as much is in front as before. -/
theorem Fresh.ahead_narrow (h : C.Fresh p) (hahead : Ahead C.origin left p) {whole part : Symbol}
    (hwhole : p.current.kind = whole) (hpart : whole.cut? = some part) :
    Ahead C.origin left ((Parser.narrow part 1).run p).2 := by
  obtain ⟨w, b, more, -, hplace, hfirst, -⟩ := split_of_narrow h hwhole hpart
  have hstart : w.source.position = p.start.offset := congrArg Place.offset hplace
  have hposition : ((Parser.narrow part 1).run p).2.lexer.source.position = p.start.offset + 1 :=
    hfirst.offset_eq.trans (by rw [hstart]; rfl)
  refine ⟨hahead.left_eq, ?_, fun _ => ?_⟩
  · exact hposition ▸ Nat.le_succ _
  · exact hposition ▸ Nat.lt_succ_self _

/-- A token is taken. -/
theorem Steady.advance_taking (h : C.Steady p) (hahead : Ahead C.origin left p)
    (htaking : Taking p.lexer lexeme rest) :
    ∃ p' left', (Parser.advance : Parse Buffer Token).run p = (.ok p.current, p') ∧ C.Fresh p' ∧
      p'.current.kind = lexeme.1 ∧ p'.current.text = lexeme.2 ∧ p'.inTrait = p.inTrait ∧
      p'.lexer.rest = rest ∧ Ahead C.origin left' p' ∧ left' ≤ left ∧
      (p.current.kind ≠ .eof → left' < left) := by
  obtain ⟨mid, v, hskip, hnext, hrest⟩ := htaking
  have hrun := run_advance_ok hskip hnext
  have hfresh := Ends.ok (C.advance h) hrun
  obtain ⟨left', hahead'⟩ := hfresh.ahead
  obtain ⟨gap, hgap, -⟩ := Ends.ok (Ends.skip p.lexer) hskip
  have hoffset := congrArg Place.offset hgap.place_eq
  rw [Place.offset_afterAll] at hoffset
  have hmid : mid.place.offset = p.lexer.source.position + gap.length := hoffset
  have hleft' : mid.place.offset + left' = _ := hahead'.left_eq
  have hleft := hahead.left_eq
  have hle := hahead.start_le
  refine ⟨_, left', hrun, hfresh, rfl, rfl, rfl, hrest, hahead', by omega, fun hkind => ?_⟩
  have hlt := hahead.start_lt hkind
  omega

/-! ## Two texts -/

/-- Parsers over two texts show the same token, and have the same tokens in front of them. -/
structure Aligned (C C' : Course) (left : Nat) (p q : Parser Buffer) : Prop where
  kind_eq : p.current.kind = q.current.kind
  text_eq : p.current.text = q.current.text
  inTrait_eq : p.inTrait = q.inTrait
  beside : Beside p.lexer.rest q.lexer.rest
  ahead : ∃ l l', left = min l l' ∧ Ahead C.origin l p ∧ Ahead C'.origin l' q

namespace Aligned

theorem withTrait (inTrait : Bool) (h : Aligned C C' left p q) :
    Aligned C C' left { p with inTrait } { q with inTrait } := by
  obtain ⟨l, l', hleft, hp, hq⟩ := h.ahead
  exact ⟨h.kind_eq, h.text_eq, rfl, h.beside, l, l', hleft, ⟨hp.1, hp.2, hp.3⟩, hq.1, hq.2, hq.3⟩

theorem advance (h : Aligned C C' left p q) (hp : C.Steady p) (hq : C'.Steady q) :
    ∃ p' q' left', (Parser.advance : Parse Buffer Token).run p = (.ok p.current, p') ∧
      (Parser.advance : Parse Buffer Token).run q = (.ok q.current, q') ∧
      (C.Fresh p' ∧ C'.Fresh q' ∧ Aligned C C' left' p' q') ∧ left' ≤ left ∧
      (p.current.kind ≠ .eof → left' < left) := by
  obtain ⟨lexeme, rest, rest', htaking, htaking', hbeside⟩ := h.beside.next
  obtain ⟨l, l', rfl, hahead, hahead'⟩ := h.ahead
  obtain ⟨p', m, hrun, hfresh, hkind, htext, hinTrait, rfl, hm, hle, hlt⟩ :=
    hp.advance_taking hahead htaking
  obtain ⟨q', m', hrun', hfresh', hkind', htext', hinTrait', rfl, hm', hle', hlt'⟩ :=
    hq.advance_taking hahead' htaking'
  refine ⟨p', q', min m m', hrun, hrun', ⟨hfresh, hfresh', ?_⟩, by omega, fun heof => ?_⟩
  · exact ⟨hkind.trans hkind'.symm, htext.trans htext'.symm,
      hinTrait.trans (h.inTrait_eq.trans hinTrait'.symm), hbeside, m, m', rfl, hm, hm'⟩
  · have hless := hlt heof
    have hless' := hlt' (h.kind_eq ▸ heof)
    omega

/-- A symbol is cut in both texts; behind it, the run that it is a part of goes on. -/
theorem narrow (h : Aligned C C' left p q) (hp : C.Fresh p) (hq : C'.Fresh q) {whole part : Symbol}
    (hwhole : p.current.kind = whole) (hpart : whole.cut? = some part) :
    Aligned C C' left ((Parser.narrow part 1).run p).2 ((Parser.narrow part 1).run q).2 := by
  have hwhole' : q.current.kind = whole := h.kind_eq ▸ hwhole
  obtain ⟨-, b, more, -, -, -, hmore, hrun, hbytes⟩ := split_of_narrow hp hwhole hpart
  obtain ⟨-, b', more', -, -, -, hmore', -, hbytes'⟩ := split_of_narrow hq hwhole' hpart
  obtain ⟨rfl, rfl⟩ := List.cons.inj (hbytes.symm.trans hbytes')
  obtain ⟨run, rest, rest', hp', hq', hrun', hapart, hrelaid⟩ := h.beside
  obtain ⟨l, l', rfl, hl, hl'⟩ := h.ahead
  refine ⟨rfl, rfl, h.inTrait_eq, ⟨more ++ run, rest, rest', ?_, ?_, ?_, hapart, hrelaid⟩,
    l, l', rfl, hp.ahead_narrow hl hwhole hpart, hq.ahead_narrow hl' hwhole' hpart⟩
  · rw [hmore.rest_eq, hp', List.append_assoc]
  · rw [hmore'.rest_eq, hq', List.append_assoc]
  · intro c hc
    rcases List.mem_append.1 hc with hc | hc
    · exact hrun c (List.mem_cons_of_mem b hc)
    · exact hrun' c hc

end Aligned

/-! ## The lockstep -/

/-- Parsers that have lost their ways are so with a trait flag too. -/
theorem adrift_withTrait {C C' : Course} {p q : Parser Buffer} (inTrait : Bool)
    (h : C.Adrift p ∧ C'.Adrift q ∧ p.inTrait = q.inTrait) :
    C.Adrift { p with inTrait } ∧ C'.Adrift { q with inTrait } ∧ inTrait = inTrait :=
  ⟨h.1, h.2.1, rfl⟩

/-- Parsers over two texts of one name that differ in layout. -/
def layouts (C C' : Course) (hname : C'.origin.source.name = C.origin.source.name) : Lockstep where
  state left p q := C.Steady p ∧ C'.Steady q ∧ Aligned C C' left p q
  fresh left p q := C.Fresh p ∧ C'.Fresh q ∧ Aligned C C' left p q
  adrift p q := C.Adrift p ∧ C'.Adrift q ∧ p.inTrait = q.inTrait
  told e e' := e.fault = e'.fault ∧ e.context = e'.context
  since _ _ := True
  state_of_fresh h := ⟨.inl h.1, .inl h.2.1, h.2.2⟩
  fresh_of_kind h hgt hpipe :=
    ⟨h.1.fresh hgt hpipe, h.2.1.fresh (h.2.2.kind_eq ▸ hgt) (h.2.2.kind_eq ▸ hpipe), h.2.2⟩
  adrift_of_state h := ⟨h.1.sameText, h.2.1.sameText, h.2.2.inTrait_eq⟩
  kind_eq h := h.2.2.kind_eq
  text_eq h := h.2.2.text_eq
  inTrait_eq h := h.2.2.inTrait_eq
  name_eq h := h.1.sameText.name_eq.trans (hname.symm.trans h.2.1.sameText.name_eq.symm)
  le_left := by
    rintro left p q ⟨hp, -, h⟩
    obtain ⟨l, l', rfl, hahead, -⟩ := h.ahead
    rw [hp.sameText.extent_eq]
    show min l l' ≤ C.origin.source.content.size
    exact Nat.le_trans (Nat.min_le_left l l') (hahead.left_eq ▸ Nat.le_add_left _ _)
  le_right := by
    rintro left p q ⟨-, hq, h⟩
    obtain ⟨l, l', rfl, -, hahead⟩ := h.ahead
    rw [hq.sameText.extent_eq]
    show min l l' ≤ C'.origin.source.content.size
    exact Nat.le_trans (Nat.min_le_right l l') (hahead.left_eq ▸ Nat.le_add_left _ _)
  state_withTrait inTrait
    h := ⟨h.1.withTrait inTrait, h.2.1.withTrait inTrait, h.2.2.withTrait inTrait⟩
  adrift_withTrait := @adrift_withTrait C C'
  told_here _ _ := ⟨rfl, rfl⟩
  told_start _ _ := ⟨rfl, rfl⟩
  told_within := @SyntaxError.alike_within
  code_eq := @SyntaxError.code_eq_of_alike
  advance_fresh := by
    rintro left p q ⟨hp, hq, h⟩
    obtain ⟨p', q', left', hrun, hrun', hfresh, hle, hlt⟩ := h.advance hp hq
    rw [hrun, hrun']
    exact .ok ⟨rfl, rfl⟩ ⟨left', hfresh, hle, hlt⟩
  goBack_fresh := by
    rintro left p q p' q' ⟨hp, hq, h⟩ ⟨hp', hq', hinTrait⟩
    have hrun := goBack_fresh (p := { p with inTrait := p'.inTrait }) hp hp' rfl
    have hrun' := goBack_fresh (p := { q with inTrait := q'.inTrait }) hq hq' rfl
    rw [hrun, hrun', ← hinTrait]
    exact .ok trivial ⟨hp, hq, h.withTrait p'.inTrait⟩
  narrow_state := by
    rintro left p q whole part ⟨hp, hq, h⟩ hwhole hpart
    obtain ⟨hgt, hpipe⟩ := ne_of_cut hpart
    have hp' := hp.fresh (hwhole ▸ hgt) (hwhole ▸ hpipe)
    have hq' := hq.fresh (h.kind_eq ▸ hwhole ▸ hgt) (h.kind_eq ▸ hwhole ▸ hpipe)
    exact ⟨.inr (C.narrow hp' hwhole hpart), .inr (C'.narrow hq' (h.kind_eq ▸ hwhole) hpart),
      h.narrow hp' hq' hwhole hpart⟩
  since_refl _ := trivial
  since_trans _ _ _ := trivial
  since_advance _ _ _ := trivial
  since_goBack _ _ _ _ := trivial
  since_narrow _ _ _ := trivial

/-- The two texts begin with the same token. -/
theorem layouts_start (C C' : Course) (hname : C'.origin.source.name = C.origin.source.name)
    (h : Relaid C.origin.rest C'.origin.rest) :
    ∃ p q left, Parser.ofWalker C.origin = .ok p ∧ Parser.ofWalker C'.origin = .ok q ∧
      (layouts C C' hname).fresh left p q := by
  have hstart {C : Course} {lexeme : TokenKind × String} {rest : List UInt8}
      (h : Taking C.origin lexeme rest) : ∃ p, Parser.ofWalker C.origin = .ok p ∧ C.Fresh p ∧
        p.current.kind = lexeme.1 ∧ p.current.text = lexeme.2 ∧ p.inTrait = false ∧
        p.lexer.rest = rest := by
    obtain ⟨mid, v, hskip, hnext, hrest⟩ := h
    have hofWalker : Parser.ofWalker C.origin =
        .ok ⟨v, ⟨lexeme.1, lexeme.2, mid.place.stored⟩, mid.place, false⟩ := by
      unfold Parser.ofWalker
      rw [hskip]
      simp only [hnext]
    have hfresh := C.start
    rw [hofWalker] at hfresh
    exact ⟨_, hofWalker, hfresh, rfl, rfl, rfl, hrest⟩
  obtain ⟨lexeme, rest, rest', htaking, htaking', hmore⟩ := h.next
  obtain ⟨p, hp, hfresh, hkind, htext, hinTrait, rfl⟩ := hstart htaking
  obtain ⟨q, hq, hfresh', hkind', htext', hinTrait', rfl⟩ := hstart htaking'
  obtain ⟨l, hahead⟩ := hfresh.ahead
  obtain ⟨l', hahead'⟩ := hfresh'.ahead
  exact ⟨p, q, min l l', hp, hq, hfresh, hfresh', hkind.trans hkind'.symm,
    htext.trans htext'.symm, hinTrait.trans hinTrait'.symm, hmore.beside, l, l', rfl,
      hahead, hahead'⟩

end Course

/-! ## Readings -/

/-- An error without places. -/
def SyntaxError.unplaced (e : SyntaxError) : SyntaxFault × Option ErrorContext :=
  (e.fault, e.context)

namespace Entry

/-- Read one thing after the other, and then this one. -/
def readBehind {σ : Type} [ByteSource σ] (entry : Entry) : List Entry → Parse σ entry.Tree
  | [] => entry.read
  | before :: more => do
    let _ ← before.read
    readBehind entry more

/-- What a reading comes to, without places. -/
def outcome (entry : Entry) (result : Except SyntaxError entry.Tree) :
    Except (SyntaxFault × Option ErrorContext) entry.Tree :=
  (result.map entry.unplaced).mapError SyntaxError.unplaced

end Entry

/-- Over two faithful sources of one text, readings one after the other come to one result. -/
theorem Twins.run_readBehind {σ τ : Type} [ByteSource σ] [ByteSource τ] {T : Twins σ τ} {s : σ}
    {s' : τ} (hs : T.left s 0) (hs' : T.right s' 0) (tabWidth : UInt32) (entry : Entry)
    (before : List Entry) :
    Parser.run (entry.readBehind before) s tabWidth =
      Parser.run (entry.readBehind before) s' tabWidth := by
  have hcoupled : Coupled T.Together Eq (entry.readBehind before : Parse σ entry.Tree)
      (entry.readBehind before) := by
    induction before with
    | nil => exact T.reads entry
    | cons first more ih => exact (T.reads first).bindEq fun _ => ih
  have hstart := Twins.ofWalker (beside_ofSource hs hs' tabWidth)
  unfold Parser.run Parser.ofSource
  revert hstart
  generalize Parser.ofWalker (Walker.ofSource s tabWidth) = r
  generalize Parser.ofWalker (Walker.ofSource s' tabWidth) = r'
  rintro (h | e)
  · exact (hcoupled h).1.eq
  · rfl

/-- Readings of texts in lockstep, one after the other. -/
theorem Lockstep.readBehind {L : Lockstep} (hbridges : ∀ g, L.Bridges g) (entry : Entry)
    (before : List Entry) {left : Nat} {p q : Parser Buffer} (hs : L.state left p q) :
    L.At left 0 p q (Alike entry.unplaced) (entry.readBehind before) (entry.readBehind before) := by
  induction before generalizing left p q with
  | nil => exact (L.read entry hs fun _ => hbridges _).weaken
  | cons first more ih =>
    exact (L.read first hs fun _ => hbridges _).weaken.bindRun
      (fun _ _ _ _ _ _ _ _ hbehind => ih hbehind.state) (Nat.le_refl 0)

namespace Text

variable {σ τ : Type} [ByteSource σ] [ByteSource τ] {t t' : Text} {limit limit' : Nat}
  {shows : σ → Nat → Prop} {shows' : τ → Nat → Prop} {s : σ} {s' : τ}

/-- A text can be relaid, be it only as it is, exactly if it lexes completely. -/
theorem relaid_self_iff (tabWidth : UInt32) : Relaid t.content.toList t.content.toList ↔
    ∃ tokens, (Lexer.tokenize.run (Walker.ofSource t.inMemory tabWidth)).1 = .ok tokens := by
  obtain ⟨C, horigin, hended⟩ := Course.ofWalker (Walker.ofSource t.inMemory tabWidth)
  have hrest : C.origin.rest = t.content.toList := by
    rw [horigin]
    rfl
  rw [← horigin, ← hrest]
  unfold Course.Ended at hended
  constructor
  · intro h
    rw [h.finishes.1.unique C.finishes] at hended
    exact hended
  · rintro ⟨tokens, htokens⟩
    refine .of_finishes ?_
    cases hending : C.ending with
    | none => exact hending ▸ C.finishes
    | some ending =>
      rw [hending] at hended
      have herror := hended.symm.trans htokens
      cases herror

/-- Two texts of one name that are the same tokens, with other white space and other comments
between them: whatever is read of them, be it the first thing or one behind others, comes to the
same tree but for its places, or to an error of the same fault in the same context, whatever the
sources and the tab widths are. -/
theorem layout_irrelevant (hfaithful : t.Faithful limit shows)
    (hroom : t.content.size + 3 < limit) (hs : shows s 0) (hfaithful' : t'.Faithful limit' shows')
    (hroom' : t'.content.size + 3 < limit') (hs' : shows' s' 0) (hname : t'.name = t.name)
    (hrelaid : Relaid t.content.toList t'.content.toList) (tabWidth tabWidth' : UInt32)
    (entry : Entry)
    (before : List Entry) :
    entry.outcome (Parser.run (entry.readBehind before) s' tabWidth') =
      entry.outcome (Parser.run (entry.readBehind before) s tabWidth) := by
  rw [Twins.run_readBehind (T := besideMemory hfaithful hroom) hs t.inMemory_shows,
    Twins.run_readBehind (T := besideMemory hfaithful' hroom') hs' t'.inMemory_shows]
  have hrest : Relaid (Walker.ofSource t.inMemory tabWidth).rest
      (Walker.ofSource t'.inMemory tabWidth').rest := hrelaid
  obtain ⟨hfinishes, hfinishes'⟩ := hrest.finishes
  let C : Course := ⟨_, none, hfinishes⟩
  let C' : Course := ⟨_, none, hfinishes'⟩
  obtain ⟨p, q, left, hp, hq, hfresh⟩ := Course.layouts_start C C' hname hrest
  have hbridges (g : Grammar Buffer) : (Course.layouts C C' hname).Bridges g :=
    fun _ _ _ _ => trivial
  have hread : Meets _ _ _ _ ((entry.readBehind before).run p) ((entry.readBehind before).run q) :=
    Lockstep.readBehind hbridges entry before (Lockstep.state_of_fresh _ hfresh)
  have hrun {origin : Buffer} {tabWidth : UInt32} {p : Parser Buffer}
      (hp : Parser.ofWalker (Walker.ofSource origin tabWidth) = .ok p) :
      Parser.run (entry.readBehind before) origin tabWidth =
        ((entry.readBehind before).run p).1 := by
    unfold Parser.run Parser.ofSource
    rw [hp]
    rfl
  rw [hrun hp, hrun hq]
  generalize (entry.readBehind before).run p = r at hread
  generalize (entry.readBehind before).run q = r' at hread
  cases hread with
  | ok value states => exact congrArg Except.ok value.symm
  | error told states => exact congrArg Except.error (Prod.ext told.1.symm told.2.symm)

/-- A comment behind a symbol that is cut, and a tab and another comment in its place, in chunks of
two bytes and of three: a lambda in both cases, and nothing behind it. -/
theorem layout_irrelevant_cutSymbol :
    let t : Text := ⟨"lambda", utf8Bytes "||/*|*/\x7b\x7d"⟩
    let t' : Text := ⟨"lambda", utf8Bytes "||\t//'\n\x7b\x7d"⟩
    t.content.size + 3 < addressLimit - 1 ∧ t'.content.size + 3 < addressLimit - 1 ∧
      Relaid t.content.toList t'.content.toList ∧
      Entry.expr.outcome (Parser.run (Entry.expr.readBehind []) (t'.inChunks 3) 4) =
        Entry.expr.outcome (Parser.run (Entry.expr.readBehind []) (t.inChunks 2) 8) ∧
      Entry.eof.outcome (Parser.run (Entry.eof.readBehind [.expr]) (t'.inChunks 3) 4) =
        Entry.eof.outcome (Parser.run (Entry.eof.readBehind [.expr]) (t.inChunks 2) 8) := by
  intro t t'
  have hroom : t.content.size + 3 < addressLimit - 1 := by decide
  have hroom' : t'.content.size + 3 < addressLimit - 1 := by decide
  have hend : Relaid [] [] := .finished (.nil []) (.nil []) (.inl rfl)
  have hbody : Relaid [125] [125] := by
    have hright : Lexes (.symbol .rBrace, "\x7d") [125] [] :=
      .of_run rfl (by decide +kernel) (by decide +kernel)
    exact .token (.nil _) hright (.nil _) (.inl rfl) hend
  have hbraces : Relaid [47, 42, 124, 42, 47, 123, 125] [9, 47, 47, 39, 10, 123, 125] := by
    have hleft : Lexes (.symbol .lBrace, "\x7b") [123] [125] :=
      .of_run rfl (by decide +kernel) (by decide +kernel)
    have hgap : Trivia [47, 42, 124, 42, 47] ([123] ++ [125]) :=
      @Trivia.block [124] [] _ (by decide) (.nil _)
    have hgap' : Trivia [9, 47, 47, 39, 10] ([123] ++ [125]) :=
      .blank rfl (@Trivia.line [39] [10] _ (by decide) (by decide +kernel) (.blank rfl (.nil _)))
    exact .token hgap hleft hgap' (.inr ⟨by decide, _, _, rfl, rfl⟩) hbody
  have hrelaid : Relaid t.content.toList t'.content.toList := by
    have hpipes : Lexes (.symbol .pipePipe, "||") [124, 124] [47, 42, 124, 42, 47, 123, 125] :=
      .of_run rfl (by decide +kernel) (by decide +kernel)
    exact .token (.nil _) hpipes (.nil _) (.inl rfl) hbraces
  have halike := layout_irrelevant t.chunks hroom (InChunks.start t 2) t'.chunks hroom'
    (InChunks.start t' 3) rfl hrelaid 8 4
  exact ⟨hroom, hroom', hrelaid, halike .expr [], halike .eof [.expr]⟩

end Text

end ScriptFront
