import ScriptFront.Proofs.Unspaced.Rows

/-!
# Types written without any space

The lexer takes a row of closing angles, and an equals sign behind it, in the longest symbols that
it finds, wherever lists of type arguments end in it. The parser cuts each angle off and reads on
from there, so it comes to the same as if every angle stood alone.

- `Hands`: a row without spaces is before a parser, and other bytes are behind it.
- `Hands.feed`: such rows are fed to the parser.
- `TypeExpr.parse_unspaced`: a type without any space is read back, and what is glued behind it is
  read next, from where it starts.
-/

namespace ScriptFront

open ScriptFront.Parser
open Walker

-- What a reading comes to is told by the rules; nothing is to be run to find out.
attribute [local irreducible] Ends

/-- The current token of the parser is the first one from the walker on. -/
def Parser.Before (p : Parser Buffer) (w : Walker Buffer) : Prop :=
  ∃ mid, Lexer.skip.run w = (.ok (), mid) ∧ p.start = mid.place ∧
    Lexer.next.run mid = (.ok p.current, p.lexer)

/-- From `origin` on, the parser has come to a row without spaces, behind which are the bytes
`tail`. -/
structure Hands (origin : Walker Buffer) (tail : List UInt8) (inTrait : Bool) (ls : List Lexeme)
    (p : Parser Buffer) : Prop where
  kept : KeptApart tail ls
  reached : ∃ w done, origin.Passes done w ∧ w.rest = unspaced ls ++ tail ∧ p.Before w
  inTrait_eq : p.inTrait = inTrait

/-! ## Going on in a row -/

section Steps

variable {origin start behind w : Walker Buffer} {inTrait : Bool} {l : Lexeme} {ls : List Lexeme}
  {p : Parser Buffer} {first : Token}

/-- Wherever in a row the parser is, a token comes next. -/
theorem KeptApart.next (hfirst : Lexer.next.run start = (.ok first, behind))
    (h : KeptApart start.rest ls) (hw : w.rest = unspaced ls ++ start.rest) :
    ∃ mid token v, Lexer.skip.run w = (.ok (), mid) ∧ Lexer.next.run mid = (.ok token, v) := by
  cases h with
  | nil =>
    obtain ⟨gap, mid, mid', v', -, -, -, hskip, -, hnext, -⟩ := next_alike hw hfirst
    exact ⟨mid', _, v', hskip, hnext⟩
  | token hlexes hmore =>
    rw [unspaced_cons, List.append_assoc] at hw
    obtain ⟨hsettled, v, hnext, -⟩ := hlexes.run_next hw
    exact ⟨w, _, v, run_skip_of_settled hsettled, hnext⟩
  | angle hmore =>
    have hangle : (Lexeme.mark .gt).bytes = [byteOf '>'] := by decide
    rw [unspaced_cons, hangle] at hw
    obtain ⟨hsettled, s, v, hnext, -⟩ := run_next_runByte hw rfl
    exact ⟨w, _, v, run_skip_of_settled hsettled, hnext⟩

/-- Behind the current token, a row goes on. -/
theorem KeptApart.advance (hfirst : Lexer.next.run start = (.ok first, behind))
    (h : KeptApart start.rest ls) {done : List UInt8} (hdone : origin.Passes done p.lexer)
    (hrest : p.lexer.rest = unspaced ls ++ start.rest) (htrait : p.inTrait = inTrait) :
    ∃ p', Parser.advance.run p = (.ok p.current, p') ∧ Hands origin start.rest inTrait ls p' := by
  obtain ⟨mid, token, v, hskip, hnext⟩ := h.next hfirst hrest
  let q : Parser Buffer := { p with lexer := mid, start := mid.place }
  have hlex : (lex Lexer.next).run q = (.ok token, { q with lexer := v }) := run_lex_ok hnext
  refine ⟨{ q with lexer := v, current := token }, ?_, h, ?_, htrait⟩
  · rw [Parser.advance, run_bind_ok (run_lex_ok hskip), run_modify_bind, run_bind_ok hlex]
    rfl
  · exact ⟨p.lexer, done, hdone, hrest, mid, hskip, rfl, hnext⟩

namespace Hands

/-- The current token is the first lexeme of the row, if it is no closing angle. -/
theorem current_eq (h : Hands origin start.rest inTrait (l :: ls) p) (hl : l ≠ .mark .gt) :
    p.current.kind = l.kind ∧ p.current.text = l.text ∧ ∃ done, origin.Passes done p.lexer ∧
      p.lexer.rest = unspaced ls ++ start.rest := by
  obtain ⟨w, done, hdone, hrest, mid, hskip, hstart, hnext⟩ := h.reached
  rw [unspaced_cons, List.append_assoc] at hrest
  obtain ⟨hsettled, v, hrun, hpasses⟩ := (h.kept.lexes hl).run_next hrest
  rw [run_skip_of_settled hsettled] at hskip
  obtain ⟨-, rfl⟩ := Prod.mk.inj hskip
  rw [hrun] at hnext
  obtain ⟨htoken, hlexer⟩ := Prod.mk.inj hnext
  rw [← Except.ok.inj htoken, ← hlexer]
  refine ⟨rfl, rfl, done ++ l.bytes, hdone.trans hpasses, ?_⟩
  exact hpasses.further.rest_append hrest rfl

/-- In place of a closing angle stands a symbol that begins with it. -/
theorem closer (h : Hands origin start.rest inTrait (.mark .gt :: ls) p) :
    ∃ (s : Symbol) (w v : Walker Buffer) (done : List UInt8), origin.Passes done v ∧
      v.rest = unspaced ls ++ start.rest ∧ w.Passes [byteOf '>'] v ∧ p.start = w.place ∧
      p.current.kind = s ∧ s.bytes.head? = some (byteOf '>') ∧ w.Passes s.bytes p.lexer := by
  obtain ⟨w, done, hdone, hrest, mid, hskip, hstart, hnext⟩ := h.reached
  have hangle : (Lexeme.mark .gt).bytes = [byteOf '>'] := by decide
  rw [unspaced_cons, hangle, List.append_assoc] at hrest
  obtain ⟨hsettled, s, v, hrun, hpasses, -⟩ := run_next_runByte hrest rfl
  rw [run_skip_of_settled hsettled] at hskip
  obtain ⟨-, rfl⟩ := Prod.mk.inj hskip
  rw [hrun] at hnext
  obtain ⟨htoken, hlexer⟩ := Prod.mk.inj hnext
  have hone := passes_advance hrest
  refine ⟨s, w, _, done ++ [byteOf '>'], hdone.trans hone, ?_, hone, hstart, ?_, ?_, ?_⟩
  · exact hone.further.rest_cons hrest
  · rw [← Except.ok.inj htoken]
  · obtain ⟨b, more, hbytes⟩ := List.exists_cons_of_ne_nil s.bytes_ne_nil
    have hsplit := hpasses.rest_eq
    rw [hrest, hbytes] at hsplit
    rw [hbytes, (List.cons.inj hsplit).1]
    rfl
  · rw [← hlexer]
    exact hpasses

theorem isCloser_of_head {s : Symbol} (h : s.bytes.head? = some (byteOf '>')) : IsCloser s := by
  cases s with
  | gt => exact .inl rfl
  | gtEq => exact .inr (.inl rfl)
  | shr => exact .inr (.inr (.inl rfl))
  | shrEq => exact .inr (.inr (.inr rfl))
  | _ => exact absurd h (by decide)

/-- A closing angle is cut off a longer symbol, and what is behind the cut comes next. -/
theorem close (hfirst : Lexer.next.run start = (.ok first, behind))
    (h : Hands origin start.rest inTrait (.mark .gt :: ls) p) :
    ∃ q, Grammar.splitClosingAngle.run p = (.ok (), q) ∧
      Closes .gt (Hands origin start.rest inTrait ls) q := by
  obtain ⟨s, w, v, done, hdone, hrest, hone, hstart, hkind, hhead, hpasses⟩ := h.closer
  have hkept := h.kept.tail_keptApart
  have hclosed (q : Parser Buffer) (hq : q.current.kind = Symbol.gt) (hlexer : q.lexer = v)
      (htrait : q.inTrait = p.inTrait) : Closes .gt (Hands origin start.rest inTrait ls) q := by
    subst hlexer
    exact ⟨hq, hkept.advance hfirst hdone hrest (htrait.trans h.inTrait_eq)⟩
  have hask : (Parser.kind : Parse Buffer TokenKind).run p = (.ok (.symbol s), p) := by
    rw [← hkind]
    rfl
  by_cases hgt : s = .gt
  · -- The angle is alone, and the lexer is behind it.
    subst hgt
    have hlexer : p.lexer = v :=
      eq_of_place (hone.toSameText.symm.trans hpasses.toSameText)
        (hpasses.place_eq.trans hone.place_eq.symm)
    have hsplit : Grammar.splitClosingAngle.run p = (.ok (), p) := by
      rw [Grammar.splitClosingAngle, run_bind_ok hask]
      rfl
    exact ⟨p, hsplit, hclosed p hkind hlexer rfl⟩
  · let rest : Place := ⟨⟨p.start.line, p.start.column + 1⟩, p.start.offset + 1⟩
    have hplace : rest = v.place := by
      show Place.mk ⟨p.start.line, p.start.column + 1⟩ (p.start.offset + 1) = v.place
      rw [hstart, hone.place_eq]
      rfl
    have hreset : (Walker.reset rest p.lexer).2 = v := by
      have hrun := run_reset (hone.toSameText.symm.trans hpasses.toSameText)
      rw [← hplace] at hrun
      exact congrArg Prod.snd hrun
    let q : Parser Buffer :=
      { p with
        lexer := (Walker.reset rest p.lexer).2
        current := { p.current with kind := Symbol.gt, text := (Symbol.gt : TokenKind).describe } }
    have hsplit : Grammar.splitClosingAngle.run p = (.ok (), q) := by
      rw [Grammar.splitClosingAngle, run_bind_ok hask]
      rcases isCloser_of_head hhead with hs | hs | hs | hs
      · exact absurd (TokenKind.symbol.inj hs) hgt
      · rw [hs]
        rfl
      · rw [hs]
        rfl
      · rw [hs]
        rfl
    exact ⟨q, hsplit, hclosed q rfl hreset rfl⟩

/-- Every lexeme takes a byte. -/
theorem room (h : Hands origin start.rest inTrait ls p) : 4 * (ls.length + 2) ≤ p.bound := by
  obtain ⟨w, done, hdone, hrest, mid, hskip, hstart, hnext⟩ := h.reached
  obtain ⟨gap, hgap⟩ := passes_of_skip hskip
  have hextent : p.lexer.extent = w.extent :=
    (hgap.toSameText.trans (sameText_of_next hnext)).extent_eq
  have hlength := h.kept.length_le
  have hleft := w.length_rest_le
  rw [hrest, List.length_append] at hleft
  rw [Parser.bound, hextent]
  omega

/-- A row without spaces is fed to the parser lexeme by lexeme, if what is behind it begins with a
token that no type goes on with. -/
theorem feed (hfirst : Lexer.next.run start = (.ok first, behind))
    (hends : ¬IsTypeSuffix first.kind) : Feed (Hands origin start.rest inTrait) inTrait where
  fronts {ls p} h := by
    cases ls with
    | nil =>
      obtain ⟨w, done, hdone, hrest, mid, hskip, hstart, hnext⟩ := h.reached
      obtain ⟨gap, u, mid', v', -, -, -, hskip', -, hnext', -⟩ := next_alike hrest hfirst
      rw [hskip] at hskip'
      obtain ⟨-, rfl⟩ := Prod.mk.inj hskip'
      rw [hnext] at hnext'
      obtain ⟨htoken, -⟩ := Prod.mk.inj hnext'
      rw [Except.ok.inj htoken]
      exact hends
    | cons l ls =>
      by_cases hl : l = .mark .gt
      · subst hl
        obtain ⟨s, w, v, done, -, -, -, -, hkind, hhead, -⟩ := h.closer
        rw [Fronts, if_pos rfl, hkind]
        exact isCloser_of_head hhead
      · rw [Fronts, if_neg hl]
        exact (h.current_eq hl).1
  text_eq h hl := (h.current_eq hl).2.1
  advance h hl := by
    obtain ⟨-, -, done, hdone, hrest⟩ := h.current_eq hl
    exact h.kept.tail_keptApart.advance hfirst hdone hrest h.inTrait_eq
  close h := h.close hfirst
  room h := h.room
  inTrait_eq h := h.inTrait_eq

end Hands

end Steps

/-! ## Types at the start of a text -/

/-- The bytes that may be glued to a type. -/
def isGlueByte (b : UInt8) : Bool :=
  isBlank b || [byteOf '>', byteOf '=', byteOf ',', byteOf ')', byteOf ';', byteOf '{'].contains b

/-- Neither names nor numbers go on with what is glued to a type. -/
theorem apart_of_isGlueByte {behind : List UInt8} (h : ∀ b ∈ behind.head?, isGlueByte b) :
    Apart isNumberByte behind := by
  cases behind with
  | nil => rfl
  | cons b more =>
    have hb := h b rfl
    have hmarks : ∀ b ∈ [byteOf '>', byteOf '=', byteOf ',', byteOf ')', byteOf ';', byteOf '{'],
        ¬isNumberByte b = true := List.any_eq_false.1 (by decide)
    rw [isGlueByte, Bool.or_eq_true] at hb
    have hnone : isNumberByte b = false := by
      rcases hb with hb | hb
      · grind [isNumberByte, isWordByte, isLetter, isDigit, isBlank]
      · exact Bool.eq_false_iff.2 (hmarks b (List.contains_iff_mem.1 hb))
    simp [Apart, hnone]

section Reading

variable {origin start behind : Walker Buffer} {first : Token} {t : TypeExpr} {row : List Lexeme}
  {p : Parser Buffer}

/-- A parser starts at the beginning of a row. -/
theorem KeptApart.ofWalker (hfirst : Lexer.next.run start = (.ok first, behind))
    (h : KeptApart start.rest row) (horigin : origin.rest = unspaced row ++ start.rest) :
    ∃ p, Parser.ofWalker origin = .ok p ∧ Hands origin start.rest false row p := by
  obtain ⟨before, token, w, hskip, hnext⟩ := h.next hfirst horigin
  refine ⟨⟨w, token, before.place, false⟩, ?_, h, ?_, rfl⟩
  · unfold Parser.ofWalker
    simp only [hskip, hnext]
  · exact ⟨origin, [], .refl origin, horigin, before, hskip, rfl, hnext⟩

/-- The type is read, and nothing else. -/
theorem Hands.run_parseType (hfirst : Lexer.next.run start = (.ok first, behind))
    (hends : ¬IsTypeSuffix first.kind) (ht : t.SpelledBy false row)
    (hp : Hands origin start.rest false row p) :
    ∃ other p', Parser.parseType.run p = (.ok other, p') ∧ other.unplaced = t.unplaced ∧
      Hands origin start.rest false [] p' := by
  have hread : ReadsType (Hands origin start.rest false) t row :=
    (ht.read (Hands.feed hfirst hends)).1
  have hdepth : row.length < p.bound := by
    have hroom := hp.room
    omega
  have htype : Leads (Hands origin start.rest false row) ((Grammar.upTo p.bound).type .build)
      t.Alike (Hands origin start.rest false []) := by
    have hempty : EndsType [] := fun _ h => h
    have hrow := hread.inGrammar hdepth hempty
    rwa [List.append_nil] at hrow
  have hgrammar : (Parser.grammar : Parse Buffer (Grammar Buffer)).run p =
      (.ok (Grammar.upTo p.bound), p) := rfl
  obtain ⟨other, p', hrun, hother, hp'⟩ := htype hp
  exact ⟨other, p', (run_bind_ok hgrammar).trans hrun, hother, hp'⟩

/-- Behind a row, the first token of what is behind it is the current one. -/
theorem Hands.current_behind (hfirst : Lexer.next.run start = (.ok first, behind))
    (horigin : origin.rest = unspaced row ++ start.rest) (hp : Hands origin start.rest false [] p) :
    p.current = ⟨first.kind, first.text, p.start.stored⟩ ∧ p.lexer.rest = behind.rest ∧
      ∃ gap mid, start.Passes gap mid ∧ Trivia gap mid.rest ∧ first.place = mid.place.stored ∧
        p.start = origin.place.afterAll origin.tabWidth (unspaced row ++ gap) := by
  obtain ⟨reached, done, hdone, hrest, mid', hskip', hstart, hnext'⟩ := hp.reached
  obtain rfl : done = unspaced row := by
    have hsplit := hdone.rest_eq
    rw [horigin, hrest] at hsplit
    exact (List.append_cancel_right hsplit).symm
  obtain ⟨gap, mid, v₁, v₂, hgap, htrivia, hplace, hskip₁, hgap₁, hnext₁, hleft⟩ :=
    next_alike hrest hfirst
  obtain ⟨-, rfl⟩ := Prod.mk.inj (hskip'.symm.trans hskip₁)
  obtain ⟨hcurrent, rfl⟩ := Prod.mk.inj (hnext'.symm.trans hnext₁)
  refine ⟨?_, hleft, gap, mid, hgap, htrivia, hplace, ?_⟩
  · rw [Except.ok.inj hcurrent, hstart]
  · rw [hstart, (hdone.trans hgap₁).place_eq]

end Reading

/-- Types written without any space are read back, whatever is glued behind them. However the
closing angles of a type and the first bytes behind it are taken for symbols together, the type is
the same up to places, and the token that comes next is the first one of what is behind it, at its
place in the whole text; from there on, nothing has been lost. -/
theorem TypeExpr.parse_unspaced {t : TypeExpr} {row : List Lexeme} (ht : t.SpelledBy false row)
    {behind : List UInt8} (hglue : ∀ b ∈ behind.head?, isGlueByte b) (name : String)
    (tabWidth : UInt32) {first : Token} {v : Walker Buffer}
    (hfirst : Lexer.next.run (Walker.ofSource (Buffer.ofBytes behind.toArray name) tabWidth) =
      (.ok first, v))
    (hkind : first.kind ∉
      [Symbol.question, Symbol.lBracket, Symbol.colonColon, Symbol.lt].map TokenKind.symbol) :
    ∃ p other p', Parser.ofSource (Buffer.ofBytes (unspaced row ++ behind).toArray name) tabWidth =
        .ok p ∧
      Parser.parseType.run p = (.ok other, p') ∧ other.unplaced = t.unplaced ∧
      p'.current.kind = first.kind ∧ p'.current.text = first.text ∧
      p'.current.place = p'.start.stored ∧ p'.lexer.rest = v.rest ∧
      ∃ gap, gap <+: behind ∧ Trivia gap (behind.drop gap.length) ∧
        first.place = (Place.start.afterAll tabWidth gap).stored ∧
        p'.start = Place.start.afterAll tabWidth (unspaced row ++ gap) := by
  let alone := Walker.ofSource (Buffer.ofBytes behind.toArray name) tabWidth
  let origin := Walker.ofSource (Buffer.ofBytes (unspaced row ++ behind).toArray name) tabWidth
  have halone : alone.rest = behind := rfl
  have horigin : origin.rest = unspaced row ++ alone.rest := rfl
  have hends : ¬IsTypeSuffix first.kind := by
    intro hsuffix
    rcases hsuffix with h | h | h | h <;> rw [h] at hkind <;> exact hkind (by decide)
  have hkept : KeptApart alone.rest row := by
    have hrow := ht.keptApart .nil (apart_of_isGlueByte hglue)
    rwa [List.append_nil] at hrow
  obtain ⟨p, hsource, hp⟩ := hkept.ofWalker hfirst horigin
  obtain ⟨other, p', hrun, hother, hp'⟩ := hp.run_parseType hfirst hends ht
  obtain ⟨hcurrent, hleft, gap, mid, hgap, htrivia, hplace, hstart⟩ :=
    hp'.current_behind hfirst horigin
  have hbehind : behind = gap ++ mid.rest := hgap.rest_eq
  refine ⟨p, other, p', hsource, hrun, hother, ?_, ?_, ?_, hleft, gap, ?_, ?_, ?_, ?_⟩
  · rw [hcurrent]
  · rw [hcurrent]
  · rw [hcurrent]
  · exact ⟨mid.rest, hbehind.symm⟩
  · rw [hbehind, List.drop_left]
    exact htrivia
  · rw [hplace, hgap.place_eq]
    rfl
  · rw [hstart]
    rfl

/-- In `A<B<u8>>>=1` the lexer takes the closing angles and the sign for one symbol. Both lists are
closed, and the comparison is left. -/
theorem TypeExpr.parse_unspaced_angles :
    ∃ p other p', Parser.ofSource (Buffer.ofBytes "A<B<u8>>>=1".toUTF8.data) 4 = .ok p ∧
      Parser.parseType.run p = (.ok other, p') ∧
      p'.current.kind = Symbol.gtEq ∧ p'.lexer.rest = [byteOf '1'] := by
  let behind := [byteOf '>', byteOf '=', byteOf '1']
  let inner : TypeExpr :=
    .plain .start (.named ⟨⟨.start, "B", false, [.plain .start (.primitive .u8)]⟩, []⟩)
  have hu8 : TypeExpr.SpelledBy false (.plain .start (.primitive .u8)) [.word (.primitive .u8)] :=
    .plain (.primitive .u8)
  have hinner : TypeExpr.SpelledBy false inner
      (.name "B" :: inAngles [.word (.primitive .u8)]) :=
    .plain (.named (.mk (.generic ⟨66, [], by decide +kernel⟩ (.cons hu8 rfl .nil) nofun) .nil))
  have ht : TypeExpr.SpelledBy false (.plain .start (.named ⟨⟨.start, "A", false, [inner]⟩, []⟩))
      (.name "A" :: inAngles (.name "B" :: inAngles [.word (.primitive .u8)])) :=
    .plain (.named (.mk (.generic ⟨65, [], by decide +kernel⟩ (.cons hinner rfl .nil) nofun) .nil))
  -- Alone, the lexer takes the two symbols behind the type together.
  have hlexes : Lexes (.symbol .gtEq, ">=") [byteOf '>', byteOf '='] [byteOf '1'] :=
    Lexes.mark .gtEq (by decide) (by decide +kernel)
  obtain ⟨-, v, hfirst, hpasses⟩ :=
    hlexes.run_next (w := Walker.ofSource (Buffer.ofBytes behind.toArray) 4) rfl
  obtain ⟨p, other, p', hsource, hrun, -, hkind, -, -, hrest, -⟩ :=
    TypeExpr.parse_unspaced ht (show ∀ b ∈ behind.head?, isGlueByte b by decide +kernel)
      anonymousName 4 hfirst (by decide)
  have hbehind := hpasses.further.rest_append rfl rfl
  exact ⟨p, other, p', hsource, hrun, hkind, hrest.trans hbehind⟩

end ScriptFront
