import ScriptFront.Proofs.Lockstep.Stmts
import ScriptFront.Proofs.Unspaced.Feeds

/-!
# Rows of lexemes in lockstep

Where two written texts end in the same row of lexemes, this row is read alike, whatever stands
before it in the one text or the other.

- `SameRow`: parsers of the two texts, before the same row.
- `Lockstep.rows`: such parsers, in lockstep.
- `Leads.beside`: what one parser reads of the row, all parsers read that have the same row before
  them.
-/

namespace ScriptFront

open ScriptFront.Parser

/-! ## How much is left -/

/-- How many bytes the lexemes of a row take. -/
def rowSize (ls : List Lexeme) : Nat := (ls.flatMap Lexeme.bytes).length

theorem rowSize_cons (l : Lexeme) (ls : List Lexeme) :
    rowSize (l :: ls) = l.bytes.length + rowSize ls := by
  rw [rowSize, List.flatMap_cons, List.length_append]
  rfl

theorem rowSize_append (ls us : List Lexeme) : rowSize (ls ++ us) = rowSize ls + rowSize us := by
  rw [rowSize, List.flatMap_append, List.length_append]
  rfl

theorem rowSize_le_layout (ls : List Lexeme) : rowSize ls ≤ (layout ls).length := by
  have hbehind (ls : List Lexeme) : rowSize ls ≤ (behind ls).length := by
    induction ls with
    | nil => exact Nat.le_refl _
    | cons l ls ih =>
      rw [rowSize_cons, behind, List.length_cons, List.length_append]
      omega
  cases ls with
  | nil => exact Nat.le_refl _
  | cons l ls =>
    rw [rowSize_cons, layout, List.length_append]
    exact Nat.add_le_add_left (hbehind ls) _

/-- Every lexeme takes a byte. -/
theorem rowSize_tail {l : Lexeme} (h : l.WellFormed) (ls : List Lexeme) :
    rowSize ls < rowSize (l :: ls) := by
  have hpos := List.length_pos_iff.2 (bytes_ne_nil h)
  rw [rowSize_cons]
  omega

theorem Reads.rowSize_le {c : Setting} {ls : List Lexeme} {p : Parser Buffer} (h : Reads c ls p) :
    rowSize ls ≤ c.content.size := by
  have hlayout := rowSize_le_layout ls
  have hsize : c.content.toList.length = c.content.size := Array.length_toList
  rw [← h.marks.layout_eq, List.length_drop] at hlayout
  omega

/-- A parser has room for all bytes that are left, three times. -/
theorem Reads.rowSize_bound {c : Setting} {ls : List Lexeme} {p : Parser Buffer}
    (h : Reads c ls p) : 3 * (rowSize ls + 2) ≤ p.bound := by
  have hextent : p.lexer.extent = c.content.size := congrArg Array.size h.holds.content_eq
  have hsize := h.rowSize_le
  rw [Parser.bound, hextent]
  omega

/-- What is left of a symbol that is cut is a symbol again. -/
theorem Symbol.bytes_of_cut {whole part : Symbol} (h : whole.cut? = some part) :
    ∃ rest : Symbol, whole.bytes = part.bytes ++ rest.bytes ∧ part.bytes.length = 1 ∧
      (part = .gt ∨ part = .pipe) := by
  cases whole with
  | shr =>
    cases h
    exact ⟨.gt, rfl, rfl, .inl rfl⟩
  | gtEq =>
    cases h
    exact ⟨.eq, rfl, rfl, .inl rfl⟩
  | shrEq =>
    cases h
    exact ⟨.gtEq, rfl, rfl, .inl rfl⟩
  | pipePipe =>
    cases h
    exact ⟨.pipe, rfl, rfl, .inr rfl⟩
  | _ => cases h

/-! ## Parsers before the same row -/

/-- The same setting, inside of a trait or not. -/
def Setting.inMode (c : Setting) (inTrait : Bool) : Setting := { c with inTrait }

/-- Parsers of two texts are before the same row, as `R` says, and `left` bytes of lexemes are
left. -/
structure SameRow (R : Setting → List Lexeme → Parser Buffer → Prop) (c c' : Setting) (left : Nat)
    (p q : Parser Buffer) : Prop where
  row : ∃ ls inTrait, left = rowSize ls ∧ R (c.inMode inTrait) ls p ∧ R (c'.inMode inTrait) ls q
  le_left : left ≤ c.content.size
  le_right : left ≤ c'.content.size

variable {c c' : Setting} {left : Nat} {p q p' q' : Parser Buffer} {ls : List Lexeme}

theorem SameRow.shows (h : SameRow Reads c c' left p q) : SameRow Shows c c' left p q := by
  obtain ⟨⟨ls, inTrait, hleft, hp, hq⟩, hle, hle'⟩ := h
  exact ⟨⟨ls, inTrait, hleft, hp.toShows, hq.toShows⟩, hle, hle'⟩

/-- The same, or both parsers are inside of a symbol of which a part was taken for a token. -/
def SameRowOrCut (c c' : Setting) (left : Nat) (p q : Parser Buffer) : Prop :=
  SameRow Reads c c' left p q ∨ (SameRow Shows c c' left p q ∧
    (p.current.kind = Symbol.gt ∨ p.current.kind = Symbol.pipe))

namespace SameRowOrCut

theorem shows (h : SameRowOrCut c c' left p q) : SameRow Shows c c' left p q := by
  rcases h with h | ⟨h, -⟩
  · exact h.shows
  · exact h

theorem reads (h : SameRowOrCut c c' left p q) (hgt : p.current.kind ≠ Symbol.gt)
    (hpipe : p.current.kind ≠ Symbol.pipe) : SameRow Reads c c' left p q := by
  rcases h with h | ⟨-, h | h⟩
  · exact h
  · exact absurd h hgt
  · exact absurd h hpipe

theorem advance (h : SameRowOrCut c c' left p q) :
    ∃ p' q' left', (Parser.advance : Parse Buffer Token).run p = (.ok p.current, p') ∧
      (Parser.advance : Parse Buffer Token).run q = (.ok q.current, q') ∧
      SameRow Reads c c' left' p' q' ∧ left' ≤ left ∧ (p.current.kind ≠ .eof → left' < left) := by
  obtain ⟨⟨ls, inTrait, rfl, hp, hq⟩, hle, hle'⟩ := h.shows
  obtain ⟨p', hrun, hreads⟩ := hp.advance_tail
  obtain ⟨q', hrun', hreads'⟩ := hq.advance_tail
  have hless : rowSize ls.tail ≤ rowSize ls ∧
      (p.current.kind ≠ .eof → rowSize ls.tail < rowSize ls) := by
    cases ls with
    | nil => exact ⟨Nat.le_refl _, fun heof => absurd hp.kind_eq heof⟩
    | cons l ls =>
      have hlt := rowSize_tail (hp.wellFormed l List.mem_cons_self) ls
      exact ⟨Nat.le_of_lt hlt, fun _ => hlt⟩
  refine ⟨p', q', rowSize ls.tail, hrun, hrun', ⟨⟨ls.tail, inTrait, rfl, hreads, hreads'⟩, ?_, ?_⟩,
    hless⟩
  · exact Nat.le_trans hless.1 hle
  · exact Nat.le_trans hless.1 hle'

theorem narrow (h : SameRow Reads c c' left p q) {whole part : Symbol}
    (hwhole : p.current.kind = whole) (hpart : whole.cut? = some part) :
    SameRowOrCut c c' left ((Parser.narrow part 1).run p).2 ((Parser.narrow part 1).run q).2 := by
  obtain ⟨⟨ls, inTrait, rfl, hp, hq⟩, hle, hle'⟩ := h
  obtain ⟨rest, hbytes, hlength, hcut⟩ := Symbol.bytes_of_cut hpart
  have hhead : headKind ls = whole := hp.kind_eq ▸ hwhole
  obtain ⟨l, ls, rfl⟩ :=
    List.exists_cons_of_ne_nil (l := ls) (by rintro rfl; exact absurd hhead nofun)
  obtain rfl : l = .mark whole := (hp.wellFormed l List.mem_cons_self).eq_mark hhead
  obtain ⟨p', hrun, hshows⟩ := hp.narrow hbytes hlength
  obtain ⟨q', hrun', hshows'⟩ := hq.narrow hbytes hlength
  rw [hrun, hrun']
  have hsize : rowSize (.mark whole :: ls) = rowSize (.mark part :: .mark rest :: ls) := by
    rw [rowSize_cons, rowSize_cons, rowSize_cons, Takes.bytes_mark, Takes.bytes_mark,
      Takes.bytes_mark, hbytes, List.length_append, Nat.add_assoc]
  refine .inr ⟨⟨⟨_, inTrait, hsize, hshows, hshows'⟩, hle, hle'⟩, ?_⟩
  have hkind : p'.current.kind = part := hshows.kind_eq
  rcases hcut with rfl | rfl
  · exact .inl hkind
  · exact .inr hkind

end SameRowOrCut

theorem Shows.withTrait {inTrait' : Bool} (h : Shows (c.inMode inTrait') ls p) (inTrait : Bool) :
    Shows (c.inMode inTrait) ls { p with inTrait } :=
  ⟨⟨h.holds.1, h.holds.2, rfl⟩, h.wellFormed, h.kind_eq, h.text_eq, h.rest_eq⟩

theorem Reads.withTrait {inTrait' : Bool} (h : Reads (c.inMode inTrait') ls p) (inTrait : Bool) :
    Reads (c.inMode inTrait) ls { p with inTrait } :=
  ⟨h.toShows.withTrait inTrait, h.marks.1, h.marks.2, h.marks.3⟩

theorem SameRowOrCut.withTrait (h : SameRowOrCut c c' left p q) (inTrait : Bool) :
    SameRowOrCut c c' left { p with inTrait } { q with inTrait } := by
  rcases h with ⟨⟨ls, _, hleft, hp, hq⟩, hle, hle'⟩ | ⟨⟨⟨ls, _, hleft, hp, hq⟩, hle, hle'⟩, hkind⟩
  · exact .inl ⟨⟨ls, inTrait, hleft, hp.withTrait inTrait, hq.withTrait inTrait⟩, hle, hle'⟩
  · exact .inr
      ⟨⟨⟨ls, inTrait, hleft, hp.withTrait inTrait, hq.withTrait inTrait⟩, hle, hle'⟩, hkind⟩

/-- Parsers of two texts of one name, before the same row, in lockstep. -/
def Lockstep.rows (c c' : Setting) (hname : c.name = c'.name) : Lockstep where
  state := SameRowOrCut c c'
  fresh := SameRow Reads c c'
  adrift p q := ∃ inTrait, (c.inMode inTrait).Holds p ∧ (c'.inMode inTrait).Holds q
  told e e' := e.fault = e'.fault ∧ e.context = e'.context
  since _ _ := True
  state_of_fresh := .inl
  fresh_of_kind := SameRowOrCut.reads
  adrift_of_state h := by
    obtain ⟨⟨ls, inTrait, -, hp, hq⟩, -, -⟩ := h.shows
    exact ⟨inTrait, hp.holds, hq.holds⟩
  kind_eq h := by
    obtain ⟨⟨ls, inTrait, -, hp, hq⟩, -, -⟩ := h.shows
    exact hp.kind_eq.trans hq.kind_eq.symm
  text_eq h := by
    obtain ⟨⟨ls, inTrait, -, hp, hq⟩, -, -⟩ := h.shows
    exact hp.text_eq.trans hq.text_eq.symm
  inTrait_eq h := by
    obtain ⟨⟨ls, inTrait, -, hp, hq⟩, -, -⟩ := h.shows
    exact hp.holds.inTrait_eq.trans hq.holds.inTrait_eq.symm
  name_eq h := by
    obtain ⟨⟨ls, inTrait, -, hp, hq⟩, -, -⟩ := h.shows
    exact hp.holds.name_eq.trans (hname.trans hq.holds.name_eq.symm)
  le_left h := by
    obtain ⟨⟨ls, inTrait, -, hp, hq⟩, hle, -⟩ := h.shows
    exact Nat.le_trans hle (Nat.le_of_eq (congrArg Array.size hp.holds.content_eq.symm))
  le_right h := by
    obtain ⟨⟨ls, inTrait, -, hp, hq⟩, -, hle⟩ := h.shows
    exact Nat.le_trans hle (Nat.le_of_eq (congrArg Array.size hq.holds.content_eq.symm))
  state_withTrait inTrait h := h.withTrait inTrait
  adrift_withTrait inTrait h := by
    obtain ⟨inTrait', hp, hq⟩ := h
    exact ⟨inTrait, ⟨hp.1, hp.2, rfl⟩, hq.1, hq.2, rfl⟩
  told_here _ _ := ⟨rfl, rfl⟩
  told_start _ _ := ⟨rfl, rfl⟩
  told_within := @SyntaxError.alike_within
  code_eq := @SyntaxError.code_eq_of_alike
  advance_fresh h := by
    obtain ⟨p', q', left', hrun, hrun', hrow, hle, hlt⟩ := h.advance
    rw [hrun, hrun']
    exact .ok ⟨rfl, rfl⟩ ⟨left', hrow, hle, hlt⟩
  goBack_fresh := by
    rintro left p q p' q' ⟨⟨ls, _, hleft, hp, hq⟩, hle, hle'⟩ ⟨inTrait, hp', hq'⟩
    have hmarks : (c.inMode inTrait).Marks ls ⟨p.start⟩ := ⟨hp.marks.1, hp.marks.2, hp.marks.3⟩
    have hmarks' : (c'.inMode inTrait).Marks ls ⟨q.start⟩ := ⟨hq.marks.1, hq.marks.2, hq.marks.3⟩
    obtain ⟨p'', hrun, hreads⟩ := hmarks.goBack hp'
    obtain ⟨q'', hrun', hreads'⟩ := hmarks'.goBack hq'
    rw [hrun, hrun']
    exact .ok trivial ⟨⟨ls, inTrait, hleft, hreads, hreads'⟩, hle, hle'⟩
  narrow_state := by
    rintro left p q whole part h hwhole hpart
    have hne : p.current.kind ≠ Symbol.gt ∧ p.current.kind ≠ Symbol.pipe := by
      rw [hwhole]
      cases whole with
      | gt => cases hpart
      | pipe => cases hpart
      | _ => exact ⟨by rintro ⟨⟩, by rintro ⟨⟩⟩
    exact SameRowOrCut.narrow (h.reads hne.1 hne.2) hwhole hpart
  since_refl _ := trivial
  since_trans _ _ _ := trivial
  since_advance _ _ _ := trivial
  since_goBack _ _ _ _ := trivial
  since_narrow _ _ _ := trivial

/-! ## Reading beside a parser -/

/-- A parser in `c'` has the row before it that `p` has, and less than `n` bytes are left of it. -/
def Abreast (c c' : Setting) (n : Nat) (p q : Parser Buffer) : Prop :=
  q.inTrait = c'.inTrait ∧ ∃ left < n, SameRowOrCut c c' left p q

section Abreast

variable {n : Nat}

theorem Abreast.of_reads (hp : Reads c ls p) (hq : Reads c' ls q)
    (hinTrait : c.inTrait = c'.inTrait) : Abreast c c' (rowSize ls + 1) p q := by
  refine ⟨hq.holds.inTrait_eq, rowSize ls, Nat.lt_succ_self _,
    .inl ⟨?_, hp.rowSize_le, hq.rowSize_le⟩⟩
  exact ⟨ls, c'.inTrait, rfl, hinTrait ▸ hp, hq⟩

theorem Abreast.kind_eq (h : Abreast c c' n p q) : q.current.kind = p.current.kind := by
  obtain ⟨-, left, -, h⟩ := h
  obtain ⟨⟨ls, inTrait, -, hp, hq⟩, -, -⟩ := h.shows
  exact hq.kind_eq.trans hp.kind_eq.symm

/-- Where the one text ends, the other one does. -/
theorem Abreast.atEnd (h : Abreast c c' n p q) (heof : p.current.kind = .eof) : Reads c' [] q := by
  obtain ⟨hinTrait, left, -, h⟩ := h
  obtain ⟨⟨ls, inTrait, -, hp, hq⟩, -, -⟩ :=
    h.reads (by rw [heof]; exact nofun) (by rw [heof]; exact nofun)
  obtain rfl : inTrait = c'.inTrait := hq.holds.inTrait_eq.symm.trans hinTrait
  cases ls with
  | nil => exact hq
  | cons l ls =>
    have hkind : l.kind = .eof := hp.kind_eq.symm.trans heof
    have hl := hp.wellFormed l List.mem_cons_self
    cases hl <;> exact absurd hkind nofun

/-- What a parser reads of a row, the parsers read that have the row before them. -/
theorem Leads.beside {α β : Type} {k : Nat} {V : α → β → Prop} {x : Parse Buffer α}
    {y : Parse Buffer β} {a : α} (hname : c.name = c'.name)
    (h : (Lockstep.rows c c' hname).Below n k V x y) (hrun : x.run p = (.ok a, p')) :
    Leads (Abreast c c' n p) y (V a) (Abreast c c' n p') := by
  rintro q ⟨hinTrait, left, hn, hs⟩
  have hmeets := h hn hs
  unfold Lockstep.At Lockstep.From at hmeets
  rw [hrun] at hmeets
  rcases hy : y.run q with ⟨r, q'⟩
  rw [hy] at hmeets
  cases hmeets with
  | ok value states =>
    obtain ⟨j, hj, hbehind⟩ := states
    have hp' : p'.inTrait = q'.inTrait := Lockstep.inTrait_eq _ hbehind.state
    have hp : p.inTrait = q.inTrait := Lockstep.inTrait_eq (Lockstep.rows c c' hname) hs
    refine ⟨_, q', rfl, value, ?_, j, by omega, hbehind.state⟩
    rw [← hp', hbehind.inTrait_eq, hp, hinTrait]

end Abreast

end ScriptFront
