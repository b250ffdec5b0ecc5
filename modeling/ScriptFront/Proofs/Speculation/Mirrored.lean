import ScriptFront.Proofs.Sources.Interchange
import ScriptFront.Proofs.Speculation.Guarded
import ScriptFront.Proofs.Speculation.Steady

/-!
# Steady readings of every source

A parser over a faithful source of a text has an image: the parser over the text in memory that
stands at the same place. What is known of a reading of the text in memory is so known of a reading
from every source, and a reading of a source is simulated by itself with all that is known of it.

- `Course.Mirrors`: a parser whose image is known.
- `Course.simulation`: steady readings of a source, simulated by themselves.
- `Course.restores`: they go back to what they were.
- `Course.ofSource`: a fresh parser has a fresh image.
-/

namespace ScriptFront

open ScriptFront.Parser

/-! ## Parsers over one text -/

namespace Twins

variable {σ τ : Type} [ByteSource σ] [ByteSource τ] {T : Twins σ τ}

/-- Two kinds of sources, of which the second is the first again. -/
def self (T : Twins σ τ) : Twins σ σ :=
  ⟨T.text, T.limit, T.left, T.left, T.left_faithful, T.left_faithful, T.room⟩

namespace Together

variable {p p' : Parser σ} {q q' : Parser τ}

/-- Parsers that stay together show the same. -/
theorem view_eq (h : T.Together p q) : p.view = q.view := by
  obtain ⟨n, -, hn⟩ := h.lexers
  rw [view, view, h.current_eq, h.start_eq, hn.place_eq, h.inTrait_eq]

/-- Two parsers that show the same are together if each is together with one of the other kind and
the tab widths of these two are the same. -/
theorem of_view (h : T.Together p q) (h' : T.Together p' q') (hview : p'.view = p.view)
    (htab : q'.lexer.tabWidth = q.lexer.tabWidth) : T.self.Together p p' := by
  obtain ⟨n, -, hn⟩ := h.lexers
  obtain ⟨n', -, hn'⟩ := h'.lexers
  have hplace : p'.lexer.place = p.lexer.place := congrArg View.lexerPlace hview
  have hoffset : n' = n := by
    rw [← hn'.offset_eq, ← hn.offset_eq, hplace]
  subst hoffset
  refine ⟨⟨n', Nat.zero_le _, hn.left, hn'.left, ?_, ?_, ?_⟩, ?_, ?_, ?_, h.start_le, h.start_lt⟩
  · exact (congrArg (·.line) hplace).symm
  · exact (congrArg (·.column) hplace).symm
  · rw [hn.tabWidth_eq, hn'.tabWidth_eq, htab]
  · exact (congrArg View.current hview).symm
  · exact (congrArg View.start hview).symm
  · exact (congrArg View.inTrait hview).symm

end Together

end Twins

/-! ## Images -/

namespace Course

variable {σ : Type} [ByteSource σ] (C : Course) (T : Twins σ Buffer)

/-- A parser, beside itself, that is together with one of which `P` holds. -/
structure Mirrors (P : Parser Buffer → Prop) (p q : Parser σ) : Prop where
  eq : p = q
  image : ∃ b, T.Together p b ∧ P b

variable {C T} {p q : Parser σ} {b : Parser Buffer} {P Q : Parser Buffer → Prop}

theorem Mirrors.mono (h : Mirrors T P p q) (hP : ∀ b, P b → Q b) : Mirrors T Q p q := by
  obtain ⟨heq, b, hb, hPb⟩ := h
  exact ⟨heq, b, hb, hP b hPb⟩

/-- A step is known of a parser that is known of its image. -/
theorem arrival {α : Type} {x : Parse σ α} {y : Parse Buffer α} (h : T.Together p b)
    (hxy : Coupled T.Together Eq x y) (hinTrait : (x.run p).2.inTrait = p.inTrait)
    (hy : Ends (fun e q => C.Told e ∧ C.Adrift q) y b fun _ q => Q q) :
    Arrival C.Told (Kept (Mirrors T C.Adrift) p.inTrait) Eq (Kept (Mirrors T Q) p.inTrait)
      (x.run p) (x.run p) := by
  obtain ⟨hmatching, hstates⟩ := hxy h
  unfold Ends at hy
  rcases hx : x.run p with ⟨r, p'⟩
  rcases hb : y.run b with ⟨r', b'⟩
  rw [hx] at hinTrait
  rw [hx, hb] at hmatching hstates
  rw [hb] at hy
  cases hmatching with
  | ok _ => exact .ok rfl ⟨⟨rfl, b', hstates, hy⟩, hinTrait⟩
  | error e => exact .error hy.1 ⟨⟨rfl, b', hstates, hy.2⟩, hinTrait⟩

/-- Steady readings of a source, simulated by themselves. -/
def simulation (C : Course) (T : Twins σ Buffer) : Simulation σ σ where
  state := Mirrors T C.Steady
  fresh := Mirrors T C.Fresh
  adrift := Mirrors T C.Adrift
  known b := b.start.offset ≤ T.text.content.size ∧ C.Known b
  told := C.Told
  state_of_fresh h := h.mono fun _ => .inl
  fresh_of_kind := by
    rintro p _ ⟨rfl, b, hb, hsteady⟩ hgt hpipe
    rw [hb.current_eq] at hgt hpipe
    exact ⟨rfl, b, hb, hsteady.fresh hgt hpipe⟩
  adrift_of_state h := h.mono fun _ => Steady.sameText
  current_eq h := h.eq ▸ rfl
  start_eq h := h.eq ▸ rfl
  known_start := by
    rintro p _ ⟨rfl, b, hb, hsteady⟩
    refine ⟨hb.start_le, ?_⟩
    rw [hb.start_eq]
    exact hsteady.known
  inTrait_eq h := h.eq ▸ rfl
  extent_eq h := h.eq ▸ rfl
  name_eq h := h.eq ▸ rfl
  state_withTrait := by
    rintro p _ inTrait ⟨rfl, b, hb, hsteady⟩
    exact ⟨rfl, { b with inTrait }, { hb with inTrait_eq := rfl }, hsteady.withTrait inTrait⟩
  adrift_withTrait := by
    rintro p _ inTrait ⟨rfl, b, hb, hadrift⟩
    exact ⟨rfl, { b with inTrait }, { hb with inTrait_eq := rfl }, hadrift⟩
  told_here := by
    rintro p _ fault ⟨rfl, b, hb, hsteady⟩ hfault -
    rw [hb.current_eq]
    exact Told.here hsteady hfault
  told_at hb hfault _ := Told.at_known hb.2 hfault
  told_within := Told.within
  advance_fresh := by
    rintro p _ ⟨rfl, b, hb, hsteady⟩
    exact arrival hb Twins.Together.advance inTrait_advance (advance hsteady)
  peek_state := by
    rintro p _ ⟨rfl, b, hb, hsteady⟩
    refine arrival hb Twins.Together.peek inTrait_peek ?_
    obtain ⟨result, hrun, htold⟩ := peek hsteady
    unfold Ends
    rw [hrun]
    cases result with
    | ok _ => exact hsteady
    | error e => exact ⟨htold e rfl, hsteady.sameText⟩
  goBack_fresh := by
    rintro bookmark p _ ⟨hle, hknown⟩ ⟨rfl, b, hb, hadrift⟩
    refine arrival hb (Twins.Together.goBack hle) (inTrait_goBack bookmark) ?_
    obtain ⟨token, behind, hstands, hrun⟩ := goBack hknown hadrift
    exact .of_run hrun hstands
  narrow_state := by
    rintro p _ whole part ⟨rfl, b, hb, hsteady⟩ hwhole hpart
    have hnarrow := hb.narrow part hwhole
    rw [hb.current_eq] at hwhole
    obtain ⟨hgt, hpipe⟩ := ne_of_cut hpart
    refine ⟨rfl, _, hnarrow, .inr (narrow (hsteady.fresh ?_ ?_) hwhole hpart)⟩
    · rw [hwhole]
      exact hgt
    · rw [hwhole]
      exact hpipe

/-- Going back to a token leads to what was shown there. -/
theorem restores (C : Course) (T : Twins σ Buffer) : (C.simulation T).Restores where
  eq_of_state h := h.eq
  eq_of_adrift h := h.eq
  goBack := by
    rintro p q ⟨-, b, hb, hfresh⟩ ⟨-, d, hd, hadrift⟩ hinTrait
    rw [hb.inTrait_eq, hd.inTrait_eq] at hinTrait
    have hback := goBack_fresh hfresh hadrift hinTrait
    obtain ⟨hmatching, hstates⟩ := Twins.Together.goBack (b := ⟨p.start⟩) hb.start_le hd
    rw [hb.start_eq, hback] at hmatching hstates
    rw [hb.start_eq]
    rcases hrun : (Parser.goBack ⟨b.start⟩).run q with ⟨result, r⟩
    rw [hrun] at hmatching hstates
    cases hmatching with
    | ok _ => exact ⟨r, rfl, ⟨rfl, b, hstates, hfresh⟩, hstates.view_eq.trans hb.view_eq.symm⟩
  peek_view := by
    rintro p ⟨-, b, hb, hsteady⟩
    obtain ⟨result, hrun, -⟩ := peek hsteady
    have hstates := (Twins.Together.peek hb).2
    rw [hrun] at hstates
    exact hstates.view_eq.trans hb.view_eq.symm
  alike := by
    rintro p r ⟨-, b, hb, hfresh⟩ ⟨-, d, hd, hfresh'⟩ hview
    have htab : d.lexer.tabWidth = b.lexer.tabWidth :=
      hfresh'.sameText.tabWidth_eq.trans hfresh.sameText.tabWidth_eq.symm
    exact ⟨T.self.simulation, hb.of_view hd hview htab, fun _ _ h => h.view_eq.symm⟩

end Course

end ScriptFront
