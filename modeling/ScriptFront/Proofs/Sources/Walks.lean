import ScriptFront.Proofs.Sources.Faithful
import ScriptFront.Proofs.Sources.Strides

/-!
# Two walks over one text

Two walkers over faithful sources of one text stay side by side: they stand at the same place and
see the same bytes.

- `Twins`: two kinds of sources that are faithful to one text, with room to look three bytes past
  its end.
- `Twins.beside least`: two walkers side by side, no nearer to the start than `least`.
- `Twins.strides`: they correspond step by step.
-/

namespace ScriptFront

/-! ## Sources of one text -/

/-- Two kinds of sources of one text. -/
structure Twins (σ τ : Type) [ByteSource σ] [ByteSource τ] where
  text : Text
  limit : Nat
  left : σ → Nat → Prop
  right : τ → Nat → Prop
  left_faithful : text.Faithful limit left
  right_faithful : text.Faithful limit right
  /-- The lexer looks at most three bytes ahead. -/
  room : text.content.size + 3 < limit

namespace Twins

variable {σ τ : Type} [ByteSource σ] [ByteSource τ] (T : Twins σ τ)

/-- Both walkers stand at offset `n`. -/
structure Abreast (n : Nat) (w : Walker σ) (v : Walker τ) : Prop where
  left : T.left w.source n
  right : T.right v.source n
  line_eq : w.line = v.line
  column_eq : w.column = v.column
  tabWidth_eq : w.tabWidth = v.tabWidth

/-- Both walkers stand at one offset, which is `least` or more. -/
def beside (least : Nat) (w : Walker σ) (v : Walker τ) : Prop :=
  ∃ n, least ≤ n ∧ T.Abreast n w v

variable {T} {least n : Nat} {w : Walker σ} {v : Walker τ}

namespace Abreast

theorem position_le (h : T.Abreast n w v) : n ≤ T.text.content.size :=
  T.left_faithful.position_le h.left

theorem place_eq (h : T.Abreast n w v) : w.place = v.place := by
  rw [Walker.place, Walker.place, Walker.linePosition, Walker.linePosition, h.line_eq,
    h.column_eq, T.left_faithful.position_eq h.left, T.right_faithful.position_eq h.right]

theorem offset_eq (h : T.Abreast n w v) : w.place.offset = n :=
  T.left_faithful.position_eq h.left

theorem extent_eq (h : T.Abreast n w v) : w.extent = v.extent := by
  rw [Walker.extent, Walker.extent, T.left_faithful.extent_eq h.left,
    T.right_faithful.extent_eq h.right]

theorem name_eq (h : T.Abreast n w v) : w.name = v.name := by
  rw [Walker.name, Walker.name, T.left_faithful.name_eq h.left,
    T.right_faithful.name_eq h.right]

end Abreast

theorem beside.extent_eq (h : T.beside least w v) : w.extent = v.extent := by
  obtain ⟨_, _, h⟩ := h
  exact h.extent_eq

/-- Walkers side by side are side by side from any earlier offset on. -/
theorem beside.mono {least' : Nat} (h : T.beside least w v) (hle : least' ≤ least) :
    T.beside least' w v := by
  obtain ⟨n, hn, h⟩ := h
  exact ⟨n, Nat.le_trans hle hn, h⟩

/-! ## Asking the sources -/

/-- What both sources answer, both walkers learn. -/
theorem ask {α : Type} {m : Nat} {x : StateM σ α} {y : StateM τ α} {a : α}
    (hx : Gives T.left n x a m) (hy : Gives T.right n y a m) (h : T.Abreast n w v) :
    ((Walker.ask x).run w).1 = a ∧ ((Walker.ask y).run v).1 = a ∧
      T.Abreast m ((Walker.ask x).run w).2 ((Walker.ask y).run v).2 :=
  ⟨(hx h.left).1, (hy h.right).1, (hx h.left).2, (hy h.right).2, h.line_eq, h.column_eq,
    h.tabWidth_eq⟩

/-- An answer that is the same from every position leaves the walkers side by side. -/
theorem pairedAsk {α : Type} {x : StateM σ α} {y : StateM τ α} (answer : Nat → α) (next : Nat → Nat)
    (hnext : ∀ n, n ≤ T.text.content.size → n ≤ next n)
    (hx : ∀ n, n ≤ T.text.content.size → Gives T.left n x (answer n) (next n))
    (hy : ∀ n, n ≤ T.text.content.size → Gives T.right n y (answer n) (next n)) :
    Paired (T.beside least) Eq (Walker.ask x) (Walker.ask y) := by
  rintro w v ⟨n, hn, h⟩
  have hle := h.position_le
  obtain ⟨hl, hr, hstep⟩ := ask (hx n hle) (hy n hle) h
  exact ⟨hl.trans hr.symm, next n, Nat.le_trans hn (hnext n hle), hstep⟩

theorem read {k : Nat} (hk : k ≤ 3) :
    Paired (T.beside least) Eq (Walker.read k) (Walker.read k) := by
  have hroom := T.room
  refine pairedAsk (fun n => T.text.byteAt (n + k)) id (fun _ _ => Nat.le_refl _) ?_ ?_
  · exact fun n hn => T.left_faithful.read k (by omega)
  · exact fun n hn => T.right_faithful.read k (by omega)

theorem atEnd : Paired (T.beside least) Eq Walker.atEnd Walker.atEnd := by
  have hroom := T.room
  refine pairedAsk (fun n => decide (T.text.content.size ≤ n)) id (fun _ _ => Nat.le_refl _) ?_ ?_
  · exact fun n hn => T.left_faithful.atEnd (by omega)
  · exact fun n hn => T.right_faithful.atEnd (by omega)

theorem sourceAdvance : Paired (T.beside least) Eq (Walker.ask ByteAccess.advance)
    (Walker.ask ByteAccess.advance) := by
  have hroom := T.room
  refine pairedAsk (fun _ => ()) (fun n => min (n + 1) T.text.content.size) (by omega) ?_ ?_
  · exact fun n hn => T.left_faithful.advance (by omega)
  · exact fun n hn => T.right_faithful.advance (by omega)

theorem find (needle : UInt8) : Paired (T.beside least) Eq (Walker.ask (ByteSource.find needle))
    (Walker.ask (ByteSource.find needle)) :=
  pairedAsk (T.text.distance · needle) id (fun _ _ => Nat.le_refl _)
    (fun _ _ => T.left_faithful.find needle) (fun _ _ => T.right_faithful.find needle)

theorem sourceSkip (count : Nat) : Paired (T.beside least) Eq
    (Walker.ask (ByteSource.skip count)) (Walker.ask (ByteSource.skip count)) := by
  have hroom := T.room
  refine pairedAsk (fun _ => ()) (fun n => min (n + count) T.text.content.size) (by omega) ?_ ?_
  · exact fun n hn => T.left_faithful.skip count (by omega)
  · exact fun n hn => T.right_faithful.skip count (by omega)

/-- Both walkers go to one place of the text. -/
theorem reset {target : Place} (hleast : least ≤ target.offset)
    (hle : target.offset ≤ T.text.content.size) {least' : Nat} (h : T.beside least' w v) :
    T.beside least ((Walker.reset target).run w).2 ((Walker.reset target).run v).2 := by
  obtain ⟨n, _, h⟩ := h
  obtain ⟨_, _, hstep⟩ := ask (T.left_faithful.reset (n := n) hle)
    (T.right_faithful.reset (n := n) hle) h
  exact ⟨target.offset, hleast, hstep.left, hstep.right, rfl, rfl, hstep.tabWidth_eq⟩

/-- Walkers side by side can go back to any place of the text. -/
def strides (T : Twins σ τ) : Strides σ τ where
  rel := T.beside
  known least place := least ≤ place.offset ∧ place.offset ≤ T.text.content.size
  place_eq := fun ⟨_, _, h⟩ => h.place_eq
  tabWidth_eq := fun ⟨_, _, h⟩ => h.tabWidth_eq
  extent_eq := beside.extent_eq
  known_place := fun ⟨_, hn, h⟩ => by
    rw [h.offset_eq]
    exact ⟨hn, h.position_le⟩
  read := read
  atEnd h := atEnd h
  sourceAdvance h := sourceAdvance h
  find := find
  sourceSkip := sourceSkip
  counted _ _ := fun ⟨n, hn, h⟩ => ⟨n, hn, h.left, h.right, rfl, rfl, h.tabWidth_eq⟩
  reset hknown h := reset hknown.1 hknown.2 h

end Twins

end ScriptFront
