import Mathlib.Data.List.Infix
import ScriptFront.Proofs.Sources.Faithful
import ScriptFront.Source.Chunked

/-!
# Chunks are faithful

What a chunk holds is a window of the text, and the length of the text is known rightly if it is
known at all. Every load keeps this, be it forward, backward or far ahead; so a source that reads
chunk by chunk answers what the text says, wherever the chunks begin and end.

- `Text.InChunks`: the invariant, and the position it shows.
- `Text.chunks`: a source of chunks is faithful.
-/

namespace ScriptFront

/-! ## Windows -/

namespace Chunked

variable {c : Chunked} {content : Bytes}

/-- What is at hand from an address on is a window too. -/
theorem window_isPrefix (h : c.chunk.toList <+: content.toList.drop c.chunkStart)
    (address : Nat) : (c.window address).toList <+: content.toList.drop address := by
  unfold window
  split
  case isTrue hle =>
    have hdrop := List.IsPrefix.drop h (address - c.chunkStart)
    rw [List.drop_drop, Nat.add_sub_cancel' hle] at hdrop
    rw [Text.toList_from]
    exact hdrop
  case isFalse => exact List.nil_prefix

/-- The window from an address on begins with the byte at hand there. -/
theorem window_head (c : Chunked) (address : Nat) :
    (c.window address).toList.head? = c.resident address := by
  unfold window resident
  split
  · rw [Text.toList_from, List.head?_drop, Array.getElem?_toList]
  · rfl

/-- A byte at hand is that of the text. -/
theorem content_of_resident (h : c.chunk.toList <+: content.toList.drop c.chunkStart)
    {address : Nat} {byte : UInt8} (hbyte : c.resident address = some byte) :
    content[address]? = some byte := by
  obtain ⟨rest, hrest⟩ := window_isPrefix h address
  rw [← window_head] at hbyte
  have hhead : (content.toList.drop address).head? = some byte := by
    rw [← hrest, List.head?_append, hbyte]
    rfl
  rw [List.head?_drop] at hhead
  simpa using hhead

end Chunked

namespace Text

/-- A source of chunks of the text, at position `n`, of which no load ever failed. -/
structure InChunks (t : Text) (c : Chunked) (n : Nat) : Prop where
  name_eq : c.name = t.name
  content_eq : c.reader.content = t.content
  reliable : c.reader.failsAt = none
  clean : c.failure? = none
  chunk_pos : 0 < c.chunkSize
  /-- The chunk is a window of the text. -/
  window : c.chunk.toList <+: t.content.toList.drop c.chunkStart
  length_eq : ∀ length, c.length? = some length → length = t.content.size
  position_eq : c.position = n
  position_le : n ≤ t.content.size

namespace InChunks

variable {t : Text} {c : Chunked} {n : Nat}

theorem start (t : Text) (chunkSize : Nat) :
    t.InChunks (Chunked.ofReader { content := t.content } t.name chunkSize) 0 where
  name_eq := rfl
  content_eq := rfl
  reliable := rfl
  clean := rfl
  chunk_pos := Nat.le_max_right _ _
  window := List.nil_prefix
  length_eq := nofun
  position_eq := rfl
  position_le := Nat.zero_le _

/-- Only the position is different. -/
theorem moved (h : t.InChunks c n) {m : Nat} (hm : m ≤ t.content.size) :
    t.InChunks { c with position := m } m :=
  { h with position_eq := rfl, position_le := hm }

theorem window_prefix (h : t.InChunks c n) (address : Nat) :
    (c.window address).toList <+: t.content.toList.drop address :=
  Chunked.window_isPrefix h.window address

theorem resident_eq (h : t.InChunks c n) {address : Nat} {byte : UInt8}
    (hbyte : c.resident address = some byte) : t.content[address]? = some byte :=
  Chunked.content_of_resident h.window hbyte

theorem isPast_eq (h : t.InChunks c n) {address : Nat} (hpast : c.isPast address = true) :
    t.content.size ≤ address := by
  unfold Chunked.isPast at hpast
  split at hpast
  case h_1 length hlength =>
    rw [← h.length_eq length hlength]
    exact of_decide_eq_true hpast
  case h_2 => cases hpast

/-! ## Loads -/

/-- What a load delivers: as much of the text as it asks for, or all there is. -/
theorem load_eq (h : t.InChunks c n) (address needed : Nat) :
    c.load address needed =
      let bytes := t.content.extract address (address + c.wanted address needed)
      { c with
        chunk := bytes
        chunkStart := address
        length? := if bytes.size < c.wanted address needed then some (address + bytes.size)
          else c.length? } := by
  have hread : c.reader.read address (c.wanted address needed) =
      .ok (t.content.extract address (address + c.wanted address needed)) := by
    rw [Reader.read, Reader.fails, h.reliable, h.content_eq]
    rfl
  unfold Chunked.load
  simp only [hread]

/-- A load from within the text, that looks no further than addresses go, keeps the invariant, and
the byte it was made for is at hand, if there is one. -/
theorem load (h : t.InChunks c n) {address needed : Nat} (hstart : address ≤ t.content.size)
    (hle : address ≤ needed) (hneeded : needed - address + 1 < addressLimit) :
    t.InChunks (c.load address needed) n ∧
      (c.load address needed).resident needed = t.content[needed]? := by
  have hwant : needed - address < c.wanted address needed := by
    rw [Chunked.wanted, Nat.mod_eq_of_lt hneeded]
    omega
  rw [h.load_eq]
  generalize c.wanted address needed = want at hwant
  have hbytes : (t.content.extract address (address + want)).toList =
      (t.content.toList.drop address).take want := by
    simp
  have hsize : (t.content.extract address (address + want)).size =
      min want (t.content.size - address) := by
    simp
    omega
  refine ⟨⟨h.name_eq, h.content_eq, h.reliable, h.clean, h.chunk_pos, ?_, ?_, h.position_eq,
    h.position_le⟩, ?_⟩
  · show (t.content.extract address (address + want)).toList <+: _
    rw [hbytes]
    exact List.take_prefix _ _
  · intro length hlength
    simp only at hlength
    split at hlength
    case isTrue hshort =>
      -- a load comes back short only where the text ends
      cases hlength
      omega
    case isFalse => exact h.length_eq length hlength
  · show (if address ≤ needed then _ else none) = _
    rw [if_pos hle, ← Array.getElem?_toList, hbytes, List.getElem?_take, if_pos hwant,
      List.getElem?_drop, Nat.add_sub_cancel' hle, Array.getElem?_toList]

/-! ## Questions -/

/-- The byte at an address is that of the text, loaded or not. -/
theorem byteAt (h : t.InChunks c n) {address : Nat} (hlimit : address < addressLimit - 1) :
    ((Chunked.byteAt address).run c).1 = t.content[address]? ∧
      t.InChunks ((Chunked.byteAt address).run c).2 n := by
  show (Chunked.byteAt address c).1 = _ ∧ t.InChunks (Chunked.byteAt address c).2 n
  unfold Chunked.byteAt
  split
  case h_1 byte hbyte => exact ⟨(h.resident_eq hbyte).symm, h⟩
  case h_2 =>
    split
    case isTrue hpast =>
      exact ⟨(Array.getElem?_eq_none (h.isPast_eq hpast)).symm, h⟩
    case isFalse =>
      -- the load starts at the current byte or before it, hence within the text
      have hposition := h.position_eq
      have hle := h.position_le
      have hstart : min c.position address ≤ t.content.size := by omega
      obtain ⟨hinv, hbyte⟩ := h.load hstart (Nat.min_le_right _ address) (by omega)
      exact ⟨hbyte, hinv⟩

end InChunks

theorem byteAhead (t : Text) {n : Nat} (k : Nat) (hlimit : n + k < addressLimit - 1) :
    Gives t.InChunks n (Chunked.byteAhead k) t.content[n + k]? n := by
  intro c h
  have hrun : (Chunked.byteAhead k).run c = (Chunked.byteAt (n + k)).run c := by
    show (if c.position + k < addressLimit then Chunked.byteAt (c.position + k)
      else (pure none : StateM Chunked (Option UInt8))).run c = _
    rw [h.position_eq, if_pos (by omega)]
  rw [hrun]
  exact h.byteAt hlimit

/-- Single steps over chunks are those of the text. -/
theorem chunkSteps (t : Text) : t.Steps (addressLimit - 1) t.InChunks where
  name_eq h := h.name_eq
  position_eq h := h.position_eq
  extent_eq h := congrArg Array.size h.content_eq
  position_le h := h.position_le
  read k hk := (t.byteAhead k hk).bind (.pure _)
  has k hk := by
    rw [← isSome_content]
    exact (t.byteAhead k hk).bind (.pure _)
  advance {n} hn := by
    refine (t.byteAhead 0 hn).bind ?_
    rw [Nat.add_zero, isSome_content]
    by_cases hlt : n < t.content.size
    · rw [if_pos (decide_eq_true hlt), Nat.min_eq_left hlt]
      intro c h
      refine ⟨rfl, ?_⟩
      have hmoved := h.moved hlt
      rw [← h.position_eq] at hmoved ⊢
      exact hmoved
    · rw [if_neg (by simpa using hlt)]
      refine .ofShown fun c h => ?_
      have hle := h.position_le
      rw [Nat.min_eq_right (by omega), show t.content.size = n by omega]
      exact .pure ()
  reset {_ m} hm := by
    intro c h
    refine ⟨rfl, ?_⟩
    have hmoved : ∀ target, target = m → t.InChunks { c with position := target } m := by
      rintro _ rfl
      exact h.moved hm
    refine hmoved _ ?_
    split
    case h_1 length hlength => rw [h.length_eq length hlength, Nat.min_eq_left hm]
    case h_2 => rfl

/-! ## Searching -/

/-- What a window does not hold is searched for behind it. -/
theorem distance_append (t : Text) {window : Bytes} {address : Nat} (needle : UInt8)
    (h : window.toList <+: t.content.toList.drop address) :
    t.distance address needle = (window.idxOf? needle).or
      ((t.distance (address + window.size) needle).map (· + window.size)) := by
  obtain ⟨rest, hrest⟩ := h
  have hbehind : t.content.toList.drop (address + window.size) = rest := by
    rw [← List.drop_drop, ← hrest]
    simp
  rw [distance_eq, distance_eq, hbehind, ← hrest, ← idxOf?_toList]
  exact List.findIdx?_append

/-- A search in the window that begins with the byte at `address` leaves something behind, if it
does not find anything. -/
theorem searchWindow {t : Text} {c : Chunked} {n address : Nat} (h : t.InChunks c n)
    (needle : UInt8) {further : Nat → StateM Chunked (Option Nat)}
    (hresident : c.resident address = t.content[address]?)
    (hfurther : ∀ next, address < next → next ≤ t.content.size →
      Gives t.InChunks n (further next) ((t.distance next needle).map (next + · - n)) n) :
    ((Chunked.searchWindow needle further address).run c).1 =
        (t.distance address needle).map (address + · - n) ∧
      t.InChunks ((Chunked.searchWindow needle further address).run c).2 n := by
  have hwindow := h.window_prefix address
  have hdistance := t.distance_append needle hwindow
  have hhead := Chunked.window_head c address
  rw [hresident] at hhead
  have hlength := hwindow.length_le
  rw [List.length_drop, Array.length_toList, Array.length_toList] at hlength
  unfold Chunked.searchWindow
  simp only [StateT.run_bind, StateT.run_get, pure_bind, Array.isEmpty]
  generalize c.window address = window at *
  by_cases hempty : window.size = 0
  · have hend : t.content.size ≤ address := by
      rw [List.eq_nil_of_length_eq_zero hempty] at hhead
      exact Array.getElem?_eq_none_iff.1 hhead.symm
    have hnone : t.distance address needle = none := distance_of_le hend
    rw [hnone]
    simp only [hempty]
    exact ⟨rfl, h⟩
  · simp only [hempty, decide_false, Bool.false_eq_true, if_false]
    cases hfound : window.idxOf? needle with
    | some found =>
      refine ⟨?_, h⟩
      rw [hdistance, hfound, ← h.position_eq]
      rfl
    | none =>
      have hnext := hfurther (address + window.size) (by omega) (by omega) h
      have hshift : t.distance address needle =
          (t.distance (address + window.size) needle).map (· + window.size) := by
        rw [hdistance, hfound, Option.none_or]
      rw [hshift, Option.map_map]
      have hsame : ((address + · - n) ∘ (· + window.size)) = (address + window.size + · - n) := by
        funext k
        simp only [Function.comp_apply]
        omega
      rw [hsame]
      exact hnext

/-- Chunk by chunk, the search finds what the text says. -/
theorem slide (t : Text) {n : Nat} (needle : UInt8) (steps address : Nat) (hn : n ≤ address)
    (haddress : address ≤ t.content.size) (hsteps : t.content.size + 1 < address + steps) :
    Gives t.InChunks n (Chunked.slide needle steps address)
      ((t.distance address needle).map (address + · - n)) n := by
  induction steps generalizing address with
  | zero => omega
  | succ steps ih =>
    have hfurther : ∀ next, address < next → next ≤ t.content.size →
        Gives t.InChunks n (Chunked.slide needle steps next)
          ((t.distance next needle).map (next + · - n)) n :=
      fun next hlt hle => ih next (by omega) hle (by omega)
    intro c h
    unfold Chunked.slide
    cases hresident : c.resident address with
    | some byte =>
      have hsearch := searchWindow h needle (hresident.trans (h.resident_eq hresident).symm)
        hfurther
      simp only [StateT.run_bind, StateT.run_get, pure_bind, hresident]
      exact hsearch
    | none =>
      simp only [StateT.run_bind, StateT.run_get, pure_bind, hresident]
      by_cases hpast : c.isPast address = true
      · rw [distance_of_le (h.isPast_eq hpast)]
        simp only [hpast]
        exact ⟨rfl, h⟩
      · obtain ⟨hloaded, hbyte⟩ := h.load haddress (Nat.le_refl _)
          (by rw [Nat.sub_self]; decide)
        have hsearch := searchWindow hloaded needle hbyte hfurther
        simp only [hpast]
        exact hsearch

/-- A source of chunks is faithful, whatever the size of its chunks. -/
theorem chunks (t : Text) : t.Faithful (addressLimit - 1) t.InChunks where
  toSteps := t.chunkSteps
  find {n} needle := by
    intro c h
    have hle := h.position_le
    have hslide := t.slide needle (t.content.size + 2) n (Nat.le_refl n) hle (by omega) h
    have hrun : (ByteSource.find needle : StateM Chunked _).run c =
        (Chunked.slide needle (t.content.size + 2) n).run c := by
      show (Chunked.slide needle (c.reader.content.size + 2) c.position).run c = _
      rw [h.content_eq, h.position_eq]
    rw [hrun]
    simpa using hslide
  skip := t.chunkSteps.skipStepwise

end Text

end ScriptFront
