import ScriptFront.Proofs.Sources.Windows

/-!
# Arithmetic of addresses

Addresses are machine words. `Words` has the calls of a source of chunks once more, every sum and
every difference in them taken of words: a call stops, with nothing to answer, where a sum is too
large or a difference negative. Sums that a call tests before it uses them do not count.

- `Word.add?`, `Word.sub?`: sums and differences that stop.
- `Words.load`, …, `Words.find`: the calls over them.
- `Chunked.Addressed`: all that a source keeps is a word, and so is the size of its text.
- `Chunked.addresses_fit`: no call stops, with one exception, and what each comes to then.
- `Chunked.addresses_overflow`: the exception, and what comes of it.
-/

namespace ScriptFront

/-- A sum of words, if it is a word. -/
def Word.add? (a b : Nat) : Option Nat := if a + b < addressLimit then some (a + b) else none

/-- A difference of words, if it is a word. -/
def Word.sub? (a b : Nat) : Option Nat := if b ≤ a then some (a - b) else none

theorem Word.add?_eq {a b : Nat} (h : a + b < addressLimit) : Word.add? a b = some (a + b) :=
  if_pos h

theorem Word.sub?_eq {a b : Nat} (h : b ≤ a) : Word.sub? a b = some (a - b) := if_pos h

namespace Words

/-- What is known of the length after a load that brings `count` of `want` bytes. -/
def learn (start want count : Nat) (length? : Option Nat) : Option (Option Nat) :=
  if count < want then (Word.add? start count).map some else some length?

/-- Replace the chunk by one from `start` on that holds the byte at `needed`, if there is one. -/
def load (start needed : Nat) (c : Chunked) : Option Chunked := do
  let want := max c.chunkSize (← Word.add? (← Word.sub? needed start) 1)
  match c.reader.read start want with
  | .ok bytes => do
    return { c with
      chunk := bytes
      chunkStart := start
      length? := ← learn start want bytes.size c.length? }
  | .error failure =>
    return { c with
      chunk := #[]
      chunkStart := start
      length? := some start
      failure? := c.failure?.or (some failure) }

/-- The byte at an address, loaded if it is not at hand. -/
def byteAt (address : Nat) (c : Chunked) : Option (Option UInt8 × Chunked) :=
  match c.resident address with
  | some byte => some (some byte, c)
  | none =>
    if c.isPast address then some (none, c)
    else do
      let c ← load (min c.position address) address c
      return (c.resident address, c)

/-- The byte `ahead` of the current one; none if that is no address. -/
def byteAhead (ahead : Nat) (c : Chunked) : Option (Option UInt8 × Chunked) :=
  if c.position + ahead < addressLimit then byteAt (c.position + ahead) c else some (none, c)

/-- The byte `ahead` of the current one, or the end byte. -/
def read (ahead : Nat) (c : Chunked) : Option (UInt8 × Chunked) := do
  let (byte?, c) ← byteAhead ahead c
  return (byte?.getD endByte, c)

/-- Whether there is a byte `ahead` of the current one. -/
def has (ahead : Nat) (c : Chunked) : Option (Bool × Chunked) := do
  let (byte?, c) ← byteAhead ahead c
  return (byte?.isSome, c)

/-- Move to the next byte, if there is a current one. -/
def advance (c : Chunked) : Option (Unit × Chunked) := do
  let (byte?, c) ← byteAhead 0 c
  if byte?.isSome then return ((), { c with position := ← Word.add? c.position 1 })
  else return ((), c)

/-- Search in what is at hand from `address` on, and with `further` behind it. -/
def searchWindow (needle : UInt8) (further : Nat → Chunked → Option (Option Nat × Chunked))
    (address : Nat) (c : Chunked) : Option (Option Nat × Chunked) :=
  let window := c.window address
  if window.isEmpty then some (none, c)
  else match window.idxOf? needle with
    | some found => do return (some (← Word.sub? (← Word.add? address found) c.position), c)
    | none => do further (← Word.add? address window.size) c

/-- Search from `address` on, chunk by chunk. -/
def slide (needle : UInt8) : (steps address : Nat) → Chunked → Option (Option Nat × Chunked)
  | 0, _, c => some (none, c)
  | steps + 1, address, c =>
    if (c.resident address).isSome then searchWindow needle (slide needle steps) address c
    else if c.isPast address then some (none, c)
    else do searchWindow needle (slide needle steps) address (← load address address c)

/-- The distance from the current position to the next such byte. -/
def find (needle : UInt8) (c : Chunked) : Option (Option Nat × Chunked) :=
  slide needle (c.reader.content.size + 2) c.position c

end Words

/-- A call with nothing but words in it. -/
def Call.IsWord : Call → Prop
  | .read ahead | .has ahead => ahead < addressLimit
  | .reset target => target < addressLimit
  | .skip count => count < addressLimit
  | .atEnd | .advance | .find _ => True

instance : DecidablePred Call.IsWord
  | .read ahead | .has ahead => inferInstanceAs (Decidable (ahead < addressLimit))
  | .reset target => inferInstanceAs (Decidable (target < addressLimit))
  | .skip count => inferInstanceAs (Decidable (count < addressLimit))
  | .atEnd | .advance | .find _ => inferInstanceAs (Decidable True)

namespace Chunked

/-- All that a source keeps is a word, and so is the size of its text. -/
structure Addressed (c : Chunked) : Prop extends Held c where
  size_lt : c.reader.content.size < addressLimit
  position_lt : c.position < addressLimit
  length_lt : ∀ length, c.length? = some length → length < addressLimit

variable {c d : Chunked} {start needed address : Nat}

theorem addressed_ofReader {reader : Reader} (h : reader.content.size < addressLimit)
    (name : String) (chunkSize : Nat) : Addressed (ofReader reader name chunkSize) where
  toHeld := held_ofReader reader name chunkSize
  size_lt := h
  position_lt := show 0 < addressLimit by decide
  length_lt := nofun

namespace Addressed

/-! ## Loads -/

/-- Wherever a load starts, it leaves nothing but words; also if the count of bytes that it asks for
has become too large for one. -/
theorem load (h : Addressed c) (hle : start ≤ needed) (hopen : c.isPast needed = false)
    (hstart : start < addressLimit) : Addressed (c.load start needed) := by
  have hsize := h.size_lt
  refine {
    toHeld := h.toHeld.load hle hopen
    size_lt := (reader_load c start needed).symm ▸ hsize
    position_lt := (position_load c start needed).symm ▸ h.position_lt
    length_lt := ?_ }
  cases hfails : c.reader.fails start (c.wanted start needed) with
  | true =>
    rw [load_of_fails hfails]
    intro length hlength
    exact Option.some.inj hlength ▸ hstart
  | false =>
    rw [load_of_not_fails hfails]
    intro length
    dsimp only
    split
    case isTrue =>
      intro hlength
      rw [Array.size_extract] at hlength
      have := Option.some.inj hlength
      omega
    case isFalse => exact h.length_lt length

theorem words_learn {want count : Nat} {length? : Option Nat} (h : start + count < addressLimit) :
    Words.learn start want count length? =
      some (if count < want then some (start + count) else length?) := by
  unfold Words.learn
  split
  case isTrue =>
    rw [Word.add?_eq h]
    rfl
  case isFalse => rfl

/-- A load that asks for a count of bytes that is a word takes no sum that is none. -/
theorem words_load (h : Addressed c) (hle : start ≤ needed) (hstart : start < addressLimit)
    (hcount : needed - start + 1 < addressLimit) :
    Words.load start needed c = some (c.load start needed) := by
  have hsize := h.size_lt
  have hwant : max c.chunkSize (needed - start + 1) = c.wanted start needed := by
    rw [wanted, Nat.mod_eq_of_lt hcount]
  have hopen : Words.load start needed c =
      match c.reader.read start (c.wanted start needed) with
      | .ok bytes => (Words.learn start (c.wanted start needed) bytes.size c.length?).bind
          fun length? => some { c with chunk := bytes, chunkStart := start, length? }
      | .error failure => some { c with
          chunk := #[]
          chunkStart := start
          length? := some start
          failure? := c.failure?.or (some failure) } := by
    simp only [Words.load, Word.sub?_eq hle, Word.add?_eq hcount, Option.bind_eq_bind,
      Option.bind_some, hwant]
    rfl
  rw [hopen, Reader.read_eq]
  cases hfails : c.reader.fails start (c.wanted start needed) with
  | true =>
    rw [load_of_fails hfails]
    rfl
  | false =>
    rw [load_of_not_fails hfails]
    have hbytes : start + (c.reader.content.extract start
        (start + c.wanted start needed)).size < addressLimit := by
      rw [Array.size_extract]
      omega
    simp only [Bool.false_eq_true, if_false, words_learn hbytes, Option.bind_some]

/-! ## Single bytes -/

theorem byteAt (h : Addressed c) : Addressed ((Chunked.byteAt address).run c).2 := by
  show Addressed (Chunked.byteAt address c).2
  unfold Chunked.byteAt
  split
  case h_1 => exact h
  case h_2 =>
    split
    case isTrue => exact h
    case isFalse hopen =>
      have hposition := h.position_lt
      exact h.load (Nat.min_le_right _ _) (by simpa using hopen) (by omega)

theorem byteAhead (h : Addressed c) (ahead : Nat) :
    Addressed ((Chunked.byteAhead ahead).run c).2 := by
  by_cases hlimit : c.position + ahead < addressLimit
  · rw [run_byteAhead hlimit]
    exact h.byteAt
  · rw [run_byteAhead_none (Nat.not_lt.1 hlimit)]
    exact h

theorem resident_none (h : Addressed c) (hpast : c.reader.content.size ≤ address) :
    c.resident address = none := by
  cases hresident : c.resident address with
  | none => rfl
  | some byte =>
    have hlt := (Array.getElem?_eq_some_iff.1 (h.resident hresident).1).1
    exact absurd hlt (Nat.not_lt.2 hpast)

/-- A byte at an address to which it takes no too large count of bytes is looked up without a sum
that is none. -/
theorem words_byteAt (h : Addressed c) (hmin : min c.position address = c.position)
    (hcount : c.isPast address = false → address - c.position + 1 < addressLimit) :
    Words.byteAt address c = some (Chunked.byteAt address c) := by
  unfold Words.byteAt Chunked.byteAt
  cases c.resident address with
  | some byte => rfl
  | none =>
    cases hpast : c.isPast address with
    | true => rfl
    | false =>
      have hload := h.words_load (Nat.min_le_right c.position address)
        (hmin.symm ▸ h.position_lt) (hmin.symm ▸ hcount hpast)
      simp only [Bool.false_eq_true, if_false, hload, Option.bind_eq_bind, Option.bind_some]
      rfl

/-- Only from the start does it take that many bytes to reach an address; and if a length is known,
the last address lies past it. -/
theorem count_lt (h : Addressed c) {ahead : Nat} (hahead : ahead < addressLimit)
    (hcount : ¬ (c.position = 0 ∧ ahead = addressLimit - 1 ∧ c.length? = none))
    (hlimit : c.position + ahead < addressLimit) (hpast : c.isPast (c.position + ahead) = false) :
    c.position + ahead - c.position + 1 < addressLimit := by
  by_cases hlast : c.position = 0 ∧ ahead = addressLimit - 1
  · cases hlength : c.length? with
    | none => exact absurd ⟨hlast.1, hlast.2, hlength⟩ hcount
    | some length =>
      have hknown := isPast_eq_false_iff.1 hpast length hlength
      have hlt := h.length_lt length hlength
      omega
  · omega

/-- Asking for a byte ahead stops in one case: at the start of a text of unknown length, for the
byte at the last address. All bytes up to there are one too many for a word. -/
theorem words_byteAhead (h : Addressed c) {ahead : Nat} (hahead : ahead < addressLimit) :
    Words.byteAhead ahead c =
      if c.position = 0 ∧ ahead = addressLimit - 1 ∧ c.length? = none then none
      else some ((Chunked.byteAhead ahead).run c) := by
  have hposition := h.position_lt
  by_cases hlimit : c.position + ahead < addressLimit
  · rw [Words.byteAhead, if_pos hlimit, run_byteAhead hlimit]
    show Words.byteAt (c.position + ahead) c = _
    have hmin : min c.position (c.position + ahead) = c.position := by omega
    by_cases hcount : c.position = 0 ∧ ahead = addressLimit - 1 ∧ c.length? = none
    · -- no chunk holds the byte at the last address, and nothing says that the text ends before it
      obtain ⟨hstart, hlast, hlength⟩ := hcount
      have hresident : c.resident (c.position + ahead) = none :=
        h.resident_none (by have := h.size_lt; omega)
      have hpast : c.isPast (c.position + ahead) = false := by
        rw [isPast, hlength]
      have hsum : Word.add? ahead 1 = none := if_neg (by omega)
      have hdiff : Word.sub? (c.position + ahead) c.position = some ahead := by
        rw [Word.sub?_eq (Nat.le_add_right _ _), Nat.add_sub_cancel_left]
      rw [if_pos ⟨hstart, hlast, hlength⟩]
      simp only [Words.byteAt, hresident, hpast, hmin, Words.load, hdiff, Option.bind_eq_bind,
        Option.bind_some, hsum, Option.bind_none, Bool.false_eq_true, if_false]
    · rw [if_neg hcount]
      exact h.words_byteAt hmin (h.count_lt hahead hcount hlimit)
  · rw [Words.byteAhead, if_neg hlimit, run_byteAhead_none (Nat.not_lt.1 hlimit),
      if_neg (by omega)]

/-- A source moves to an address, for there is a byte in front of it. -/
theorem advance (h : Addressed c) :
    Addressed ((ByteAccess.advance : StateM Chunked Unit).run c).2 ∧
      Words.advance c = some ((ByteAccess.advance : StateM Chunked Unit).run c) := by
  obtain ⟨_, hloads⟩ := OnlyLoads.byteAhead 0 c
  have hnext := h.byteAhead 0
  have hposition := hloads.position_eq
  have hsize := h.size_lt
  have hwords := h.words_byteAhead (show 0 < addressLimit by decide)
  rw [if_neg (fun hall => absurd hall.2.1 (by decide))] at hwords
  rw [run_advance]
  cases hahead : ((Chunked.byteAhead 0).run c).1 with
  | none =>
    refine ⟨hnext, ?_⟩
    simp only [Words.advance, hwords, Option.bind_eq_bind, Option.bind_some, hahead]
    rfl
  | some byte =>
    obtain ⟨hlt, -⟩ := Array.getElem?_eq_some_iff.1 (h.toHeld.byteAhead hahead).1
    have hsum : ((Chunked.byteAhead 0).run c).2.position + 1 < addressLimit := by omega
    refine ⟨{ hnext with position_lt := hsum }, ?_⟩
    simp only [Words.advance, hwords, Option.bind_eq_bind, Option.bind_some, hahead,
      Word.add?_eq hsum]
    rfl

theorem skip (h : Addressed c) (count : Nat) :
    Addressed ((ByteAccess.skipStepwise count : StateM Chunked Unit).run c).2 := by
  induction count generalizing c with
  | zero => exact h
  | succ count ih =>
    rw [run_skipStepwise_succ]
    split
    case isTrue => exact h.byteAhead 0
    case isFalse => exact ih (h.byteAhead 0).advance.1

/-! ## Searching -/

/-- A window ends within the text. -/
theorem window_le (h : Addressed c) (hsome : (c.window address).isEmpty = false) :
    address + (c.window address).size ≤ c.reader.content.size := by
  have hlength := (window_isPrefix h.window address).length_le
  rw [List.length_drop, Array.length_toList, Array.length_toList] at hlength
  have hpos : (c.window address).size ≠ 0 := by simpa [Array.isEmpty] using hsome
  omega

theorem searchWindow (h : Addressed c) {needle : UInt8}
    {further : Nat → StateM Chunked (Option Nat)}
    {further' : Nat → Chunked → Option (Option Nat × Chunked)} (hle : c.position ≤ address)
    (hfurther : ∀ next, c.position ≤ next → next < addressLimit →
      Addressed ((further next).run c).2 ∧ further' next c = some ((further next).run c)) :
    Addressed ((Chunked.searchWindow needle further address).run c).2 ∧
      Words.searchWindow needle further' address c =
        some ((Chunked.searchWindow needle further address).run c) := by
  have hsize := h.size_lt
  unfold Words.searchWindow Chunked.searchWindow
  simp only [StateT.run_bind, StateT.run_get, pure_bind]
  by_cases hempty : (c.window address).isEmpty
  · simp only [hempty, if_true]
    exact ⟨h, rfl⟩
  · have hwindow := h.window_le (by simpa using hempty)
    simp only [hempty]
    cases hidx : (c.window address).idxOf? needle with
    | some found =>
      have hfound : found < (c.window address).size := by
        rw [← Text.idxOf?_toList, List.idxOf?_eq_some_iff] at hidx
        exact hidx.1
      refine ⟨h, ?_⟩
      simp only [Word.add?_eq (show address + found < addressLimit by omega),
        Word.sub?_eq (show c.position ≤ address + found by omega), Option.bind_eq_bind,
        Option.bind_some]
      rfl
    | none =>
      have hnext : address + (c.window address).size < addressLimit := by omega
      obtain ⟨haddressed, hwords⟩ := hfurther _ (by omega) hnext
      refine ⟨haddressed, ?_⟩
      simp only [Word.add?_eq hnext, Option.bind_eq_bind, Option.bind_some, hwords]
      rfl

theorem slide (h : Addressed c) (needle : UInt8) (steps : Nat) (hle : c.position ≤ address)
    (hlimit : address < addressLimit) :
    Addressed ((Chunked.slide needle steps address).run c).2 ∧
      Words.slide needle steps address c = some ((Chunked.slide needle steps address).run c) := by
  induction steps generalizing address c with
  | zero => exact ⟨h, rfl⟩
  | succ steps ih =>
    unfold Words.slide Chunked.slide
    simp only [StateT.run_bind, StateT.run_get, pure_bind]
    by_cases hresident : (c.resident address).isSome
    · simp only [hresident, if_true]
      exact h.searchWindow hle fun next => ih h
    · by_cases hpast : c.isPast address
      · simp only [hresident, hpast]
        exact ⟨h, rfl⟩
      · have hloaded := h.load (Nat.le_refl address) (by simpa using hpast) hlimit
        have hwords := h.words_load (Nat.le_refl address) hlimit (by rw [Nat.sub_self]; decide)
        have hle' : (c.load address address).position ≤ address := by
          rw [position_load]
          exact hle
        simp only [hresident, hpast, hwords]
        exact hloaded.searchWindow hle' fun next => ih hloaded

/-! ## Sessions -/

theorem ask (h : Addressed c) {call : Call} (hcall : call.IsWord) :
    Addressed ((call.ask : StateM Chunked Call.Answer).run c).2 := by
  cases call with
  | read ahead => exact h.byteAhead ahead
  | has ahead => exact h.byteAhead ahead
  | atEnd => exact h.byteAhead 0
  | advance => exact h.advance.1
  | find needle =>
    exact (h.slide needle (c.reader.content.size + 2) (Nat.le_refl _) h.position_lt).1
  | skip count => exact h.skip count
  | reset target =>
    refine { h with position_lt := ?_ }
    have htarget : target < addressLimit := hcall
    show (match c.length? with
      | some length => min target length
      | none => target) < addressLimit
    cases c.length? with
    | none => exact htarget
    | some length => exact Nat.lt_of_le_of_lt (Nat.min_le_left _ _) htarget

theorem transcript (h : Addressed c) {calls : List Call} (hcalls : ∀ call ∈ calls, call.IsWord) :
    Addressed ((Call.transcript calls : StateM Chunked _).run c).2 := by
  induction calls generalizing c with
  | nil => exact h
  | cons call calls ih =>
    exact ih (h.ask (hcalls call List.mem_cons_self))
      fun call hcall => hcalls call (List.mem_cons_of_mem _ hcall)

/-- No byte ahead lies past the text. -/
theorem byteAhead_none (h : Addressed c) {ahead : Nat}
    (hpast : c.reader.content.size ≤ c.position + ahead) :
    ((Chunked.byteAhead ahead).run c).1 = none := by
  refine Option.eq_none_iff_forall_ne_some.2 fun byte hbyte => ?_
  obtain ⟨hlt, -⟩ := Array.getElem?_eq_some_iff.1 (h.toHeld.byteAhead hbyte).1
  exact absurd hlt (Nat.not_lt.2 hpast)

end Addressed

/-- For every text whose size is a word, every size of chunks, a reader that fails from some offset
on or not at all, and whatever calls were made with nothing but words in them: no sum or difference
that a call takes is too large or negative, save one. Whoever asks for the byte at the last address,
at the start of a text of unknown length, asks for a count of bytes that is too large by one. Past
the text there is no byte, and the end byte is read, as from a text in memory. -/
theorem addresses_fit (reader : Reader) (name : String) (chunkSize : Nat) (calls : List Call)
    (hsize : reader.content.size < addressLimit) (hcalls : ∀ call ∈ calls, call.IsWord) :
    let c := ((Call.transcript calls).run (ofReader reader name chunkSize)).2
    let stops (k : Nat) : Prop := c.position = 0 ∧ k = addressLimit - 1 ∧ c.length? = none
    (∀ k, k < addressLimit →
      let has := (ByteAccess.has k : StateM Chunked Bool).run c
      let read := (ByteAccess.read k : StateM Chunked UInt8).run c
      (stops k → Words.has k c = none ∧ Words.read k c = none) ∧
      (¬ stops k → Words.has k c = some has ∧ Words.read k c = some read) ∧
      (reader.content.size ≤ c.position + k → has.1 = false ∧ read.1 = endByte ∧
        ∀ b : Buffer, b.content = reader.content → b.position = c.position →
          has.1 = ((ByteAccess.has k : StateM Buffer Bool).run b).1 ∧
            read.1 = ((ByteAccess.read k : StateM Buffer UInt8).run b).1)) ∧
    Words.advance c = some ((ByteAccess.advance : StateM Chunked Unit).run c) ∧
    ∀ needle, Words.find needle c =
      some ((ByteSource.find needle : StateM Chunked (Option Nat)).run c) := by
  intro c stops
  have hc : Addressed c := (addressed_ofReader hsize name chunkSize).transcript hcalls
  obtain ⟨_, hreached⟩ : ∃ loads, Reached (ofReader reader name chunkSize) loads c :=
    Reached.of_transcript _ calls
  have hcontent : c.reader.content = reader.content := congrArg Reader.content hreached.reader_eq
  refine ⟨?_, hc.advance.2, ?_⟩
  · intro k hk has read
    have hwords := hc.words_byteAhead hk
    refine ⟨?_, ?_, ?_⟩
    · intro hstops
      rw [if_pos hstops] at hwords
      constructor
      · rw [Words.has, hwords]
        rfl
      · rw [Words.read, hwords]
        rfl
    · intro hgoes
      rw [if_neg hgoes] at hwords
      constructor
      · rw [Words.has, hwords]
        rfl
      · rw [Words.read, hwords]
        rfl
    · intro hpast
      have hnone := hc.byteAhead_none (hcontent.symm ▸ hpast)
      have hhas : has.1 = false := congrArg Option.isSome hnone
      have hread : read.1 = endByte := congrArg (Option.getD · endByte) hnone
      refine ⟨hhas, hread, ?_⟩
      intro b hb hposition
      have hbyte : b.byteAhead? k = none := by
        rw [Buffer.byteAhead?, hb, hposition]
        exact Array.getElem?_eq_none hpast
      rw [hhas, hread]
      constructor
      · exact (congrArg Option.isSome hbyte).symm
      · exact (congrArg (Option.getD · endByte) hbyte).symm
  · intro needle
    exact (hc.slide needle (c.reader.content.size + 2) (Nat.le_refl _) hc.position_lt).2

/-- From the far end of all addresses, where a search has come to nothing and the next byte is no
address any more. -/
theorem addresses_fit_far :
    let calls : List Call := [.reset (addressLimit - 1), .has 1, .read 0, .find 97]
    let reader : Reader := { content := utf8Bytes "abcdefgh" }
    let c := ((Call.transcript calls).run (ofReader reader "far" 4)).2
    reader.content.size < addressLimit ∧ (∀ call ∈ calls, call.IsWord) ∧
      c.position = addressLimit - 1 ∧ (Words.has 0 c).map Prod.fst = some false ∧
      (Words.find 97 c).map Prod.fst = some none := by
  intro calls reader c
  have hsize : reader.content.size < addressLimit := by decide
  have hcalls : ∀ call ∈ calls, call.IsWord := by decide
  have hposition : c.position = addressLimit - 1 := by decide +kernel
  obtain ⟨hask, -, hfind⟩ := addresses_fit reader "far" 4 calls hsize hcalls
  obtain ⟨-, hgoes, hpast⟩ := hask 0 (by decide)
  have hnone : ((ByteSource.find 97 : StateM Chunked (Option Nat)).run c).1 = none := by
    decide +kernel
  refine ⟨hsize, hcalls, hposition, ?_, ?_⟩
  · have hfalse := (hpast (by rw [hposition]; decide)).1
    rw [(hgoes fun hstops => absurd hstops.2.1 (by decide)).1]
    exact congrArg some hfalse
  · rw [hfind 97]
    exact congrArg some hnone

/-- The exception: the count wraps to nothing, the load brings one chunk, and so the source does not
learn how long its text is. Sent behind its text, it goes there. A question about the address in
front of the last one loads the whole text, and the source stays within it, as one in memory
does. -/
theorem addresses_overflow :
    let start := ofReader { content := utf8Bytes "abcdefgh" } "far" 4
    let sent (k : Nat) := ((Call.transcript [.has k, .reset 100]).run start).2.position
    Words.has (addressLimit - 1) start = none ∧ sent (addressLimit - 1) = 100 ∧
      sent (addressLimit - 2) = 8 ∧
      ((Call.transcript [.has (addressLimit - 1), .reset 100]).run
        (Buffer.ofString "abcdefgh" "far")).2.position = 8 := by
  intro start sent
  refine ⟨?_, by decide +kernel, by decide +kernel, by decide +kernel⟩
  exact Option.isNone_iff_eq_none.1 (by decide +kernel)

end Chunked

end ScriptFront
