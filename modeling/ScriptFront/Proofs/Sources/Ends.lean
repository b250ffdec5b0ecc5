import ScriptFront.Proofs.Sources.Windows

/-!
# How long an end lasts

A source of chunks learns the length of its text from a load that comes back short, or that fails. A
length learned from a short load is right. One learned from a failure is only where that load
started: the text may well have bytes between there and the bad offset, and a later load from
further in front shows them again. So the end that a failure brings lasts until the source goes back
in front of it, and beyond that only if no load reaches further than the byte that it was made for.

- `Chunked.Over p`: from the address `p` on there is nothing, neither at hand nor to be loaded.
- `Chunked.Tight`, `Chunked.Unfailing`: how chunk and length lie to each other where chunks hold one
  byte, and while no load has failed.
- `Call.Returns`: calls that go back only to where the source has been.
- `Chunked.end_lasts`: when the end lasts, and when going back is exact.
- `Chunked.end_lost`: where both are lost.
-/

namespace ScriptFront

/-- A call that moves to no place, or to one that was seen before. -/
def Call.LeadsBack (seen : List Nat) : Call → Prop
  | .reset target => target ∈ seen
  | _ => True

instance (seen : List Nat) : (call : Call) → Decidable (call.LeadsBack seen)
  | .reset target => inferInstanceAs (Decidable (target ∈ seen))
  | .read _ | .has _ | .atEnd | .find _ | .advance | .skip _ => inferInstanceAs (Decidable True)

/-- Calls that go back only to positions that were reported before. -/
def Call.Returns : (seen : List Nat) → List Call → Chunked → Prop
  | _, [], _ => True
  | seen, call :: calls, c =>
    call.LeadsBack seen ∧
      Returns (((call.ask : StateM Chunked Answer).run c).2.position :: seen) calls
        ((call.ask : StateM Chunked Answer).run c).2

instance Call.decidableReturns : (seen : List Nat) → (calls : List Call) → (c : Chunked) →
    Decidable (Call.Returns seen calls c)
  | _, [], _ => inferInstanceAs (Decidable True)
  | seen, call :: calls, c =>
    have := decidableReturns (((call.ask : StateM Chunked Answer).run c).2.position :: seen) calls
      ((call.ask : StateM Chunked Answer).run c).2
    inferInstanceAs (Decidable (call.LeadsBack seen ∧ _))

namespace Chunked

variable {c d : Chunked} {loads : List Load} {start needed address p : Nat}

/-! ## Nothing from some address on -/

/-- From the address `p` on nothing is at hand, and nothing will be loaded. -/
structure Over (p : Nat) (c : Chunked) : Prop where
  isPast : c.isPast p = true
  chunk_le : c.chunkStart + c.chunk.size ≤ p

theorem isPast_mono (h : c.isPast p = true) (hle : p ≤ address) : c.isPast address = true := by
  obtain ⟨length, hlength, hle'⟩ := isPast_iff.1 h
  exact isPast_iff.2 ⟨length, hlength, Nat.le_trans hle' hle⟩

theorem resident_eq_none (h : c.chunkStart + c.chunk.size ≤ address) :
    c.resident address = none := by
  unfold resident
  split
  case isTrue hle => exact Array.getElem?_eq_none (by omega)
  case isFalse => rfl

namespace Over

theorem byteAt (h : Over p c) (hle : p ≤ address) :
    (Chunked.byteAt address).run c = (none, c) := by
  show Chunked.byteAt address c = (none, c)
  have hnone := resident_eq_none (Nat.le_trans h.chunk_le hle)
  simp only [Chunked.byteAt, hnone, isPast_mono h.isPast hle, if_true]

/-- Whoever asks for a byte from there on hears of the end. -/
theorem byteAhead (h : Over p c) {ahead : Nat} (hle : p ≤ c.position + ahead) :
    (Chunked.byteAhead ahead).run c = (none, c) := by
  by_cases hlimit : c.position + ahead < addressLimit
  · rw [run_byteAhead hlimit, h.byteAt hle]
  · rw [run_byteAhead_none (Nat.not_lt.1 hlimit)]

end Over

/-- What `atEnd` answers at an address is that nothing is there. -/
theorem over_of_atEnd (h : Held c) (hlimit : c.position < addressLimit)
    (hend : ((ByteAccess.atEnd : StateM Chunked Bool).run c).1 = true) :
    Over c.position ((ByteAccess.atEnd : StateM Chunked Bool).run c).2 := by
  have hlimit' : c.position + 0 < addressLimit := hlimit
  have hrun : ((ByteAccess.atEnd : StateM Chunked Bool).run c) =
      (!((byteAt c.position).run c).1.isSome, ((byteAt c.position).run c).2) := by
    show (!((Chunked.byteAhead 0).run c).1.isSome, ((Chunked.byteAhead 0).run c).2) = _
    rw [run_byteAhead hlimit']
    rfl
  rw [hrun] at hend ⊢
  dsimp only at hend ⊢
  obtain ⟨loads, hloads⟩ := OnlyLoads.byteAt c.position c
  have hheld := h.afterLoads hloads
  have hnone : ((byteAt c.position).run c).2.resident c.position = none := by
    rw [← byteAt_resident]
    simpa using hend
  have hpast : ((byteAt c.position).run c).2.isPast c.position = true := by
    revert hnone
    show (byteAt c.position c).2.resident c.position = none →
      (byteAt c.position c).2.isPast c.position = true
    unfold byteAt
    split
    case h_1 byte hbyte =>
      intro hnone
      rw [hbyte] at hnone
      cases hnone
    case h_2 =>
      split
      case isTrue hpast => exact fun _ => hpast
      case isFalse =>
        rw [Nat.min_self]
        exact isPast_load (Nat.le_refl _) (by rw [Nat.sub_self]; decide)
  refine ⟨hpast, ?_⟩
  generalize ((byteAt c.position).run c).2 = d at hheld hnone hpast
  -- the chunk starts within the length, so it lies in front of what it does not hold
  obtain ⟨length, hlength, hle⟩ := isPast_iff.1 hpast
  have hstart := hheld.start_le length hlength
  rw [resident, if_pos (by omega), Array.getElem?_eq_none_iff] at hnone
  omega

/-! ## As long as the source stays behind the length -/

/-- An address known to lie past the text is never loaded for. -/
theorem byteAt_of_isPast (h : c.isPast address = true) :
    ((byteAt address).run c).2 = c := by
  show (byteAt address c).2 = c
  unfold byteAt
  split
  case h_1 => rfl
  case h_2 => rw [if_pos h]

theorem byteAhead_of_isPast (h : c.isPast c.position = true) (ahead : Nat) :
    ((byteAhead ahead).run c).2 = c := by
  by_cases hlimit : c.position + ahead < addressLimit
  · rw [run_byteAhead hlimit]
    exact byteAt_of_isPast (isPast_mono h (Nat.le_add_right _ _))
  · rw [run_byteAhead_none (Nat.not_lt.1 hlimit)]

theorem slide_of_isPast (h : c.isPast address = true) (needle : UInt8) (steps : Nat) :
    ((slide needle steps address).run c).2 = c := by
  induction steps generalizing address with
  | zero => rfl
  | succ steps ih =>
    unfold slide
    simp only [StateT.run_bind, StateT.run_get, pure_bind]
    by_cases hresident : (c.resident address).isSome
    · simp only [hresident, if_true, searchWindow, StateT.run_bind, StateT.run_get, pure_bind]
      by_cases hempty : (c.window address).isEmpty
      · simp only [hempty, if_true]
        rfl
      · simp only [hempty]
        cases (c.window address).idxOf? needle with
        | some found => rfl
        | none => exact ih (isPast_mono h (Nat.le_add_right _ _))
    · simp only [hresident, h]
      rfl

/-- Behind the length no query loads anything. -/
theorem ask_of_isPast (h : c.isPast c.position = true) {call : Call} (hquery : call.IsQuery) :
    ((call.ask : StateM Chunked Call.Answer).run c).2 = c := by
  cases call with
  | read ahead => exact byteAhead_of_isPast h ahead
  | has ahead => exact byteAhead_of_isPast h ahead
  | atEnd => exact byteAhead_of_isPast h 0
  | find needle => exact slide_of_isPast h needle (c.reader.content.size + 2)
  | advance => exact hquery.elim
  | skip _ => exact hquery.elim
  | reset _ => exact hquery.elim

/-- Behind the length a source moves forward, if at all, and does nothing else. -/
theorem advance_of_isPast (h : c.isPast c.position = true) :
    ∃ position, c.position ≤ position ∧
      ((ByteAccess.advance : StateM Chunked Unit).run c).2 = { c with position } := by
  rw [run_advance, byteAhead_of_isPast h 0]
  by_cases hsome : ((byteAhead 0).run c).1.isSome
  · rw [if_pos hsome]
    exact ⟨c.position + 1, Nat.le_succ _, rfl⟩
  · rw [if_neg hsome]
    exact ⟨c.position, Nat.le_refl _, rfl⟩

theorem skip_of_isPast (h : c.isPast c.position = true) (count : Nat) :
    ∃ position, c.position ≤ position ∧
      ((ByteAccess.skipStepwise count : StateM Chunked Unit).run c).2 = { c with position } := by
  induction count generalizing c with
  | zero => exact ⟨c.position, Nat.le_refl _, rfl⟩
  | succ count ih =>
    have hstay : ((ByteAccess.atEnd : StateM Chunked Bool).run c).2 = c := byteAhead_of_isPast h 0
    rw [run_skipStepwise_succ, hstay]
    by_cases hend : ((ByteAccess.atEnd : StateM Chunked Bool).run c).1
    · rw [if_pos hend]
      exact ⟨c.position, Nat.le_refl _, rfl⟩
    · rw [if_neg hend]
      obtain ⟨position, hle, hadvance⟩ := advance_of_isPast h
      rw [hadvance]
      obtain ⟨position', hle', hrest⟩ := ih (c := { c with position }) (isPast_mono h hle)
      rw [hrest]
      exact ⟨position', Nat.le_trans hle hle', rfl⟩

/-- A source that stands behind the length, and is sent to no place in front of `p`, stays there,
and only its position changes. -/
theorem transcript_of_isPast (h : c.isPast c.position = true) (hp : c.isPast p = true)
    {calls : List Call} (hcalls : ∀ target, Call.reset target ∈ calls → p ≤ target) :
    ∃ position, ((Call.transcript calls : StateM Chunked _).run c).2 = { c with position } := by
  induction calls generalizing c with
  | nil => exact ⟨c.position, rfl⟩
  | cons call calls ih =>
    have hrest : ∀ target, Call.reset target ∈ calls → p ≤ target :=
      fun target htarget => hcalls target (List.mem_cons_of_mem _ htarget)
    have hstep : ∃ position, c.isPast position = true ∧
        ((call.ask : StateM Chunked Call.Answer).run c).2 = { c with position } := by
      by_cases hquery : call.IsQuery
      · exact ⟨c.position, h, ask_of_isPast h hquery⟩
      · cases call with
        | advance =>
          obtain ⟨position, hle, hadvance⟩ := advance_of_isPast h
          exact ⟨position, isPast_mono h hle, hadvance⟩
        | skip count =>
          obtain ⟨position, hle, hskip⟩ := skip_of_isPast h count
          exact ⟨position, isPast_mono h hle, hskip⟩
        | reset target =>
          obtain ⟨length, hlength, hle⟩ := isPast_iff.1 hp
          have htarget := hcalls target List.mem_cons_self
          -- the target is cut down to the length, which lies in front of `p`
          refine ⟨_, isPast_iff.2 ⟨length, hlength, ?_⟩, rfl⟩
          rw [hlength]
          exact Nat.le_min.2 ⟨Nat.le_trans hle htarget, Nat.le_refl length⟩
        | read _ => exact absurd trivial hquery
        | has _ => exact absurd trivial hquery
        | atEnd => exact absurd trivial hquery
        | find _ => exact absurd trivial hquery
    obtain ⟨position, hposition, hask⟩ := hstep
    obtain ⟨position', hmore⟩ := ih (c := { c with position }) hposition hp hrest
    refine ⟨position', ?_⟩
    show ((Call.transcript calls).run ((call.ask : StateM Chunked Call.Answer).run c).2).2 = _
    rw [hask, hmore]

/-! ## Chunks of one byte -/

/-- The chunk ends within the length. -/
def Tight (c : Chunked) : Prop :=
  ∀ length, c.length? = some length → c.chunkStart + c.chunk.size ≤ length

/-- A load of one byte at a time ends with the byte that it was made for: it keeps all that is known
to lie past the text, and the chunk within the length. -/
theorem load_tight (hone : c.chunkSize = 1) (hle : start ≤ needed)
    (hopen : c.isPast needed = false) :
    Tight (c.load start needed) ∧
      (c.isPast p = true → (c.load start needed).isPast p = true) := by
  have hwant : c.wanted start needed ≤ needed - start + 1 := by
    have hmod := Nat.mod_le (needed - start + 1) addressLimit
    rw [wanted, hone]
    omega
  have hopen' := isPast_eq_false_iff.1 hopen
  cases hfails : c.reader.fails start (c.wanted start needed) with
  | true =>
    rw [load_of_fails hfails]
    refine ⟨fun _ hlength => Nat.le_of_eq (Option.some.inj hlength), fun hp => ?_⟩
    obtain ⟨length, hlength, hle'⟩ := isPast_iff.1 hp
    have hlt := hopen' length hlength
    exact isPast_iff.2 ⟨start, rfl, by omega⟩
  | false =>
    rw [load_of_not_fails hfails]
    generalize c.wanted start needed = want at hwant
    have hsize : (c.reader.content.extract start (start + want)).size =
        min (start + want) c.reader.content.size - start := Array.size_extract
    generalize c.reader.content.extract start (start + want) = bytes at hsize
    by_cases hshort : bytes.size < want
    · simp only [hshort, if_true]
      refine ⟨fun _ hlength => Nat.le_of_eq (Option.some.inj hlength), fun hp => ?_⟩
      obtain ⟨length, hlength, hle'⟩ := isPast_iff.1 hp
      have hlt := hopen' length hlength
      exact isPast_iff.2 ⟨start + bytes.size, rfl, by omega⟩
    · simp only [hshort, if_false]
      refine ⟨fun length hlength => ?_, fun hp => isPast_iff.2 (isPast_iff.1 hp)⟩
      have hlt := hopen' length hlength
      show start + bytes.size ≤ length
      omega

/-- In chunks of one byte, what lies past the text stays past it, whatever happens. -/
theorem Reached.tight {origin : Chunked} (h : Reached origin loads c) (hone : origin.chunkSize = 1)
    (htight : Tight origin) :
    c.chunkSize = 1 ∧ Tight c ∧ (origin.isPast p = true → c.isPast p = true) := by
  have hloads : ∀ {c d : Chunked} {loads : List Load}, Loads c loads d → c.chunkSize = 1 → Tight c →
      d.chunkSize = 1 ∧ Tight d ∧ (c.isPast p = true → d.isPast p = true) := by
    intro c d loads hloads
    induction hloads with
    | none => exact fun hone htight => ⟨hone, htight, id⟩
    | @some c d start needed _ hle hopen _ ih =>
      intro hone htight
      obtain ⟨htight', hpast⟩ := load_tight (p := p) hone hle hopen
      obtain ⟨hone'', htight'', hpast'⟩ := ih ((chunkSize_load c start needed).trans hone) htight'
      exact ⟨hone'', htight'', hpast' ∘ hpast⟩
  induction h with
  | here => exact ⟨hone, htight, id⟩
  | loads _ hmore ih =>
    obtain ⟨hone', htight', hpast⟩ := ih
    obtain ⟨hone'', htight'', hpast'⟩ := hloads hmore hone' htight'
    exact ⟨hone'', htight'', hpast' ∘ hpast⟩
  | moved _ _ ih => exact ih

theorem over_of_tight (htight : Tight c) (hpast : c.isPast p = true) : Over p c := by
  obtain ⟨length, hlength, hle⟩ := isPast_iff.1 hpast
  exact ⟨hpast, Nat.le_trans (htight length hlength) hle⟩

/-! ## While no load has failed -/

/-- As long as no load has failed, the length, if it is known, leaves out no byte of the text. -/
def Unfailing (c : Chunked) : Prop :=
  c.failure? = none → ∀ length, c.length? = some length → c.reader.content.size ≤ length

theorem load_unfailing (h : Unfailing c) : Unfailing (c.load start needed) := by
  cases hfails : c.reader.fails start (c.wanted start needed) with
  | true =>
    rw [load_of_fails hfails]
    intro hclean
    cases hfailure : c.failure? <;> simp [hfailure] at hclean
  | false =>
    rw [load_of_not_fails hfails]
    intro hclean length
    dsimp only
    split
    case isTrue hshort =>
      intro hlength
      rw [Array.size_extract] at hshort hlength
      have := Option.some.inj hlength
      omega
    case isFalse => exact h hclean length

theorem Reached.unfailing {origin : Chunked} (h : Reached origin loads c)
    (hunfailing : Unfailing origin) : Unfailing c := by
  have hloads : ∀ {c d : Chunked} {loads : List Load}, Loads c loads d → Unfailing c →
      Unfailing d := by
    intro c d loads hloads
    induction hloads with
    | none => exact id
    | some _ _ _ ih => exact fun h => ih (load_unfailing h)
  induction h with
  | here => exact hunfailing
  | loads _ hmore ih => exact hloads hmore ih
  | moved _ _ ih => exact ih

theorem unfailing_ofReader (reader : Reader) (name : String) (chunkSize : Nat) :
    Unfailing (ofReader reader name chunkSize) := fun _ => nofun

/-- A failure that a source has kept is kept until it is taken. -/
theorem Reached.clean {origin : Chunked} (h : Reached origin loads c) (hclean : c.failure? = none) :
    origin.failure? = none := by
  rw [h.failure_eq] at hclean
  cases horigin : origin.failure? with
  | none => rfl
  | some failure =>
    rw [horigin] at hclean
    cases hclean

/-! ## Going back -/

/-- A source that stands in its text. -/
structure Within (c : Chunked) : Prop extends Held c where
  position_le : c.position ≤ c.reader.content.size

/-- Going back leads no further than to the end of the text, where this end is known. -/
theorem position_reset (c : Chunked) (target : Nat) :
    ((ByteAccess.reset target : StateM Chunked Unit).run c).2.position =
      c.length?.elim target (min target) := by
  obtain ⟨name, reader, chunkSize, chunk, chunkStart, position, length?, failure?⟩ := c
  cases length? <;> rfl

namespace Within

theorem afterLoads (h : Within c) (hloads : Loads c loads d) : Within d where
  toHeld := h.toHeld.afterLoads hloads
  position_le := by
    rw [hloads.position_eq, hloads.reader_eq]
    exact h.position_le

/-- A source moves behind a byte only if it is there. -/
theorem advance (h : Within c) : Within ((ByteAccess.advance : StateM Chunked Unit).run c).2 := by
  obtain ⟨_, hloads⟩ := OnlyLoads.byteAhead 0 c
  have hnext := h.afterLoads hloads
  rw [run_advance]
  cases hahead : ((Chunked.byteAhead 0).run c).1 with
  | none => exact hnext
  | some byte =>
    obtain ⟨hlt, -⟩ := Array.getElem?_eq_some_iff.1 (h.byteAhead hahead).1
    refine { hnext with position_le := ?_ }
    show ((Chunked.byteAhead 0).run c).2.position + 1 ≤ _
    rw [hloads.position_eq]
    show c.position + 1 ≤ ((Chunked.byteAhead 0).run c).2.reader.content.size
    rw [hloads.reader_eq]
    exact hlt

theorem skip (h : Within c) (count : Nat) :
    Within ((ByteAccess.skipStepwise count : StateM Chunked Unit).run c).2 := by
  induction count generalizing c with
  | zero => exact h
  | succ count ih =>
    obtain ⟨_, hloads⟩ := OnlyLoads.atEnd c
    rw [run_skipStepwise_succ]
    by_cases hend : ((ByteAccess.atEnd : StateM Chunked Bool).run c).1
    · rw [if_pos hend]
      exact h.afterLoads hloads
    · rw [if_neg hend]
      exact ih (h.afterLoads hloads).advance

/-- A source leaves its text only if it is sent out of it. -/
theorem ask (h : Within c) {call : Call}
    (hcall : ∀ target, call = .reset target → target ≤ c.reader.content.size) :
    Within ((call.ask : StateM Chunked Call.Answer).run c).2 := by
  by_cases hquery : call.IsQuery
  · obtain ⟨_, hloads⟩ := OnlyLoads.ask hquery c
    exact h.afterLoads hloads
  · cases call with
    | advance => exact h.advance
    | skip count => exact h.skip count
    | reset target =>
      have htarget := hcall target rfl
      refine { h with position_le := ?_ }
      refine Nat.le_trans (Nat.le_of_eq (position_reset c target)) ?_
      cases c.length? with
      | none => exact htarget
      | some length => exact Nat.le_trans (Nat.min_le_left _ _) htarget
    | read _ => exact absurd trivial hquery
    | has _ => exact absurd trivial hquery
    | atEnd => exact absurd trivial hquery
    | find _ => exact absurd trivial hquery

/-- All positions of a source that goes back only to where it has been lie in the text. -/
theorem transcript (h : Within c) {seen : List Nat} (hseen : ∀ q ∈ seen, q ≤ c.reader.content.size)
    {calls : List Call} (hcalls : Call.Returns seen calls c) :
    ∀ q ∈ ((Call.transcript calls : StateM Chunked _).run c).1.map Prod.snd,
      q ≤ c.reader.content.size := by
  induction calls generalizing c seen with
  | nil => exact nofun
  | cons call calls ih =>
    obtain ⟨hcall, hmore⟩ := hcalls
    have hnext : Within ((call.ask : StateM Chunked Call.Answer).run c).2 := by
      refine h.ask ?_
      rintro target rfl
      exact hseen target hcall
    obtain ⟨_, hreached⟩ := Reached.of_ask c call
    have hreader := hreached.reader_eq
    have hposition := hnext.position_le
    rw [hreader] at hposition
    intro q hq
    rcases List.mem_cons.1 hq with rfl | hq
    · exact hposition
    · have hrest := ih hnext ?_ hmore q hq
      · rw [hreader] at hrest
        exact hrest
      · rw [hreader]
        intro q hq
        rcases List.mem_cons.1 hq with rfl | hq
        · exact hposition
        · exact hseen q hq

end Within

/-- As long as no load has failed, going back to a place in the text leads there. -/
theorem reset_of_unfailing (h : Unfailing c) (hclean : c.failure? = none) {q : Nat}
    (hq : q ≤ c.reader.content.size) :
    ((ByteAccess.reset q : StateM Chunked Unit).run c).2.position = q := by
  rw [position_reset]
  cases hlength : c.length? with
  | none => rfl
  | some length => exact Nat.min_eq_left (Nat.le_trans hq (h hclean length hlength))

/-! ## Sessions -/

/-- Whoever hears of no byte ahead hears of the end. -/
theorem answers_of_none {p : Nat}
    (h : ∀ k, p ≤ d.position + k → ((byteAhead k).run d).1 = none) :
    (∀ k, p ≤ d.position + k →
      ((ByteAccess.has k : StateM Chunked Bool).run d).1 = false ∧
        ((ByteAccess.read k : StateM Chunked UInt8).run d).1 = endByte) ∧
    (p ≤ d.position → ((ByteAccess.atEnd : StateM Chunked Bool).run d).1 = true) := by
  refine ⟨fun k hk => ⟨?_, ?_⟩, fun hp => ?_⟩
  · exact congrArg Option.isSome (h k hk)
  · exact congrArg (Option.getD · endByte) (h k hk)
  · exact congrArg (fun answer => !Option.isSome answer) (h 0 hp)

/-- For every text, every size of chunks, and a reader that fails from some offset on or not at all:
once `atEnd` has answered that the text ends at `p`, whoever asks about an address from `p` on hears
of the end, whatever calls were made in between, if one of these holds: no load has failed; `p` is
not in front of the bad offset; a chunk holds one byte; or no call has led back in front of `p`. And
if a source goes back only to positions that were reported before, it comes to just these positions,
as long as no load has failed. -/
theorem end_lasts (reader : Reader) (name : String) (chunkSize : Nat) :
    let start := ofReader reader name chunkSize
    (∀ before after,
      let c := ((Call.transcript before).run start).2
      let asked := (ByteAccess.atEnd : StateM Chunked Bool).run c
      let d := ((Call.transcript after).run asked.2).2
      asked.1 = true →
      ((takeFailure.run d).1 = none ∨ (∃ bad ∈ reader.failsAt, bad ≤ c.position) ∨
        chunkSize ≤ 1 ∨ ∀ target, Call.reset target ∈ after → c.position ≤ target) →
      (∀ k, c.position ≤ d.position + k →
        ((ByteAccess.has k : StateM Chunked Bool).run d).1 = false ∧
          ((ByteAccess.read k : StateM Chunked UInt8).run d).1 = endByte) ∧
      (c.position ≤ d.position → ((ByteAccess.atEnd : StateM Chunked Bool).run d).1 = true)) ∧
    ∀ calls, Call.Returns [0] calls start →
      let session := (Call.transcript calls).run start
      (takeFailure.run session.2).1 = none →
      ∀ q ∈ 0 :: session.1.map Prod.snd,
        ((ByteAccess.reset q : StateM Chunked Unit).run session.2).2.position = q := by
  intro start
  have hstart : Held start := held_ofReader reader name chunkSize
  constructor
  · intro before after c asked d hend hreason
    obtain ⟨_, hc⟩ := Reached.of_transcript start before
    obtain ⟨_, hloads⟩ := OnlyLoads.atEnd c
    have ha : Reached start _ asked.2 := Reached.loads hc hloads
    obtain ⟨_, hd⟩ := Reached.of_transcript asked.2 after
    obtain ⟨_, hd'⟩ := ha.transcript after
    have hheld : Held d := hstart.reached hd'
    have hreader : d.reader = reader := hd'.reader_eq
    refine answers_of_none fun k hk => ?_
    by_cases hlimit : c.position < addressLimit
    · have hover : Over c.position asked.2 := over_of_atEnd (hstart.reached hc) hlimit hend
      rcases hreason with hclean | ⟨bad, hbad, hle⟩ | hone | hafter
      · -- the length is known by now, and rightly
        have hclean' := hd.clean hclean
        obtain ⟨length, hlength, hle⟩ := isPast_iff.1 hover.isPast
        have hsize : d.reader.content.size ≤ length := by
          rw [hd.reader_eq]
          exact ha.unfailing (unfailing_ofReader reader name chunkSize) hclean' length hlength
        refine Option.eq_none_iff_forall_ne_some.2 fun byte hbyte => ?_
        obtain ⟨hlt, -⟩ := Array.getElem?_eq_some_iff.1 (hheld.byteAhead hbyte).1
        omega
      · refine Option.eq_none_iff_forall_ne_some.2 fun byte hbyte => ?_
        have hlt := (hheld.byteAhead hbyte).2 bad (hreader.symm ▸ hbad)
        omega
      · have hone' : start.chunkSize = 1 := Nat.max_eq_right hone
        obtain ⟨hone'', htight, -⟩ := ha.tight (p := c.position) hone' nofun
        obtain ⟨-, htight', hpast⟩ := hd.tight (p := c.position) hone'' htight
        rw [(over_of_tight htight' (hpast hover.isPast)).byteAhead hk]
      · have hposition : asked.2.position = c.position := hloads.position_eq
        obtain ⟨position, hsame⟩ :=
          transcript_of_isPast (hposition.symm ▸ hover.isPast) hover.isPast hafter
        have hover' : Over c.position d := by
          show Over c.position ((Call.transcript after).run asked.2).2
          rw [hsame]
          exact { hover with }
        rw [hover'.byteAhead hk]
    · rw [run_byteAhead_none (by omega)]
  · intro calls hcalls session hclean q hq
    have hwithin : Within start := { hstart with position_le := Nat.zero_le _ }
    obtain ⟨_, hreached⟩ := Reached.of_transcript start calls
    refine reset_of_unfailing
      (hreached.unfailing (unfailing_ofReader reader name chunkSize)) hclean ?_
    rw [hreached.reader_eq]
    rcases List.mem_cons.1 hq with rfl | hq
    · exact Nat.zero_le _
    · refine hwithin.transcript ?_ hcalls q hq
      intro seen hseen
      rw [List.mem_singleton.1 hseen]
      exact Nat.zero_le _

/-- In chunks of four bytes, and with two bytes that cannot be read at the end, the text ends at its
fifth byte for whoever comes there step by step, and the end lasts while the source looks ahead and
goes on. -/
theorem end_lasts_ahead :
    let reader : Reader := { content := utf8Bytes "abcdefgh", failsAt := some 6 }
    let c := ((Call.transcript [.skip 4]).run (ofReader reader "torn" 4)).2
    let asked := (ByteAccess.atEnd : StateM Chunked Bool).run c
    let d := ((Call.transcript [.read 3, .advance, .find 101, .reset 4]).run asked.2).2
    asked.1 = true ∧ c.position = 4 ∧ d.position = 4 ∧
      ((ByteAccess.has 1 : StateM Chunked Bool).run d).1 = false ∧
      ((ByteAccess.atEnd : StateM Chunked Bool).run d).1 = true := by
  intro reader c asked d
  have hend : asked.1 = true := by decide +kernel
  have hposition : c.position = 4 := by decide +kernel
  have hposition' : d.position = 4 := by decide +kernel
  have hafter : ∀ target, Call.reset target ∈ [.read 3, .advance, .find 101, .reset 4] →
      c.position ≤ target := by
    rw [hposition]
    simp
  obtain ⟨hahead, hhere⟩ := (end_lasts reader "torn" 4).1 [.skip 4]
    [.read 3, .advance, .find 101, .reset 4] hend (.inr (.inr (.inr hafter)))
  exact ⟨hend, hposition, hposition', (hahead 1 (by rw [hposition, hposition']; decide)).1,
    hhere (by rw [hposition, hposition'])⟩

/-- Where a failure ends the text, the end is lost by going back: from two bytes in front of it, the
next load reaches behind it. The position reported there cannot be gone back to, though. -/
theorem end_lost :
    let reader : Reader := { content := utf8Bytes "abcdefgh", failsAt := some 6 }
    let start := ofReader reader "torn" 4
    let before : List Call := [.advance, .advance, .advance, .advance]
    let c := ((Call.transcript before).run start).2
    let asked := (ByteAccess.atEnd : StateM Chunked Bool).run c
    let d := ((Call.transcript [.reset 2, .read 0]).run asked.2).2
    let e := ((Call.transcript [.advance, .advance, .advance]).run d).2
    Call.Returns [0] (before ++ [.atEnd, .reset 2, .read 0, .advance, .advance, .advance]) start ∧
      asked.1 = true ∧ c.position = 4 ∧ d.position = 2 ∧
      ((ByteAccess.has 2 : StateM Chunked Bool).run d).1 = true ∧ e.position = 5 ∧
      ((ByteAccess.reset 5 : StateM Chunked Unit).run e).2.position = 4 := by
  intro reader start before c asked d e
  refine ⟨?_, by decide +kernel, by decide +kernel, by decide +kernel, by decide +kernel,
    by decide +kernel, by decide +kernel⟩
  decide +kernel

end Chunked

end ScriptFront
