import ScriptFront.Proofs.Sources.Calls
import ScriptFront.Proofs.Sources.Chunks
import ScriptFront.Proofs.Sources.Strides

/-!
# Loads

All that a call does to a source of chunks is to load and to move. Here nothing is assumed of the
reader: loads may come back short or fail, forwards and backwards, and a call may ask for any
address and move to any offset.

- `Load`, `firstFailure`: what a source has asked its reader for, and the first failure among it.
- `Chunked.Loads`: some loads one after the other. A source loads for an address only if it does not
  know the address to lie past the text.
- `Chunked.OnlyLoads`: an action that loads and does nothing else, as queries do.
- `Chunked.Reached`: a state that a source comes to, with the loads on the way there. Calls lead to
  no other states.
- `Chunked.strides`: a walker over chunks keeps its reader.
-/

namespace ScriptFront

/-- A load: where it starts and how many bytes it asks for. -/
structure Load where
  start : Nat
  want : Nat
deriving DecidableEq, Repr

/-- Why a load fails, if it does. -/
def Load.failure? (reader : Reader) (l : Load) : Option ReadFailure :=
  match reader.read l.start l.want with
  | .ok _ => none
  | .error failure => some failure

/-- The failure of the first load that fails. -/
def firstFailure (reader : Reader) (loads : List Load) : Option ReadFailure :=
  loads.findSome? (Load.failure? reader)

namespace Reader

/-- A reader delivers a part of the text, or fails. -/
theorem read_eq (r : Reader) (start want : Nat) :
    r.read start want =
      if r.fails start want then .error (r.failure start want)
      else .ok (r.content.extract start (start + want)) := rfl

/-- The bytes of a load that does not fail lie in front of the bad offset. -/
theorem lt_of_not_fails {r : Reader} {start want bad n : Nat} (h : r.fails start want = false)
    (hbad : r.failsAt = some bad) (hn : n < start + want) (hsize : n < r.content.size) :
    n < bad := by
  simp only [Reader.fails, hbad, Bool.or_eq_false_iff, Bool.and_eq_false_iff,
    decide_eq_false_iff_not] at h
  omega

end Reader

namespace Chunked

/-! ## Addresses past the text -/

theorem isPast_iff {c : Chunked} {address : Nat} :
    c.isPast address = true ↔ ∃ length, c.length? = some length ∧ length ≤ address := by
  unfold isPast
  cases c.length? with
  | none => simp
  | some length => simp

theorem isPast_eq_false_iff {c : Chunked} {address : Nat} :
    c.isPast address = false ↔ ∀ length, c.length? = some length → address < length := by
  unfold isPast
  cases c.length? with
  | none => simp
  | some length => simp

/-! ## One load after the other -/

/-- From `c` to `d` by nothing but these loads. -/
inductive Loads : Chunked → List Load → Chunked → Prop where
  | none (c : Chunked) : Loads c [] c
  | some {c d : Chunked} {start needed : Nat} {loads : List Load} (hle : start ≤ needed)
    (hopen : c.isPast needed = false) (hmore : Loads (c.load start needed) loads d) :
    Loads c (⟨start, c.wanted start needed⟩ :: loads) d

variable {c d e : Chunked} {loads more : List Load}

theorem Loads.trans (h : Loads c loads d) (h' : Loads d more e) : Loads c (loads ++ more) e := by
  induction h with
  | none => exact h'
  | some hle hopen _ ih => exact .some hle hopen (ih h')

theorem Loads.one {start needed : Nat} (hle : start ≤ needed) (hopen : c.isPast needed = false) :
    Loads c [⟨start, c.wanted start needed⟩] (c.load start needed) :=
  .some hle hopen (.none _)

/-- A load that fails leaves nothing at hand, and the text ends where it starts. -/
theorem load_of_fails {start needed : Nat}
    (h : c.reader.fails start (c.wanted start needed) = true) :
    c.load start needed =
      { c with
        chunk := #[]
        chunkStart := start
        length? := some start
        failure? := c.failure?.or (some (c.reader.failure start (c.wanted start needed))) } := by
  simp only [load, Reader.read_eq, h, if_true]

/-- Any other load brings as much of the text as it asks for, or all there is. -/
theorem load_of_not_fails {start needed : Nat}
    (h : c.reader.fails start (c.wanted start needed) = false) :
    c.load start needed =
      let bytes := c.reader.content.extract start (start + c.wanted start needed)
      { c with
        chunk := bytes
        chunkStart := start
        length? := if bytes.size < c.wanted start needed then some (start + bytes.size)
          else c.length? } := by
  simp only [load, Reader.read_eq, h]
  rfl

section

variable (c : Chunked) (start needed : Nat)

/-- A load replaces the chunk, and what is known of length and failures. -/
theorem load_eq : ∃ chunk length? failure?,
    c.load start needed = { c with chunk, chunkStart := start, length?, failure? } := by
  cases h : c.reader.fails start (c.wanted start needed) with
  | true => exact ⟨_, _, _, load_of_fails h⟩
  | false => exact ⟨_, _, c.failure?, load_of_not_fails h⟩

@[simp] theorem name_load : (c.load start needed).name = c.name := by
  obtain ⟨_, _, _, h⟩ := c.load_eq start needed
  rw [h]

@[simp] theorem reader_load : (c.load start needed).reader = c.reader := by
  obtain ⟨_, _, _, h⟩ := c.load_eq start needed
  rw [h]

@[simp] theorem chunkSize_load : (c.load start needed).chunkSize = c.chunkSize := by
  obtain ⟨_, _, _, h⟩ := c.load_eq start needed
  rw [h]

@[simp] theorem position_load : (c.load start needed).position = c.position := by
  obtain ⟨_, _, _, h⟩ := c.load_eq start needed
  rw [h]

/-- A source keeps the first failure that nobody has taken. -/
theorem failure_load : (c.load start needed).failure? =
    c.failure?.or (Load.failure? c.reader ⟨start, c.wanted start needed⟩) := by
  cases h : c.reader.fails start (c.wanted start needed) with
  | true =>
    simp only [load_of_fails h, Load.failure?, Reader.read_eq, h, if_true]
  | false =>
    simp only [load_of_not_fails h, Load.failure?, Reader.read_eq, h, Bool.false_eq_true, if_false,
      Option.or_none]

end

theorem Loads.reader_eq (h : Loads c loads d) : d.reader = c.reader := by
  induction h with
  | none => rfl
  | some _ _ _ ih => rw [ih, reader_load]

theorem Loads.position_eq (h : Loads c loads d) : d.position = c.position := by
  induction h with
  | none => rfl
  | some _ _ _ ih => rw [ih, position_load]

theorem Loads.failure_eq (h : Loads c loads d) :
    d.failure? = c.failure?.or (firstFailure c.reader loads) := by
  induction h with
  | none => exact (Option.or_none ..).symm
  | @some c d start needed loads _ _ _ ih =>
    rw [ih, failure_load, reader_load, Option.or_assoc]
    simp only [firstFailure, List.findSome?_cons]
    cases Load.failure? c.reader ⟨start, c.wanted start needed⟩ <;> rfl

/-! ## What queries load -/

/-- Nothing but loads happens in `act`. -/
def OnlyLoads {α : Type} (act : StateM Chunked α) : Prop :=
  ∀ c, ∃ loads, Loads c loads (act.run c).2

namespace OnlyLoads

variable {α β : Type}

theorem pure (a : α) : OnlyLoads (Pure.pure a) := fun c => ⟨[], .none c⟩

theorem bind {act : StateM Chunked α} {f : α → StateM Chunked β} (h : OnlyLoads act)
    (hf : ∀ a, OnlyLoads (f a)) : OnlyLoads (act >>= f) := by
  intro c
  obtain ⟨loads, hfirst⟩ := h c
  obtain ⟨more, hsecond⟩ := hf (act.run c).1 (act.run c).2
  exact ⟨loads ++ more, hfirst.trans hsecond⟩

theorem get : OnlyLoads (MonadState.get : StateM Chunked Chunked) := fun c => ⟨[], .none c⟩

theorem byteAt (address : Nat) : OnlyLoads (Chunked.byteAt address) := by
  intro c
  show ∃ loads, Loads c loads (Chunked.byteAt address c).2
  unfold Chunked.byteAt
  split
  case h_1 => exact ⟨[], .none c⟩
  case h_2 =>
    split
    case isTrue => exact ⟨[], .none c⟩
    case isFalse hopen =>
      exact ⟨_, .one (Nat.min_le_right _ _) (Bool.not_eq_true _ ▸ hopen)⟩

theorem byteAhead (ahead : Nat) : OnlyLoads (Chunked.byteAhead ahead) := by
  refine get.bind fun c => ?_
  show OnlyLoads (if c.position + ahead < addressLimit then Chunked.byteAt (c.position + ahead)
    else Pure.pure none)
  by_cases hlimit : c.position + ahead < addressLimit
  · rw [if_pos hlimit]
    exact byteAt _
  · rw [if_neg hlimit]
    exact pure _

theorem searchWindow (needle : UInt8) {further : Nat → StateM Chunked (Option Nat)}
    (hfurther : ∀ address, OnlyLoads (further address)) (address : Nat) :
    OnlyLoads (Chunked.searchWindow needle further address) := by
  refine get.bind fun c => ?_
  dsimp only
  by_cases hempty : (c.window address).isEmpty
  · rw [if_pos hempty]
    exact pure _
  · rw [if_neg hempty]
    cases (c.window address).idxOf? needle with
    | some found => exact pure _
    | none => exact hfurther _

theorem slide (needle : UInt8) (steps address : Nat) :
    OnlyLoads (Chunked.slide needle steps address) := by
  induction steps generalizing address with
  | zero => exact pure _
  | succ steps ih =>
    intro c
    unfold Chunked.slide
    simp only [StateT.run_bind, StateT.run_get, pure_bind]
    by_cases hresident : (c.resident address).isSome
    · simp only [hresident]
      exact searchWindow needle ih address c
    · by_cases hpast : c.isPast address
      · simp only [hresident, hpast]
        exact ⟨[], .none c⟩
      · -- the load is for the address itself, so no look ahead makes it longer
        obtain ⟨loads, hloads⟩ := searchWindow needle ih address (c.load address address)
        refine ⟨⟨address, c.wanted address address⟩ :: loads, ?_⟩
        simp only [hresident, hpast]
        exact .some (Nat.le_refl _) (by simpa using hpast) hloads

theorem has (ahead : Nat) : OnlyLoads (ByteAccess.has ahead : StateM Chunked Bool) :=
  (byteAhead ahead).bind fun _ => pure _

theorem read (ahead : Nat) : OnlyLoads (ByteAccess.read ahead : StateM Chunked UInt8) :=
  (byteAhead ahead).bind fun _ => pure _

theorem atEnd : OnlyLoads (ByteAccess.atEnd : StateM Chunked Bool) := (has 0).bind fun _ => pure _

theorem find (needle : UInt8) :
    OnlyLoads (ByteSource.find needle : StateM Chunked (Option Nat)) :=
  get.bind fun _ => slide needle _ _

end OnlyLoads

end Chunked

/-- A call that only asks. -/
def Call.IsQuery : Call → Prop
  | .read _ | .has _ | .atEnd | .find _ => True
  | .advance | .skip _ | .reset _ => False

namespace Chunked

variable {c d : Chunked} {loads more : List Load}

theorem OnlyLoads.ask {call : Call} (h : call.IsQuery) :
    OnlyLoads (call.ask : StateM Chunked Call.Answer) := by
  cases call with
  | read ahead => exact (read ahead).bind fun _ => pure _
  | has ahead => exact (has ahead).bind fun _ => pure _
  | atEnd => exact atEnd.bind fun _ => pure _
  | find needle => exact (find needle).bind fun _ => pure _
  | advance => exact h.elim
  | skip _ => exact h.elim
  | reset _ => exact h.elim

/-! ## Moving -/

theorem run_advance (c : Chunked) :
    (ByteAccess.advance : StateM Chunked Unit).run c =
      if ((byteAhead 0).run c).1.isSome then
        ((), { ((byteAhead 0).run c).2 with
          position := ((byteAhead 0).run c).2.position + 1 })
      else ((), ((byteAhead 0).run c).2) := by
  have hopen : (ByteAccess.advance : StateM Chunked Unit).run c =
      (if ((byteAhead 0).run c).1.isSome then
        modify fun d : Chunked => { d with position := d.position + 1 }
      else Pure.pure () : StateM Chunked Unit).run ((byteAhead 0).run c).2 := rfl
  rw [hopen]
  split <;> rfl

theorem run_skipStepwise_succ (count : Nat) (c : Chunked) :
    (ByteAccess.skipStepwise (count + 1) : StateM Chunked Unit).run c =
      if ((ByteAccess.atEnd : StateM Chunked Bool).run c).1 then
        ((), ((ByteAccess.atEnd : StateM Chunked Bool).run c).2)
      else
        (ByteAccess.skipStepwise count : StateM Chunked Unit).run
          ((ByteAccess.advance : StateM Chunked Unit).run
            ((ByteAccess.atEnd : StateM Chunked Bool).run c).2).2 := by
  have hopen : (ByteAccess.skipStepwise (count + 1) : StateM Chunked Unit).run c =
      (if ((ByteAccess.atEnd : StateM Chunked Bool).run c).1 then Pure.pure ()
      else do
        ByteAccess.advance
        ByteAccess.skipStepwise count : StateM Chunked Unit).run
          ((ByteAccess.atEnd : StateM Chunked Bool).run c).2 := rfl
  rw [hopen]
  split <;> rfl

/-! ## Reached states -/

/-- A state that a source comes to, and the loads that lead there. -/
inductive Reached (origin : Chunked) : List Load → Chunked → Prop where
  | here : Reached origin [] origin
  | loads {c d : Chunked} {loads more : List Load} (h : Reached origin loads c)
    (hmore : Loads c more d) : Reached origin (loads ++ more) d
  | moved {c : Chunked} {loads : List Load} (h : Reached origin loads c) (position : Nat) :
    Reached origin loads { c with position }

namespace Reached

variable {origin : Chunked}

theorem advance (h : Reached origin loads c) :
    ∃ more, Reached origin (loads ++ more)
      ((ByteAccess.advance : StateM Chunked Unit).run c).2 := by
  obtain ⟨more, hmore⟩ := OnlyLoads.byteAhead 0 c
  refine ⟨more, ?_⟩
  rw [run_advance]
  by_cases hsome : ((byteAhead 0).run c).1.isSome
  · rw [if_pos hsome]
    exact (h.loads hmore).moved _
  · rw [if_neg hsome]
    exact h.loads hmore

theorem skipStepwise (count : Nat) (h : Reached origin loads c) :
    ∃ more, Reached origin (loads ++ more)
      ((ByteAccess.skipStepwise count : StateM Chunked Unit).run c).2 := by
  induction count generalizing c loads with
  | zero =>
    refine ⟨[], ?_⟩
    rw [List.append_nil]
    exact h
  | succ count ih =>
    obtain ⟨more, hmore⟩ := OnlyLoads.atEnd c
    rw [run_skipStepwise_succ]
    by_cases hend : ((ByteAccess.atEnd : StateM Chunked Bool).run c).1
    · rw [if_pos hend]
      exact ⟨more, h.loads hmore⟩
    · rw [if_neg hend]
      obtain ⟨further, hfurther⟩ := (h.loads hmore).advance
      obtain ⟨rest, hrest⟩ := ih hfurther
      refine ⟨more ++ (further ++ rest), ?_⟩
      rw [← List.append_assoc, ← List.append_assoc]
      exact hrest

/-- Whatever the call, the source loads and moves. -/
theorem ask (call : Call) (h : Reached origin loads c) :
    ∃ more, Reached origin (loads ++ more) ((call.ask : StateM Chunked Call.Answer).run c).2 := by
  by_cases hquery : call.IsQuery
  · obtain ⟨more, hmore⟩ := OnlyLoads.ask hquery c
    exact ⟨more, h.loads hmore⟩
  · cases call with
    | advance => exact h.advance
    | skip count => exact h.skipStepwise count
    | reset target =>
      refine ⟨[], ?_⟩
      rw [List.append_nil]
      exact h.moved _
    | read _ => exact absurd trivial hquery
    | has _ => exact absurd trivial hquery
    | atEnd => exact absurd trivial hquery
    | find _ => exact absurd trivial hquery

theorem transcript (calls : List Call) (h : Reached origin loads c) :
    ∃ more, Reached origin (loads ++ more)
      ((Call.transcript calls : StateM Chunked _).run c).2 := by
  induction calls generalizing c loads with
  | nil =>
    refine ⟨[], ?_⟩
    rw [List.append_nil]
    exact h
  | cons call calls ih =>
    obtain ⟨more, hmore⟩ := h.ask call
    obtain ⟨rest, hrest⟩ := ih hmore
    refine ⟨more ++ rest, ?_⟩
    rw [← List.append_assoc]
    exact hrest

theorem of_ask (c : Chunked) (call : Call) :
    ∃ loads, Reached c loads ((call.ask : StateM Chunked Call.Answer).run c).2 := here.ask call

/-- Calls lead to reached states only. -/
theorem of_transcript (c : Chunked) (calls : List Call) :
    ∃ loads, Reached c loads ((Call.transcript calls : StateM Chunked _).run c).2 :=
  here.transcript calls

theorem reader_eq (h : Reached origin loads c) : c.reader = origin.reader := by
  induction h with
  | here => rfl
  | loads _ hmore ih => rw [hmore.reader_eq, ih]
  | moved _ _ ih => exact ih

/-- What is kept as a failure is that of the first load that failed, unless there was one before. -/
theorem failure_eq (h : Reached origin loads c) :
    c.failure? = origin.failure?.or (firstFailure origin.reader loads) := by
  induction h with
  | here => exact (Option.or_none ..).symm
  | @loads c d loads more h hmore ih =>
    rw [hmore.failure_eq, h.reader_eq, ih, Option.or_assoc, firstFailure, firstFailure,
      firstFailure, List.findSome?_append]
  | moved _ _ ih => exact ih

end Reached

/-! ## Walks -/

theorem reader_ask (call : Call) (c : Chunked) :
    ((call.ask : StateM Chunked Call.Answer).run c).2.reader = c.reader := by
  obtain ⟨_, hreached⟩ := Reached.of_ask c call
  exact hreached.reader_eq

theorem paired_ask {reader : Reader} {α : Type} (x : StateM Chunked α)
    (hx : ∀ c, (x.run c).2.reader = c.reader) :
    Paired (fun w v => w = v ∧ w.source.reader = reader) Eq (Walker.ask x) (Walker.ask x) := by
  rintro w _ ⟨rfl, hreader⟩
  exact ⟨rfl, rfl, (hx w.source).trans hreader⟩

/-- Whatever a walker asks its source, the reader stays. Every walker corresponds to itself. -/
def strides (reader : Reader) : Strides Chunked Chunked where
  rel _ w v := w = v ∧ w.source.reader = reader
  known _ _ := True
  place_eq h := congrArg Walker.place h.1
  tabWidth_eq h := congrArg Walker.tabWidth h.1
  extent_eq h := congrArg Walker.extent h.1
  known_place _ := trivial
  read _ := paired_ask _ (reader_ask (.read _))
  atEnd h := paired_ask ByteAccess.atEnd (reader_ask .atEnd) h
  sourceAdvance h := paired_ask ByteAccess.advance (reader_ask .advance) h
  find needle := paired_ask _ (reader_ask (.find needle))
  sourceSkip count := paired_ask _ (reader_ask (.skip count))
  counted _ _ := fun ⟨hw, hreader⟩ => ⟨hw ▸ rfl, hreader⟩
  reset {_ _ _ _ target} _ := fun ⟨hw, hreader⟩ =>
    hw ▸ ⟨rfl, (reader_ask (.reset target.offset) _).trans hreader⟩

end Chunked

end ScriptFront
