import ScriptFront.Proofs.Coupling.Basic
import ScriptFront.Proofs.Writing.Lexemes

/-!
# Reading what was written, byte by byte

Over a buffer, what a scanner comes to can be told by the bytes that are left.

- `Walker.rest`: the bytes from the current one on.
- `Walker.Further`: one walker is another one, some bytes on.
- `Walks`, `Takes`: a walk or a scanner comes to a value and leaves the walker some bytes further
  on.
- `Takes.word`, `Takes.number`, …: each kind of lexeme is taken as a whole, if what follows it
  keeps it apart.
-/

namespace ScriptFront

namespace Walker

/-- The bytes from the current one on. -/
def rest (w : Walker Buffer) : List UInt8 := w.source.content.toList.drop w.source.position

/-- `v` is `w`, `n` bytes further on; lines and columns do not matter. -/
structure Further (w : Walker Buffer) (n : Nat) (v : Walker Buffer) : Prop where
  name_eq : v.source.name = w.source.name
  content_eq : v.source.content = w.source.content
  position_eq : v.source.position = w.source.position + n

namespace Further

variable {w v u : Walker Buffer} {m n : Nat}

theorem refl (w : Walker Buffer) : w.Further 0 w := ⟨rfl, rfl, rfl⟩

theorem trans (h : w.Further m v) (h' : v.Further n u) : w.Further (m + n) u :=
  ⟨h'.name_eq.trans h.name_eq, h'.content_eq.trans h.content_eq,
    by rw [h'.position_eq, h.position_eq, Nat.add_assoc]⟩

theorem rest_eq (h : w.Further n v) : v.rest = w.rest.drop n := by
  rw [rest, rest, h.content_eq, h.position_eq, List.drop_drop]

/-- Behind a known start of the rest, what follows is left. -/
theorem rest_append (h : w.Further n v) {bytes tail : List UInt8} (hrest : w.rest = bytes ++ tail)
    (hn : bytes.length = n) : v.rest = tail := by
  rw [h.rest_eq, hrest, ← hn]
  exact List.drop_left

theorem rest_cons (h : w.Further 1 v) {b : UInt8} {tail : List UInt8} (hrest : w.rest = b :: tail) :
    v.rest = tail := by
  rw [h.rest_eq, hrest]
  rfl

end Further

theorem length_rest (w : Walker Buffer) :
    w.rest.length + w.source.position = w.source.content.size := by
  have hle := w.source.position_le
  rw [rest, List.length_drop, Array.length_toList]
  omega

theorem length_rest_le (w : Walker Buffer) : w.rest.length ≤ w.extent := by
  have h := w.length_rest
  show w.rest.length ≤ w.source.content.size
  omega

/-! ## Questions -/

theorem run_read (w : Walker Buffer) (k : Nat) :
    (read k).run w = (w.rest[k]?.getD endByte, w) := by
  have hbyte : w.source.byteAhead? k = w.rest[k]? := by
    rw [Buffer.byteAhead?, rest, List.getElem?_drop, Array.getElem?_toList]
  show ((w.source.byteAhead? k).getD endByte, w) = _
  rw [hbyte]

theorem run_atEnd (w : Walker Buffer) : atEnd.run w = (w.rest.isEmpty, w) := by
  have hbyte : (w.source.byteAhead? 0).isSome = !w.rest.isEmpty := by
    rw [Buffer.byteAhead?, rest, Nat.add_zero, ← Array.getElem?_toList, ← List.head?_drop]
    cases w.source.content.toList.drop w.source.position <;> rfl
  show (!(w.source.byteAhead? 0).isSome, w) = _
  rw [hbyte, Bool.not_not]

/-! ## Steps -/

theorem further_advance (w : Walker Buffer) (h : w.rest ≠ []) :
    w.Further 1 (advance.run w).2 := by
  have hlength := w.length_rest
  have hpos := List.length_pos_iff.2 h
  have hnotEnd : (w.source.byteAhead? 0).isSome = true := by
    rw [Buffer.byteAhead?, Nat.add_zero, Array.getElem?_eq_getElem (by omega)]
    rfl
  have hrun : (advance.run w).2.source = w.source.moveTo (w.source.position + 1) := by
    have hend := w.run_atEnd
    rw [advance, StateT.run_bind, hend]
    have hempty : w.rest.isEmpty = false := by
      cases hrest : w.rest with
      | nil => exact absurd hrest h
      | cons b bytes => rfl
    rw [hempty]
    rfl
  refine ⟨?_, ?_, ?_⟩
  · rw [hrun]
    rfl
  · rw [hrun]
    rfl
  · rw [hrun]
    show min (w.source.position + 1) w.source.content.size = w.source.position + 1
    omega

end Walker

/-! ## Walks -/

open Walker

section Walks

variable {ε α β : Type} {w : Walker Buffer} {m n : Nat}

/-- From `w`, a walk comes to `a` and to `n` bytes further on. -/
def Walks (x : StateM (Walker Buffer) α) (w : Walker Buffer) (n : Nat) (a : α) : Prop :=
  ∃ w', x.run w = (a, w') ∧ w.Further n w'

/-- From `w`, a reading that may fail comes to `a` and to `n` bytes further on. -/
def Takes (x : ExceptT ε (StateM (Walker Buffer)) α) (w : Walker Buffer) (n : Nat) (a : α) : Prop :=
  ∃ w', x.run w = (.ok a, w') ∧ w.Further n w'

theorem Walks.pure (a : α) : Walks (Pure.pure a) w 0 a := ⟨w, rfl, .refl w⟩

theorem Walks.bind {x : StateM (Walker Buffer) α} {f : α → StateM (Walker Buffer) β} {a : α} {b : β}
    (hx : Walks x w m a) (hf : ∀ w', w.Further m w' → Walks (f a) w' n b) :
    Walks (x >>= f) w (m + n) b := by
  obtain ⟨v, hrun, hv⟩ := hx
  obtain ⟨u, hrun', hu⟩ := hf v hv
  refine ⟨u, ?_, hv.trans hu⟩
  rw [StateT.run_bind, hrun]
  exact hrun'

/-- A question is answered by the rest and moves nothing. -/
theorem Walks.read {k : Nat} {f : UInt8 → StateM (Walker Buffer) β} {b : β}
    (h : Walks (f (w.rest[k]?.getD endByte)) w n b) : Walks (Walker.read k >>= f) w n b := by
  obtain ⟨v, hrun, hv⟩ := h
  refine ⟨v, ?_, hv⟩
  rw [StateT.run_bind, run_read]
  exact hrun

theorem Walks.advance {b : UInt8} {tail : List UInt8} (hrest : w.rest = b :: tail) :
    Walks Walker.advance w 1 () := by
  have hne : w.rest ≠ [] := by
    rw [hrest]
    exact List.cons_ne_nil _ _
  exact ⟨_, rfl, w.further_advance hne⟩

theorem Walks.bump {b : UInt8} {tail : List UInt8} (hrest : w.rest = b :: tail) :
    Walks Walker.bump w 1 b := by
  have hstep : Walks (do Walker.advance; Pure.pure (w.rest[0]?.getD endByte)) w (1 + 0)
      (w.rest[0]?.getD endByte) := (Walks.advance hrest).bind fun _ _ => .pure _
  have hbyte : w.rest[0]?.getD endByte = b := by rw [hrest]; rfl
  rw [hbyte] at hstep
  refine Walks.read ?_
  rw [hbyte]
  exact hstep

theorem Walks.advanceBy {bytes tail : List UInt8} (hrest : w.rest = bytes ++ tail) :
    Walks (Walker.advanceBy bytes.length) w bytes.length () := by
  induction bytes generalizing w with
  | nil => exact .pure ()
  | cons b bytes ih =>
    rw [List.length_cons, Walker.advanceBy, Nat.add_comm]
    exact (Walks.advance hrest).bind fun v hv => ih (hv.rest_cons hrest)

/-- A walk where something may fail. -/
theorem Walks.walk {x : StateM (Walker Buffer) α} {a : α} (h : Walks x w n a) :
    Takes (ε := ε) (walk x) w n a := by
  obtain ⟨v, hrun, hv⟩ := h
  refine ⟨v, ?_, hv⟩
  show ((Except.ok (x.run w).1 : Except ε α), (x.run w).2) = _
  rw [hrun]

/-! ## Readings that may fail -/

theorem Takes.pure (a : α) : Takes (ε := ε) (Pure.pure a) w 0 a := ⟨w, rfl, .refl w⟩

theorem Takes.bind {x : ExceptT ε (StateM (Walker Buffer)) α}
    {f : α → ExceptT ε (StateM (Walker Buffer)) β} {a : α} {b : β} (hx : Takes x w m a)
    (hf : ∀ w', w.Further m w' → Takes (f a) w' n b) : Takes (x >>= f) w (m + n) b := by
  obtain ⟨v, hrun, hv⟩ := hx
  obtain ⟨u, hrun', hu⟩ := hf v hv
  exact ⟨u, (run_bind_ok hrun).trans hrun', hv.trans hu⟩

/-- A last step that moves nothing. -/
theorem Takes.map {x : ExceptT ε (StateM (Walker Buffer)) α}
    {f : α → ExceptT ε (StateM (Walker Buffer)) β} {a : α} {b : β} (hx : Takes x w n a)
    (hf : ∀ w', w.Further n w' → Takes (f a) w' 0 b) : Takes (x >>= f) w n b :=
  hx.bind hf

theorem Takes.get {f : Walker Buffer → ExceptT ε (StateM (Walker Buffer)) β} {b : β}
    (h : Takes (f w) w n b) : Takes (MonadState.get >>= f) w n b := h

theorem Takes.read {k : Nat} {f : UInt8 → ExceptT ε (StateM (Walker Buffer)) β} {b : β}
    (h : Takes (f (w.rest[k]?.getD endByte)) w n b) :
    Takes (ScriptFront.walk (Walker.read k) >>= f) w n b := by
  obtain ⟨v, hrun, hv⟩ := h
  refine ⟨v, (run_bind_ok ?_).trans hrun, hv⟩
  show ((Except.ok ((Walker.read k).run w).1 : Except ε UInt8), ((Walker.read k).run w).2) = _
  rw [run_read]

theorem Takes.ifTrue {c : Prop} [Decidable c] {x y : ExceptT ε (StateM (Walker Buffer)) β} {b : β}
    (hc : c) (h : Takes x w n b) : Takes (if c then x else y) w n b := by
  rw [if_pos hc]
  exact h

theorem Takes.ifFalse {c : Prop} [Decidable c] {x y : ExceptT ε (StateM (Walker Buffer)) β} {b : β}
    (hc : ¬c) (h : Takes y w n b) : Takes (if c then x else y) w n b := by
  rw [if_neg hc]
  exact h

/-- The current byte is the first one of the rest. -/
theorem Takes.current {byte : UInt8} {tail : List UInt8}
    {f : UInt8 → ExceptT ε (StateM (Walker Buffer)) β} {b : β} (hrest : w.rest = byte :: tail)
    (h : Takes (f byte) w n b) : Takes (ScriptFront.walk Walker.current >>= f) w n b := by
  refine Takes.read ?_
  rw [hrest]
  exact h

theorem Takes.atEnd {f : Bool → ExceptT ε (StateM (Walker Buffer)) β} {b : β}
    (h : Takes (f w.rest.isEmpty) w n b) : Takes (ScriptFront.walk Walker.atEnd >>= f) w n b := by
  obtain ⟨v, hrun, hv⟩ := h
  refine ⟨v, (run_bind_ok ?_).trans hrun, hv⟩
  show ((Except.ok (Walker.atEnd.run w).1 : Except ε Bool), (Walker.atEnd.run w).2) = _
  rw [run_atEnd]

/-- A byte is left. -/
theorem Takes.notAtEnd {byte : UInt8} {tail : List UInt8}
    {f : Bool → ExceptT ε (StateM (Walker Buffer)) β} {b : β} (hrest : w.rest = byte :: tail)
    (h : Takes (f false) w n b) : Takes (ScriptFront.walk Walker.atEnd >>= f) w n b := by
  refine Takes.atEnd ?_
  rw [hrest]
  exact h

end Walks

/-! ## Runs of bytes -/

section Runs

variable {w : Walker Buffer} {bytes tail : List UInt8}

/-- A class of bytes does not go on behind a run. -/
def Apart (inClass : UInt8 → Bool) (tail : List UInt8) : Prop :=
  inClass (tail[0]?.getD endByte) = false

theorem Walks.collect {inClass : UInt8 → Bool} (hbytes : ∀ b ∈ bytes, inClass b)
    (htail : Apart inClass tail) {steps : Nat} (hsteps : bytes.length ≤ steps) (taken : Bytes)
    (hrest : w.rest = bytes ++ tail) :
    Walks (Walker.collect inClass steps taken) w bytes.length (taken ++ bytes.toArray) := by
  induction bytes generalizing w steps taken with
  | nil =>
    have hnone : taken ++ ([] : List UInt8).toArray = taken := by simp
    rw [hnone]
    cases steps with
    | zero => exact .pure taken
    | succ steps =>
      refine Walks.read ?_
      rw [hrest, List.nil_append, htail]
      exact .pure taken
  | cons b bytes ih =>
    obtain ⟨steps, rfl⟩ : ∃ k, steps = k + 1 := ⟨steps - 1, by simp at hsteps; omega⟩
    have hb : inClass b := hbytes b List.mem_cons_self
    have hbs : ∀ b ∈ bytes, inClass b := fun b h => hbytes b (List.mem_cons_of_mem _ h)
    have hpush : taken.push b ++ bytes.toArray = taken ++ (b :: bytes).toArray := by simp
    refine Walks.read ?_
    rw [hrest, List.cons_append, List.getElem?_cons_zero, Option.getD_some, if_pos hb,
      List.length_cons, Nat.add_comm, ← hpush]
    refine (Walks.bump hrest).bind fun v hv => ?_
    exact ih hbs (Nat.le_of_succ_le_succ hsteps) _ (hv.rest_cons hrest)

/-- The longest run of a class is what stands in front of a byte that is not of the class. -/
theorem Takes.takeWhile {ε : Type} {inClass : UInt8 → Bool} (hbytes : ∀ b ∈ bytes, inClass b)
    (htail : Apart inClass tail) (hrest : w.rest = bytes ++ tail) :
    Takes (ε := ε) (walk (Walker.takeWhile inClass)) w bytes.length bytes := by
  refine Walks.walk ?_
  have hle := w.length_rest_le
  rw [hrest, List.length_append] at hle
  have hsteps : bytes.length ≤ w.extent + 1 := by omega
  have hcollect := Walks.collect hbytes htail hsteps #[] hrest
  have hrun : Walks (do return (← Walker.collect inClass (w.extent + 1) #[]).toList) w
      (bytes.length + 0) (#[] ++ bytes.toArray).toList := hcollect.bind fun _ _ => .pure _
  simp only [Array.empty_append] at hrun
  exact hrun

end Runs

end ScriptFront
