import ScriptFront.Proofs.Writing.Outcomes
import ScriptFront.Proofs.Writing.Scanning

/-!
# Places on the way through a text

`Walker.Passes w bytes v` says that `v` is `w` behind some bytes of its text, and that its place is
the one that the rule for places gives. It tells what every step of a scanner does, whether the
scanner succeeds in the end or not.

- `Ends.advance`, `Ends.takeWhile`, …: one rule for each walk that a scanner makes.
- `Walker.SameText`: what also holds where a scanner stopped at a fault.
-/

namespace ScriptFront

namespace Walker

/-- `v` reads the text that `w` reads, perhaps from elsewhere on. -/
structure SameText (w v : Walker Buffer) : Prop where
  name_eq : v.source.name = w.source.name
  content_eq : v.source.content = w.source.content
  tabWidth_eq : v.tabWidth = w.tabWidth

/-- From `w` on, the text has `bytes` and then what `v` has left, and `v` knows its place. -/
structure Passes (w : Walker Buffer) (bytes : List UInt8) (v : Walker Buffer) : Prop
    extends SameText w v where
  rest_eq : w.rest = bytes ++ v.rest
  place_eq : v.place = w.place.afterAll w.tabWidth bytes

variable {w v u : Walker Buffer} {xs ys : List UInt8}

namespace SameText

theorem refl (w : Walker Buffer) : w.SameText w := ⟨rfl, rfl, rfl⟩

theorem trans (h : w.SameText v) (h' : v.SameText u) : w.SameText u where
  name_eq := h'.name_eq.trans h.name_eq
  content_eq := h'.content_eq.trans h.content_eq
  tabWidth_eq := h'.tabWidth_eq.trans h.tabWidth_eq

theorem symm (h : w.SameText v) : v.SameText w :=
  ⟨h.name_eq.symm, h.content_eq.symm, h.tabWidth_eq.symm⟩

theorem extent_eq (h : w.SameText v) : v.extent = w.extent := congrArg Array.size h.content_eq

end SameText

namespace Passes

theorem refl (w : Walker Buffer) : w.Passes [] w where
  toSameText := .refl w
  rest_eq := rfl
  place_eq := rfl

theorem trans (h : w.Passes xs v) (h' : v.Passes ys u) : w.Passes (xs ++ ys) u where
  toSameText := h.toSameText.trans h'.toSameText
  rest_eq := by rw [h.rest_eq, h'.rest_eq, List.append_assoc]
  place_eq := by rw [h'.place_eq, h.place_eq, h.tabWidth_eq, Place.afterAll_append]

theorem offset_eq (h : w.Passes xs v) : v.source.position = w.source.position + xs.length := by
  have hoffset := congrArg Place.offset h.place_eq
  rw [Place.offset_afterAll] at hoffset
  exact hoffset

theorem further (h : w.Passes xs v) : w.Further xs.length v :=
  ⟨h.name_eq, h.content_eq, h.offset_eq⟩

theorem length_le (h : w.Passes xs v) : xs.length + v.rest.length = w.rest.length := by
  rw [h.rest_eq, List.length_append]

end Passes

/-- A step over one byte moves the place by the rule. -/
theorem passes_advance {b : UInt8} {tail : List UInt8} (hrest : w.rest = b :: tail) :
    w.Passes [b] (advance.run w).2 := by
  have hne : w.rest ≠ [] := by
    rw [hrest]
    exact List.cons_ne_nil _ _
  have hfurther := w.further_advance hne
  have hread : (read 0).run w = (b, w) := by
    rw [run_read, hrest]
    rfl
  have hend : atEnd.run w = (false, w) := by
    rw [run_atEnd, hrest]
    rfl
  have hrun : (advance.run w).2 = { w with
      source := w.source.moveTo (w.source.position + 1)
      line := (w.linePosition.after w.tabWidth b).line
      column := (w.linePosition.after w.tabWidth b).column } := by
    rw [advance, StateT.run_bind, hend]
    show ((do
      let byte ← current
      ask ByteAccess.advance
      modify fun w : Walker Buffer =>
        let next := w.linePosition.after w.tabWidth byte
        { w with line := next.line, column := next.column } : StateM (Walker Buffer) Unit).run
          w).2 = _
    rw [StateT.run_bind, current, hread]
    rfl
  constructor
  case toSameText =>
    constructor
    · exact hfurther.name_eq
    · exact hfurther.content_eq
    · rw [hrun]
  case rest_eq =>
    rw [hfurther.rest_cons hrest, hrest]
    rfl
  case place_eq =>
    have hposition : (advance.run w).2.source.position = w.source.position + 1 :=
      hfurther.position_eq
    have hline : (advance.run w).2.linePosition = w.linePosition.after w.tabWidth b := by
      rw [hrun]
      rfl
    show Place.mk (advance.run w).2.linePosition (advance.run w).2.source.position = _
    rw [hposition, hline]
    rfl

end Walker

/-! ## Rules -/

open Walker

namespace Ends

/-- A weaker demand on what a failure leaves. -/
theorem monoError {ε s α : Type} {E F : ε → s → Prop} {x : ExceptT ε (StateM s) α} {p : s}
    {Q : α → s → Prop} (hx : Ends E x p Q) (h : ∀ e q, E e q → F e q) : Ends F x p Q := by
  unfold Ends at hx ⊢
  rcases hrun : x.run p with ⟨e | a, q⟩
  · rw [hrun] at hx
    exact h e q hx
  · rw [hrun] at hx
    exact hx

section Walks

variable {ε α β : Type} {E : ε → Walker Buffer → Prop} {w : Walker Buffer}
  {Q : α → Walker Buffer → Prop} {S : β → Walker Buffer → Prop}

/-- A walk, which does not fail, where something may fail. -/
theorem walk {x : StateM (Walker Buffer) α} (h : Q (x.run w).1 (x.run w).2) :
    Ends E (ScriptFront.walk x) w Q := h

theorem get {f : Walker Buffer → ExceptT ε (StateM (Walker Buffer)) β} (h : Ends E (f w) w S) :
    Ends E (MonadState.get >>= f) w S := h

theorem read {k : Nat} {f : UInt8 → ExceptT ε (StateM (Walker Buffer)) β}
    (h : Ends E (f (w.rest[k]?.getD endByte)) w S) :
    Ends E (ScriptFront.walk (Walker.read k) >>= f) w S := by
  refine Ends.bind (Q := fun b v => b = w.rest[k]?.getD endByte ∧ v = w) ?_ ?_
  · refine walk ?_
    rw [run_read]
    exact ⟨rfl, rfl⟩
  · rintro b v ⟨rfl, rfl⟩
    exact h

theorem atEnd {f : Bool → ExceptT ε (StateM (Walker Buffer)) β}
    (h : Ends E (f w.rest.isEmpty) w S) :
    Ends E (ScriptFront.walk Walker.atEnd >>= f) w S := by
  refine Ends.bind (Q := fun b v => b = w.rest.isEmpty ∧ v = w) ?_ ?_
  · refine walk ?_
    rw [run_atEnd]
    exact ⟨rfl, rfl⟩
  · rintro b v ⟨rfl, rfl⟩
    exact h

/-- At the end of the text one branch is taken, in front of a byte the other one. -/
theorem ifAtEnd {x y : ExceptT ε (StateM (Walker Buffer)) β} (hx : w.rest = [] → Ends E x w S)
    (hy : ∀ b tail, w.rest = b :: tail → Ends E y w S) :
    Ends E (do if ← ScriptFront.walk Walker.atEnd then x else y) w S := by
  refine atEnd ?_
  cases hrest : w.rest with
  | nil => exact hx hrest
  | cons b tail => exact hy b tail hrest

theorem current {b : UInt8} {tail : List UInt8}
    {f : UInt8 → ExceptT ε (StateM (Walker Buffer)) β} (hrest : w.rest = b :: tail)
    (h : Ends E (f b) w S) : Ends E (ScriptFront.walk Walker.current >>= f) w S := by
  refine read ?_
  rw [hrest]
  exact h

theorem advance {b : UInt8} {tail : List UInt8}
    {f : Unit → ExceptT ε (StateM (Walker Buffer)) β} (hrest : w.rest = b :: tail)
    (h : ∀ v, w.Passes [b] v → Ends E (f ()) v S) :
    Ends E (ScriptFront.walk Walker.advance >>= f) w S := by
  refine Ends.bind (Q := fun _ v => w.Passes [b] v) (walk (passes_advance hrest)) ?_
  intro _ v hv
  exact h v hv

theorem bump {b : UInt8} {tail : List UInt8}
    {f : UInt8 → ExceptT ε (StateM (Walker Buffer)) β} (hrest : w.rest = b :: tail)
    (h : ∀ v, w.Passes [b] v → Ends E (f b) v S) :
    Ends E (ScriptFront.walk Walker.bump >>= f) w S := by
  have hrun : Walker.bump.run w = (b, (Walker.advance.run w).2) := by
    have hread : (Walker.read 0).run w = (b, w) := by
      rw [run_read, hrest]
      rfl
    rw [Walker.bump, StateT.run_bind, Walker.current, hread]
    rfl
  refine Ends.bind (Q := fun c v => c = b ∧ w.Passes [b] v) (walk ?_) ?_
  · rw [hrun]
    exact ⟨rfl, passes_advance hrest⟩
  · rintro c v ⟨rfl, hv⟩
    exact h v hv

end Walks

section Runs

variable {ε β : Type} {E : ε → Walker Buffer → Prop} {w : Walker Buffer}
  {S : β → Walker Buffer → Prop}

theorem passes_advanceBy {bytes tail : List UInt8} (hrest : w.rest = bytes ++ tail) :
    w.Passes bytes ((Walker.advanceBy bytes.length).run w).2 := by
  induction bytes generalizing w with
  | nil => exact .refl w
  | cons b bytes ih =>
    have hstep := passes_advance hrest
    have hleft : ((Walker.advance (σ := Buffer)).run w).2.rest = bytes ++ tail := by
      have hsplit := hstep.rest_eq
      rw [hrest] at hsplit
      exact (List.cons.inj hsplit).2.symm
    exact hstep.trans (ih hleft)

theorem advanceBy {bytes tail : List UInt8} {f : Unit → ExceptT ε (StateM (Walker Buffer)) β}
    (hrest : w.rest = bytes ++ tail) (h : ∀ v, w.Passes bytes v → Ends E (f ()) v S) :
    Ends E (ScriptFront.walk (Walker.advanceBy bytes.length) >>= f) w S := by
  refine Ends.bind (Q := fun _ v => w.Passes bytes v) (walk (passes_advanceBy hrest)) ?_
  intro _ v hv
  exact h v hv

theorem passes_advanceToEnd {steps : Nat} (hsteps : w.rest.length ≤ steps) :
    w.Passes w.rest ((Walker.advanceToEnd steps).run w).2 := by
  induction steps generalizing w with
  | zero =>
    have hnil : w.rest = [] := List.length_eq_zero_iff.1 (Nat.le_zero.1 hsteps)
    rw [hnil]
    exact .refl w
  | succ steps ih =>
    rw [Walker.advanceToEnd, StateT.run_bind, run_atEnd]
    cases hrest : w.rest with
    | nil => exact .refl w
    | cons b tail =>
      have hstep := passes_advance hrest
      have hleft : ((Walker.advance (σ := Buffer)).run w).2.rest = tail := by
        have hsplit := hstep.rest_eq
        rw [hrest] at hsplit
        exact (List.cons.inj hsplit).2.symm
      have hmore : ((Walker.advance (σ := Buffer)).run w).2.rest.length ≤ steps := by
        rw [hleft]
        rw [hrest, List.length_cons] at hsteps
        omega
      have hrest' := hstep.trans (ih hmore)
      rw [hleft] at hrest'
      exact hrest'

/-- The longest run of a class is passed; what is left does not go on with the class. -/
theorem collect {inClass : UInt8 → Bool} (hend : inClass endByte = false) {steps : Nat}
    (hsteps : w.rest.length ≤ steps) (taken : Bytes) :
    ∃ bytes v, (Walker.collect inClass steps taken).run w = (taken ++ bytes.toArray, v) ∧
      w.Passes bytes v ∧ (∀ b ∈ bytes, inClass b) ∧ Apart inClass v.rest := by
  have hnone : taken ++ ([] : List UInt8).toArray = taken := by simp
  induction steps generalizing w taken with
  | zero =>
    have hnil : w.rest = [] := List.length_eq_zero_iff.1 (Nat.le_zero.1 hsteps)
    refine ⟨[], w, ?_, .refl w, by simp, ?_⟩
    · rw [hnone]
      rfl
    · rw [Apart, hnil]
      exact hend
  | succ steps ih =>
    rw [Walker.collect, StateT.run_bind, Walker.current, run_read]
    by_cases hclass : inClass (w.rest[0]?.getD endByte)
    · cases hrest : w.rest with
      | nil =>
        rw [hrest] at hclass
        exact absurd hclass (Bool.eq_false_iff.1 hend)
      | cons b tail =>
        rw [hrest] at hclass
        have hb : inClass b := hclass
        have hstep := passes_advance hrest
        have hread : (Walker.read 0).run w = (b, w) := by
          rw [run_read, hrest]
          rfl
        have hmore : ((Walker.advance (σ := Buffer)).run w).2.rest.length ≤ steps := by
          have hlength := hstep.length_le
          simp only [List.length_cons, List.length_nil] at hlength
          omega
        obtain ⟨bytes, v, hrun, hv, hall, hapart⟩ := ih hmore (taken.push b) (by simp)
        refine ⟨b :: bytes, v, ?_, hstep.trans hv, ?_, hapart⟩
        · have hpush : taken ++ (b :: bytes).toArray = taken.push b ++ bytes.toArray := by simp
          rw [hpush, ← hrun]
          show StateT.run (if inClass b then _ else _) w = _
          rw [if_pos hb, StateT.run_bind, Walker.bump, StateT.run_bind, Walker.current, hread]
          rfl
        · intro c hc
          rcases List.mem_cons.1 hc with rfl | hc
          · exact hb
          · exact hall c hc
    · refine ⟨[], w, ?_, .refl w, by simp, Bool.eq_false_iff.2 hclass⟩
      rw [hnone]
      show StateT.run (if inClass (w.rest[0]?.getD endByte) then _ else _) w = _
      rw [if_neg hclass]
      rfl

theorem takeWhile {inClass : UInt8 → Bool}
    {f : List UInt8 → ExceptT ε (StateM (Walker Buffer)) β} (hend : inClass endByte = false)
    (h : ∀ bytes v, w.Passes bytes v → (∀ b ∈ bytes, inClass b) → Apart inClass v.rest →
      Ends E (f bytes) v S) :
    Ends E (ScriptFront.walk (Walker.takeWhile inClass) >>= f) w S := by
  have hle := w.length_rest_le
  have hsteps : w.rest.length ≤ w.extent + 1 := by omega
  obtain ⟨bytes, v, hrun, hv, hall, hapart⟩ := collect hend hsteps #[]
  have htaken : (Walker.takeWhile inClass).run w = (bytes, v) := by
    have hlist : bytes = (#[] ++ bytes.toArray).toList := by simp
    rw [hlist]
    show ((do return (← Walker.collect inClass (w.extent + 1) #[]).toList :
      StateM (Walker Buffer) (List UInt8)).run w) = _
    rw [StateT.run_bind, hrun]
    rfl
  refine Ends.bind (Q := fun xs u => xs = bytes ∧ u = v) (walk ?_) ?_
  · rw [htaken]
    exact ⟨rfl, rfl⟩
  · rintro xs u ⟨rfl, rfl⟩
    exact h xs u hv hall hapart

end Runs

end Ends

end ScriptFront
