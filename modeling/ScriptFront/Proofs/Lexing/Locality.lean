import Mathlib.Data.List.TakeWhile
import ScriptFront.Proofs.Lexing.Endings

/-!
# How far the lexer looks

A token is told by its own bytes and those that are glued to it: where a blank, a comment or the end
of the text follows, it makes no difference which of them it is, nor what is behind it.

- `stops`: the bytes that no lexeme goes on with.
- `Local`: a scanner that comes to the same in front of other stops, as long as it keeps to the
  bytes in front of them.
- `Local.word`, `Local.number`, …: one scanner after the other.
- `Local.scan`: the lexeme at the current byte.
-/

namespace ScriptFront

open Walker

-- What a reading comes to is told by the rules; nothing is to be run to find out.
attribute [local irreducible] Ends

/-- The bytes that no lexeme goes on with: white space, the slash that comments begin with, and what
is read behind the end. -/
def stops : List UInt8 := [32, 9, 10, 13, byteOf '/', endByte]

/-- A class that no stop is found to be of has no stop. -/
theorem none_of_any {inClass : UInt8 → Bool} (h : stops.any inClass = false) :
    ∀ b ∈ stops, inClass b = false :=
  fun b hb => Bool.eq_false_iff.2 (List.any_eq_false.1 h b hb)

/-- A byte that no lexeme goes on with is in front, or nothing. -/
def AtStop (tail : List UInt8) : Prop := tail[0]?.getD endByte ∈ stops

/-- From at least `k` bytes in front of the tail `a` on, a scanner that keeps to the bytes in front
of it comes to the same as in front of the tail `a'`. -/
structure Local (a a' : List UInt8) (k : Nat) {α : Type} (x : Scan Buffer α) : Prop where
  shrinks {w v : Walker Buffer} {r : α} (hrun : x.run w = (.ok r, v)) :
    v.rest.length ≤ w.rest.length
  follows {bytes : List UInt8} {w w' v : Walker Buffer} {r : α} (hk : k ≤ bytes.length)
    (hw : w.rest = bytes ++ a) (hw' : w'.rest = bytes ++ a') (hrun : x.run w = (.ok r, v))
    (hkeeps : a.length ≤ v.rest.length) :
    ∃ bytes' v', x.run w' = (.ok r, v') ∧ v.rest = bytes' ++ a ∧ v'.rest = bytes' ++ a'

namespace Local

variable {a a' : List UInt8} {k : Nat} {α β : Type} {x : Scan Buffer α} {f : α → Scan Buffer β}

/-! ## Rules -/

theorem pure (r : α) : Local a a' 0 (Pure.pure r : Scan Buffer α) where
  shrinks hrun := by
    cases hrun
    exact Nat.le_refl _
  follows _ hw hw' hrun _ := by
    cases hrun
    exact ⟨_, _, rfl, hw, hw'⟩

theorem throw (fault : LexFault) : Local a a' k (MonadExcept.throw fault : Scan Buffer α) where
  shrinks hrun := by cases hrun
  follows _ _ _ hrun _ := by cases hrun

theorem mono {k' : Nat} (h : Local a a' k x) (hk : k ≤ k') : Local a a' k' x where
  shrinks := h.shrinks
  follows hk' := h.follows (Nat.le_trans hk hk')

theorem ite {c : Prop} [Decidable c] {y : Scan Buffer α} (hx : c → Local a a' k x)
    (hy : ¬c → Local a a' k y) : Local a a' k (if c then x else y) := by
  split
  · exact hx ‹_›
  · exact hy ‹_›

theorem bind (hx : Local a a' k x) (hf : ∀ r, Local a a' 0 (f r)) : Local a a' k (x >>= f) := by
  have hsplit {w v : Walker Buffer} {s : β} (hrun : (x >>= f).run w = (.ok s, v)) :
      ∃ r u, x.run w = (.ok r, u) ∧ (f r).run u = (.ok s, v) := by
    rcases hfirst : x.run w with ⟨e | r, u⟩
    · rw [run_bind_error hfirst] at hrun
      cases hrun
    · rw [run_bind_ok hfirst] at hrun
      exact ⟨r, u, rfl, hrun⟩
  constructor
  case shrinks =>
    intro w v s hrun
    obtain ⟨r, u, hfirst, hsecond⟩ := hsplit hrun
    exact Nat.le_trans ((hf r).shrinks hsecond) (hx.shrinks hfirst)
  case follows =>
    intro bytes w w' v s hk hw hw' hrun hkeeps
    obtain ⟨r, u, hfirst, hsecond⟩ := hsplit hrun
    have hkeeps' := Nat.le_trans hkeeps ((hf r).shrinks hsecond)
    obtain ⟨bytes', u', hfirst', hu, hu'⟩ := hx.follows hk hw hw' hfirst hkeeps'
    obtain ⟨bytes'', v', hsecond', hv, hv'⟩ :=
      (hf r).follows (Nat.zero_le _) hu hu' hsecond hkeeps
    exact ⟨bytes'', v', (run_bind_ok hfirst').trans hsecond', hv, hv'⟩

theorem run_walk_read (w : Walker Buffer) (j : Nat) :
    (walk (Walker.read j) : Scan Buffer UInt8).run w = (.ok (w.rest[j]?.getD endByte), w) := by
  show ((Except.ok ((Walker.read j).run w).1 : Except LexFault UInt8),
    ((Walker.read j).run w).2) = _
  rw [run_read]

theorem run_read_bind (w : Walker Buffer) (j : Nat) (f : UInt8 → Scan Buffer β) :
    (walk (Walker.read j) >>= f).run w = (f (w.rest[j]?.getD endByte)).run w :=
  run_bind_ok (run_walk_read w j)

/-- A byte in front of the tail is the same. -/
theorem read_eq {bytes : List UInt8} {w w' : Walker Buffer} (hw : w.rest = bytes ++ a)
    (hw' : w'.rest = bytes ++ a') {j : Nat} (hj : j < bytes.length) :
    w.rest[j]?.getD endByte = w'.rest[j]?.getD endByte := by
  rw [hw, hw', List.getElem?_append_left hj, List.getElem?_append_left hj]

theorem readWithin {j : Nat} {f : UInt8 → Scan Buffer β} (hj : j < k)
    (hf : ∀ b, Local a a' k (f b)) : Local a a' k (walk (Walker.read j) >>= f) where
  shrinks hrun := by
    rw [run_read_bind] at hrun
    exact (hf _).shrinks hrun
  follows {bytes w w' v r} hk hw hw' hrun hkeeps := by
    rw [run_read_bind] at hrun ⊢
    rw [← read_eq hw hw' (Nat.lt_of_lt_of_le hj hk)]
    exact (hf _).follows hk hw hw' hrun hkeeps

/-- Where the tail may begin, it makes no difference which stop is there. -/
theorem readEdge {j : Nat} {f : UInt8 → Scan Buffer β} (ha : AtStop a) (ha' : AtStop a')
    (hstop : ∀ b ∈ stops, f b = f endByte) (hf : ∀ b, Local a a' (j + 1) (f b))
    (hend : Local a a' j (f endByte)) : Local a a' j (walk (Walker.read j) >>= f) where
  shrinks hrun := by
    rw [run_read_bind] at hrun
    exact (hf _).shrinks hrun
  follows {bytes w w' v r} hk hw hw' hrun hkeeps := by
    rcases Nat.eq_or_lt_of_le hk with hj | hlt
    · have hbehind (tail : List UInt8) : (bytes ++ tail)[j]? = tail[0]? := by
        rw [hj, List.getElem?_append_right (Nat.le_refl _), Nat.sub_self]
      rw [run_read_bind, hw, hbehind, hstop _ ha] at hrun
      rw [run_read_bind, hw', hbehind, hstop _ ha']
      exact hend.follows hk hw hw' hrun hkeeps
    · exact (readWithin (Nat.lt_succ_self j) hf).follows hlt hw hw' hrun hkeeps

theorem run_walk_advanceBy {w : Walker Buffer} {bytes tail : List UInt8} {count : Nat}
    (hrest : w.rest = bytes ++ tail) (hcount : count = bytes.length) :
    ∃ v, (walk (Walker.advanceBy count) : Scan Buffer Unit).run w = (.ok (), v) ∧
      v.rest = tail := by
  subst hcount
  have hpasses := Ends.passes_advanceBy hrest
  refine ⟨_, rfl, ?_⟩
  have hsplit := hpasses.rest_eq
  rw [hrest] at hsplit
  exact (List.append_cancel_left hsplit).symm

theorem length_rest_advanceBy (w : Walker Buffer) (count : Nat) :
    ((Walker.advanceBy count).run w).2.rest.length ≤ w.rest.length := by
  induction count generalizing w with
  | zero => exact Nat.le_refl _
  | succ count ih =>
    refine Nat.le_trans (ih (Walker.advance.run w).2) ?_
    cases hrest : w.rest with
    | nil =>
      have hstays : (Walker.advance.run w).2 = w := by
        rw [Walker.advance, StateT.run_bind, run_atEnd, hrest]
        rfl
      exact Nat.le_of_eq (by rw [hstays, hrest])
    | cons b tail =>
      rw [← hrest, ← (passes_advance hrest).length_le]
      exact Nat.le_add_left _ _

theorem advanceBy (count : Nat) : Local a a' count (walk (Walker.advanceBy count)) where
  shrinks {w v r} hrun := by
    cases hrun
    exact length_rest_advanceBy w count
  follows {bytes w w' v r} hk hw hw' hrun _ := by
    have hsplit (tail : List UInt8) :
        bytes ++ tail = bytes.take count ++ (bytes.drop count ++ tail) := by
      rw [← List.append_assoc, List.take_append_drop]
    have hcount : count = (bytes.take count).length := by
      rw [List.length_take]
      omega
    obtain ⟨u, hu, hleft⟩ := run_walk_advanceBy (hw.trans (hsplit a)) hcount
    obtain ⟨u', hu', hleft'⟩ := run_walk_advanceBy (hw'.trans (hsplit a')) hcount
    rw [hu] at hrun
    cases hrun
    exact ⟨_, u', hu', hleft, hleft'⟩

/-- Behind bytes that may be of a class, a run of it does not go on. -/
theorem takeWhile_append {inClass : UInt8 → Bool} (bytes : List UInt8) {tail : List UInt8}
    (htail : Apart inClass tail) :
    (bytes ++ tail).takeWhile inClass = bytes.takeWhile inClass ∧
      (bytes ++ tail).dropWhile inClass = bytes.dropWhile inClass ++ tail := by
  induction bytes with
  | nil =>
    cases tail with
    | nil => exact ⟨rfl, rfl⟩
    | cons b tail =>
      have hb : ¬inClass b = true := Bool.eq_false_iff.1 htail
      exact ⟨List.takeWhile_cons_of_neg hb, List.dropWhile_cons_of_neg hb⟩
  | cons b bytes ih =>
    by_cases hb : inClass b = true
    · rw [List.cons_append, List.takeWhile_cons_of_pos hb, List.takeWhile_cons_of_pos hb,
        List.dropWhile_cons_of_pos hb, List.dropWhile_cons_of_pos hb, ih.1, ih.2]
      exact ⟨rfl, rfl⟩
    · rw [List.cons_append, List.takeWhile_cons_of_neg hb, List.takeWhile_cons_of_neg hb,
        List.dropWhile_cons_of_neg hb, List.dropWhile_cons_of_neg hb]
      exact ⟨rfl, rfl⟩

theorem run_walk_takeWhile (w : Walker Buffer) {inClass : UInt8 → Bool}
    (hend : inClass endByte = false) :
    ∃ v, (walk (Walker.takeWhile inClass) : Scan Buffer (List UInt8)).run w =
        (.ok (w.rest.takeWhile inClass), v) ∧ v.rest = w.rest.dropWhile inClass := by
  have hsplit : w.rest = w.rest.takeWhile inClass ++ w.rest.dropWhile inClass :=
    List.takeWhile_append_dropWhile.symm
  have hapart : Apart inClass (w.rest.dropWhile inClass) := by
    unfold Apart
    cases hdrop : w.rest.dropWhile inClass with
    | nil => exact hend
    | cons b tail =>
      have hhead := List.head?_dropWhile_not inClass w.rest
      rw [hdrop] at hhead
      simpa using hhead
  obtain ⟨v, hrun, hv⟩ := Takes.takeWhile (ε := LexFault) (fun b hb => List.mem_takeWhile_imp hb)
    hapart hsplit
  exact ⟨v, hrun, hv.rest_append hsplit rfl⟩

/-- The longest run of a class is the same, if no stop is of the class. -/
theorem takeWhile {inClass : UInt8 → Bool} (ha : AtStop a) (ha' : AtStop a')
    (hclass : ∀ b ∈ stops, inClass b = false) :
    Local a a' 0 (walk (Walker.takeWhile inClass)) where
  shrinks {w v r} hrun := by
    obtain ⟨u, hu, hleft⟩ := run_walk_takeWhile w (hclass endByte (by decide))
    rw [hu] at hrun
    cases hrun
    rw [hleft]
    exact List.length_dropWhile_le inClass w.rest
  follows {bytes w w' v r} _ hw hw' hrun _ := by
    obtain ⟨u, hu, hleft⟩ := run_walk_takeWhile w (hclass endByte (by decide))
    obtain ⟨u', hu', hleft'⟩ := run_walk_takeWhile w' (hclass endByte (by decide))
    obtain ⟨htake, hdrop⟩ := takeWhile_append bytes (hclass _ ha)
    obtain ⟨htake', hdrop'⟩ := takeWhile_append bytes (hclass _ ha')
    rw [hw, htake] at hu
    rw [hw, hdrop] at hleft
    rw [hw', htake'] at hu'
    rw [hw', hdrop'] at hleft'
    rw [hu] at hrun
    cases hrun
    exact ⟨_, u', hu', hleft, hleft'⟩

/-! ## Words and numbers -/

section

variable (ha : AtStop a) (ha' : AtStop a')

include ha ha'

theorem word : Local a a' 0 (Lexer.word : Scan Buffer (TokenKind × String)) := by
  unfold Lexer.word
  refine (takeWhile ha ha' (none_of_any (by decide))).bind fun bytes => ?_
  dsimp only
  split
  · exact .pure _
  · exact .pure _

theorem radixDigits (form : IntegerForm) :
    Local a a' 2 (Lexer.radixDigits form form.isDigit : Scan Buffer (TokenKind × String)) := by
  have hclass : ∀ b ∈ stops, form.isDigit b = false := none_of_any (by cases form <;> decide)
  unfold Lexer.radixDigits
  refine (advanceBy 2).bind fun _ => (takeWhile ha ha' hclass).bind fun digits => ?_
  exact ite (fun _ => .throw _) fun _ => .pure _

omit ha ha' in
/-- A size that is told is the same if the bytes that it is told by are. -/
theorem sizeBits?_congr {second third second' third' : UInt8} {bits width : Nat}
    (h : Lexer.sizeBits? second third = some (bits, width)) (hsecond : second = second')
    (hthird : width = 3 → third = third') :
    Lexer.sizeBits? second' third' = some (bits, width) := by
  subst hsecond
  rcases Ends.sizeBits?_cases h with ⟨-, -, -, rfl⟩ | ⟨-, -, -, rfl⟩ | ⟨-, -, -, rfl⟩ |
    ⟨rfl, rfl, rfl⟩
  · rw [← hthird rfl, h]
  · rw [← hthird rfl, h]
  · rw [← hthird rfl, h]
  · rfl

omit ha ha' in
theorem one_lt_width {second third : UInt8} {bits width : Nat}
    (h : Lexer.sizeBits? second third = some (bits, width)) : 1 < width := by
  rcases Ends.sizeBits?_cases h with ⟨-, -, -, rfl⟩ | ⟨-, -, -, rfl⟩ | ⟨-, -, -, rfl⟩ |
    ⟨-, -, rfl⟩ <;> decide

omit ha ha' in
/-- None of the bytes that a size is told by is read behind the end. -/
theorem width_le_length {rest : List UInt8} {bits width : Nat}
    (h : Lexer.sizeBits? (rest[1]?.getD endByte) (rest[2]?.getD endByte) = some (bits, width)) :
    width ≤ rest.length := by
  have hread {j : Nat} {b : UInt8} (hb : rest[j]?.getD endByte = b) (hne : b ≠ endByte) :
      j < rest.length := by
    by_contra hle
    rw [List.getElem?_eq_none (Nat.not_lt.1 hle)] at hb
    exact hne hb.symm
  rcases Ends.sizeBits?_cases h with ⟨-, h', -, rfl⟩ | ⟨-, h', -, rfl⟩ | ⟨-, h', -, rfl⟩ |
    ⟨h', -, rfl⟩
  all_goals exact hread h' (by decide)

omit ha ha' in
/-- The bytes that a size is told by are all in front of the tail, if it is taken there. -/
theorem writtenSize (signed : Bool) :
    Local a a' 1 (do
      let second ← walk (Walker.read 1)
      let third ← walk (Walker.read 2)
      match Lexer.sizeBits? second third with
      | some (bits, width) =>
        walk (Walker.advanceBy width)
        return Lexer.sizedForm signed bits
      | none => MonadExcept.throw LexFault.malformedNumber) := by
  have hsized {w v : Walker Buffer} {r : IntegerForm} (hrun : (do
      match Lexer.sizeBits? (w.rest[1]?.getD endByte) (w.rest[2]?.getD endByte) with
      | some (bits, width) =>
        walk (Walker.advanceBy width)
        return Lexer.sizedForm signed bits
      | none => MonadExcept.throw LexFault.malformedNumber : Scan Buffer IntegerForm).run w =
        (.ok r, v)) : ∃ bits width,
      Lexer.sizeBits? (w.rest[1]?.getD endByte) (w.rest[2]?.getD endByte) = some (bits, width) ∧
        (do
          walk (Walker.advanceBy width)
          return Lexer.sizedForm signed bits : Scan Buffer IntegerForm).run w = (.ok r, v) := by
    cases hsize : Lexer.sizeBits? (w.rest[1]?.getD endByte) (w.rest[2]?.getD endByte) with
    | none =>
      rw [hsize] at hrun
      cases hrun
    | some size =>
      obtain ⟨bits, width⟩ := size
      rw [hsize] at hrun
      exact ⟨bits, width, rfl, hrun⟩
  have htaken (bits width : Nat) : Local a a' width (do
      walk (Walker.advanceBy width)
      return Lexer.sizedForm signed bits) := (advanceBy width).bind fun _ => pure _
  constructor
  case shrinks =>
    intro w v r hrun
    rw [run_read_bind, run_read_bind] at hrun
    obtain ⟨bits, width, -, hrun⟩ := hsized hrun
    exact (htaken bits width).shrinks hrun
  case follows =>
    intro bytes w w' v r hk hw hw' hrun hkeeps
    rw [run_read_bind, run_read_bind] at hrun ⊢
    obtain ⟨bits, width, hsize, hrun⟩ := hsized hrun
    have hfront : width ≤ w.rest.length := width_le_length hsize
    obtain ⟨u, hu, hleft⟩ := run_walk_advanceBy (List.take_append_drop width w.rest).symm
      (List.length_take_of_le hfront).symm
    have hwidth : width ≤ bytes.length := by
      rw [run_bind_ok hu] at hrun
      cases hrun
      rw [hleft, List.length_drop, hw, List.length_append] at hkeeps
      rw [hw, List.length_append] at hfront
      omega
    have hsecond := read_eq hw hw' (Nat.lt_of_lt_of_le (one_lt_width hsize) hwidth)
    have hthird (h : width = 3) : w.rest[2]?.getD endByte = w'.rest[2]?.getD endByte :=
      read_eq hw hw' (by omega)
    rw [sizeBits?_congr hsize hsecond hthird]
    exact (htaken bits width).follows hwidth hw hw' hrun hkeeps

theorem integerSize : Local a a' 0 (Lexer.integerSize : Scan Buffer IntegerForm) := by
  unfold Lexer.integerSize
  have hstop : ∀ b ∈ stops,
      ¬((b = byteOf 'i' || b = byteOf 'I') || b = byteOf 'u' || b = byteOf 'U') = true :=
    List.any_eq_false.1 (by decide)
  refine readEdge ha ha' (fun b hb => ?_) (fun b => ?_) (pure _)
  · dsimp only
    rw [if_neg (hstop b hb)]
    rfl
  · exact ite (fun _ => writtenSize _) fun _ => (pure _).mono (Nat.zero_le _)

theorem realSize : Local a a' 0 (Lexer.realSize : Scan Buffer RealForm) := by
  have hstop : ∀ b ∈ stops, ¬(b = byteOf 'f' || b = byteOf 'F') = true :=
    List.any_eq_false.1 (by decide)
  unfold Lexer.realSize
  refine readEdge ha ha' (fun b hb => ?_) (fun b => ?_) (pure _)
  · rw [if_neg (hstop b hb)]
    rfl
  · exact ite (fun _ => (advanceBy 1).bind fun _ => .pure _) fun _ => (pure _).mono (Nat.zero_le _)

theorem decimal : Local a a' 0 (Lexer.decimal : Scan Buffer (TokenKind × String)) := by
  have hdigits : ∀ b ∈ stops, isDigit b = false := none_of_any (by decide)
  have hpoint : ∀ b ∈ stops, ¬b = byteOf '.' := fun b hb h => absurd (h ▸ hb) (by decide)
  have hwhole (whole : List UInt8) : Local a a' 0 (do
      let form ← Lexer.integerSize
      return (TokenKind.integer form, asciiText whole)) := (integerSize ha ha').bind
        fun _ => .pure _
  unfold Lexer.decimal
  refine (takeWhile ha ha' hdigits).bind fun whole =>
    readEdge ha ha' (fun b hb => ?_) (fun b => ?_) ?_
  · rw [if_neg (hpoint b hb), if_neg (hpoint endByte (by decide))]
  · refine ite (fun _ => ?_) fun _ => (hwhole whole).mono (Nat.zero_le _)
    exact (advanceBy 1).bind fun _ => (takeWhile ha ha' hdigits).bind fun fraction =>
      (realSize ha ha').bind fun _ => .pure _
  · rw [if_neg (hpoint endByte (by decide))]
    exact hwhole whole

theorem number : Local a a' 1 (Lexer.number : Scan Buffer (TokenKind × String)) := by
  have hx : ∀ b ∈ stops, (decide (b = byteOf 'x') || decide (b = byteOf 'X')) = false :=
    none_of_any (by decide)
  have hb : ∀ b ∈ stops, (decide (b = byteOf 'b') || decide (b = byteOf 'B')) = false :=
    none_of_any (by decide)
  have hdecimal := decimal ha ha'
  unfold Lexer.number
  refine readWithin (Nat.lt_succ_self 0) fun first => ?_
  refine readEdge ha ha' (fun second hsecond => ?_) (fun second => ?_) ?_
  · simp only [hx second hsecond, hb second hsecond, hx endByte (by decide), hb endByte (by decide),
      Bool.and_false]
  · refine ite (fun _ => radixDigits ha ha' .hex) fun _ =>
      ite (fun _ => radixDigits ha ha' .bin) fun _ => ?_
    exact hdecimal.mono (Nat.zero_le _)
  · simp only [hx endByte (by decide), hb endByte (by decide), Bool.and_false]
    exact hdecimal.mono (Nat.zero_le _)

end

/-! ## Any lexeme -/

/-- What is taken of the bytes in front of the tail is taken off them. -/
theorem split_of_keeps {slice rest bytes : List UInt8} (h : slice ++ rest = bytes ++ a)
    (hkeeps : a.length ≤ rest.length) : ∃ bytes', bytes = slice ++ bytes' ∧ rest = bytes' ++ a := by
  rcases List.append_eq_append_iff.1 h with ⟨bytes', hbytes, hrest⟩ | ⟨more, hslice, ha⟩
  · exact ⟨bytes', hbytes, hrest⟩
  · have hmore : more = [] := by
      rw [ha, List.length_append] at hkeeps
      exact List.length_eq_zero_iff.1 (by omega)
    subst hmore
    exact ⟨[], by rw [hslice, List.append_nil, List.append_nil], ha.symm⟩

/-- A lexeme that can be told by its own bytes is taken in front of the other tail too. -/
theorem follows_of_takes {x : Scan Buffer α} {r : α} {slice bytes : List UInt8}
    {w w' v : Walker Buffer} (hw : w.rest = bytes ++ a) (hw' : w'.rest = bytes ++ a')
    (hv : w.Passes slice v) (hkeeps : a.length ≤ v.rest.length)
    (htakes : ∀ bytes', v.rest = bytes' ++ a → w'.rest = slice ++ (bytes' ++ a') →
      Takes x w' slice.length r) :
    ∃ bytes' v', x.run w' = (.ok r, v') ∧ v.rest = bytes' ++ a ∧ v'.rest = bytes' ++ a' := by
  obtain ⟨bytes', rfl, hrest⟩ := split_of_keeps (hv.rest_eq.symm.trans hw) hkeeps
  rw [List.append_assoc] at hw'
  obtain ⟨v', hrun, hfurther⟩ := htakes bytes' hrest hw'
  exact ⟨bytes', v', hrun, hrest, hfurther.rest_append hw' rfl⟩

section

variable {bytes : List UInt8} {w w' v : Walker Buffer} {lexeme : TokenKind × String}

theorem characterLiteral (hw : w.rest = Lexer.quote :: bytes ++ a)
    (hw' : w'.rest = Lexer.quote :: bytes ++ a')
    (hrun : Lexer.characterLiteral.run w = (.ok lexeme, v)) (hkeeps : a.length ≤ v.rest.length) :
    ∃ bytes' v', Lexer.characterLiteral.run w' = (.ok lexeme, v') ∧ v.rest = bytes' ++ a ∧
      v'.rest = bytes' ++ a' := by
  have hrest : w.rest = Lexer.quote :: (bytes ++ a) := hw
  obtain ⟨text, rfl, htext, hv⟩ := Ends.ok (Ends.enclosedCharacter hrest) hrun
  refine follows_of_takes hw hw' hv hkeeps fun bytes' _ hleft' => ?_
  have hbytes : [Lexer.quote] ++ textBytes text ++ [Lexer.quote] =
      (Lexeme.mk .character text).bytes := (Takes.bytes_character text).symm
  rw [hbytes] at hleft' ⊢
  exact Takes.character htext hleft'

theorem stringLiteral (ha' : AtStop a') (hw : w.rest = Lexer.doubleQuote :: bytes ++ a)
    (hw' : w'.rest = Lexer.doubleQuote :: bytes ++ a')
    (hrun : Lexer.stringLiteral.run w = (.ok lexeme, v)) (hkeeps : a.length ≤ v.rest.length) :
    ∃ bytes' v', Lexer.stringLiteral.run w' = (.ok lexeme, v') ∧ v.rest = bytes' ++ a ∧
      v'.rest = bytes' ++ a' := by
  have hrest : w.rest = Lexer.doubleQuote :: (bytes ++ a) := hw
  obtain ⟨mark, text, rfl, hv, hmark⟩ := Ends.ok (Ends.enclosedText hrest) hrun
  refine follows_of_takes hw hw' hv hkeeps fun bytes' hleft hleft' => ?_
  -- Behind the empty string there is no quotation mark in front of the other tail either.
  have hmark' : Encloses mark (textBytes text) (bytes' ++ a') := by
    rcases hmark with ⟨hone, hline, hnext⟩ | hraw
    · refine .inl ⟨hone, hline, fun hempty => ?_⟩
      have hnext := hnext hempty
      cases bytes' with
      | nil =>
        intro hquote
        have hstop : a'[0]?.getD endByte ∈ stops := ha'
        rw [List.nil_append] at hquote
        rw [hquote] at hstop
        exact absurd hstop (by decide)
      | cons b bytes' =>
        rw [hleft] at hnext
        exact hnext
    · exact .inr hraw
  exact Takes.stringLiteral hmark' hleft'

/-- No symbol goes on with a stop. -/
theorem isPrefix_of_stop {s : Symbol} {tail : List UInt8} (htail : AtStop tail) {bytes : List UInt8}
    (hbytes : bytes ≠ []) (h : s.bytes <+: bytes ++ tail) : s.bytes <+: bytes := by
  have hall : ∀ b ∈ stops, s.bytes.tail.contains b = false :=
    none_of_any (by cases s <;> decide)
  refine List.prefix_of_prefix_length_le h (List.prefix_append bytes tail) ?_
  by_contra hlong
  have hlong := Nat.not_le.1 hlong
  have hpos := List.length_pos_iff.2 hbytes
  -- The byte of the symbol that stands where the tail begins.
  have hbyte := List.prefix_iff_getElem?.1 h bytes.length hlong
  rw [List.getElem?_append_right (Nat.le_refl _), Nat.sub_self] at hbyte
  have hstop : tail[0]?.getD endByte ∈ stops := htail
  rw [hbyte] at hstop
  refine Bool.eq_false_iff.1 (hall _ hstop) (List.contains_iff_mem.2 ?_)
  rw [Option.getD_some, ← List.drop_one]
  refine List.mem_drop_iff_getElem.2 ⟨bytes.length - 1, by omega, ?_⟩
  congr 1
  omega

theorem symbol (ha : AtStop a) (ha' : AtStop a') (hbytes : bytes ≠ []) (hw : w.rest = bytes ++ a)
    (hw' : w'.rest = bytes ++ a') (hrun : Lexer.symbol.run w = (.ok lexeme, v))
    (hkeeps : a.length ≤ v.rest.length) :
    ∃ bytes' v', Lexer.symbol.run w' = (.ok lexeme, v') ∧ v.rest = bytes' ++ a ∧
      v'.rest = bytes' ++ a' := by
  have hsame (s : Symbol) : s.bytes <+: w.front ↔ s.bytes <+: w'.front := by
    refine (Ends.isPrefix_lookAhead s w.rest).trans
      (.trans ?_ (Ends.isPrefix_lookAhead s w'.rest).symm)
    rw [hw, hw']
    constructor
    · intro h
      exact (isPrefix_of_stop ha hbytes h).trans (List.prefix_append bytes a')
    · intro h
      exact (isPrefix_of_stop ha' hbytes h).trans (List.prefix_append bytes a)
  have hfront : Symbol.atFront? w'.front = Symbol.atFront? w.front := by
    unfold Symbol.atFront?
    congr 1
    funext s
    rw [Bool.eq_iff_iff, List.isPrefixOf_iff_prefix, List.isPrefixOf_iff_prefix, hsame]
  obtain ⟨s, hfound⟩ := front_of_run_symbol hrun
  obtain ⟨u, hrun', hpasses⟩ := run_symbol_of_front hfound
  rw [hrun] at hrun'
  cases hrun'
  refine follows_of_takes hw hw' hpasses hkeeps fun bytes' _ hleft' => ?_
  obtain ⟨v', hrun', hpasses'⟩ := run_symbol_of_front (hfront.trans hfound)
  exact ⟨v', hrun', hpasses'.further⟩

/-- In front of two stops, the same lexeme is taken, if it is taken of what stands in front of
them. -/
theorem scan (ha : AtStop a) (ha' : AtStop a') {b : UInt8} (hw : w.rest = b :: bytes ++ a)
    (hw' : w'.rest = b :: bytes ++ a') (hrun : Lexer.scan.run w = (.ok lexeme, v))
    (hkeeps : a.length ≤ v.rest.length) :
    ∃ bytes' v', Lexer.scan.run w' = (.ok lexeme, v') ∧ v.rest = bytes' ++ a ∧
      v'.rest = bytes' ++ a' := by
  have hone : 1 ≤ (b :: bytes).length := Nat.le_add_left 1 _
  rw [run_scan_cons hw] at hrun
  rw [run_scan_cons hw']
  by_cases hletter : isLetter b
  · rw [if_pos hletter] at hrun ⊢
    exact (word ha ha').follows (Nat.zero_le _) hw hw' hrun hkeeps
  rw [if_neg hletter] at hrun ⊢
  by_cases hdigit : isDigit b
  · rw [if_pos hdigit] at hrun ⊢
    exact (number ha ha').follows hone hw hw' hrun hkeeps
  rw [if_neg hdigit] at hrun ⊢
  by_cases hquote : b = Lexer.quote
  · subst hquote
    rw [if_pos rfl] at hrun ⊢
    exact characterLiteral hw hw' hrun hkeeps
  rw [if_neg hquote] at hrun ⊢
  by_cases hdouble : b = Lexer.doubleQuote
  · subst hdouble
    rw [if_pos rfl] at hrun ⊢
    exact stringLiteral ha' hw hw' hrun hkeeps
  rw [if_neg hdouble] at hrun ⊢
  exact symbol ha ha' (List.cons_ne_nil _ _) hw hw' hrun hkeeps

end

end Local

end ScriptFront
