import Mathlib.Algebra.Group.Nat.Defs
import ScriptFront.Proofs.Lexing.Scanners
import ScriptFront.Proofs.Sources.Faithful

/-!
# The lexer accounts for every byte

From any byte on, the lexer passes white space and comments and then a token, or stops at a fault;
in the end it has taken the whole text apart.

- `Ends.skip`, `Ends.next`: one token, or the error in its place.
- `Listing.of_runOnto`: all tokens.
- `Lexer.run_accounts`: the tokens and the error of a whole text, with their places.
-/

namespace ScriptFront

open Walker

-- What a reading comes to is told by the rules; nothing is to be run to find out.
attribute [local irreducible] Ends

/-! ## Places around skipped lines -/

namespace Walker

/-- `w` stands at the place `p`, except that its column may be wrong in front of a line end. -/
structure Near (w : Walker Buffer) (p : Place) : Prop where
  offset_eq : w.source.position = p.offset
  line_eq : w.line = p.line
  column_eq : w.column = p.column ∨ ∃ tail, w.rest = newline :: tail

/-- `v` is behind white space and comments that start at the place `p`, where `w` is. -/
structure Skips (w : Walker Buffer) (p : Place) (gap : List UInt8) (v : Walker Buffer) : Prop
    extends SameText w v where
  rest_eq : w.rest = gap ++ v.rest
  place_eq : v.place = p.afterAll w.tabWidth gap
  trivia : Trivia gap v.rest

variable {w v : Walker Buffer} {p : Place}

theorem near_place (w : Walker Buffer) : w.Near w.place := ⟨rfl, rfl, .inl rfl⟩

/-- In front of anything but a line end, the place is right. -/
theorem Near.place_eq (h : w.Near p) (hrest : ∀ tail, w.rest ≠ newline :: tail) : w.place = p := by
  have hcolumn : w.column = p.column := by
    rcases h.column_eq with hcolumn | ⟨tail, htail⟩
    · exact hcolumn
    · exact absurd htail (hrest tail)
  show Place.mk ⟨w.line, w.column⟩ w.source.position = p
  rw [h.offset_eq, h.line_eq, hcolumn]

/-- The line end puts a wrong column right. -/
theorem Near.after_eq (h : w.Near p) {b : UInt8} {tail : List UInt8} (hrest : w.rest = b :: tail)
    (tabWidth : UInt32) : w.place.after tabWidth b = p.after tabWidth b := by
  by_cases hline : b = newline
  · have hplace : Place.mk ⟨w.line + 1, 1⟩ (w.source.position + 1) =
        ⟨⟨p.line + 1, 1⟩, p.offset + 1⟩ := by rw [h.offset_eq, h.line_eq]
    rw [hline]
    exact hplace
  · rw [h.place_eq]
    intro tail' htail
    rw [hrest] at htail
    exact hline (List.cons.inj htail).1

/-- Going back to a place of the text leads to where the walker was then. -/
theorem run_reset (h : w.SameText v) : (Walker.reset w.place).run v = ((), w) := by
  have hposition : min w.source.position v.source.content.size = w.source.position := by
    rw [h.content_eq]
    exact Nat.min_eq_left w.source.position_le
  have hsource : v.source.moveTo w.source.position = w.source := by
    unfold Buffer.moveTo
    rw [Buffer.mk.injEq]
    exact ⟨h.name_eq, h.content_eq, hposition⟩
  have hwalker : Walker.mk (v.source.moveTo w.source.position) w.line w.column v.tabWidth = w := by
    rw [hsource, h.tabWidth_eq]
  exact congrArg (Prod.mk ()) hwalker

end Walker

namespace Place

theorem line_afterAll (tabWidth : UInt32) {bytes : List UInt8} (h : newline ∉ bytes) (p : Place) :
    (p.afterAll tabWidth bytes).line = p.line := by
  induction bytes generalizing p with
  | nil => rfl
  | cons b bytes ih =>
    rw [List.mem_cons, not_or] at h
    rw [afterAll_cons, ih h.2]
    show (p.toPosition.after tabWidth b).line = p.line
    rw [Position.after, if_neg (Ne.symm h.1)]
    split <;> rfl

theorem stored_eq {p : Place} (h : p.offset ≤ counterLimit) : p.stored = p := by
  unfold stored
  rw [Nat.min_eq_left h]

end Place

/-! ## Comments -/

namespace Ends

variable {w : Walker Buffer} {p : Place}

/-- Stopping at a fault leads back to where the walker was at the start. -/
theorem lexFailAt {α : Type} {E : LexError → Walker Buffer → Prop} {fault : LexFault}
    {v : Walker Buffer} {Q : α → Walker Buffer → Prop} (h : w.SameText v)
    (hE : E ⟨fault, w.place.stored⟩ w) : Ends E (Lexer.failAt fault w.place) v Q := by
  unfold Lexer.failAt
  refine Ends.bind (Q := fun _ u => u = w) (walk ?_) ?_
  · rw [run_reset h]
  · rintro _ _ rfl
    exact throw hE

theorem run_atCommentEnd (w : Walker Buffer) :
    Lexer.atCommentEnd.run w = (commentClose.isPrefixOf w.rest, w) := by
  have hread : Lexer.atCommentEnd.run w = (decide (w.rest[0]?.getD endByte = byteOf '*') &&
      decide (w.rest[1]?.getD endByte = byteOf '/'), w) := by
    unfold Lexer.atCommentEnd
    rw [StateT.run_bind, Walker.current, run_read]
    change ((if _ = _ then _ else _ : StateM (Walker Buffer) Bool).run w) = _
    by_cases hstar : w.rest[0]?.getD endByte = byteOf '*'
    · rw [if_pos hstar, decide_eq_true hstar, StateT.run_bind, run_read]
      rfl
    · rw [if_neg hstar, decide_eq_false hstar]
      rfl
  have hsame (x y : UInt8) : (x == y) = decide (y = x) := by
    rw [Bool.beq_eq_decide_eq]
    exact decide_eq_decide.2 eq_comm
  rw [hread]
  rcases w.rest with _ | ⟨a, _ | ⟨b, front⟩⟩
  · simp [commentClose, endByte]
  · simp [commentClose, List.isPrefixOf, endByte]
  · simp [commentClose, List.isPrefixOf, hsame]

/-- What begins a longer run does not tell whether a comment is closed there. -/
theorem isPrefixOf_append_commentClose (front tail : List UInt8) :
    commentClose.isPrefixOf (front ++ commentClose ++ tail) =
      commentClose.isPrefixOf (front ++ commentClose) := by
  rw [Bool.eq_iff_iff, List.isPrefixOf_iff_prefix, List.isPrefixOf_iff_prefix]
  constructor
  · intro h
    refine List.prefix_of_prefix_length_le h (List.prefix_append _ tail) ?_
    rw [List.length_append]
    exact Nat.le_add_left _ _
  · intro h
    exact h.trans (List.prefix_append _ tail)

/-- From inside a comment that starts at `start`, its end is found if there is one. -/
theorem closeComment (start : Walker Buffer) (steps : Nat) (hsteps : w.rest.length < steps)
    (hstart : start.SameText w) :
    Ends (fun e v => v = start ∧ e = ⟨.unclosedComment, start.place.stored⟩ ∧
        ¬commentClose <:+: w.rest) (Lexer.closeComment start.place steps) w
      (fun _ v => ∃ body, isCommentBody body ∧ w.Passes (body ++ commentClose) v) := by
  induction steps generalizing w with
  | zero => exact absurd hsteps (Nat.not_lt_zero _)
  | succ steps ih =>
    unfold Lexer.closeComment
    refine ifAtEnd ?_ ?_
    · intro hnil
      refine lexFailAt hstart ⟨rfl, rfl, ?_⟩
      rw [hnil]
      decide
    intro b tail hrest
    refine Ends.bind (Q := fun c v => c = commentClose.isPrefixOf w.rest ∧ v = w) ?_ ?_
    · refine walk ?_
      rw [run_atCommentEnd]
      exact ⟨rfl, rfl⟩
    rintro _ v ⟨rfl, rfl⟩
    refine ite ?_ ?_
    · intro hclose
      obtain ⟨tail', htail⟩ := List.isPrefixOf_iff_prefix.1 hclose
      exact walk ⟨[], rfl, passes_advanceBy htail.symm⟩
    · intro hopen
      refine advance hrest ?_
      intro u hu
      have hlength := hu.length_le
      simp only [List.length_cons, List.length_nil] at hlength
      have hsteps' : u.rest.length < steps := by omega
      have hmore := ih hsteps' (hstart.trans hu.toSameText)
      refine (hmore.monoError ?_).mono ?_
      · rintro e t ⟨rfl, rfl, hnot⟩
        refine ⟨rfl, rfl, ?_⟩
        -- The end of the comment is neither here nor further on.
        rw [hu.rest_eq, List.singleton_append, List.infix_cons_iff, not_or]
        refine ⟨?_, hnot⟩
        have hrest' : b :: u.rest = v.rest := hu.rest_eq.symm
        rw [hrest', ← List.isPrefixOf_iff_prefix]
        exact hopen
      · rintro _ t ⟨body, hbody, ht⟩
        have hwhole := hu.trans ht
        refine ⟨b :: body, ?_, hwhole⟩
        rw [isCommentBody, hbody, Bool.and_true, Bool.not_eq_true',
          ← isPrefixOf_append_commentClose _ t.rest]
        have hrest' : b :: body ++ commentClose ++ t.rest = v.rest := hwhole.rest_eq.symm
        rw [hrest']
        exact Bool.eq_false_iff.2 hopen

theorem skipComment {tail : List UInt8} (hrest : w.rest = commentOpen ++ tail) :
    Ends (fun e v => v = w ∧ e = ⟨.unclosedComment, w.place.stored⟩ ∧
        LexFault.unclosedComment.At w.rest) Lexer.skipComment w
      (fun _ v => ∃ body, isCommentBody body ∧
        w.Passes (commentOpen ++ body ++ commentClose) v) := by
  have hle := w.length_rest_le
  unfold Lexer.skipComment
  refine get ?_
  have htwo : 2 = commentOpen.length := rfl
  rw [htwo]
  apply advanceBy hrest
  intro v hv
  have hleft : v.rest = tail := by
    have hsplit := hv.rest_eq
    rw [hrest] at hsplit
    exact (List.append_cancel_left hsplit).symm
  have hlength := hv.length_le
  have hclose := closeComment w (w.extent + 1) (by omega) hv.toSameText
  refine (hclose.monoError ?_).mono ?_
  · rintro e u ⟨rfl, rfl, hnot⟩
    rw [hleft] at hnot
    exact ⟨rfl, rfl, tail, hrest, hnot⟩
  · rintro _ u ⟨body, hbody, hu⟩
    refine ⟨body, hbody, ?_⟩
    rw [List.append_assoc]
    exact hv.trans hu

/-- The first of some bytes parts what stands in front of it from what stands behind. -/
theorem split_at_idxOf? {xs : List UInt8} {b : UInt8} {n : Nat} (h : xs.idxOf? b = some n) :
    ∃ body tail, xs = body ++ b :: tail ∧ body.length = n ∧ b ∉ body := by
  obtain ⟨hn, hb, hbefore⟩ := List.idxOf?_eq_some_iff.1 h
  refine ⟨xs.take n, xs.drop (n + 1), ?_, ?_, ?_⟩
  · rw [← hb, ← List.drop_eq_getElem_cons hn, List.take_append_drop]
  · rw [List.length_take]
    omega
  · intro hmem
    obtain ⟨i, hi, hbyte⟩ := List.getElem_of_mem hmem
    rw [List.length_take] at hi
    rw [List.getElem_take] at hbyte
    exact hbefore i (by omega) hbyte

/-- The rest of a line is skipped at once, which is wrong about columns and nothing else. -/
theorem skipLine (w : Walker Buffer) :
    ∃ body v, Walker.skipLine.run w = ((), v) ∧ w.SameText v ∧ w.rest = body ++ v.rest ∧
      newline ∉ body ∧ (∀ b ∈ v.rest.head?, b = newline) ∧
      v.Near (w.place.afterAll w.tabWidth body) := by
  have hfind : (Walker.ask (ByteSource.find newline)).run w = (w.rest.idxOf? newline, w) := by
    have hrest : w.source.rest.idxOf? newline = w.rest.idxOf? newline := by
      rw [← Text.idxOf?_toList, Buffer.rest, Text.toList_from]
      rfl
    show (w.source.rest.idxOf? newline, w) = _
    rw [hrest]
  unfold Walker.skipLine
  rw [StateT.run_bind, hfind]
  cases hindex : w.rest.idxOf? newline with
  | none =>
    -- Without a line end, the text is walked to its end byte by byte.
    have hnone : newline ∉ w.rest := List.idxOf?_eq_none_iff.1 hindex
    have hle := w.length_rest_le
    have hsteps : w.rest.length ≤ w.extent + 1 := by omega
    have hend := passes_advanceToEnd hsteps
    have hleft : ((Walker.advanceToEnd (w.extent + 1)).run w).2.rest = [] := by
      have hlength := hend.length_le
      exact List.length_eq_zero_iff.1 (by omega)
    refine ⟨w.rest, _, rfl, hend.toSameText, hend.rest_eq, hnone, ?_, ?_⟩
    · show ∀ b ∈ ((Walker.advanceToEnd (w.extent + 1)).run w).2.rest.head?, b = newline
      rw [hleft]
      intro b hb
      cases hb
    · have hplace := near_place ((Walker.advanceToEnd (w.extent + 1)).run w).2
      rw [hend.place_eq] at hplace
      exact hplace
  | some run =>
    obtain ⟨body, tail, hrest, hlength, hbody⟩ := split_at_idxOf? hindex
    have htotal := w.length_rest
    rw [hrest, List.length_append, List.length_cons] at htotal
    have hposition : min (w.source.position + run) w.source.content.size =
        w.source.position + run := by omega
    have hleft : w.source.content.toList.drop (w.source.position + run) = newline :: tail := by
      have hdrop : w.rest.drop run = newline :: tail := by
        rw [hrest, ← hlength, List.drop_left]
      rw [← hdrop, Walker.rest, List.drop_drop]
    have hrest' : Walker.rest { w with
        source := w.source.moveTo (w.source.position + run)
        column := columnBehind w.column run } = newline :: tail := by
      rw [← hleft]
      show w.source.content.toList.drop (min _ w.source.content.size) = _
      rw [hposition]
    refine ⟨body, _, rfl, ⟨rfl, rfl, rfl⟩, ?_, hbody, ?_, ?_⟩
    · rw [hrest, ← hrest']
    · show ∀ b ∈ (Walker.rest { w with
        source := w.source.moveTo (w.source.position + run)
        column := columnBehind w.column run }).head?, b = newline
      rw [hrest']
      intro b hb
      exact (Option.some.inj hb).symm
    · constructor
      case offset_eq =>
        rw [Place.offset_afterAll, hlength]
        exact hposition
      case line_eq =>
        rw [Place.line_afterAll _ hbody]
        rfl
      case column_eq => exact .inr ⟨tail, hrest'⟩

/-! ## White space and comments -/

/-- What is skipped of a line goes beyond the slashes that it starts with. -/
theorem skipped_slashes {body more rest : List UInt8} (h : lineCommentOpen ++ more = body ++ rest)
    (hend : ∀ b ∈ rest.head?, b = newline) : ∃ inner, body = lineCommentOpen ++ inner := by
  match body with
  | [] =>
    rw [List.nil_append] at h
    rw [← h] at hend
    exact absurd (hend _ rfl) (by decide)
  | [b] =>
    obtain ⟨-, htail⟩ := List.cons.inj h
    have hrest : byteOf '/' :: more = rest := htail
    rw [← hrest] at hend
    exact absurd (hend _ rfl) (by decide)
  | b :: c :: inner =>
    obtain ⟨rfl, htail⟩ := List.cons.inj h
    obtain ⟨rfl, -⟩ := List.cons.inj htail
    exact ⟨inner, rfl⟩

/-- Further bytes that may stand between tokens. -/
theorem skips_cons {v u : Walker Buffer} {gap gap' : List UInt8} (hv : w.SameText v)
    (hrest : w.rest = gap ++ v.rest)
    (htrivia : Trivia gap' u.rest → Trivia (gap ++ gap') u.rest)
    (hu : v.Skips (p.afterAll w.tabWidth gap) gap' u) : w.Skips p (gap ++ gap') u where
  toSameText := hv.trans hu.toSameText
  rest_eq := by rw [hrest, hu.rest_eq, List.append_assoc]
  place_eq := by rw [hu.place_eq, hv.tabWidth_eq, Place.afterAll_append]
  trivia := htrivia hu.trivia

/-- White space and comments are passed, or a comment is found that is not closed. -/
theorem skipUpTo {steps : Nat} (hsteps : w.rest.length < steps) (hp : w.Near p) :
    Ends (fun e v => ∃ gap, w.Skips p gap v ∧ LexFault.unclosedComment.At v.rest ∧
        e = ⟨.unclosedComment, v.place.stored⟩) (Lexer.skipUpTo steps) w
      (fun _ v => ∃ gap, w.Skips p gap v ∧ (v.rest = [] ∨ Takes.opensToken v.rest)) := by
  induction steps generalizing w p with
  | zero => exact absurd hsteps (Nat.not_lt_zero _)
  | succ steps ih =>
    unfold Lexer.skipUpTo
    refine ifAtEnd ?_ ?_
    · intro hnil
      have hexact : w.place = p := by
        refine hp.place_eq ?_
        rw [hnil]
        simp
      refine pure ⟨[], ⟨.refl w, rfl, hexact, .nil _⟩, ?_⟩
      exact .inl hnil
    intro b tail hrest
    -- What two bytes open a comment, they are in front of the rest.
    have opens {second : UInt8} (h : b = byteOf '/' ∧ w.rest[1]?.getD endByte = second)
        (hend : second ≠ endByte) :
        ∃ more, w.rest = [byteOf '/', second] ++ more := by
      obtain ⟨rfl, hsecond⟩ := h
      cases tail with
      | nil =>
        rw [hrest] at hsecond
        exact absurd hsecond.symm hend
      | cons c more =>
        rw [hrest] at hsecond
        have hc : c = second := hsecond
        exact ⟨more, by rw [hrest, hc]; rfl⟩
    have hplace {c : UInt8} {more : List UInt8} (h : w.rest = c :: more) (hc : c ≠ newline) :
        w.place = p := by
      refine hp.place_eq ?_
      intro tail htail
      rw [h] at htail
      exact hc (List.cons.inj htail).1
    refine current hrest (read (ite ?_ fun hblank => ite ?_ fun hslash => ite ?_ fun hstar => ?_))
    · intro hblank
      refine advance hrest ?_
      intro v hv
      have hlength := hv.length_le
      simp only [List.length_cons, List.length_nil] at hlength
      have hnear : v.Near (p.afterAll w.tabWidth [b]) := by
        have hplace := near_place v
        rw [hv.place_eq, Place.afterAll_cons, hp.after_eq hrest] at hplace
        exact hplace
      refine ((ih (by omega) hnear).monoError ?_).mono ?_
      · rintro e u ⟨gap, hu, hleft, he⟩
        exact ⟨[b] ++ gap, skips_cons hv.toSameText hv.rest_eq (.blank hblank) hu, hleft, he⟩
      · rintro _ u ⟨gap, hu, hleft⟩
        exact ⟨[b] ++ gap, skips_cons hv.toSameText hv.rest_eq (.blank hblank) hu, hleft⟩
    · intro h
      simp only [Bool.and_eq_true, decide_eq_true_eq] at h
      obtain ⟨more, hopen⟩ := opens h (by decide)
      obtain ⟨body, v, hrun, hv, hsplit, hbody, hend, hnear⟩ := skipLine w
      -- The skipped run begins with the two slashes, as these are no line end.
      obtain ⟨body, rfl⟩ := skipped_slashes (hopen.symm.trans hsplit) hend
      rw [hplace hopen (by decide)] at hnear
      have hlength := congrArg List.length hsplit
      simp only [List.length_append, lineCommentOpen, List.length_cons, List.length_nil] at hlength
      refine Ends.bind (Q := fun _ u => u = v) ?_ ?_
      · refine walk ?_
        rw [hrun]
      rintro _ _ rfl
      have hbody' : newline ∉ body := fun h => hbody (List.mem_append_right _ h)
      refine ((ih (by omega) hnear).monoError ?_).mono ?_
      · rintro e u ⟨gap, hu, hleft, he⟩
        refine ⟨_, skips_cons hv hsplit (.line hbody' ?_) hu, hleft, he⟩
        rw [← hu.rest_eq]
        exact hend
      · rintro _ u ⟨gap, hu, hleft⟩
        refine ⟨_, skips_cons hv hsplit (.line hbody' ?_) hu, hleft⟩
        rw [← hu.rest_eq]
        exact hend
    · intro h
      simp only [Bool.and_eq_true, decide_eq_true_eq] at h
      obtain ⟨more, hopen⟩ := opens h (by decide)
      have hexact := hplace hopen (by decide)
      refine Ends.bind ((skipComment hopen).monoError ?_) ?_
      · rintro e v ⟨rfl, rfl, hfault⟩
        exact ⟨[], ⟨.refl _, rfl, hexact, .nil _⟩, hfault, rfl⟩
      rintro _ v ⟨body, hbody, hv⟩
      have hlength := hv.length_le
      simp only [List.length_append, commentOpen, commentClose, List.length_cons,
        List.length_nil] at hlength
      have hnear : v.Near (p.afterAll w.tabWidth (commentOpen ++ body ++ commentClose)) := by
        have hnear := near_place v
        rw [hv.place_eq, hexact] at hnear
        exact hnear
      refine ((ih (by omega) hnear).monoError ?_).mono ?_
      · rintro e u ⟨gap, hu, hleft, he⟩
        exact ⟨_, skips_cons hv.toSameText hv.rest_eq (.block hbody) hu, hleft, he⟩
      · rintro _ u ⟨gap, hu, hleft⟩
        exact ⟨_, skips_cons hv.toSameText hv.rest_eq (.block hbody) hu, hleft⟩
    · have hexact : w.place = p := by
        refine hplace hrest ?_
        rintro rfl
        exact hblank rfl
      refine pure ⟨[], ⟨.refl w, rfl, hexact, .nil _⟩, ?_⟩
      rw [hrest] at hslash hstar ⊢
      rw [List.getElem?_cons_succ] at hslash hstar
      right
      rw [Takes.opensToken, Bool.eq_false_iff.2 hblank, Bool.eq_false_iff.2 hslash,
        Bool.eq_false_iff.2 hstar]
      rfl

/-! ## Tokens -/

/-- From `w` on, there is a token behind white space and comments, or the end of the text. -/
def Scanned (w : Walker Buffer) (token : Token) (v : Walker Buffer) : Prop :=
  ∃ gap slice mid, w.Skips w.place gap mid ∧ mid.Passes slice v ∧
    token.place = mid.place.stored ∧
    ((token.kind = .eof ∧ token.text = Lexer.eofText ∧ slice = [] ∧ mid.rest = []) ∨
      Spells token.kind token.text slice v.rest)

/-- From `w` on, there is a fault behind white space and comments, and `v` stands in front of it. -/
def Stopped (w : Walker Buffer) (e : LexError) (v : Walker Buffer) : Prop :=
  ∃ gap, w.Skips w.place gap v ∧ e.fault.At v.rest ∧ e.place = v.place.stored

theorem skip (w : Walker Buffer) :
    Ends (Stopped w) Lexer.skip w
      (fun _ v => ∃ gap, w.Skips w.place gap v ∧ (v.rest = [] ∨ Takes.opensToken v.rest)) := by
  have hle := w.length_rest_le
  unfold Lexer.skip
  refine get ?_
  refine (skipUpTo (by omega) w.near_place).monoError ?_
  rintro e v ⟨gap, hv, hfault, rfl⟩
  exact ⟨gap, hv, hfault, rfl⟩

/-- The next token, or the error that stands in its place. -/
theorem next (w : Walker Buffer) : Ends (Stopped w) Lexer.next w (Scanned w) := by
  unfold Lexer.next
  refine Ends.bind (skip w) ?_
  rintro _ v ⟨gap, hv, hsettled⟩
  refine get ?_
  dsimp only
  cases hrest : v.rest with
  | nil =>
    have hscan : Lexer.scan.run v = (.ok (.eof, Lexer.eofText), v) := by
      have hend : (ScriptFront.walk Walker.atEnd : Scan Buffer Bool).run v = (.ok true, v) := by
        show (Except.ok (Walker.atEnd.run v).1, (Walker.atEnd.run v).2) = _
        rw [run_atEnd, hrest]
        rfl
      unfold Lexer.scan
      rw [run_bind_ok hend]
      rfl
    refine Ends.bind (Q := fun r u => r = .ok (.eof, Lexer.eofText) ∧ u = v) (walk ?_) ?_
    · change (Lexer.scan.run v).1 = _ ∧ (Lexer.scan.run v).2 = v
      rw [hscan]
      exact ⟨rfl, rfl⟩
    rintro _ u ⟨rfl, hu⟩
    rw [hu]
    exact pure ⟨gap, [], v, hv, .refl v, rfl, .inl ⟨rfl, rfl, rfl, hrest⟩⟩
  | cons b tail =>
    have hb : isBlank b = false := by
      rw [hrest] at hsettled
      rcases hsettled with hnil | hopens
      · cases hnil
      · rw [Takes.opensToken] at hopens
        simp only [Bool.and_eq_true, Bool.not_eq_true'] at hopens
        exact hopens.1.1
    have hscan := scan hrest hb
    refine Ends.bind (Q := fun r u => Lexer.scan.run v = (r, u)) (walk rfl) ?_
    intro r u hrun
    unfold Ends at hscan
    rw [hrun] at hscan
    cases r with
    | ok lexeme =>
      obtain ⟨slice, hslice, hspells⟩ := hscan
      exact pure ⟨gap, slice, v, hv, hslice, rfl, .inr hspells⟩
    | error fault =>
      obtain ⟨hfault, hsame⟩ := hscan
      exact lexFailAt hsame ⟨gap, hv, hfault, rfl⟩

end Ends

/-! ## Whole texts -/

/-- A token takes a byte, as it cannot be told from nothing else. -/
theorem Spells.slice_ne_nil {kind : TokenKind} {text : String} {slice rest : List UInt8}
    (h : Spells kind text slice rest) : slice ≠ [] := by
  obtain ⟨hwell, hwritten, -, -, -, -⟩ := h
  have hascii {bytes : List UInt8} (hne : bytes ≠ []) (hbytes : ∀ b ∈ bytes, b < 128) :
      textBytes (asciiText bytes) ≠ [] := by
    rw [textBytes_asciiText hbytes]
    exact hne
  cases hwell with
  | mark s =>
    have hbytes : slice = (Lexeme.mark s).bytes := hwritten
    rw [hbytes, Takes.bytes_mark]
    exact s.bytes_ne_nil
  | word k =>
    have hbytes : slice = (Lexeme.word k).bytes := hwritten
    obtain ⟨b, more, hcons, -⟩ := Takes.bytes_word_cons k
    rw [hbytes, hcons]
    exact List.cons_ne_nil _ _
  | name hname =>
    have hbytes : slice = (Lexeme.name text).bytes := hwritten
    obtain ⟨b, more, hcons, -⟩ := Takes.bytes_name_cons hname
    rw [hbytes, hcons]
    exact List.cons_ne_nil _ _
  | integer hinteger =>
    obtain ⟨mark, -, size, -, rfl⟩ := hwritten
    obtain ⟨digits, hne, rfl, hdigits⟩ := hinteger
    have htext := hascii hne fun b hb => lt_of_isDigit (hdigits b hb)
    simp [htext]
  | real hreal =>
    obtain ⟨size, -, rfl⟩ := hwritten
    obtain ⟨whole, fraction, hne, rfl, hwhole, hfraction⟩ := hreal
    have htext : textBytes (asciiText (whole ++ byteOf '.' :: fraction)) ≠ [] := by
      refine hascii (by simp) ?_
      intro b hb
      rcases List.mem_append.1 hb with hb | hb
      · exact lt_of_isDigit (show IntegerForm.i32.isDigit b from hwhole b hb)
      · rcases List.mem_cons.1 hb with rfl | hb
        · decide
        · exact lt_of_isDigit (show IntegerForm.i32.isDigit b from hfraction b hb)
    exact List.append_ne_nil_of_left_ne_nil htext _
  | character =>
    have hbytes : slice = [Lexer.quote] ++ textBytes text ++ [Lexer.quote] := hwritten
    simp [hbytes]
  | string =>
    obtain ⟨mark, hmark, rfl⟩ := hwritten
    have hne : mark ≠ [] := by
      intro hnil
      rw [hnil] at hmark
      revert hmark
      decide
    exact List.append_ne_nil_of_left_ne_nil (List.append_ne_nil_of_left_ne_nil hne _) _

namespace Lexer

variable {σ : Type} [ByteSource σ] {w v : Walker σ} {steps : Nat} {taken : Array Token}

theorem runOnto_error {e : LexError} (h : Lexer.next.run w = (.error e, v)) :
    (runOnto (steps + 1) taken).run w = ((taken, some e), v) := by
  change StateT.run Lexer.next.run w = _ at h
  rw [runOnto, StateT.run_bind, h]
  rfl

theorem runOnto_ok {token : Token} (h : Lexer.next.run w = (.ok token, v)) :
    (runOnto (steps + 1) taken).run w =
      if token.kind = .eof then ((taken.push token, none), v)
      else (runOnto steps (taken.push token)).run v := by
  change StateT.run Lexer.next.run w = _ at h
  rw [runOnto, StateT.run_bind, h]
  by_cases hend : token.kind = .eof
  · rw [if_pos hend]
    exact congrArg (StateT.run · v) (if_pos hend)
  · rw [if_neg hend]
    exact congrArg (StateT.run · v) (if_neg hend)

end Lexer

/-- A place of a text of which every offset can be stored. -/
theorem stored_of_sameText {w v : Walker Buffer} (hsize : w.source.content.size ≤ counterLimit)
    (h : w.SameText v) : v.place.stored = v.place := by
  refine Place.stored_eq ?_
  have hle := v.source.position_le
  rw [h.content_eq] at hle
  exact Nat.le_trans hle hsize

namespace Listing

/-- What is left from any byte on is accounted for, and there is an end to it: each token takes a
byte. -/
theorem of_runOnto {w : Walker Buffer} {steps : Nat} (hsteps : w.rest.length < steps)
    (hsize : w.source.content.size ≤ counterLimit) (taken : Array Token) :
    ∃ tokens error v, (Lexer.runOnto steps taken).run w = ((taken ++ tokens.toArray, error), v) ∧
      Listing w.tabWidth w.place w.rest tokens error := by
  induction steps generalizing w taken with
  | zero => exact absurd hsteps (Nat.not_lt_zero _)
  | succ steps ih =>
    have hnext := Ends.next w
    unfold Ends at hnext
    rcases hrun : Lexer.next.run w with ⟨error | token, v⟩
    · rw [hrun] at hnext
      obtain ⟨gap, hv, hfault, hplace⟩ := hnext
      refine ⟨[], some error, v, ?_, ?_⟩
      · rw [Lexer.runOnto_error hrun]
        simp
      · obtain ⟨fault, place⟩ := error
        rw [stored_of_sameText hsize hv.toSameText, hv.place_eq] at hplace
        have hplace' : place = w.place.afterAll w.tabWidth gap := hplace
        rw [hv.rest_eq, hplace']
        exact .stopped hv.trivia hfault
    · rw [hrun] at hnext
      have hopen : (Lexer.runOnto (steps + 1) taken).run w = _ := Lexer.runOnto_ok hrun
      obtain ⟨gap, slice, mid, hmid, hslice, hplace, hend | hspells⟩ := hnext
      · obtain ⟨kind, text, place⟩ := token
        obtain ⟨rfl, rfl, rfl, hrest⟩ := hend
        refine ⟨[⟨.eof, Lexer.eofText, place⟩], none, v, ?_, ?_⟩
        · rw [hopen, if_pos rfl]
          simp
        · rw [stored_of_sameText hsize hmid.toSameText, hmid.place_eq] at hplace
          have hplace' : place = w.place.afterAll w.tabWidth gap := hplace
          have htrivia := hmid.trivia
          rw [hrest] at htrivia
          rw [hmid.rest_eq, hrest, List.append_nil, hplace']
          exact .finished htrivia
      · obtain ⟨kind, text, place⟩ := token
        have hkind : kind ≠ .eof := by
          rintro rfl
          nomatch hspells.wellFormed
        have hsame := hmid.toSameText.trans hslice.toSameText
        have hlength := congrArg List.length hmid.rest_eq
        have hlength' := hslice.length_le
        have hpos := List.length_pos_iff.2 hspells.slice_ne_nil
        rw [List.length_append] at hlength
        have hsize' : v.source.content.size ≤ counterLimit := by
          rw [hsame.content_eq]
          exact hsize
        obtain ⟨tokens, error, u, hmore, hlisting⟩ :=
          ih (w := v) (by omega) hsize' (taken.push ⟨kind, text, place⟩)
        refine ⟨⟨kind, text, place⟩ :: tokens, error, u, ?_, ?_⟩
        · have hpush : taken ++ (⟨kind, text, place⟩ :: tokens).toArray =
              taken.push ⟨kind, text, place⟩ ++ tokens.toArray := by simp
          rw [hpush, ← hmore, hopen]
          exact if_neg hkind
        · rw [stored_of_sameText hsize hmid.toSameText, hmid.place_eq] at hplace
          have hplace' : place = w.place.afterAll w.tabWidth gap := hplace
          have htrivia := hmid.trivia
          rw [hslice.rest_eq] at htrivia
          rw [hslice.place_eq, hmid.place_eq, hmid.tabWidth_eq, ← Place.afterAll_append,
            hsame.tabWidth_eq] at hlisting
          rw [hmid.rest_eq, hslice.rest_eq, ← List.append_assoc, hplace']
          exact .token htrivia hspells hlisting

variable {tabWidth : UInt32} {p : Place} {bytes : List UInt8} {tokens : List Token}
  {error : Option LexError}

/-- Every place is the one that the rule gives behind the bytes in front of it. -/
theorem place_eq (h : Listing tabWidth p bytes tokens error) :
    ∀ q ∈ tokens.map Token.place ++ (error.map LexError.place).toList,
      ∃ n, q.offset = p.offset + n ∧ q = p.afterAll tabWidth (bytes.take n) := by
  induction h with
  | @finished p gap hgap =>
    intro q hq
    obtain rfl : q = p.afterAll tabWidth gap := by simpa using hq
    exact ⟨gap.length, Place.offset_afterAll _ _ _, by rw [List.take_length]⟩
  | @stopped p gap left fault hgap hfault =>
    intro q hq
    obtain rfl : q = p.afterAll tabWidth gap := by simpa using hq
    exact ⟨gap.length, Place.offset_afterAll _ _ _, by rw [List.take_left]⟩
  | @token p gap slice rest kind text tokens error hgap hslice hmore ih =>
    intro q hq
    rw [List.map_cons, List.cons_append] at hq
    rcases List.mem_cons.1 hq with rfl | hq
    · exact ⟨gap.length, Place.offset_afterAll _ _ _, by rw [List.append_assoc, List.take_left]⟩
    · obtain ⟨n, hoffset, hplace⟩ := ih q hq
      refine ⟨(gap ++ slice).length + n, ?_, ?_⟩
      · rw [hoffset, Place.offset_afterAll, Nat.add_assoc]
      · rw [hplace, ← Place.afterAll_append, List.take_length_add_append]

/-- Offsets grow from token to token, and on to the error. -/
theorem increasing (h : Listing tabWidth p bytes tokens error) :
    (tokens.map Token.place ++ (error.map LexError.place).toList).Pairwise
      (·.offset < ·.offset) := by
  induction h with
  | finished hgap => simp
  | stopped hgap hfault => simp
  | @token p gap slice rest kind text tokens error hgap hslice hmore ih =>
    rw [List.map_cons, List.cons_append, List.pairwise_cons]
    refine ⟨?_, ih⟩
    intro q hq
    obtain ⟨n, hoffset, -⟩ := hmore.place_eq q hq
    have hpos := List.length_pos_iff.2 hslice.slice_ne_nil
    show (p.afterAll tabWidth gap).offset < q.offset
    rw [hoffset, Place.offset_afterAll, Place.offset_afterAll, List.length_append]
    omega

end Listing

/-- Whatever the bytes of a text are, the lexer comes to the end or to an error. Its tokens are what
the text spells, one behind the other with nothing but white space and comments between them; their
offsets grow; and each of them, and the error, has the line and the column that a walk over all
bytes in front of it comes to. -/
theorem Lexer.run_accounts (name : String) (content : Bytes) (tabWidth : UInt32)
    (hsize : content.size < 2 ^ 32) :
    ∃ tokens error w,
      Lexer.run.run (Walker.ofSource (Buffer.ofBytes content name) tabWidth) =
        ((tokens, error), w) ∧
      Listing tabWidth Place.start content.toList tokens.toList error ∧
      tokens.toList.Pairwise (·.place.offset < ·.place.offset) ∧
      (∀ token ∈ tokens,
        token.place = Place.start.afterAll tabWidth (content.toList.take token.place.offset)) ∧
      ∀ e ∈ error, e.place = Place.start.afterAll tabWidth
        (content.toList.take e.place.offset) := by
  have hstart : (Walker.ofSource (Buffer.ofBytes content name) tabWidth).rest = content.toList := by
    show content.toList.drop 0 = _
    rfl
  have hlength : (Walker.ofSource (Buffer.ofBytes content name) tabWidth).rest.length <
      content.size + 1 := by
    rw [hstart, Array.length_toList]
    exact Nat.lt_succ_self _
  have hlimit : content.size ≤ counterLimit := Nat.le_pred_of_lt hsize
  obtain ⟨tokens, error, w, hrun, hlisting⟩ := Listing.of_runOnto hlength hlimit #[]
  rw [hstart] at hlisting
  have hlisting' : Listing tabWidth Place.start content.toList tokens error := hlisting
  have hplaces : ∀ q ∈ tokens.map Token.place ++ (error.map LexError.place).toList,
      q = Place.start.afterAll tabWidth (content.toList.take q.offset) := by
    intro q hq
    obtain ⟨n, hoffset, hplace⟩ := hlisting'.place_eq q hq
    have hn : q.offset = n := by
      rw [hoffset]
      exact Nat.zero_add n
    rw [hn]
    exact hplace
  refine ⟨tokens.toArray, error, w, ?_, hlisting', ?_, ?_, ?_⟩
  · show (Lexer.runOnto (content.size + 1) #[]).run _ = _
    rw [hrun]
    simp
  · have hincreasing := (List.pairwise_append.1 hlisting'.increasing).1
    rw [List.pairwise_map] at hincreasing
    exact hincreasing
  · intro token htoken
    refine hplaces _ (List.mem_append_left _ ?_)
    exact List.mem_map_of_mem (by simpa using htoken)
  · intro e he
    refine hplaces _ (List.mem_append_right _ ?_)
    rw [Option.mem_def] at he
    simp [he]

/-- A tab in a skipped line counts as one column only until the line ends. -/
theorem Lexer.run_accounts_skippedLine :
    let content : Bytes := utf8Bytes "//\t\n\tx>>=1u8"
    let lexed := (Lexer.run.run (Walker.ofSource (Buffer.ofBytes content "lines") 4)).1
    content.size < 2 ^ 32 ∧
      lexed.1.toList.map (fun token => (token.kind, token.text, token.position)) =
        [(.identifier, "x", ⟨2, 5⟩), (.symbol .shrEq, ">>=", ⟨2, 6⟩), (.integer .u8, "1", ⟨2, 9⟩),
          (.eof, Lexer.eofText, ⟨2, 12⟩)] ∧
      Listing 4 Place.start content.toList lexed.1.toList lexed.2 := by
  intro content lexed
  have hsize : content.size < 2 ^ 32 := by decide
  refine ⟨hsize, by decide +kernel, ?_⟩
  obtain ⟨tokens, error, w, hrun, hlisting, -⟩ := Lexer.run_accounts "lines" content 4 hsize
  have hlexed : lexed = (tokens, error) := congrArg Prod.fst hrun
  rw [hlexed]
  exact hlisting

end ScriptFront
