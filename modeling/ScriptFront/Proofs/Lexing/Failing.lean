import ScriptFront.Proofs.Lexing.Endings

/-!
# Failing again

Where the lexer fails it stands in front of what it failed at: the comment that is not closed, or
the lexeme that goes wrong. Asked once more, it fails there once more.

- `Walker.unclosed_of_skip`, `Walker.run_skip_unclosed`: comments that are not closed.
- `Walker.run_next_stuck`, `Walker.run_next_again`: tokens.
-/

namespace ScriptFront

open Walker

-- What a reading comes to is told by the rules; nothing is to be run to find out.
attribute [local irreducible] Ends

namespace Walker

variable {w v u : Walker Buffer} {e : LexError} {fault : LexFault}

/-! ## Comments that are not closed -/

/-- All that skipping can fail at is a comment that is not closed. -/
theorem unclosed_of_skip (h : Lexer.skip.run w = (.error e, v)) :
    w.SameText v ∧ LexFault.unclosedComment.At v.rest ∧ e = ⟨.unclosedComment, v.place.stored⟩ := by
  have hskip : Ends (fun e v => ∃ gap, w.Skips w.place gap v ∧ LexFault.unclosedComment.At v.rest ∧
      e = ⟨.unclosedComment, v.place.stored⟩) Lexer.skip w
      (fun _ v => ∃ gap, w.Skips w.place gap v ∧ (v.rest = [] ∨ Takes.opensToken v.rest)) := by
    have hle := w.length_rest_le
    unfold Lexer.skip
    refine Ends.get ?_
    exact Ends.skipUpTo (by omega) w.near_place
  unfold Ends at hskip
  rw [h] at hskip
  obtain ⟨gap, hv, hunclosed, he⟩ := hskip
  exact ⟨hv.toSameText, hunclosed, he⟩

/-- Nothing of a comment that is not closed can be skipped. -/
theorem not_skipped {gap rest body : List UInt8} (hgap : Trivia gap rest)
    (hopen : gap ++ rest = commentOpen ++ body) (hbody : ¬commentClose <:+: body) : gap = [] := by
  cases hgap with
  | nil => rfl
  | blank hb hgap =>
    obtain ⟨rfl, -⟩ := List.cons.inj hopen
    cases hb
  | line hbody' hend hgap =>
    obtain ⟨-, htail⟩ := List.cons.inj hopen
    exact absurd (List.cons.inj htail).1 (by decide)
  | @block inner gap rest hinner hgap =>
    refine absurd ⟨inner, gap ++ rest, ?_⟩ hbody
    simpa [commentOpen] using hopen

/-- A token does not begin where a comment does. -/
theorem not_settled (h : LexFault.unclosedComment.At w.rest) : ¬w.Settled := by
  obtain ⟨body, hrest, -⟩ := h
  rintro (hnil | hopens)
  · rw [hrest] at hnil
    cases hnil
  · rw [hrest] at hopens
    revert hopens
    exact nofun

/-- In front of a comment that is not closed, skipping fails without a step. -/
theorem run_skip_unclosed (h : LexFault.unclosedComment.At w.rest) :
    Lexer.skip.run w = (.error ⟨.unclosedComment, w.place.stored⟩, w) := by
  obtain ⟨body, hopen, hbody⟩ := id h
  -- Whatever is skipped of it is nothing.
  have stays {gap : List UInt8} {v : Walker Buffer} (hv : w.Skips w.place gap v) : v = w := by
    have hgap : gap = [] := not_skipped hv.trivia (hv.rest_eq.symm.trans hopen) hbody
    refine eq_of_place hv.toSameText ?_
    rw [hv.place_eq, hgap]
    rfl
  have hskip := Ends.skip w
  unfold Ends at hskip
  rcases hrun : Lexer.skip.run w with ⟨e | _, v⟩
  · rw [hrun] at hskip
    obtain ⟨gap, hv, -⟩ := hskip
    obtain ⟨-, -, rfl⟩ := unclosed_of_skip hrun
    rw [stays hv]
  · rw [hrun] at hskip
    obtain ⟨gap, hv, hsettled⟩ := hskip
    rw [stays hv] at hsettled
    exact absurd hsettled (not_settled h)

/-! ## Tokens -/

/-- Where nothing is to be skipped, the lexer fails without a step, and not at a comment. -/
theorem run_next_stuck (hw : w.Settled) (h : Lexer.next.run w = (.error e, v)) :
    v = w ∧ e.place = w.place.stored ∧ e.fault ≠ .unclosedComment := by
  cases hrest : w.rest with
  | nil =>
    rw [run_next_atEnd hrest] at h
    cases h
  | cons b tail =>
    have hblank : isBlank b = false := by
      rcases hw with hnil | hopens
      · rw [hrest] at hnil
        cases hnil
      · rw [hrest, Takes.opensToken] at hopens
        simp only [Bool.and_eq_true, Bool.not_eq_true'] at hopens
        exact hopens.1.1
    have hscan := Ends.scan hrest hblank
    rw [run_next_settled hw] at h
    unfold Ends at hscan
    rcases hrun : Lexer.scan.run w with ⟨fault | lexeme, u⟩
    · rw [hrun] at hscan h
      obtain ⟨hfault, hsame⟩ := hscan
      obtain ⟨he, hv⟩ := Prod.mk.inj h
      obtain rfl := Except.error.inj he
      refine ⟨?_, rfl, ?_⟩
      · rw [← hv, run_reset hsame]
      · rintro rfl
        exact not_settled hfault hw
    · rw [hrun] at h
      cases h

/-- Where the lexer failed, it fails again, and does not move. -/
theorem run_next_again (h : Lexer.next.run w = (.error e, v)) :
    Lexer.next.run v = (.error e, v) := by
  rcases hskip : Lexer.skip.run w with ⟨e' | _, u⟩
  · rw [run_next_of_skip_error hskip] at h
    obtain ⟨he, rfl⟩ := Prod.mk.inj h
    obtain rfl := Except.error.inj he
    obtain ⟨-, hunclosed, rfl⟩ := unclosed_of_skip hskip
    exact run_next_of_skip_error (run_skip_unclosed hunclosed)
  · have hsettled := settled_of_skip hskip
    rw [run_next_of_skip hskip] at h
    obtain ⟨rfl, -, -⟩ := run_next_stuck hsettled h
    exact h

end Walker

end ScriptFront
