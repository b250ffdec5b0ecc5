import ScriptFront.Proofs.Lexing.Endings

/-!
# What the lexer comes to

From a walker on, the lexer *yields* tokens. Symbols that are cut in two make a reading see symbols
that the lexer does not; every other token of a reading is one that the lexer yields as well, since
both are at one place again behind a run of symbols.

- `Walker.Yields`: a token that is there from a walker on.
- `Walker.Yields.mem_runOnto`: such a token is among the tokens of the text.
- `Walker.Yields.realigned`: inside of a run of symbols it makes no difference where to start.
-/

namespace ScriptFront

namespace Walker

variable {w v : Walker Buffer} {token t : Token}

/-- Taking token by token from a walker on, the lexer comes to this one. -/
inductive Yields (token : Token) : Walker Buffer → Prop where
  | here {w v : Walker Buffer} (h : Lexer.next.run w = (.ok token, v)) : Yields token w
  | later {w v : Walker Buffer} {t : Token} (h : Lexer.next.run w = (.ok t, v))
    (hkind : t.kind ≠ .eof) (hmore : Yields token v) : Yields token w

namespace Yields

theorem of_next_eq (h : Lexer.next.run w = Lexer.next.run v) (hv : Yields token v) :
    Yields token w := by
  cases hv with
  | here hnext => exact .here (h.trans hnext)
  | later hnext hkind hmore => exact .later (h.trans hnext) hkind hmore

/-- A token is the next one, or it is yielded behind that. -/
theorem behind (hw : Yields token w) (h : Lexer.next.run w = (.ok t, v)) :
    token = t ∨ Yields token v := by
  cases hw with
  | here hnext =>
    rw [h] at hnext
    exact .inl (Except.ok.inj (congrArg Prod.fst hnext)).symm
  | later hnext hkind hmore =>
    rw [h] at hnext
    cases hnext
    exact .inr hmore

/-- At the end of the text nothing but the end is there. -/
theorem kind_of_atEnd (h : Yields token w) (hrest : w.rest = []) : token.kind = .eof := by
  cases h with
  | here hnext =>
    rw [run_next_atEnd hrest] at hnext
    cases hnext
    rfl
  | later hnext hkind hmore =>
    rw [run_next_atEnd hrest] at hnext
    cases hnext
    exact absurd rfl hkind

/-! ## Tokens of a text -/

theorem mem_of_mem_taken {steps : Nat} {taken : Array Token} (h : token ∈ taken) :
    token ∈ ((Lexer.runOnto steps taken).run w).1.1 := by
  induction steps generalizing w taken with
  | zero => exact h
  | succ steps ih =>
    rcases hnext : Lexer.next.run w with ⟨e | t, v⟩
    · rw [Lexer.runOnto_error hnext]
      exact h
    · rw [Lexer.runOnto_ok hnext]
      split
      · exact Array.mem_push.2 (.inl h)
      · exact ih (Array.mem_push.2 (.inl h))

/-- What is yielded is taken, if there are steps enough to come to the end of the text. -/
theorem mem_runOnto (h : Yields token w) {steps : Nat} (hsteps : w.rest.length < steps)
    (taken : Array Token) : token ∈ ((Lexer.runOnto steps taken).run w).1.1 := by
  induction h generalizing steps taken with
  | here hnext =>
    obtain ⟨steps, rfl⟩ := Nat.exists_eq_succ_of_ne_zero (Nat.ne_zero_of_lt hsteps)
    rw [Lexer.runOnto_ok hnext]
    split
    · exact Array.mem_push_self
    · exact mem_of_mem_taken Array.mem_push_self
  | @later w v t hnext hkind hmore ih =>
    obtain ⟨steps, rfl⟩ := Nat.exists_eq_succ_of_ne_zero (Nat.ne_zero_of_lt hsteps)
    rw [Lexer.runOnto_ok hnext, if_neg hkind]
    refine ih ?_ _
    have hless := position_of_next hnext hkind
    have hleft := v.length_rest
    have hleft' := w.length_rest
    rw [(sameText_of_next hnext).content_eq] at hleft
    omega

theorem mem_run (h : Yields token w) : token ∈ (Lexer.run.run w).1.1 := by
  have hsteps : w.rest.length < w.extent + 1 := Nat.lt_succ_of_le w.length_rest_le
  exact h.mem_runOnto hsteps #[]

/-- Inside of a run of symbols, the other tokens to come are the same wherever the lexer starts. -/
theorem realigned (htoken : ∀ s : Symbol, token.kind ≠ s) {bytes : List UInt8}
    (hbytes : ∀ c ∈ bytes, isRunByte c) (hpasses : w.Passes bytes v) :
    Yields token w ↔ Yields token v := by
  refine Walker.realigned (P := Yields token) (fun {_ _ _ s} hnext hkind _ => ⟨fun h => ?_, ?_⟩)
    hbytes hpasses
  · rcases h.behind hnext with rfl | hv
    · exact absurd hkind (htoken s)
    · exact hv
  · exact .later hnext (by rw [hkind]; nofun)

end Yields

end Walker

end ScriptFront
