import ScriptFront.Grammar.Production
import ScriptFront.Proofs.Coupling.Basic

/-!
# What readings come to

`Ends E x p Q` says of the reading `x` from the state `p` that `Q` holds if it succeeds, of the
value and the state that it leaves, and `E` if it fails, of the error and the state. There is one
rule for each way to put readings together.
-/

namespace ScriptFront

open ScriptFront.Parser

/-- `Q` holds behind a reading that succeeds, `E` behind one that fails. -/
def Ends {ε s α : Type} (E : ε → s → Prop) (x : ExceptT ε (StateM s) α) (p : s)
    (Q : α → s → Prop) : Prop :=
  match x.run p with
  | (.ok a, q) => Q a q
  | (.error e, q) => E e q

/-- The error that something stopped at. -/
def errorOf? {ε α : Type} : Except ε α → Option ε
  | .ok _ => none
  | .error e => some e

theorem eq_error_of_errorOf? {ε α : Type} {r : Except ε α} {e : ε}
    (h : errorOf? r = some e) : r = .error e := by
  cases r with
  | ok _ => cases h
  | error e' =>
    cases h
    rfl

theorem exists_ok_of_any {ε α : Type} {r : Except ε α} {test : α → Bool}
    (h : r.toOption.any test = true) : ∃ a, r = .ok a ∧ test a = true := by
  cases r with
  | ok a => exact ⟨a, rfl, h⟩
  | error _ => cases h

theorem exists_ok_of_isOk {ε α : Type} {r : Except ε α} (h : r.isOk = true) :
    ∃ a, r = .ok a := by
  cases r with
  | ok a => exact ⟨a, rfl⟩
  | error _ => cases h

namespace Ends

/-! ## Any reading -/

section Rules

variable {ε s α β : Type} {E : ε → s → Prop} {x y : ExceptT ε (StateM s) α} {p : s}
  {Q R : α → s → Prop} {S : β → s → Prop}

theorem pure {a : α} (h : Q a p) : Ends E (Pure.pure a) p Q := h

theorem throw {e : ε} (h : E e p) : Ends E (MonadExcept.throw e) p Q := h

theorem bind {f : α → ExceptT ε (StateM s) β} (hx : Ends E x p Q)
    (hf : ∀ a q, Q a q → Ends E (f a) q S) : Ends E (x >>= f) p S := by
  rw [Ends] at hx ⊢
  rcases h : x.run p with ⟨e | a, q⟩
  · rw [h] at hx
    rw [run_bind_error h]
    exact hx
  · rw [h] at hx
    rw [run_bind_ok h]
    exact hf a q hx

theorem mono (hx : Ends E x p Q) (h : ∀ a q, Q a q → R a q) : Ends E x p R := by
  rw [Ends] at hx ⊢
  rcases hrun : x.run p with ⟨e | a, q⟩
  · rw [hrun] at hx
    exact hx
  · rw [hrun] at hx
    exact h a q hx

theorem ite {d : Prop} [Decidable d] (hx : d → Ends E x p Q) (hy : ¬d → Ends E y p Q) :
    Ends E (if d then x else y) p Q := by
  by_cases h : d
  · rw [if_pos h]
    exact hx h
  · rw [if_neg h]
    exact hy h

/-- A reading whose end is known. -/
theorem of_run {a : α} {q : s} (h : x.run p = (.ok a, q)) (hq : Q a q) : Ends E x p Q := by
  rw [Ends, h]
  exact hq

theorem ok {a : α} {q : s} (h : Ends E x p Q) (hrun : x.run p = (.ok a, q)) : Q a q := by
  rw [Ends, hrun] at h
  exact h

end Rules

/-! ## Steps of parsers -/

section Steps

variable {σ α β : Type} {E : SyntaxError → Parser σ → Prop} {p : Parser σ}
  {Q : α → Parser σ → Prop} {S : β → Parser σ → Prop} {k : TokenKind}

theorem kind {f : TokenKind → Parse σ β} (h : Ends E (f p.current.kind) p S) :
    Ends E (Parser.kind >>= f) p S := h

theorem check {f : Bool → Parse σ β} (h : Ends E (f (p.current.kind = k)) p S) :
    Ends E (Parser.check k >>= f) p S := h

theorem checkNot {f : Bool → Parse σ β} (h : Ends E (f (!(p.current.kind = k))) p S) :
    Ends E (Parser.checkNot k >>= f) p S := h

theorem position {f : Position → Parse σ β} (h : Ends E (f p.current.position) p S) :
    Ends E (Parser.position >>= f) p S := h

theorem save {f : Bookmark → Parse σ β} (h : Ends E (f ⟨p.start⟩) p S) :
    Ends E (Parser.save >>= f) p S := h

theorem listBound [ByteSource σ] {f : Nat → Parse σ β} (h : Ends E (f p.bound) p S) :
    Ends E (Parser.listBound >>= f) p S := h

theorem failAt {fault : SyntaxFault} {place : Place} (h : E ⟨fault, place, none⟩ p) :
    Ends E (Parser.failAt fault place) p Q := h

theorem failHere {fault : String → SyntaxFault}
    (h : E ⟨fault p.current.text, p.current.place, none⟩ p) :
    Ends E (Parser.failHere fault) p Q := h

theorem failAtStart {fault : SyntaxFault} (h : E ⟨fault, p.start.stored, none⟩ p) :
    Ends E (Parser.failAtStart fault) p Q := h

end Steps

end Ends

end ScriptFront
