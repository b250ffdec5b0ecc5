import ScriptFront.Proofs.Sources.Faithful

/-!
# Calls of a byte source

- `Call`: a call of a byte source; `Call.ask` makes it.
- `Call.transcript`: calls one after the other, with every answer and the position behind it.
- `Call.Fits`: a call that goes back no further than the text reaches, and that looks at addresses
  below the last one.
- `Call.gives`: what a faithful source answers to it.
-/

namespace ScriptFront

/-- A call of a byte source. -/
inductive Call where
  | read (ahead : Nat)
  | has (ahead : Nat)
  | atEnd
  | advance
  | find (needle : UInt8)
  | skip (count : Nat)
  | reset (target : Nat)
deriving DecidableEq, Repr

namespace Call

/-- What a call is answered with. -/
inductive Answer where
  | byte (value : UInt8)
  | flag (value : Bool)
  | distance (value : Option Nat)
  | done
deriving DecidableEq, Repr

/-- Make a call. -/
def ask {σ : Type} [ByteSource σ] : Call → StateM σ Answer
  | read ahead => return .byte (← ByteAccess.read ahead)
  | has ahead => return .flag (← ByteAccess.has ahead)
  | atEnd => return .flag (← ByteAccess.atEnd)
  | advance => do
    ByteAccess.advance
    return .done
  | find needle => return .distance (← ByteSource.find needle)
  | skip count => do
    ByteSource.skip count
    return .done
  | reset target => do
    ByteAccess.reset target
    return .done

/-- Make calls one after the other; take down each answer and the position then. -/
def transcript {σ : Type} [ByteSource σ] : List Call → StateM σ (List (Answer × Nat))
  | [] => return []
  | call :: calls => do
    let answer ← call.ask
    let position := ByteAccess.position (← get)
    return (answer, position) :: (← transcript calls)

/-- A call at a position that looks at no address beyond the last but one, and that moves to none
beyond the end of the text. -/
def Fits (size position : Nat) : Call → Prop
  | read ahead => position + ahead < addressLimit - 1
  | has ahead => position + ahead < addressLimit - 1
  | atEnd => position < addressLimit - 1
  | advance => position < addressLimit - 1
  | find _ => True
  | skip count => min (position + count) size < addressLimit - 1
  | reset target => target ≤ size

instance (size position : Nat) : (call : Call) → Decidable (call.Fits size position)
  | read ahead => inferInstanceAs (Decidable (position + ahead < addressLimit - 1))
  | has ahead => inferInstanceAs (Decidable (position + ahead < addressLimit - 1))
  | atEnd => inferInstanceAs (Decidable (position < addressLimit - 1))
  | advance => inferInstanceAs (Decidable (position < addressLimit - 1))
  | find _ => inferInstanceAs (Decidable True)
  | skip count => inferInstanceAs (Decidable (min (position + count) size < addressLimit - 1))
  | reset target => inferInstanceAs (Decidable (target ≤ size))

/-- Calls that fit, each at the position that the calls before it lead a buffer to. -/
def Allowed : List Call → Buffer → Prop
  | [], _ => True
  | call :: calls, b =>
    call.Fits b.content.size b.position ∧ Allowed calls (call.ask.run b).2

instance decidableAllowed : (calls : List Call) → (b : Buffer) → Decidable (Allowed calls b)
  | [], _ => inferInstanceAs (Decidable True)
  | call :: calls, b =>
    have := decidableAllowed calls (call.ask.run b).2
    inferInstanceAs (Decidable (call.Fits b.content.size b.position ∧ _))

/-! ## What the text answers -/

/-- The answer to a call at a position of a text. -/
def answer (t : Text) (n : Nat) : Call → Answer
  | read ahead => .byte (t.byteAt (n + ahead))
  | has ahead => .flag (decide (n + ahead < t.content.size))
  | atEnd => .flag (decide (t.content.size ≤ n))
  | find needle => .distance (t.distance n needle)
  | advance | skip _ | reset _ => .done

/-- Where a call at a position of a text leads. -/
def target (t : Text) (n : Nat) : Call → Nat
  | read _ | has _ | atEnd | find _ => n
  | advance => min (n + 1) t.content.size
  | skip count => min (n + count) t.content.size
  | reset target => target

variable {σ : Type} [ByteSource σ] {t : Text} {shows : σ → Nat → Prop} {n : Nat}

/-- A faithful source answers what the text does. -/
theorem gives (h : t.Faithful (addressLimit - 1) shows) {call : Call}
    (hfits : call.Fits t.content.size n) :
    Gives shows n call.ask (call.answer t n) (call.target t n) := by
  cases call with
  | read ahead => exact (h.read ahead hfits).bind (.pure _)
  | has ahead => exact (h.has ahead hfits).bind (.pure _)
  | atEnd => exact (h.atEnd hfits).bind (.pure _)
  | advance => exact (h.advance hfits).bind (.pure _)
  | find needle => exact (h.find needle).bind (.pure _)
  | skip count => exact (h.skip count hfits).bind (.pure _)
  | reset target => exact (h.reset hfits).bind (.pure _)

/-- Allowed calls get the answers of a buffer from every faithful source, and lead it to a state
that it can be asked in again. -/
theorem transcript_eq (h : t.Faithful (addressLimit - 1) shows) (calls : List Call) {s : σ}
    {b : Buffer} (hs : shows s n) (hb : t.InBuffer b n) (hcalls : Allowed calls b) :
    ((transcript calls).run s).1 = ((transcript calls).run b).1 ∧
      ∃ m, shows ((transcript calls).run s).2 m := by
  induction calls generalizing s b n with
  | nil => exact ⟨rfl, n, hs⟩
  | cons call calls ih =>
    obtain ⟨hfits, hrest⟩ := hcalls
    rw [hb.2.1, hb.2.2] at hfits
    have hbuffer := t.buffer (addressLimit - 1)
    obtain ⟨hanswer, hnext⟩ := gives h hfits hs
    obtain ⟨hanswer', hnext'⟩ := gives hbuffer hfits hb
    obtain ⟨hlater, hend⟩ := ih hnext hnext' hrest
    refine ⟨?_, hend⟩
    show ((call.ask.run s).1, ByteAccess.position (call.ask.run s).2) ::
        ((transcript calls).run (call.ask.run s).2).1 =
      ((call.ask.run b).1, ByteAccess.position (call.ask.run b).2) ::
        ((transcript calls).run (call.ask.run b).2).1
    rw [hanswer, hanswer', h.position_eq hnext, hbuffer.position_eq hnext', hlater]

end Call

end ScriptFront
