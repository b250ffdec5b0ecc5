import ScriptFront.Proofs.Lockstep.Basic
import ScriptFront.Proofs.Speculation.Sessions
import ScriptFront.Proofs.Speculation.Traceless

/-!
# Back to the current token

The way back to the current token reads it again, as the text has it. So looking ahead leaves
everything as it was, unless the current token is a part that a longer symbol was cut down to: then
the whole symbol is back.

- `Parser.Arrived`: the states that steps without failures lead to, each with the state in which its
  token was read.
- `Parser.GoesOnLike`: no later step tells two states apart.
- `Text.lookAhead_restores`: what looking ahead, and going back to the current token, comes to.
- `Text.lookAhead_undoes_cut`: a symbol that was cut is whole again.
-/

namespace ScriptFront

open ScriptFront.Parser

-- What a reading comes to is told by the rules; nothing is to be run to find out.
attribute [local irreducible] Ends

namespace Parser

section States

variable {σ : Type} [ByteSource σ]

/-- The states of a parser over a source that steps lead to which do not fail, each beside the state
in which its token was read: that is the state itself, unless the token has been cut since. A token
may be cut down to any shorter symbol that it begins with, also several times. -/
inductive Arrived (s : σ) (tabWidth : UInt32) : (whole now : Parser σ) → Prop where
  | start {p : Parser σ} (h : Parser.ofSource s tabWidth = .ok p) : Arrived s tabWidth p p
  | taken {w p q : Parser σ} {step : TokenStep} {answer : step.Answer} (h : Arrived s tabWidth w p)
    (takes : step.takes p.current.kind = true) (run_eq : step.make.run p = (.ok answer, q)) :
    Arrived s tabWidth q q
  | kept {w p q : Parser σ} {step : TokenStep} {answer : step.Answer} (h : Arrived s tabWidth w p)
    (keeps : step.takes p.current.kind = false) (run_eq : step.make.run p = (.ok answer, q)) :
    Arrived s tabWidth w q
  | back {w p w' p' q : Parser σ} (h : Arrived s tabWidth w p) (h' : Arrived s tabWidth w' p')
    (run_eq : (goBack ⟨p.start⟩ : Parse σ Unit).run p' = (.ok (), q)) : Arrived s tabWidth q q
  | look {w p q : Parser σ} {count : Nat} {tokens : List Token} (h : Arrived s tabWidth w p)
    (run_eq : (lookAhead (advances count) : Parse σ _).run p = (.ok tokens, q)) :
    Arrived s tabWidth q q
  | cut {w p : Parser σ} {whole part : Symbol} (h : Arrived s tabWidth w p)
    (kind_eq : p.current.kind = whole) (isPrefix : part.bytes <+: whole.bytes)
    (shorter : part.bytes.length < whole.bytes.length) :
    Arrived s tabWidth w ((narrow part part.bytes.length : Parse σ Unit).run p).2

/-- Two states show the same, and so do all states that taking tokens leads to from them, whatever
it comes to. -/
structure GoesOnLike (p q : Parser σ) : Prop where
  view_eq : p.view = q.view
  deliveries_eq : ∀ count, ((deliveries count).run p).1 = ((deliveries count).run q).1

end States

/-! ## In memory -/

/-- In memory: `w` has read its token from the text, and `p` is `w`, or has a part of its token. -/
structure Keeps (origin : Walker Buffer) (w p : Parser Buffer) : Prop where
  front : ∃ v, origin.SameText v ∧ v.place = w.start ∧ v.Settled ∧
    Lexer.next.run v = (.ok w.current, w.lexer)
  start_eq : p.start = w.start
  sameText : origin.SameText p.lexer
  whole_inTrait : w.inTrait = false
  inTrait_eq : p.inTrait = false
  part_eq : p = w ∨ ∃ whole part : Symbol, w.current.kind = whole ∧ p.current.kind = part ∧
    part.bytes <+: whole.bytes ∧ part.bytes.length < whole.bytes.length

section Memory

variable {origin : Walker Buffer} {w p q r : Parser Buffer}

/-- Taking a token does not leave the text. -/
theorem sameText_advance (h : origin.SameText p.lexer) :
    origin.SameText ((advance : Parse Buffer Token).run p).2.lexer := by
  rcases hskip : Lexer.skip.run p.lexer with ⟨e | _, v⟩
  · obtain ⟨gap, hv, -⟩ := Walker.stopped_of_next (Walker.run_next_of_skip_error hskip)
    rw [run_advance_unskipped hskip]
    exact h.trans hv.toSameText
  · obtain ⟨gap, hv, -⟩ := Ends.ok (Ends.skip p.lexer) hskip
    have hsame := h.trans hv.toSameText
    rcases hnext : Lexer.next.run v with ⟨e | token, u⟩
    · obtain ⟨gap, hu, -⟩ := Walker.stopped_of_next hnext
      rw [run_advance_error hskip hnext]
      exact hsame.trans hu.toSameText
    · rw [run_advance_ok hskip hnext]
      exact hsame.trans (Walker.sameText_of_next hnext)

theorem sameText_advances (h : origin.SameText p.lexer) (count : Nat) :
    origin.SameText ((advances count : Parse Buffer _).run p).2.lexer ∧
      ((advances count : Parse Buffer _).run p).2.inTrait = p.inTrait := by
  induction count generalizing p with
  | zero => exact ⟨h, rfl⟩
  | succ count ih =>
    have hsame := sameText_advance h
    have hinTrait := inTrait_advance (p := p)
    unfold advances
    rcases hrun : (advance : Parse Buffer Token).run p with ⟨e | token, q⟩
    · rw [hrun] at hsame hinTrait
      rw [run_bind_error hrun]
      exact ⟨hsame, hinTrait⟩
    · rw [hrun] at hsame hinTrait
      obtain ⟨hrest, hinTrait'⟩ := ih hsame
      rw [run_bind_ok hrun]
      rcases hrun' : (advances count : Parse Buffer _).run q with ⟨e | tokens, r⟩
      · rw [hrun'] at hrest hinTrait'
        rw [run_bind_error hrun']
        exact ⟨hrest, hinTrait'.trans hinTrait⟩
      · rw [hrun'] at hrest hinTrait'
        rw [run_bind_ok hrun']
        exact ⟨hrest, hinTrait'.trans hinTrait⟩

/-- Where a token has been read, it is whole. -/
theorem keeps_of_next {v : Walker Buffer} (hv : origin.SameText v) (hsettled : v.Settled)
    (hplace : v.place = p.start) (hinTrait : p.inTrait = false)
    (hnext : Lexer.next.run v = (.ok p.current, p.lexer)) : Keeps origin p p :=
  ⟨⟨v, hv, hplace, hsettled, hnext⟩, rfl, hv.trans (Walker.sameText_of_next hnext), hinTrait,
    hinTrait, .inl rfl⟩

theorem keeps_of_ofWalker (h : Parser.ofWalker origin = .ok p) : Keeps origin p p := by
  unfold Parser.ofWalker at h
  rcases hskip : Lexer.skip.run origin with ⟨e | _, v⟩
  · rw [hskip] at h
    cases h
  · obtain ⟨gap, hv, -⟩ := Ends.ok (Ends.skip origin) hskip
    rw [hskip] at h
    rcases hnext : Lexer.next.run v with ⟨e | token, u⟩
    · simp only [hnext] at h
      cases h
    · simp only [hnext] at h
      cases h
      exact keeps_of_next hv.toSameText (Walker.settled_of_skip hskip) rfl rfl hnext

namespace Keeps

theorem whole (h : Keeps origin w p) : Keeps origin w w := by
  obtain ⟨v, hv, -, -, hnext⟩ := h.front
  exact ⟨h.front, rfl, hv.trans (Walker.sameText_of_next hnext), h.whole_inTrait, h.whole_inTrait,
    .inl rfl⟩

theorem advance (h : Keeps origin w p) {token : Token}
    (hrun : (Parser.advance : Parse Buffer Token).run p = (.ok token, q)) : Keeps origin q q := by
  rcases hskip : Lexer.skip.run p.lexer with ⟨e | _, v⟩
  · rw [run_advance_unskipped hskip] at hrun
    cases hrun
  · obtain ⟨gap, hv, -⟩ := Ends.ok (Ends.skip p.lexer) hskip
    rcases hnext : Lexer.next.run v with ⟨e | token', u⟩
    · rw [run_advance_error hskip hnext] at hrun
      cases hrun
    · rw [run_advance_ok hskip hnext] at hrun
      cases hrun
      exact keeps_of_next (h.sameText.trans hv.toSameText) (Walker.settled_of_skip hskip) rfl
        h.inTrait_eq hnext

/-- From everywhere in the text, the way back to a token leads to where it was read. -/
theorem goBack (h : Keeps origin w p) (hr : origin.SameText r.lexer)
    (hinTrait : r.inTrait = false) :
    (Parser.goBack ⟨p.start⟩ : Parse Buffer Unit).run r = (.ok (), w) := by
  obtain ⟨v, hv, hplace, -, hnext⟩ := h.front
  have hreset : ((Walker.reset p.start).run r.lexer).2 = v := by
    rw [h.start_eq, ← hplace, Walker.run_reset (hv.symm.trans hr)]
  rw [← hreset] at hnext
  rw [run_goBack_ok (b := ⟨p.start⟩) hnext, hinTrait, h.start_eq, ← h.whole_inTrait]

theorem lookAhead (h : Keeps origin w p) (count : Nat) :
    (Parser.lookAhead (advances count) : Parse Buffer _).run p =
      (((advances count : Parse Buffer _).run p).1, w) := by
  obtain ⟨hsame, hinTrait⟩ := sameText_advances h.sameText count
  have hback := h.goBack hsame (hinTrait.trans h.inTrait_eq)
  rcases hrun : (advances count : Parse Buffer _).run p with ⟨result, r⟩
  rw [hrun] at hback
  rw [run_lookAhead hrun hback]

/-- A part of a part is a part. -/
theorem narrow (h : Keeps origin w p) {whole part : Symbol} (hwhole : p.current.kind = whole)
    (hbegins : part.bytes <+: whole.bytes) (hshorter : part.bytes.length < whole.bytes.length) :
    Keeps origin w ((Parser.narrow part part.bytes.length : Parse Buffer Unit).run p).2 := by
  refine ⟨h.front, h.start_eq, h.sameText.trans ⟨rfl, rfl, rfl⟩, h.whole_inTrait, h.inTrait_eq, ?_⟩
  rcases h.part_eq with rfl | ⟨longer, middle, hlonger, hmiddle, hbegins', hshorter'⟩
  · exact .inr ⟨whole, part, hwhole, rfl, hbegins, hshorter⟩
  · rw [hwhole] at hmiddle
    cases hmiddle
    exact .inr ⟨longer, part, hlonger, rfl, hbegins.trans hbegins', hshorter.trans hshorter'⟩

/-- A token that is not cut is the one that was read. -/
theorem eq_whole (h : Keeps origin w p) (hcurrent : p.current = w.current) : p = w := by
  rcases h.part_eq with heq | ⟨whole, part, hwhole, hpart, -, hshorter⟩
  · exact heq
  · rw [hcurrent, hwhole] at hpart
    cases hpart
    exact absurd hshorter (Nat.lt_irrefl _)

/-- A part of a symbol ends in the text. -/
theorem length_le (h : Keeps origin w p) {whole : Symbol} (hwhole : p.current.kind = whole) :
    p.start.offset + whole.bytes.length ≤ p.lexer.extent := by
  obtain ⟨v, hv, hplace, hsettled, hnext⟩ := h.front
  have hfits {longer : Symbol} (hlonger : w.current.kind = longer) :
      p.start.offset + longer.bytes.length ≤ p.lexer.extent := by
    have hpasses := Walker.passes_of_symbol hsettled hnext hlonger
    have hoffset := hpasses.offset_eq
    have hle := w.lexer.source.position_le
    have hstart : p.start.offset = v.source.position := by
      rw [h.start_eq, ← hplace]
      rfl
    have hextent : p.lexer.extent = w.lexer.source.content.size := by
      rw [h.sameText.extent_eq, ← (hv.trans hpasses.toSameText).extent_eq]
      rfl
    omega
  rcases h.part_eq with rfl | ⟨longer, part, hlonger, hpart, -, hshorter⟩
  · exact hfits hwhole
  · rw [hwhole] at hpart
    cases hpart
    have hle := hfits hlonger
    omega

end Keeps

end Memory

end Parser

/-! ## Side by side -/

namespace Twins

variable {σ : Type} [ByteSource σ] {T : Twins σ Buffer} {p p' : Parser σ} {q : Parser Buffer}

/-- Parsers beside one parser go on alike. -/
theorem Side.goesOnLike (h : T.Side p q) (h' : T.Side p' q) : p.GoesOnLike p' where
  view_eq := h.view_eq.trans h'.view_eq.symm
  deliveries_eq count := ((deliveries count h).1).trans (deliveries count h').1.symm

/-- A step in memory that comes to the same, from the same place. -/
theorem Side.run_eq {α : Type} {x : Parse σ α} {y : Parse Buffer α} {a : α} (h : T.Side p q)
    (hxy : Coupled T.Side Eq x y) (hrun : x.run p = (.ok a, p')) :
    ∃ q', y.run q = (.ok a, q') ∧ T.Side p' q' := by
  rcases hxy.cases h with ⟨_, b, r, r', hx, hy, rfl, hside⟩ | ⟨e, r, r', hx, -⟩
  · rw [hrun] at hx
    cases hx
    exact ⟨r', hy, hside⟩
  · rw [hrun] at hx
    cases hx

variable {s : σ} {b : Buffer} {tabWidth : UInt32} {w : Parser σ}

/-- Beside the states of a parser and of its token there are those over the text in memory. -/
theorem keeps_of_arrived (hs : T.left s 0) (hb : T.right b 0) (h : Arrived s tabWidth w p) :
    ∃ w' p', T.Side w w' ∧ T.Side p p' ∧ Keeps (Walker.ofSource b tabWidth) w' p' := by
  induction h with
  | start h =>
    have hstart := side_ofSource hs hb tabWidth
    rw [h] at hstart
    generalize hrun : Parser.ofSource b tabWidth = r at hstart
    cases hstart with
    | ok hside => exact ⟨_, _, hside, hside, keeps_of_ofWalker hrun⟩
  | @taken w p q step answer h takes run_eq ih =>
    obtain ⟨w', p', -, hside, hkeeps⟩ := ih
    obtain ⟨q', hrun, hside'⟩ := hside.run_eq (Side.make step) run_eq
    rw [hside.current_eq] at takes
    obtain ⟨hstate, hresult⟩ := TokenStep.run_of_takes takes
    rw [hrun] at hstate hresult
    have hadvance : (Parser.advance : Parse Buffer Token).run p' = (.ok p'.current, q') :=
      Prod.ext (hresult answer rfl) hstate.symm
    exact ⟨q', q', hside', hside', hkeeps.advance hadvance⟩
  | @kept w p q step answer h keeps run_eq ih =>
    obtain ⟨w', p', hwhole, hside, hkeeps⟩ := ih
    obtain ⟨q', hrun, hside'⟩ := hside.run_eq (Side.make step) run_eq
    have hstays : q' = p' := by
      rw [hside.current_eq] at keeps
      rcases TokenStep.make_of_not_takes keeps with hstate | rfl
      · rw [hrun] at hstate
        exact hstate
      · have hrun' : (Parser.peek : Parse Buffer Token).run p' = (.ok answer, q') := hrun
        rcases Parser.run_peek p' with ⟨_, _, -, hpeek⟩ | ⟨_, _, -, hpeek⟩
        · rw [hpeek] at hrun'
          exact (Prod.mk.inj hrun').2.symm
        · rw [hpeek] at hrun'
          cases hrun'
    rw [hstays] at hside'
    exact ⟨w', p', hwhole, hside', hkeeps⟩
  | @back w p w' p' q h h' run_eq ih ih' =>
    obtain ⟨v, r, hwhole, hside, hkeeps⟩ := ih
    obtain ⟨v', r', -, hside', hkeeps'⟩ := ih'
    obtain ⟨u, hrun, hback⟩ := hside'.run_eq (Side.goBack hside.start_le) run_eq
    rw [hside.start_eq, hkeeps.goBack hkeeps'.sameText hkeeps'.inTrait_eq] at hrun
    obtain ⟨-, rfl⟩ := Prod.mk.inj hrun
    exact ⟨v, v, hback, hback, hkeeps.whole⟩
  | @look w p q count tokens h run_eq ih =>
    obtain ⟨w', p', -, hside, hkeeps⟩ := ih
    obtain ⟨q', hrun, hback⟩ := hside.run_eq (Side.lookAhead (Side.advances count)) run_eq
    rw [hkeeps.lookAhead count] at hrun
    obtain ⟨-, rfl⟩ := Prod.mk.inj hrun
    exact ⟨w', w', hback, hback, hkeeps.whole⟩
  | @cut w p whole part h kind_eq isPrefix shorter ih =>
    obtain ⟨w', p', hwhole, hside, hkeeps⟩ := ih
    have hextent : p'.lexer.extent = T.text.content.size := by
      obtain ⟨n, -, hn⟩ := hside.lexers
      exact T.right_faithful.extent_eq hn.right
    rw [hside.current_eq] at kind_eq
    have hle := hkeeps.length_le kind_eq
    rw [← hside.start_eq, hextent] at hle
    exact ⟨w', _, hwhole, hside.narrow part (by omega), hkeeps.narrow kind_eq isPrefix shorter⟩

end Twins

/-! ## Texts -/

namespace Text

variable {σ : Type} [ByteSource σ] {t : Text} {limit : Nat} {shows : σ → Nat → Prop} {s : σ}
  {tabWidth : UInt32}

/-- Over a faithful source, from every state that steps without failures lead to, looking ahead over
any number of tokens comes to what taking them comes to, and then, as going back to the start of the
current token does, restores the state `w` in which the token was read: the token, its start, and
all that is taken later. If the token has not been cut since, that is the state at hand, so nothing
has changed. If it has been cut, the whole symbol is back. -/
theorem lookAhead_restores (hfaithful : t.Faithful limit shows)
    (hroom : t.content.size + 3 < limit) (hs : shows s 0) {w p : Parser σ}
    (hp : Arrived s tabWidth w p) :
    (∀ count, ∃ q, (lookAhead (advances count) : Parse σ _).run p =
      (((advances count : Parse σ _).run p).1, q) ∧ q.GoesOnLike w) ∧
      (∃ q, (goBack ⟨p.start⟩ : Parse σ Unit).run p = (.ok (), q) ∧ q.GoesOnLike w) ∧
      p.start = w.start ∧ (p.current = w.current → p.GoesOnLike w) ∧
      (p.current ≠ w.current → ∃ whole part : Symbol, w.current.kind = whole ∧
        p.current.kind = part ∧ part.bytes <+: whole.bytes ∧
        part.bytes.length < whole.bytes.length) := by
  let T := besideMemory hfaithful hroom
  obtain ⟨w', p', hwhole, hside, hkeeps⟩ :=
    T.keeps_of_arrived (b := t.inMemory) hs t.inMemory_shows hp
  refine ⟨fun count => ?_, ?_, ?_, fun hcurrent => ?_, fun hcurrent => ?_⟩
  case refine_1 =>
    obtain ⟨hresult, hback⟩ := Twins.Side.lookAhead (Twins.Side.advances count) hside
    have hscan := (Twins.Side.advances count hside).1.eq
    have hlook : ((lookAhead (advances count) : Parse σ _).run p).1 =
        ((advances count : Parse σ _).run p).1 := by
      rw [hresult.eq, hkeeps.lookAhead, hscan]
    rw [hkeeps.lookAhead] at hback
    have hrun : (lookAhead (advances count) : Parse σ _).run p =
        (_, ((lookAhead (advances count) : Parse σ _).run p).2) := Prod.ext hlook rfl
    exact ⟨_, hrun, hback.goesOnLike hwhole⟩
  case refine_2 =>
    obtain ⟨hresult, hback⟩ := Twins.Side.goBack (b := ⟨p.start⟩) hside.start_le hside
    have hrun := hkeeps.goBack hkeeps.sameText hkeeps.inTrait_eq
    rw [← hside.start_eq] at hrun
    rw [hrun] at hback
    have hok : ((goBack ⟨p.start⟩ : Parse σ Unit).run p).1 = .ok () := by
      rw [hresult.eq, hrun]
    exact ⟨_, Prod.ext hok rfl, hback.goesOnLike hwhole⟩
  case refine_3 => rw [hside.start_eq, hkeeps.start_eq, hwhole.start_eq]
  case refine_4 =>
    rw [hside.current_eq, hwhole.current_eq] at hcurrent
    rw [hkeeps.eq_whole hcurrent] at hside
    exact hside.goesOnLike hwhole
  case refine_5 =>
    rw [hside.current_eq, hwhole.current_eq] at hcurrent ⊢
    rcases hkeeps.part_eq with rfl | hpart
    · exact absurd rfl hcurrent
    · exact hpart

/-- A name and `>>=`, cut down to `>`, in chunks of two bytes: looking ahead over two tokens
restores the state in which `>>=` was read. -/
theorem lookAhead_restores_cut :
    let t : Text := ⟨"cut", utf8Bytes "a>>=b"⟩
    let s := t.inChunks 2
    t.content.size + 3 < addressLimit - 1 ∧ t.InChunks s 0 ∧
      ∃ w p q, Arrived s 4 w p ∧ w.current.kind = Symbol.shrEq ∧ p.current.kind = Symbol.gt ∧
        (lookAhead (advances 2) : Parse Chunked _).run p =
          (((advances 2 : Parse Chunked _).run p).1, q) ∧ q.GoesOnLike w := by
  intro t s
  have hroom : t.content.size + 3 < addressLimit - 1 := by decide
  have hs : t.InChunks s 0 := .start t 2
  have hstart : ((Parser.ofSource s 4).toOption.any fun p =>
      ((advance : Parse Chunked Token).run p).1.isOk &&
        ((advance : Parse Chunked Token).run p).2.current.kind = Symbol.shrEq) =
          true := by decide +kernel
  obtain ⟨p, hp, hstart⟩ := exists_ok_of_any hstart
  rcases hrun : (advance : Parse Chunked Token).run p with ⟨e | token, w⟩
  · rw [hrun] at hstart
    cases hstart
  · rw [hrun] at hstart
    have hkind : w.current.kind = Symbol.shrEq := of_decide_eq_true hstart
    have hstep : TokenStep.advance.make.run p = (.ok token, w) := hrun
    have hwhole : Arrived s 4 w w := .taken (.start hp) rfl hstep
    have hcut : Arrived s 4 w ((narrow Symbol.gt Symbol.gt.bytes.length).run w).2 :=
      .cut hwhole hkind (by decide) (by decide)
    obtain ⟨q, hlook, hlike⟩ := (t.lookAhead_restores t.chunks hroom hs hcut).1 2
    exact ⟨hroom, hs, w, _, q, hcut, hkind, rfl, hlook, hlike⟩

/-- Whether cutting the current token and looking ahead over nothing shows it whole again. -/
def restored (p : Parser σ) : Bool :=
  let halved := ((narrow Symbol.gt Symbol.gt.bytes.length : Parse σ Unit).run p).2
  match (lookAhead (advances 0) : Parse σ _).run halved with
  | (.ok [], q) => p.current.kind = Symbol.shr ∧ q.current.kind = Symbol.shr ∧
    ((deliveries 1).run halved).1 ≠ ((deliveries 1).run q).1
  | _ => false

/-- So looking ahead, if only over nothing, is not without effect where a symbol has been cut: the
first half of `>>` is the whole again, and what is taken next is not the other half. -/
theorem lookAhead_undoes_cut :
    let t : Text := ⟨"cut", utf8Bytes ">> x"⟩
    ∃ w p q, Arrived t.inMemory 4 w p ∧
      (lookAhead (advances 0) : Parse Buffer _).run p = (.ok [], q) ∧
      p.current.kind = Symbol.gt ∧ q.current.kind = Symbol.shr ∧ ¬p.GoesOnLike q := by
  intro t
  have hrestored : ((Parser.ofSource t.inMemory 4).toOption.any restored) = true := by
    decide +kernel
  obtain ⟨w, hp, hrestored⟩ := exists_ok_of_any hrestored
  unfold restored at hrestored
  dsimp only at hrestored
  split at hrestored
  case h_1 q hlook =>
    obtain ⟨hkind, hkind', hnext⟩ := of_decide_eq_true hrestored
    refine ⟨w, _, q, .cut (.start hp) hkind (by decide) (by decide), hlook, rfl, hkind', ?_⟩
    intro hlike
    exact hnext (hlike.deliveries_eq 1)
  case h_2 => cases hrestored

end Text

end ScriptFront
