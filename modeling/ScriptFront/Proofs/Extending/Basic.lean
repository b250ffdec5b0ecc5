import ScriptFront.Proofs.Lockstep.Within
import ScriptFront.Proofs.Speculation.Places

/-!
# Texts that go on

Of a text and one that goes on with a symbol where the first one ends, the same is read up to there.
Both texts have the same bytes up to where they part, and then the first one has newlines only. What
comes to a value over the first text comes to it over the second one, unless the symbol is taken: no
reading takes the end of a text, and what can stand at the end does not take the symbol either.

- `Extension`: two texts, and the symbol that the second one goes on with.
- `Extension.Twin`, `Extension.Parted`: parsers over the two texts, in front of where they part, and
  there.
- `Extension.At`: a reading over the second text does as the one over the first.
- `Stalls`: readings that come to nothing at a token of some kind.
- `Extension.Keeps`: from everywhere in the two texts.
-/

namespace ScriptFront

open ScriptFront.Parser

-- What a reading comes to is told by the rules; nothing is to be run to find out.
attribute [local irreducible] Ends

/-! ## Readings that stall -/

/-- At a token of this kind, the reading comes to an error that is not about `void`. -/
def Stalls {α : Type} (k : TokenKind) (x : Parse Buffer α) : Prop :=
  ∀ p : Parser Buffer, p.current.kind = k →
    ∃ e q, x.run p = (.error e, q) ∧ e.code ≠ .misplacedVoid

namespace Stalls

variable {α β : Type} {k : TokenKind} {x : Parse Buffer α}

theorem bind {f : α → Parse Buffer β} (h : Stalls k x) : Stalls k (x >>= f) := by
  intro p hp
  obtain ⟨e, q, hrun, hcode⟩ := h p hp
  exact ⟨e, q, run_bind_error hrun, hcode⟩

theorem kind {f : TokenKind → Parse Buffer β} (h : Stalls k (f k)) :
    Stalls k (Parser.kind >>= f) := by
  intro p hp
  rw [run_bind_ok (run_kind p), hp]
  exact h p hp

theorem check {c : TokenKind} {f : Bool → Parse Buffer β} (hc : k ≠ c) (h : Stalls k (f false)) :
    Stalls k (Parser.check c >>= f) := by
  intro p hp
  rw [run_bind_ok (run_check c p), hp, decide_eq_false hc]
  exact h p hp

theorem eat {c : TokenKind} {f : Bool → Parse Buffer β} (hc : k ≠ c) (h : Stalls k (f false)) :
    Stalls k (Parser.eat c >>= f) := by
  unfold Parser.eat
  rw [bind_assoc]
  refine check hc ?_
  rwa [if_neg Bool.false_ne_true, pure_bind]

theorem position {f : Position → Parse Buffer β} (h : ∀ pos, Stalls k (f pos)) :
    Stalls k (Parser.position >>= f) := fun p hp => h p.current.position p hp

theorem save {f : Bookmark → Parse Buffer β} (h : ∀ b, Stalls k (f b)) :
    Stalls k (Parser.save >>= f) := fun p hp => h ⟨p.start⟩ p hp

theorem failHere {fault : String → SyntaxFault} (h : ∀ text, (fault text).code ≠ .misplacedVoid) :
    Stalls k (Parser.failHere fault : Parse Buffer α) :=
  fun p _ => ⟨⟨fault p.current.text, p.current.place, none⟩, p, rfl, h p.current.text⟩

theorem unexpected : Stalls k (Parser.unexpected : Parse Buffer α) := failHere nofun

theorem expectedOneOf (kinds : List TokenKind) :
    Stalls k (Parser.expectedOneOf kinds : Parse Buffer α) := failHere nofun

theorem failAtStart {fault : SyntaxFault} (h : fault.code ≠ .misplacedVoid) :
    Stalls k (Parser.failAtStart fault : Parse Buffer α) :=
  fun p _ => ⟨⟨fault, p.start.stored, none⟩, p, rfl, h⟩

theorem mark {c : TokenKind} (hc : k ≠ c) : Stalls k (Parser.mark c : Parse Buffer Unit) := by
  unfold Parser.mark Parser.expect
  refine bind (check hc ?_)
  rw [if_neg Bool.false_ne_true]
  exact failHere nofun

theorem expectIdentifier (hk : k ≠ .identifier) :
    Stalls k (Parser.expectIdentifier : Parse Buffer String) := by
  unfold Parser.expectIdentifier
  refine check hk ?_
  rw [if_neg Bool.false_ne_true]
  exact failHere nofun

end Stalls

/-! ## Two texts -/

/-- The tokens at which texts may part: the end of the one, and what the other one goes on with. -/
def partings : List TokenKind := [.eof, Symbol.lBrace, Symbol.dot]

theorem of_partings {P : TokenKind → Prop} (heof : P .eof) (hbrace : P Symbol.lBrace)
    (hdot : P Symbol.dot) : ∀ k ∈ partings, P k := by
  intro k hk
  rw [partings, List.mem_cons, List.mem_cons, List.mem_singleton] at hk
  rcases hk with rfl | rfl | rfl
  · exact heof
  · exact hbrace
  · exact hdot

/-- Two texts of one length that are the same up to where the first one ends but for newlines, and
the second one goes on with a symbol. -/
structure Extension where
  left : Course
  right : Course
  /-- What the first text ends with. -/
  pad : List UInt8
  /-- What the lexer skips in front of the symbol. -/
  gap : List UInt8
  next : Symbol
  /-- The text behind the symbol. -/
  behind : List UInt8
  next_eq : next = .lBrace ∨ next = .dot
  pad_lines : ∀ b ∈ pad, b = newline
  trivia : Trivia gap (next.bytes ++ behind)
  lexes : Lexes (.symbol next, next.spelling) next.bytes behind
  apart : Apart Walker.isRunByte (gap ++ (next.bytes ++ behind))
  extent_eq : left.origin.extent = right.origin.extent
  tabWidth_eq : left.origin.tabWidth = right.origin.tabWidth
  /-- What else is known of the parsers over the first text. -/
  region : Parser Buffer → Prop
  region_advance : ∀ {p p' : Parser Buffer} {t : Token}, region p →
    (advance : Parse Buffer Token).run p = (.ok t, p') → region p'
  region_narrow : ∀ {p : Parser Buffer} {whole part : Symbol}, region p → p.current.kind = whole →
    whole.cut? = some part → region ((narrow part 1).run p).2

namespace Extension

variable (E : Extension)

/-- What the second text goes on with. -/
def tail : List UInt8 := E.gap ++ (E.next.bytes ++ E.behind)

/-- Parsers over the two texts in front of where these part. -/
structure Twin (p q : Parser Buffer) : Prop where
  left : E.left.Placed p
  right : E.right.Placed q
  region : E.region p
  kind_ne : p.current.kind ≠ .eof
  current_eq : p.current = q.current
  start_eq : p.start = q.start
  inTrait_eq : p.inTrait = q.inTrait
  place_eq : p.lexer.place = q.lexer.place
  rests : ∃ front, Along E.tail front ∧ p.lexer.rest = front ++ E.pad ∧
    q.lexer.rest = front ++ E.tail

/-- Parsers at the end of the first text and at the symbol that the second one goes on with. -/
structure Parted (p q : Parser Buffer) : Prop where
  left : E.left.Placed p
  right : E.right.Placed q
  kind_eq : p.current.kind = .eof
  next_eq : q.current.kind = E.next
  text_eq : q.current.text = E.next.spelling
  inTrait_eq : p.inTrait = q.inTrait
  rest_eq : q.lexer.rest = E.behind

/-- Parsers over the two texts. -/
def State (p q : Parser Buffer) : Prop := E.Twin p q ∨ E.Parted p q

/-- The two readings ended: over the second text there is a value if there is one over the first,
and it is the same. If errors are mirrored, there is one over the second text too where there is one
over the first, and both are about `void` or neither is. -/
inductive Ended {α : Type} (mirrored : Prop) :
    Except SyntaxError α × Parser Buffer → Except SyntaxError α × Parser Buffer → Prop where
  | ok {a : α} {p q : Parser Buffer} (state : E.State p q) : Ended mirrored (.ok a, p) (.ok a, q)
  | error {e e' : SyntaxError} {p q : Parser Buffer}
    (void_iff : e.code = .misplacedVoid ↔ e'.code = .misplacedVoid) :
    Ended mirrored (.error e, p) (.error e', q)
  | unmirrored {e : SyntaxError} {p : Parser Buffer} {r : Except SyntaxError α × Parser Buffer}
    (h : ¬mirrored) : Ended mirrored (.error e, p) r

/-- From two states, the second reading does as the first one does. -/
def At {α : Type} (mirrored : Prop) (p q : Parser Buffer) (x y : Parse Buffer α) : Prop :=
  E.Ended mirrored (x.run p) (y.run q)

/-- From everywhere in the two texts, the reading over the second one does as over the first one. -/
def Keeps {α : Type} (mirrored : Prop) (x : Parse Buffer α) : Prop :=
  ∀ ⦃p q : Parser Buffer⦄, E.State p q → E.At mirrored p q x x

/-- The reading comes to nothing where the texts part. -/
def Stuck {α : Type} (mirrored : Prop) (x : Parse Buffer α) : Prop :=
  Stalls .eof x ∧ (mirrored → Stalls E.next x)

variable {E} {mirrored : Prop} {p q p' q' : Parser Buffer} {α β : Type} {x y : Parse Buffer α}
  {f g : α → Parse Buffer β} {c : TokenKind}

theorem eof_ne (hc : c ∉ partings) : .eof ≠ c := by
  rintro rfl
  exact hc (by decide)

theorem next_mem (E : Extension) : .symbol E.next ∈ partings := by
  rcases E.next_eq with h | h
  · rw [h]
    decide
  · rw [h]
    decide

theorem next_ne (hc : c ∉ partings) : .symbol E.next ≠ c := by
  rintro rfl
  exact hc E.next_mem

/-! ## States -/

theorem State.left (h : E.State p q) : E.left.Placed p := h.elim Twin.left Parted.left

theorem State.right (h : E.State p q) : E.right.Placed q := h.elim Twin.right Parted.right

theorem State.bound_eq (h : E.State p q) : p.bound = q.bound := by
  have hp := h.left.steady.sameText.extent_eq
  have hq := h.right.steady.sameText.extent_eq
  unfold bound
  rw [hp, hq, E.extent_eq]

/-- In front of the end of the first text, parsers are twins. -/
theorem State.twin (h : E.State p q) (hkind : p.current.kind ≠ .eof) : E.Twin p q :=
  h.resolve_right fun hparted => hkind hparted.kind_eq

theorem Parted.kind_ne (h : E.Parted p q) (hc : c ∉ partings) :
    p.current.kind ≠ c ∧ q.current.kind ≠ c := by
  rw [h.kind_eq, h.next_eq]
  exact ⟨eof_ne hc, next_ne hc⟩

namespace Twin

/-- Where a token is current that is not what is left of another one. -/
theorem fresh (h : E.Twin p q) (hgt : p.current.kind ≠ Symbol.gt)
    (hpipe : p.current.kind ≠ Symbol.pipe) : E.left.Fresh p ∧ E.right.Fresh q :=
  ⟨h.left.steady.fresh hgt hpipe,
    h.right.steady.fresh (h.current_eq ▸ hgt) (h.current_eq ▸ hpipe)⟩

theorem tabWidth_eq (h : E.Twin p q) : p.lexer.tabWidth = q.lexer.tabWidth := by
  rw [h.left.steady.sameText.tabWidth_eq, h.right.steady.sameText.tabWidth_eq, E.tabWidth_eq]

/-- The next token is the same, or it is the end of the first text. -/
theorem advance (h : E.Twin p q) :
    ∃ p' q', (Parser.advance : Parse Buffer Token).run p = (.ok p.current, p') ∧
      (Parser.advance : Parse Buffer Token).run q = (.ok p.current, q') ∧ E.State p' q' := by
  obtain ⟨front, halong, hp, hq⟩ := h.rests
  rcases halong.next E.apart with htrivia | ⟨gap, slice, rest, lexeme, hlexeme, -, hmore, htakes⟩
  · -- Nothing is left in front of where the texts part.
    have hleft : p.lexer.TakesNext (front ++ E.pad) [] (.eof, Lexer.eofText) [] :=
      Walker.takesNext_eof (htrivia.before_lines E.pad_lines) hp
    have hright : q.lexer.TakesNext (front ++ E.gap) E.next.bytes (.symbol E.next, E.next.spelling)
        E.behind := by
      refine Walker.takesNext (htrivia.append E.trivia) E.lexes ?_
      rw [hq, tail, List.append_assoc]
    obtain ⟨_, p', -, hrun, hcurrent, -, hinTrait, -⟩ := hleft.run_advance
    obtain ⟨_, q', -, hrun', hcurrent', -, hinTrait', -, hrest'⟩ := hright.run_advance
    rw [← h.current_eq] at hrun'
    refine ⟨p', q', hrun, hrun', .inr ⟨(Ends.ok h.left.advance hrun).1,
      (Ends.ok h.right.advance hrun').1, ?_, ?_, ?_, ?_, hrest'⟩⟩
    · rw [hcurrent]
    · rw [hcurrent']
    · rw [hcurrent']
    · rw [hinTrait, hinTrait', h.inTrait_eq]
  · obtain ⟨place, p', hplace, hrun, hcurrent, hstart, hinTrait, hbehind, hrest⟩ :=
      (htakes E.pad (follows_lines E.pad_lines) p.lexer hp).run_advance
    obtain ⟨place', q', hplace', hrun', hcurrent', hstart', hinTrait', hbehind', hrest'⟩ :=
      (htakes E.tail (.inl rfl) q.lexer hq).run_advance
    rw [← h.place_eq, ← h.tabWidth_eq, ← hplace] at hplace'
    subst hplace'
    rw [← h.current_eq] at hrun'
    refine ⟨p', q', hrun, hrun', .inl ⟨(Ends.ok h.left.advance hrun).1,
      (Ends.ok h.right.advance hrun').1, E.region_advance h.region hrun, ?_, ?_, ?_, ?_, ?_,
      rest, hmore, hrest, hrest'⟩⟩
    · rw [hcurrent]
      exact hlexeme
    · rw [hcurrent, hcurrent']
    · rw [hstart, hstart']
    · rw [hinTrait, hinTrait', h.inTrait_eq]
    · rw [hbehind, hbehind', h.tabWidth_eq]

/-- A symbol is cut in both texts. -/
theorem narrow (h : E.Twin p q) {whole part : Symbol} (hwhole : p.current.kind = whole)
    (hpart : whole.cut? = some part) :
    E.Twin ((Parser.narrow part 1).run p).2 ((Parser.narrow part 1).run q).2 := by
  obtain ⟨hgt, hpipe⟩ := Course.ne_of_cut hpart
  obtain ⟨hfresh, hfresh'⟩ := h.fresh (hwhole ▸ hgt) (hwhole ▸ hpipe)
  have hwhole' : q.current.kind = whole := h.current_eq ▸ hwhole
  obtain ⟨w, b, more, -, hw, hfirst, hmore, hrun, hbytes⟩ :=
    Course.split_of_narrow hfresh hwhole hpart
  obtain ⟨w', b', more', -, hw', hfirst', hmore', -, hbytes'⟩ :=
    Course.split_of_narrow hfresh' hwhole' hpart
  obtain ⟨rfl, rfl⟩ := List.cons.inj (hbytes.symm.trans hbytes')
  obtain ⟨front, ⟨run, rest, rfl, hfront, hapart, hjoins⟩, hp, hq⟩ := h.rests
  refine ⟨h.left.narrow hwhole hpart, h.right.narrow hwhole' hpart,
    E.region_narrow h.region hwhole hpart,
    nofun, ?_, h.start_eq, h.inTrait_eq, ?_, more ++ (run ++ rest),
      ⟨more ++ run, rest, ?_, ?_, hapart,
    hjoins⟩, ?_, ?_⟩
  · exact congrArg (fun t : Token => { t with kind := part, text := TokenKind.describe part })
      h.current_eq
  · have htab : w.tabWidth = w'.tabWidth := by
      rw [← hfirst.tabWidth_eq, ← hmore.tabWidth_eq, h.tabWidth_eq, hmore'.tabWidth_eq,
        hfirst'.tabWidth_eq]
    rw [hfirst.place_eq, hfirst'.place_eq, hw, hw', h.start_eq, htab]
  · rw [List.append_assoc]
  · intro c hc
    exact (List.mem_append.1 hc).elim (fun hc => hrun c (List.mem_cons_of_mem b hc)) (hfront c)
  · rw [hmore.rest_eq, hp, List.append_assoc more]
  · rw [hmore'.rest_eq, hq, List.append_assoc more]

end Twin

/-! ## From two states -/

namespace At

theorem pure (hs : E.State p q) (a : α) : E.At mirrored p q (Pure.pure a) (Pure.pure a) := .ok hs

/-- Readings one after the other; the second ones may make use of where the first ones led. -/
theorem bind (hx : E.At mirrored p q x y)
    (hf : ∀ a p' q', x.run p = (.ok a, p') → E.State p' q' → E.At mirrored p' q' (f a) (g a)) :
    E.At mirrored p q (x >>= f) (y >>= g) := by
  unfold At at hx hf ⊢
  rcases hp : x.run p with ⟨r, p'⟩
  rcases hq : y.run q with ⟨r', q'⟩
  rw [hp, hq] at hx
  cases hx with
  | ok state =>
    rw [run_bind_ok hp, run_bind_ok hq]
    exact hf _ _ _ hp state
  | error void_iff =>
    rw [run_bind_error hp, run_bind_error hq]
    exact .error void_iff
  | unmirrored h =>
    rw [run_bind_error hp]
    exact .unmirrored h

/-- Whatever the first reading does, if it comes to an error and these are not mirrored. -/
theorem of_error {e : SyntaxError} (h : x.run p = (.error e, p')) (hmirrored : ¬mirrored) :
    E.At mirrored p q x y := by
  unfold At
  rw [h]
  exact .unmirrored hmirrored

/-- Nothing comes of the readings where the texts part. -/
theorem of_stuck (hs : E.Parted p q) (hx : E.Stuck mirrored x) : E.At mirrored p q x x := by
  obtain ⟨e, p', hrun, hcode⟩ := hx.1 p hs.kind_eq
  by_cases hmirrored : mirrored
  · obtain ⟨e', q', hrun', hcode'⟩ := hx.2 hmirrored q hs.next_eq
    unfold At
    rw [hrun, hrun']
    exact .error (iff_of_false hcode hcode')
  · exact of_error hrun hmirrored

theorem ite {c : Prop} [Decidable c] {x' y' : Parse Buffer α} (hx : c → E.At mirrored p q x y)
    (hy : ¬c → E.At mirrored p q x' y') :
    E.At mirrored p q (if c then x else x') (if c then y else y') := by
  split
  · next h => exact hx h
  · next h => exact hy h

/-! ### What the states show -/

theorem kind (hs : E.State p q) {f : TokenKind → Parse Buffer β}
    (htwin : E.Twin p q → E.At mirrored p q (f p.current.kind) (f p.current.kind))
    (hparted : E.Parted p q → E.At mirrored p q (f .eof) (f E.next)) :
    E.At mirrored p q (Parser.kind >>= f) (Parser.kind >>= f) := by
  unfold At at htwin hparted ⊢
  rw [run_bind_ok (run_kind p), run_bind_ok (run_kind q)]
  rcases hs with hs | hs
  · rw [← hs.current_eq]
    exact htwin hs
  · rw [hs.kind_eq, hs.next_eq]
    exact hparted hs

theorem check (hs : E.State p q) (hc : c ∉ partings) {f : Bool → Parse Buffer β}
    (htrue : E.Twin p q → p.current.kind = c → E.At mirrored p q (f true) (f true))
    (hfalse : E.At mirrored p q (f false) (f false)) :
    E.At mirrored p q (Parser.check c >>= f) (Parser.check c >>= f) := by
  unfold At at htrue hfalse ⊢
  rw [run_bind_ok (run_check c p), run_bind_ok (run_check c q)]
  rcases hs with hs | hs
  · rw [← hs.current_eq]
    by_cases hkind : p.current.kind = c
    · rw [decide_eq_true hkind]
      exact htrue hs hkind
    · rw [decide_eq_false hkind]
      exact hfalse
  · obtain ⟨hp, hq⟩ := hs.kind_ne hc
    rw [decide_eq_false hp, decide_eq_false hq]
    exact hfalse

/-- In front of where the texts part, any kind may be asked for. -/
theorem checkTwin (hs : E.Twin p q) {f : Bool → Parse Buffer β}
    (htrue : p.current.kind = c → E.At mirrored p q (f true) (f true))
    (hfalse : E.At mirrored p q (f false) (f false)) :
    E.At mirrored p q (Parser.check c >>= f) (Parser.check c >>= f) := by
  unfold At at htrue hfalse ⊢
  rw [run_bind_ok (run_check c p), run_bind_ok (run_check c q), ← hs.current_eq]
  by_cases hkind : p.current.kind = c
  · rw [decide_eq_true hkind]
    exact htrue hkind
  · rw [decide_eq_false hkind]
    exact hfalse

theorem position (hs : E.Twin p q) {f : Position → Parse Buffer β}
    (h : ∀ pos, E.At mirrored p q (f pos) (f pos)) :
    E.At mirrored p q (Parser.position >>= f) (Parser.position >>= f) := by
  have hq : E.At mirrored p q (f p.current.position) (f q.current.position) := by
    rw [← hs.current_eq]
    exact h _
  exact hq

theorem save (hs : E.Twin p q) {f : Bookmark → Parse Buffer β}
    (h : E.At mirrored p q (f ⟨p.start⟩) (f ⟨p.start⟩)) :
    E.At mirrored p q (Parser.save >>= f) (Parser.save >>= f) := by
  have hq : E.At mirrored p q (f ⟨p.start⟩) (f ⟨q.start⟩) := by
    rwa [← hs.start_eq]
  exact hq

theorem listBound (hs : E.State p q) {f : Nat → Parse Buffer β}
    (h : ∀ steps, E.At mirrored p q (f steps) (f steps)) :
    E.At mirrored p q (Parser.listBound >>= f) (Parser.listBound >>= f) := by
  have hq : E.At mirrored p q (f p.bound) (f q.bound) := by
    rw [← hs.bound_eq]
    exact h _
  exact hq

/-! ### Failing -/

/-- The same fault, at whatever places. -/
theorem failAt (fault : SyntaxFault) (place place' : Place) :
    E.At mirrored p q (Parser.failAt fault place : Parse Buffer α) (Parser.failAt fault place') :=
  .error Iff.rfl

theorem failAtStart (fault : SyntaxFault) :
    E.At mirrored p q (Parser.failAtStart fault : Parse Buffer α) (Parser.failAtStart fault) :=
  .error Iff.rfl

theorem failHere {fault : String → SyntaxFault} (h : ∀ text, (fault text).code ≠ .misplacedVoid) :
    E.At mirrored p q (Parser.failHere fault : Parse Buffer α) (Parser.failHere fault) :=
  .error (iff_of_false (h p.current.text) (h q.current.text))

theorem unexpected : E.At mirrored p q (Parser.unexpected : Parse Buffer α) Parser.unexpected :=
  failHere nofun

theorem expectedOneOf (kinds : List TokenKind) :
    E.At mirrored p q (Parser.expectedOneOf kinds : Parse Buffer α) (Parser.expectedOneOf kinds) :=
  failHere nofun

/-! ### Taking tokens -/

theorem advance (hs : E.Twin p q) : E.At mirrored p q Parser.advance Parser.advance := by
  obtain ⟨p', q', hrun, hrun', hstate⟩ := hs.advance
  unfold At
  rw [hrun, hrun']
  exact .ok hstate

theorem drop (hs : E.Twin p q) : E.At mirrored p q Parser.drop Parser.drop :=
  (advance hs).bind fun _ _ _ _ hs' => .pure hs' ()

theorem eat (hs : E.State p q) (hc : c ∉ partings) :
    E.At mirrored p q (Parser.eat c) (Parser.eat c) :=
  check hs hc (fun htwin _ => (advance htwin).bind fun _ _ _ _ hs' => .pure hs' true)
    (.pure hs false)

theorem mark (hs : E.Twin p q) : E.At mirrored p q (Parser.mark c) (Parser.mark c) := by
  refine bind (checkTwin hs (fun _ => advance hs) (failHere nofun)) fun _ _ _ _ hs' => .pure hs' ()

theorem expectIdentifier (hs : E.Twin p q) :
    E.At mirrored p q Parser.expectIdentifier Parser.expectIdentifier :=
  checkTwin hs (fun _ => (advance hs).bind fun _ _ _ _ hs' => .pure hs' _) (failHere nofun)

theorem narrow (hs : E.Twin p q) {whole part : Symbol} (hwhole : p.current.kind = whole)
    (hpart : whole.cut? = some part) :
    E.At mirrored p q (Parser.narrow part 1) (Parser.narrow part 1) :=
  .ok (.inl (hs.narrow hwhole hpart))

/-- The next token is the same, or it is the end of the first text. -/
theorem peek (hs : E.Twin p q) {f : Token → Parse Buffer β}
    (h : ∀ t t', t = t' ∨ (t.kind = .eof ∧ t'.kind = .symbol E.next) →
      (∀ s r, (Parser.advance : Parse Buffer Token).run p = (.ok s, r) → r.current = t) →
      E.At mirrored p q (f t) (f t')) :
    E.At mirrored p q (Parser.peek >>= f) (Parser.peek >>= f) := by
  obtain ⟨p', q', hrun, hrun', hstate⟩ := hs.advance
  have hnext : p'.current = q'.current ∨
      (p'.current.kind = .eof ∧ q'.current.kind = .symbol E.next) :=
    hstate.imp Twin.current_eq fun hparted => ⟨hparted.kind_eq, hparted.next_eq⟩
  have hlook {p p' : Parser Buffer} {t : Token}
      (hrun : (Parser.advance : Parse Buffer Token).run p = (.ok t, p')) :
      (Parser.peek : Parse Buffer Token).run p = (.ok p'.current, p) := by
    rcases Parser.run_peek p with ⟨_, _, hadvance, hpeek⟩ | ⟨_, _, hadvance, -⟩
    · rw [hrun] at hadvance
      rw [(Prod.mk.inj hadvance).2]
      exact hpeek
    · rw [hrun] at hadvance
      cases hadvance
  unfold At at h ⊢
  rw [run_bind_ok (hlook hrun), run_bind_ok (hlook hrun')]
  refine h _ _ hnext fun s r hadvance => ?_
  rw [hrun] at hadvance
  rw [(Prod.mk.inj hadvance).2]

theorem inContext (context : ErrorContext) (hx : E.At mirrored p q x y) :
    E.At mirrored p q (Parser.inContext context x) (Parser.inContext context y) := by
  unfold At Parser.inContext at *
  rw [run_tryCatch, run_tryCatch]
  rcases hp : x.run p with ⟨r, p'⟩
  rcases hq : y.run q with ⟨r', q'⟩
  rw [hp, hq] at hx
  cases hx with
  | ok state => exact .ok state
  | error void_iff => exact .error void_iff
  | unmirrored h => exact .unmirrored h

end At

/-! ## From everywhere -/

namespace Stuck

theorem of_stalls (h : ∀ k ∈ partings, Stalls k x) : E.Stuck mirrored x :=
  ⟨h _ (by decide), fun _ => h _ E.next_mem⟩

/-- Where errors are not mirrored, only the end of the first text counts. -/
theorem of_eof (h : Stalls .eof x) : E.Stuck False x := ⟨h, False.elim⟩

theorem bind (h : E.Stuck mirrored x) : E.Stuck mirrored (x >>= f) :=
  ⟨h.1.bind, fun hmirrored => (h.2 hmirrored).bind⟩

theorem mark (hc : c ∉ partings) : E.Stuck mirrored (Parser.mark c) :=
  ⟨.mark (eof_ne hc), fun _ => .mark (next_ne hc)⟩

theorem expectIdentifier : E.Stuck mirrored Parser.expectIdentifier :=
  ⟨.expectIdentifier nofun, fun _ => .expectIdentifier nofun⟩

theorem position {f : Position → Parse Buffer β} (h : ∀ pos, E.Stuck mirrored (f pos)) :
    E.Stuck mirrored (Parser.position >>= f) :=
  ⟨.position fun pos => (h pos).1, fun hmirrored => .position fun pos => (h pos).2 hmirrored⟩

end Stuck

namespace Keeps

theorem pure (a : α) : E.Keeps mirrored (Pure.pure a) := fun _ _ hs => .pure hs a

theorem bind (hx : E.Keeps mirrored x) (hf : ∀ a, E.Keeps mirrored (f a)) :
    E.Keeps mirrored (x >>= f) :=
  fun _ _ hs => (hx hs).bind fun a _ _ _ hs' => hf a hs'

theorem ite {c : Prop} [Decidable c] (hx : E.Keeps mirrored x) (hy : E.Keeps mirrored y) :
    E.Keeps mirrored (if c then x else y) := fun _ _ hs => .ite (fun _ => hx hs) fun _ => hy hs

/-- A reading that needs a token in front of where the texts part. -/
theorem of_twin (h : ∀ {p q : Parser Buffer}, E.Twin p q → E.At mirrored p q x x)
    (hstuck : E.Stuck mirrored x) : E.Keeps mirrored x := by
  intro p q hs
  rcases hs with hs | hs
  · exact h hs
  · exact .of_stuck hs hstuck

theorem check (hc : c ∉ partings) : E.Keeps mirrored (Parser.check c) := by
  intro p q hs
  have h : E.At mirrored p q (Parser.check c >>= Pure.pure) (Parser.check c >>= Pure.pure) :=
    .check hs hc (fun _ _ => .pure hs true) (.pure hs false)
  rwa [bind_pure] at h

theorem checkNot (hc : c ∉ partings) : E.Keeps mirrored (Parser.checkNot c) :=
  (check hc).bind fun _ => .pure _

theorem eat (hc : c ∉ partings) : E.Keeps mirrored (Parser.eat c) := fun _ _ hs => .eat hs hc

theorem mark (hc : c ∉ partings) : E.Keeps mirrored (Parser.mark c) := .of_twin .mark (.mark hc)

theorem expectIdentifier : E.Keeps mirrored Parser.expectIdentifier :=
  .of_twin .expectIdentifier .expectIdentifier

theorem position {f : Position → Parse Buffer β} (h : ∀ pos, E.Keeps mirrored (f pos))
    (hstuck : ∀ pos, E.Stuck mirrored (f pos)) : E.Keeps mirrored (Parser.position >>= f) :=
  .of_twin (fun hs => .position hs fun pos => h pos (.inl hs)) (.position hstuck)

/-! ### Lists -/

section Lists

variable {m : Mode} {item : Parse Buffer (Yield m α)} {test : Parse Buffer Bool}

theorem closedList (close : Symbol) (hclose : .symbol close ∉ partings)
    (h : E.Keeps mirrored item) : E.Keeps mirrored (Parser.closedList close item) := by
  have hcomma : .symbol .comma ∉ partings := by decide
  have hitems (steps : Nat) (taken : Yield m (Array α)) :
      E.Keeps mirrored (Parser.closedListOnto close item steps taken) := by
    induction steps generalizing taken with
    | zero => exact fun _ _ _ => .failAtStart _
    | succ steps ih =>
      refine h.bind fun next p q hs => .kind hs (fun htwin => ?_) fun _ => ?_
      · refine .ite (fun _ => ?_) fun _ => .ite (fun _ => ?_) fun _ => .expectedOneOf _
        · exact (At.drop htwin).bind fun _ _ _ _ hs' => ih _ hs'
        · exact (At.drop htwin).bind fun _ _ _ _ hs' => .pure hs' _
      · rw [if_neg (eof_ne hcomma), if_neg (eof_ne hclose), if_neg (next_ne hcomma),
          if_neg (next_ne hclose)]
        exact .expectedOneOf _
  exact fun _ _ hs => .listBound hs fun steps =>
    ((hitems steps _).bind fun _ => .pure _) hs

theorem openTailOnto (close : Symbol) (hclose : .symbol close ∉ partings)
    (h : E.Keeps mirrored item) (steps : Nat) (taken : Yield m (Array α)) :
    E.Keeps mirrored (Parser.openTailOnto close item steps taken) := by
  induction steps generalizing taken with
  | zero => exact fun _ _ _ => .failAtStart _
  | succ steps ih =>
    refine (eat (by decide)).bind fun comma p q hs => .check hs hclose ?_ ?_
    · exact fun htwin _ => (At.drop htwin).bind fun _ _ _ _ hs' => .pure hs' _
    · cases comma with
      | false => exact .expectedOneOf _
      | true => exact (h.bind fun next => ih _) hs

theorem openList (close : Symbol) (hclose : .symbol close ∉ partings) (h : E.Keeps mirrored item) :
    E.Keeps mirrored (Parser.openList close item) :=
  h.bind fun _ _ _ hs => .listBound hs fun steps =>
    ((openTailOnto close hclose h steps _).bind fun _ => .pure _) hs

theorem openListOrEmpty (close : Symbol) (hclose : .symbol close ∉ partings)
    (h : E.Keeps mirrored item) : E.Keeps mirrored (Parser.openListOrEmpty close item) :=
  fun _ _ hs => .check hs hclose
    (fun htwin _ => (At.drop htwin).bind fun _ _ _ _ hs' => .pure hs' _)
      (openList close hclose h hs)

theorem whileOnto (htest : E.Keeps mirrored test) (h : E.Keeps mirrored item) (steps : Nat)
    (taken : Yield m (Array α)) : E.Keeps mirrored (Parser.whileOnto test item steps taken) := by
  induction steps generalizing taken with
  | zero => exact fun _ _ _ => .failAtStart _
  | succ steps ih => exact htest.bind fun _ => .ite (h.bind fun _ => ih _) (.pure _)

theorem listWhile (htest : E.Keeps mirrored test) (h : E.Keeps mirrored item) :
    E.Keeps mirrored (Parser.listWhile test item) :=
  fun _ _ hs => .listBound hs fun steps => ((whileOnto htest h steps _).bind fun _ => .pure _) hs

theorem listOnceAndWhile (htest : E.Keeps mirrored test) (h : E.Keeps mirrored item) :
    E.Keeps mirrored (Parser.listOnceAndWhile test item) :=
  h.bind fun _ _ _ hs => .listBound hs fun steps =>
    ((whileOnto htest h steps _).bind fun _ => .pure _) hs

theorem optionally (htest : E.Keeps mirrored test) (h : E.Keeps mirrored item) :
    E.Keeps mirrored (Parser.optionally test item) :=
  htest.bind fun _ => .ite (h.bind fun _ => .pure _) (.pure _)

/-- Items up to a closing token, which is taken. -/
theorem untilThen (close : Symbol) (hclose : .symbol close ∉ partings) (h : E.Keeps mirrored item)
    {f : Yield m (List α) → Parse Buffer β} (hf : ∀ l, E.Keeps mirrored (f l)) :
    E.Keeps mirrored (do
      let l ← Parser.listWhile (Parser.checkNot close) item
      Parser.drop
      f l) := by
  intro p q hs
  unfold Parser.listWhile
  rw [bind_assoc]
  refine .listBound hs fun steps => ?_
  rw [bind_assoc]
  refine (whileOnto (checkNot hclose) h steps _ hs).bind fun taken p' q' hrun hs' => ?_
  have hends := Ends.whileOnto_checkNot (p := p) close item steps (Pure.pure #[])
  have hkind : p'.current.kind = close := hends.ok hrun
  rw [pure_bind]
  have htwin := hs'.twin (hkind ▸ (eof_ne hclose).symm)
  exact (At.drop htwin).bind fun _ _ _ _ hs'' => hf _ hs''

end Lists

end Keeps

end Extension

end ScriptFront
