import ScriptFront.Grammar.Types
import ScriptFront.Proofs.Writing.Outcomes
import ScriptFront.Proofs.Writing.Reading

/-!
# No call behind an angle

Behind an operand, `<` is tried as the start of type arguments first. `noCall` tells by the lexemes
that follow it that this comes to nothing: no reading of type arguments reaches a closing angle
before a `(`, nor a `void`.

- `Clear`: a parser before lexemes of which `noCall` holds; all that types are read with keeps it.
- `Clear.genericArgs`: the attempt at type arguments.
-/

namespace ScriptFront

open ScriptFront.Parser

/-- What a token means for type arguments that are being read. -/
inductive Prospect where
  /-- A call might begin, or there is a `void`. -/
  | call
  /-- No type goes on with this token. -/
  | none
  /-- A type may go on, at some depth of brackets. -/
  | go (depth : Nat)
  /-- A parenthesis closes, and a type may go on outside of it, but not with an angle. -/
  | shut (depth : Nat)

/-- What a token means at some depth of brackets. Outside all brackets an angle is the end, unless
it is a double one: the second one is left then. -/
def prospect (d : Nat) : TokenKind → Prospect
  | .keyword (.primitive .void) => .call
  | .symbol .lParen | .symbol .lBracket => .go (d + 1)
  | .symbol .rParen =>
    match d with
    | 0 => .none
    | d + 1 => .shut d
  | .symbol .rBracket =>
    match d with
    | 0 => .none
    | d + 1 => .go d
  | .symbol .lt | .symbol .gt | .symbol .gtEq | .symbol .shrEq => if d = 0 then .call else .go d
  | .symbol .shr => if d = 0 then .none else .go d
  | .identifier | .integer _ | .keyword (.primitive _) | .keyword .fnKw | .keyword .selfKw
  | .symbol .colonColon | .symbol .comma | .symbol .question | .symbol .arrow => .go d
  | _ => .none

/-- Whether type arguments that are read from here on, at some depth of brackets, neither end before
a `(` nor come to a `void`. Behind a closing parenthesis no type goes on with an angle. -/
def noCall : (depth : Nat) → List Lexeme → Bool
  | _, [] => true
  | d, l :: ls =>
    match prospect d l.kind with
    | .call => false
    | .none => true
    | .go e => noCall e ls
    | .shut e => headKind ls = Symbol.lt || noCall e ls

theorem noCall_go {d e : Nat} {l : Lexeme} {ls : List Lexeme} (h : prospect d l.kind = .go e) :
    noCall d (l :: ls) = noCall e ls := by
  rw [noCall, h]

theorem noCall_rParen (d : Nat) (ls : List Lexeme) :
    noCall (d + 1) (.mark .rParen :: ls) = (headKind ls = Symbol.lt || noCall d ls) := rfl

theorem noCall_call {d : Nat} {l : Lexeme} {ls : List Lexeme} (h : prospect d l.kind = .call) :
    noCall d (l :: ls) = false := by
  rw [noCall, h]

theorem noCall_none {d : Nat} {l : Lexeme} {ls : List Lexeme} (h : prospect d l.kind = .none) :
    noCall d (l :: ls) = true := by
  rw [noCall, h]

/-- An attempt that fails leaves the text where it is, and does not fail for a `void`. -/
def Harmless (c : Setting) (e : SyntaxError) (p : Parser Buffer) : Prop :=
  e.code ≠ .misplacedVoid ∧ c.Holds p

/-- A parser before lexemes that no call can begin with. -/
def Clear (c : Setting) (d : Nat) (p : Parser Buffer) : Prop :=
  ∃ ls, Reads c ls p ∧ noCall d ls

/-- A parser behind a type. If an angle follows, nothing goes on there. -/
structure Behind (c : Setting) (d : Nat) (p : Parser Buffer) : Prop where
  holds : c.Holds p
  clear : p.current.kind ≠ Symbol.lt → Clear c d p

namespace Clear

variable {α β : Type} {c : Setting} {d e : Nat} {p : Parser Buffer} {k : TokenKind}
  {Q : β → Parser Buffer → Prop}

theorem holds (h : Clear c d p) : c.Holds p := by
  obtain ⟨ls, hp, -⟩ := h
  exact hp.holds

theorem behind (h : Clear c d p) : Behind c d p := ⟨h.holds, fun _ => h⟩

/-- The current token is no `void`. -/
theorem notVoid (h : Clear c d p) : p.current.kind ≠ .primitive .void := by
  obtain ⟨ls, hp, hls⟩ := h
  rw [hp.kind_eq]
  cases ls with
  | nil => exact nofun
  | cons l ls =>
    intro hl
    rw [headKind_cons] at hl
    rw [noCall_call (by rw [hl]; rfl)] at hls
    exact Bool.false_ne_true hls

/-- Taking a token other than a closing parenthesis. -/
theorem taken (h : Clear c d p) (hk : p.current.kind = k) (heof : k ≠ .eof)
    (hgo : prospect d k = .go e) :
    Ends (Harmless c) Parser.advance p (fun _ q => Clear c e q) := by
  obtain ⟨ls, hp, hls⟩ := h
  rw [hp.kind_eq] at hk
  cases ls with
  | nil => exact absurd hk.symm heof
  | cons l ls =>
    obtain ⟨q, hrun, hq⟩ := hp.toShows.advance
    refine Ends.of_run hrun ⟨ls, hq, ?_⟩
    rw [headKind_cons] at hk
    subst hk
    rw [← noCall_go hgo]
    exact hls

/-- Taking a closing parenthesis. -/
theorem takenParen (h : Clear c (d + 1) p) (hk : p.current.kind = Symbol.rParen) :
    Ends (Harmless c) Parser.advance p (fun _ q => Behind c d q) := by
  obtain ⟨ls, hp, hls⟩ := h
  rw [hp.kind_eq] at hk
  cases ls with
  | nil => exact absurd hk nofun
  | cons l ls =>
    obtain rfl := (hp.wellFormed l List.mem_cons_self).eq_mark hk
    obtain ⟨q, hrun, hq⟩ := hp.toShows.advance
    refine Ends.of_run hrun ⟨hq.holds, fun hlt => ⟨ls, hq, ?_⟩⟩
    rw [hq.kind_eq] at hlt
    simpa [noCall_rParen, hlt] using hls

theorem dropParen (h : Clear c (d + 1) p) (hk : p.current.kind = Symbol.rParen) :
    Ends (Harmless c) Parser.drop p (fun _ q => Behind c d q) :=
  (h.takenParen hk).bind fun _ _ hq => .pure hq

theorem advance {f : Token → Parse Buffer β} (h : Clear c d p) (hk : p.current.kind = k)
    (heof : k ≠ .eof) (hgo : prospect d k = .go e)
    (hf : ∀ t q, Clear c e q → Ends (Harmless c) (f t) q Q) :
    Ends (Harmless c) (Parser.advance >>= f) p Q :=
  (h.taken hk heof hgo).bind hf

theorem dropped (h : Clear c d p) (hk : p.current.kind = k) (heof : k ≠ .eof)
    (hgo : prospect d k = .go e) :
    Ends (Harmless c) Parser.drop p (fun _ q => Clear c e q) :=
  h.advance hk heof hgo fun _ _ hq => .pure hq

theorem drop {f : Unit → Parse Buffer β} (h : Clear c d p) (hk : p.current.kind = k)
    (heof : k ≠ .eof) (hgo : prospect d k = .go e)
    (hf : ∀ q, Clear c e q → Ends (Harmless c) (f ()) q Q) :
    Ends (Harmless c) (Parser.drop >>= f) p Q :=
  (h.dropped hk heof hgo).bind fun _ => hf

theorem eaten (h : Clear c d p) (heof : k ≠ .eof) (hgo : prospect d k = .go e) :
    Ends (Harmless c) (Parser.eat k) p fun b q =>
      (b = true ∧ Clear c e q) ∨ (b = false ∧ q = p) := by
  refine .check (.ite (fun hk => ?_) fun _ => .pure (.inr ⟨rfl, rfl⟩))
  exact h.advance (of_decide_eq_true hk) heof hgo fun _ _ hq => .pure (.inl ⟨rfl, hq⟩)

theorem eat {f : Bool → Parse Buffer β} (h : Clear c d p) (heof : k ≠ .eof)
    (hgo : prospect d k = .go e) (htrue : ∀ q, Clear c e q → Ends (Harmless c) (f true) q Q)
    (hfalse : Ends (Harmless c) (f false) p Q) :
    Ends (Harmless c) (Parser.eat k >>= f) p Q := by
  refine (h.eaten heof hgo).bind fun b q hb => ?_
  rcases hb with ⟨rfl, hq⟩ | ⟨rfl, rfl⟩
  · exact htrue q hq
  · exact hfalse

/-- The test before a further part of a list. -/
theorem eatenAgain (h : Clear c d p) (heof : k ≠ .eof) (hgo : prospect d k = .go e) :
    Ends (Harmless c) (Parser.eat k) p fun b q =>
      (b = true ∧ Clear c e q) ∨ (b = false ∧ Clear c d q) :=
  (h.eaten heof hgo).mono fun _ _ hq => hq.imp id fun ⟨hb, hq⟩ => ⟨hb, hq ▸ h⟩

theorem mark {f : Unit → Parse Buffer β} (h : Clear c d p) (heof : k ≠ .eof)
    (hgo : prospect d k = .go e) (hf : ∀ q, Clear c e q → Ends (Harmless c) (f ()) q Q) :
    Ends (Harmless c) (Parser.mark k >>= f) p Q := by
  have hexpect : Ends (Harmless c) (Parser.expect k) p (fun _ q => Clear c e q) := by
    refine .check (.ite (fun hk => ?_) fun _ => .failHere ⟨nofun, h.holds⟩)
    exact h.taken (of_decide_eq_true hk) heof hgo
  have hmark : Ends (Harmless c) (Parser.mark k) p (fun _ q => Clear c e q) :=
    hexpect.bind fun _ _ hq => .pure hq
  exact hmark.bind fun _ => hf

/-- Behind a type a closing parenthesis is taken. -/
theorem markParen (h : Behind c (d + 1) p) :
    Ends (Harmless c) (Parser.mark Symbol.rParen) p (fun _ q => Behind c d q) := by
  have hexpect : Ends (Harmless c) (Parser.expect Symbol.rParen) p (fun _ q => Behind c d q) := by
    refine .check (.ite (fun hk => ?_) fun _ => .failHere ⟨nofun, h.holds⟩)
    have hkind := of_decide_eq_true hk
    exact (h.clear (by rw [hkind]; nofun)).takenParen hkind
  exact hexpect.bind fun _ _ hq => .pure hq

theorem expectIdentifier {f : String → Parse Buffer β} (h : Clear c d p)
    (hf : ∀ text q, Clear c d q → Ends (Harmless c) (f text) q Q) :
    Ends (Harmless c) (Parser.expectIdentifier >>= f) p Q := by
  have hname : Ends (Harmless c) Parser.expectIdentifier p (fun _ q => Clear c d q) := by
    refine .check (.ite (fun hk => ?_) fun _ => .failHere ⟨nofun, h.holds⟩)
    exact h.advance (of_decide_eq_true hk) nofun rfl fun _ _ hq => .pure hq
  exact hname.bind fun text => hf text

/-! ## Lists -/

variable {item : Parse Buffer (Yield .check α)} {I J : Parser Buffer → Prop}

theorem whileOnto {test : Parse Buffer Bool}
    (htest : ∀ p, I p → Ends (Harmless c) test p fun more q => (more = true ∧ J q) ∨
      (more = false ∧ I q)) (hitem : ∀ p, J p → Ends (Harmless c) item p fun _ q => I q)
    (hI : ∀ p, I p → c.Holds p) (steps : Nat) (taken : Yield .check (Array α)) (hp : I p) :
    Ends (Harmless c) (Parser.whileOnto test item steps taken) p fun _ q => I q := by
  induction steps generalizing p taken with
  | zero => exact .failAtStart ⟨nofun, hI p hp⟩
  | succ steps ih =>
    refine (htest p hp).bind fun more q hq => ?_
    rcases hq with ⟨rfl, hq⟩ | ⟨rfl, hq⟩
    · exact (hitem q hq).bind fun _ r hr => ih _ hr
    · exact .pure hq

theorem listWhile {test : Parse Buffer Bool}
    (htest : ∀ p, I p → Ends (Harmless c) test p fun more q => (more = true ∧ J q) ∨
      (more = false ∧ I q)) (hitem : ∀ p, J p → Ends (Harmless c) item p fun _ q => I q)
    (hI : ∀ p, I p → c.Holds p) (hp : I p) :
    Ends (Harmless c) (Parser.listWhile test item) p fun _ q => I q :=
  .listBound ((whileOnto htest hitem hI _ _ hp).bind fun _ _ hq => .pure hq)

theorem closedListOnto {close : Symbol} {K : Parser Buffer → Prop}
    (hitem : ∀ p, I p → Ends (Harmless c) item p fun _ q => J q)
    (hI : ∀ p, I p → c.Holds p) (hJ : ∀ p, J p → c.Holds p)
    (hcomma : ∀ p, J p → p.current.kind = Symbol.comma →
      Ends (Harmless c) Parser.drop p fun _ q => I q)
    (hclose : ∀ p, J p → p.current.kind = close → Ends (Harmless c) Parser.drop p fun _ q => K q)
    (steps : Nat) (taken : Yield .check (Array α)) (hp : I p) :
    Ends (Harmless c) (Parser.closedListOnto close item steps taken) p fun _ q => K q := by
  induction steps generalizing p taken with
  | zero => exact .failAtStart ⟨nofun, hI p hp⟩
  | succ steps ih =>
    refine (hitem p hp).bind fun _ q hq =>
      .kind (.ite (fun hk => ?_) fun _ => .ite (fun hk => ?_) ?_)
    · exact (hcomma q hq hk).bind fun _ r hr => ih _ hr
    · exact (hclose q hq hk).bind fun _ r hr => .pure hr
    · exact fun _ => .failHere ⟨nofun, hJ q hq⟩

theorem closedList {close : Symbol} {K : Parser Buffer → Prop}
    (hitem : ∀ p, I p → Ends (Harmless c) item p fun _ q => J q)
    (hI : ∀ p, I p → c.Holds p) (hJ : ∀ p, J p → c.Holds p)
    (hcomma : ∀ p, J p → p.current.kind = Symbol.comma →
      Ends (Harmless c) Parser.drop p fun _ q => I q)
    (hclose : ∀ p, J p → p.current.kind = close → Ends (Harmless c) Parser.drop p fun _ q => K q)
    (hp : I p) : Ends (Harmless c) (Parser.closedList close item) p fun _ q => K q :=
  .listBound ((closedListOnto hitem hI hJ hcomma hclose _ _ hp).bind fun _ _ hq => .pure hq)

end Clear

/-! ## Behind type arguments -/

/-- A parser behind a type argument: the closing angle, if it is there, stands for itself. -/
structure Cut (c : Setting) (d : Nat) (p : Parser Buffer) : Prop where
  holds : c.Holds p
  shows : p.current.kind ≠ Symbol.lt →
    ∃ ls, Shows c ls p ∧ (noCall d ls ∨ d = 0 ∧ ∃ us, ls = .mark .gt :: .mark .gt :: us)

/-- A parser behind type arguments: no call begins there. -/
structure Closed (c : Setting) (d : Nat) (p : Parser Buffer) : Prop where
  holds : c.Holds p
  outermost : d = 0 → p.current.kind ≠ Symbol.lParen
  inside : d ≠ 0 → Clear c d p

namespace Cut

variable {c : Setting} {d : Nat} {p : Parser Buffer}

/-- Dropping the current token. -/
theorem drop {l : Lexeme} {ls : List Lexeme} {E : SyntaxError → Parser Buffer → Prop}
    {Q : Parser Buffer → Prop} (hp : Shows c (l :: ls) p) (hQ : ∀ q, Reads c ls q → Q q) :
    Ends E Parser.drop p fun _ q => Q q := by
  obtain ⟨q, hrun, hq⟩ := hp.advance
  exact (Ends.of_run (Q := fun _ r => r = q) hrun rfl).bind fun _ r hr => .pure (hQ r (hr ▸ hq))

/-- A comma leads to the next argument. -/
theorem comma (h : Cut c d p) (hk : p.current.kind = Symbol.comma) :
    Ends (Harmless c) Parser.drop p fun _ q => Clear c d q := by
  obtain ⟨ls, hp, hls⟩ := h.shows (by rw [hk]; nofun)
  rw [hp.kind_eq] at hk
  rcases hls with hls | ⟨-, us, rfl⟩
  · cases ls with
    | nil => exact absurd hk (by decide)
    | cons l us =>
      rw [headKind_cons] at hk
      rw [noCall_go (e := d) (by rw [hk]; rfl)] at hls
      exact drop hp fun q hq => ⟨us, hq, hls⟩
  · exact absurd hk nofun

/-- A closing angle ends the arguments. -/
theorem close (h : Cut c d p) (hk : p.current.kind = Symbol.gt) :
    Ends (Harmless c) Parser.drop p fun _ q => Closed c d q := by
  obtain ⟨ls, hp, hls⟩ := h.shows (by rw [hk]; nofun)
  rw [hp.kind_eq] at hk
  rcases hls with hls | ⟨hd, us, rfl⟩
  · cases ls with
    | nil => exact absurd hk (by decide)
    | cons l us =>
      rw [headKind_cons] at hk
      by_cases hd : d = 0
      · rw [noCall_call (by rw [hk]; exact if_pos hd)] at hls
        exact absurd hls Bool.false_ne_true
      · rw [noCall_go (by rw [hk]; exact if_neg hd)] at hls
        exact drop hp fun q hq => ⟨hq.holds, fun h => absurd h hd, fun _ => ⟨us, hq, hls⟩⟩
  · refine drop hp fun q hq => ⟨hq.holds, fun _ => ?_, fun h => absurd hd h⟩
    rw [hq.kind_eq]
    exact nofun

end Cut

/-! ## Types -/

namespace Clear

variable {c : Setting} {d : Nat} {p : Parser Buffer} {g : Grammar Buffer}

/-- Types of a grammar are read without leaving the depth. -/
def Types (c : Setting) (g : Grammar Buffer) : Prop :=
  ∀ ⦃d p⦄, Clear c d p → Ends (Harmless c) (g.type .check) p fun _ q => Behind c d q

variable (hg : Types c g)

include hg

theorem valueType (h : Clear c d p) :
    Ends (Harmless c) (g.valueType .check) p fun _ q => Behind c d q := by
  have hvoid : decide (p.current.kind = .primitive .void) = false := decide_eq_false h.notVoid
  have hreject : Ends (Harmless c) (Grammar.rejectVoid .value) p fun _ q => q = p := by
    refine .check ?_
    rw [hvoid]
    exact .pure rfl
  exact hreject.bind fun _ q hq => hq ▸ hg h

omit hg in
/-- Cutting a closing angle off a longer symbol. Outside all brackets that is no single angle, so
another one is left. -/
theorem splitClosingAngle (h : Behind c d p) :
    Ends (Harmless c) Grammar.splitClosingAngle p fun _ q => Cut c d q := by
  refine .kind (.ite (fun hk => ?_) fun _ => .pure ⟨h.holds, fun hlt => ?_⟩)
  case refine_2 =>
    obtain ⟨ls, hp, hls⟩ := h.clear hlt
    exact ⟨ls, hp.toShows, .inl hls⟩
  simp only [Bool.or_eq_true, decide_eq_true_eq] at hk
  have hlt : p.current.kind ≠ Symbol.lt := by rcases hk with (hk | hk) | hk <;> rw [hk] <;> nofun
  obtain ⟨ls, hp, hls⟩ := h.clear hlt
  have hcut (whole rest : Symbol) {us : List Lexeme}
      (hbytes : whole.bytes = Symbol.gt.bytes ++ rest.bytes) (hus : ls = .mark whole :: us)
      (hrest : noCall d (.mark .gt :: .mark rest :: us) ∨ d = 0 ∧ rest = .gt) :
      Ends (Harmless c) (Parser.narrow Symbol.gt 1) p fun _ q => Cut c d q := by
    subst hus
    obtain ⟨q, hrun, hq⟩ := hp.narrow hbytes (by decide)
    refine Ends.of_run hrun ⟨hq.holds, fun _ => ⟨_, hq, ?_⟩⟩
    rcases hrest with hrest | ⟨hd, rfl⟩
    · exact .inl hrest
    · exact .inr ⟨hd, us, rfl⟩
  rw [hp.kind_eq] at hk
  cases ls with
  | nil => exact absurd hk (by decide)
  | cons l us =>
    have hl := hp.wellFormed l List.mem_cons_self
    -- Inside brackets what is left of the symbol leads to the same lexemes as the whole of it.
    have hinside {s : Symbol} (hs : s = .gt ∨ s = .gtEq ∨ s = .shr ∨ s = .shrEq) (hd : d ≠ 0)
        (ls : List Lexeme) : noCall d (.mark s :: ls) = noCall d ls := by
      refine noCall_go ?_
      rcases hs with rfl | rfl | rfl | rfl
      all_goals exact if_neg hd
    have houtside {s : Symbol} (hs : prospect 0 s = .call) (hl : l.kind = s) : d ≠ 0 := by
      rintro rfl
      rw [noCall_call (hl ▸ hs)] at hls
      exact Bool.false_ne_true hls
    rcases hk with (hk | hk) | hk
    · obtain rfl := hl.eq_mark hk
      refine hcut .shr .gt rfl rfl ?_
      by_cases hd : d = 0
      · exact .inr ⟨hd, rfl⟩
      · left
        rw [hinside (by simp) hd, hinside (by simp) hd, ← @hinside .shr (by simp) hd]
        exact hls
    · obtain rfl := hl.eq_mark hk
      have hd := houtside rfl rfl
      refine hcut .gtEq .eq rfl rfl (.inl ?_)
      rw [hinside (by simp) hd]
      exact noCall_none rfl
    · obtain rfl := hl.eq_mark hk
      have hd := houtside rfl rfl
      refine hcut .shrEq .gtEq rfl rfl (.inl ?_)
      rw [hinside (by simp) hd, hinside (by simp) hd, ← @hinside .shrEq (by simp) hd]
      exact hls

include hg

theorem genericArg (h : Clear c d p) :
    Ends (Harmless c) (g.genericArg .check) p fun _ q => Cut c d q := by
  have hvoid : decide (p.current.kind = .primitive .void) = false := decide_eq_false h.notVoid
  have hreject : Ends (Harmless c) (Grammar.rejectVoid .argument) p fun _ q => q = p := by
    refine .check ?_
    rw [hvoid]
    exact .pure rfl
  refine hreject.bind fun _ q hq => ?_
  subst hq
  exact (hg h).bind fun _ r hr => (splitClosingAngle hr).bind fun _ t ht => .pure ht

/-- Type arguments behind their opening angle. -/
theorem argumentList (h : Clear c d p) :
    Ends (Harmless c) (Parser.closedList .gt (g.genericArg .check)) p fun _ q => Closed c d q :=
  closedList (fun _ hq => genericArg hg hq) (fun _ hq => hq.holds) (fun _ hq => hq.holds)
    (fun _ hq hk => hq.comma hk) (fun _ hq hk => hq.close hk) h

omit hg in
/-- Type arguments are opened inside brackets only. -/
theorem depth_ne_zero (h : Clear c d p) (hk : p.current.kind = Symbol.lt) : d ≠ 0 := by
  obtain ⟨ls, hp, hls⟩ := h
  rw [hp.kind_eq] at hk
  cases ls with
  | nil => exact absurd hk (by decide)
  | cons l ls =>
    rintro rfl
    rw [headKind_cons] at hk
    rw [noCall_call (by rw [hk]; rfl)] at hls
    exact Bool.false_ne_true hls

theorem pathSegment (root : Bool) (h : Clear c d p) :
    Ends (Harmless c) (g.pathSegment .check root) p fun _ q => Clear c d q := by
  refine .position (h.expectIdentifier fun _ q hq => .check (.ite (fun hk => ?_) fun _ => .pure hq))
  have hd := hq.depth_ne_zero (of_decide_eq_true hk)
  have hargs : Ends (Harmless c) (g.genericArgs .check) q fun _ r => Clear c d r := by
    refine hq.mark nofun (if_neg hd) fun r hr => ?_
    exact (argumentList hg hr).mono fun _ _ ht => ht.inside hd
  exact hargs.bind fun _ _ hr => .pure hr

theorem furtherSegments (h : Clear c d p) :
    Ends (Harmless c)
      (Parser.listWhile (Parser.eat Symbol.colonColon) (g.pathSegment .check false)) p
      fun _ q => Clear c d q :=
  listWhile (fun _ hq => hq.eatenAgain nofun rfl) (fun _ hq => pathSegment hg false hq)
    (fun _ hq => hq.holds) h

theorem typePath (h : Clear c d p) :
    Ends (Harmless c) (g.typePath .check) p fun _ q => Clear c d q := by
  have hpath (q : Parser Buffer) (hq : Clear c d q) (root : Bool) :
      Ends (Harmless c) (do
        let head ← g.pathSegment .check root
        let tail ← Parser.listWhile (Parser.eat Symbol.colonColon) (g.pathSegment .check false)
        return TypePath.mk <$> head <*> tail) q fun _ r => Clear c d r := by
    refine (pathSegment hg root hq).bind fun _ r hr => ?_
    exact (furtherSegments hg hr).bind fun _ _ ht => .pure ht
  exact h.eat nofun rfl (fun q hq => hpath q hq _) (hpath p h _)

theorem functionPartsOnto (steps : Nat) (params : Yield .check (Array TypeExpr))
    (h : Clear c (d + 1) p) :
    Ends (Harmless c) (g.functionPartsOnto .check steps params) p fun _ q => Behind c d q := by
  induction steps generalizing p params with
  | zero => exact .failAtStart ⟨nofun, h.holds⟩
  | succ steps ih =>
    refine .kind (.ite (fun hk => ?_) fun _ => .ite (fun hk => ?_) fun _ => ?_)
    · exact .position ((h.dropParen hk).bind fun _ _ hq => .pure hq)
    · refine h.drop hk nofun rfl fun q hq => (hg hq).bind fun _ r hr => ?_
      exact (markParen hr).bind fun _ _ ht => .pure ht
    · refine (valueType hg h).bind fun _ q hq => .kind (.ite (fun hk => ?_) fun _ => ?_)
      · exact (hq.clear (by rw [hk]; nofun)).drop hk nofun rfl fun r hr => ih _ hr
      · refine .ite (fun hk => ih _ (hq.clear fun hlt => ?_)) fun _ =>
          .failAtStart ⟨nofun, hq.holds⟩
        rw [hlt] at hk
        exact absurd hk (by decide)

theorem functionType (h : Clear c d p) :
    Ends (Harmless c) (g.functionType .check) p fun _ q => Behind c d q := by
  refine h.mark nofun rfl fun q hq => hq.mark nofun rfl fun r hr => ?_
  exact .listBound ((functionPartsOnto hg _ _ hr).bind fun _ _ ht => .pure ht)

theorem tupleType (h : Clear c d p) :
    Ends (Harmless c) (g.tupleType .check) p fun _ q => Behind c d q := by
  refine h.mark nofun rfl fun q hq => ?_
  have hlist : Ends (Harmless c) (Parser.closedList .rParen (g.valueType .check)) q
      fun _ r => Behind c d r := by
    refine closedList (fun _ hr => valueType hg hr) (fun _ hr => hr.holds) (fun _ hr => hr.holds)
      (fun r hr hk => ?_) (fun r hr hk => ?_) hq
    · exact (hr.clear (by rw [hk]; nofun)).dropped hk nofun rfl
    · exact (hr.clear (by rw [hk]; nofun)).dropParen hk
  exact hlist.bind fun _ _ hr => .pure hr

omit hg in
theorem selfType (h : Clear c d p) (hk : p.current.kind = Keyword.selfKw) :
    Ends (Harmless c) (Grammar.selfType .check) p fun _ q => Clear c d q := by
  have hself : Ends (Harmless c) (if p.inTrait then do
      Parser.drop
      return Pure.pure .selfType
    else Parser.failAtStart .selfOutsideTrait : Parse Buffer (Yield .check TypeForm)) p
      fun _ q => Clear c d q := by
    refine .ite (fun _ => ?_) fun _ => .failAtStart ⟨nofun, h.holds⟩
    exact h.drop hk nofun rfl fun _ hq => .pure hq
  exact hself

omit hg in
theorem primitiveType {type : PrimitiveType} (h : Clear c d p)
    (hk : p.current.kind = .primitive type) :
    Ends (Harmless c) Parser.drop p fun _ q => Clear c d q := by
  have hvoid := h.notVoid
  refine h.dropped hk nofun ?_
  cases type with
  | void => exact absurd hk hvoid
  | _ => rfl

theorem baseType (h : Clear c d p) :
    Ends (Harmless c) (g.baseType .check) p fun _ q => Behind c d q := by
  refine .kind ?_
  split
  · next hk => exact (primitiveType h hk).bind fun _ _ hq => .pure hq.behind
  · exact functionType hg h
  · exact tupleType hg h
  · next hk => exact (selfType h hk).mono fun _ _ hq => hq.behind
  · exact (typePath hg h).bind fun _ _ hq => .pure hq.behind
  · exact (typePath hg h).bind fun _ _ hq => .pure hq.behind
  · exact .failHere ⟨nofun, h.holds⟩

omit hg in
theorem arraySize (h : Clear c d p) :
    Ends (Harmless c) Grammar.arraySize p fun _ q => Clear c d q := by
  refine .save (.kind ?_)
  cases hk : p.current.kind with
  | integer form =>
    refine h.advance hk nofun rfl fun t q hq => ?_
    dsimp only
    split
    · exact .ite (fun _ => .pure hq) fun _ => .failAt ⟨nofun, hq.holds⟩
    · exact .failAt ⟨nofun, hq.holds⟩
  | _ => exact .failHere ⟨nofun, h.holds⟩

omit hg in
theorem arrayDim (h : Clear c (d + 1) p) :
    Ends (Harmless c) Grammar.arrayDim p fun _ q => Clear c d q := by
  refine .check (.ite (fun hk => ?_) fun _ => ?_)
  · exact h.drop (of_decide_eq_true hk) nofun rfl fun _ hq => .pure hq
  · refine (arraySize h).bind fun _ q hq => ?_
    exact hq.mark nofun rfl fun _ hr => .pure hr

omit hg in
theorem arrayDims (h : Clear c d p) :
    Ends (Harmless c) (Grammar.arrayDims .check) p fun _ q => Clear c d q := by
  refine listWhile (fun _ hq => hq.eatenAgain nofun rfl) (fun _ hq => ?_) (fun _ hq => hq.holds) h
  exact (arrayDim hq).bind fun _ _ hr => .pure hr

omit hg in
theorem absenceSuffix (start : Bookmark) (type : Yield .check TypeExpr) (h : Behind c d p) :
    Ends (Harmless c) (Grammar.absenceSuffix .check start false type) p fun _ q =>
      Behind c d q := by
  refine .check (.ite (fun hk => ?_) fun _ => .pure h)
  have hkind := of_decide_eq_true hk
  exact (h.clear (by rw [hkind]; nofun)).drop hkind nofun rfl fun _ hq => .pure hq.behind

omit hg in
theorem arraySuffix (start : Bookmark) (type : Yield .check TypeExpr) (h : Behind c d p) :
    Ends (Harmless c) (Grammar.arraySuffix .check start false type) p fun _ q => Behind c d q := by
  refine .check (.ite (fun hk => ?_) fun _ => .pure h)
  have hclear := h.clear (by rw [of_decide_eq_true hk]; nofun)
  refine (arrayDims hclear).bind fun _ q hq => ?_
  exact hq.eat nofun rfl (fun _ hr => .pure hr.behind) (.pure hq.behind)

theorem typeStep (h : Clear c d p) :
    Ends (Harmless c) (g.typeStep .check) p fun _ q => Behind c d q := by
  refine .save (.check ?_)
  rw [decide_eq_false h.notVoid]
  refine (baseType hg h).bind fun _ q hq => (absenceSuffix _ _ hq).bind fun _ r hr => ?_
  exact arraySuffix _ _ hr

omit hg in
/-- Types are read without leaving the depth of brackets, whatever the text may nest. -/
theorem types_upTo (c : Setting) (depth : Nat) : Types c (Grammar.upTo depth) := by
  induction depth with
  | zero => exact fun d p h => .failAtStart ⟨nofun, h.holds⟩
  | succ depth ih => exact fun d p h => typeStep ih h

end Clear

/-- The attempt at type arguments before lexemes that no call begins with: it leaves the text where
it is, and a `(` does not follow. -/
theorem Reads.genericArgs {c : Setting} {p : Parser Buffer} {l : Lexeme} {ls : List Lexeme}
    (depth : Nat) (hp : Reads c (l :: ls) p) (hl : l.kind = Symbol.lt) (hls : noCall 0 ls) :
    Ends (Harmless c) ((Grammar.upTo depth).genericArgs .check) p fun _ q =>
      c.Holds q ∧ q.current.kind ≠ Symbol.lParen := by
  have hmark : Ends (Harmless c) (Parser.mark Symbol.lt) p fun _ q => Clear c 0 q := by
    obtain ⟨q, hrun, hq⟩ := hp.toShows.advance
    have hkind : p.current.kind = Symbol.lt := hp.kind_eq.trans hl
    have hadvance : Ends (Harmless c) Parser.advance p fun _ q => Clear c 0 q :=
      Ends.of_run hrun ⟨ls, hq, hls⟩
    have hexpect : Ends (Harmless c) (Parser.expect Symbol.lt) p fun _ q => Clear c 0 q :=
      .check (.ite (fun _ => hadvance) fun h => absurd (decide_eq_true hkind) h)
    exact hexpect.bind fun _ _ hq => .pure hq
  refine hmark.bind fun _ q hq => ?_
  exact (Clear.argumentList (Clear.types_upTo c depth) hq).mono fun _ _ hr =>
    ⟨hr.holds, hr.outermost rfl⟩

end ScriptFront
