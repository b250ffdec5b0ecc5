import ScriptFront.Proofs.Extending.Basic
import ScriptFront.Proofs.Lockstep.Reached
import ScriptFront.Proofs.Lockstep.Wholes
import ScriptFront.Proofs.Unspaced.Tokens

/-!
# Texts behind a keyword

A text that can stand alone is read as it is alone where a keyword stands in front of it and
something that begins with a symbol behind it, up to this symbol. Three texts are compared: the one
alone, the one behind the keyword with newlines in place of what follows, and the whole. Parsers
over the first two go in lockstep at other places, and those over the last two are at the same
places.

- `Phrase`: a text with a keyword in front of it and a symbol behind it.
- `Phrase.extension`: the whole as an extension of what it has in front of the symbol.
- `Phrase.start`: the first tokens of the three texts.
- `Phrase.reads`: what is read of the text alone up to its end, is read of the whole up to the
  symbol.
-/

namespace ScriptFront

open ScriptFront.Parser Walker

-- What a reading comes to is told by the rules; nothing is to be run to find out.
attribute [local irreducible] Ends

/-- A class without the newline does not go on behind bytes, whatever of this follows them. -/
theorem Apart.follows {inClass : UInt8 → Bool} {bytes tail more : List UInt8}
    (h : Apart inClass (bytes ++ tail)) (hmore : Follows tail more) (hend : inClass endByte = false)
    (hnewline : inClass newline = false) : Apart inClass (bytes ++ more) := by
  cases bytes with
  | cons b bytes => exact h
  | nil =>
    rcases hmore with rfl | rfl | ⟨others, rfl⟩
    · exact h
    · exact hend
    · exact hnewline

/-- A parser over a text that lexes completely is steady in every state. -/
theorem Parser.Reached.steady {C : Course} {b : Buffer} {tabWidth : UInt32} {p : Parser Buffer}
    (horigin : C.origin = Walker.ofSource b tabWidth) (hending : C.ending = none)
    (h : Reached b tabWidth p) : C.Steady p := by
  induction h with
  | start h =>
    have hstart := C.start
    unfold Parser.ofSource at h
    rw [horigin, h] at hstart
    exact .inl hstart
  | @take p h ih =>
    obtain ⟨_, _, mid, v, hskip, hnext, -⟩ := ih.taking hending
    have hrun := run_advance_ok hskip hnext
    have hfresh := Ends.ok (C.advance ih) hrun
    rw [hrun]
    exact .inl hfresh
  | @look p h ih =>
    obtain ⟨result, hrun, -⟩ := C.peek ih
    rw [hrun]
    exact ih
  | @back p q h h' ih ih' =>
    obtain ⟨token, behind, hstands, hrun⟩ := C.goBack ih.known ih'.sameText
    rw [hrun]
    exact .inl hstands
  | @cut p whole part h kind_eq cut_eq ih =>
    obtain ⟨hgt, hpipe⟩ := Course.ne_of_cut cut_eq
    exact .inr (C.narrow (ih.fresh (kind_eq ▸ hgt) (kind_eq ▸ hpipe)) kind_eq cut_eq)
  | mode inTrait h ih => exact ih.withTrait inTrait

/-- The bytes of a token that a parser can be at are in the text. -/
theorem Parser.Reached.spelled {t : Text} {tabWidth : UInt32} {p : Parser Buffer}
    (hfinishes : Joins [] t.content.toList) (h : Reached t.inMemory tabWidth p)
    (hgt : p.current.kind ≠ Symbol.gt) (hpipe : p.current.kind ≠ Symbol.pipe)
    (heof : p.current.kind ≠ .eof) :
    ∃ slice rest, Lexes (p.current.kind, p.current.text) slice rest ∧
      slice <:+: t.content.toList := by
  let C : Course := ⟨Walker.ofSource t.inMemory tabWidth, none, hfinishes.finishes rfl⟩
  have hsteady : C.Steady p := h.steady rfl rfl
  obtain ⟨w, hw, -, -, hnext⟩ := Course.Stands.front (hsteady.fresh hgt hpipe)
  obtain ⟨gap, slice, mid, -, hgap, -, hslice, hlexes⟩ := lexes_of_next hnext heof
  refine ⟨slice, _, hlexes, ?_⟩
  have hrest : w.rest <:+ t.content.toList := by
    unfold Walker.rest
    rw [hw.content_eq]
    exact List.drop_suffix _ _
  rw [hgap.rest_eq, hslice.rest_eq] at hrest
  exact (List.infix_append' gap slice p.lexer.rest).trans hrest.isInfix

/-- A text `inner` that can stand alone, behind a keyword and in front of a symbol and more. -/
structure Phrase where
  name : String
  /-- The tab width of the whole. -/
  tabWidth : UInt32
  word : Keyword
  gap : List UInt8
  inner : List UInt8
  skip : List UInt8
  next : Symbol
  behind : List UInt8
  next_eq : next = .lBrace ∨ next = .dot
  filler : Filler gap
  word_apart : Apart isWordByte (gap ++ (inner ++ (skip ++ (next.bytes ++ behind))))
  joins : Joins (skip ++ (next.bytes ++ behind)) inner
  trivia : Trivia skip (next.bytes ++ behind)
  lexes : Lexes (.symbol next, next.spelling) next.bytes behind
  finishes : Joins [] behind

namespace Phrase

variable (P : Phrase)

/-! ## The texts -/

/-- What stands behind the inner text. -/
def tail : List UInt8 := P.skip ++ (P.next.bytes ++ P.behind)

/-- As many newlines. -/
def pad : List UInt8 := List.replicate P.tail.length newline

/-- The keyword, the inner text and something behind it. -/
def before (more : List UInt8) : List UInt8 :=
  (Lexeme.word P.word).bytes ++ (P.gap ++ (P.inner ++ more))

/-- A text of this name. -/
def text (bytes : List UInt8) : Text := ⟨P.name, bytes.toArray⟩

theorem pad_lines : ∀ b ∈ P.pad, b = newline := fun _ hb => List.eq_of_mem_replicate hb

theorem tail_apart : Apart isRunByte P.tail := by
  by_cases hskip : P.skip = []
  · have hhead : ∀ s : Symbol, s = .lBrace ∨ s = .dot →
        ∀ more, Apart isRunByte (s.bytes ++ more) := by
      rintro s (rfl | rfl) more
      · rfl
      · rfl
    unfold tail
    rw [hskip]
    exact hhead P.next P.next_eq P.behind
  · exact P.trivia.apart hskip _

theorem joins_tail : Joins [] P.tail := by
  refine .behind_trivia ?_ (.token (.nil _) P.lexes ?_ P.finishes)
  · rw [List.append_nil]
    exact P.trivia
  · rw [List.append_nil]
    exact P.lexes

theorem joins_pad : Joins [] P.pad := .finished (trivia_lines P.pad_lines)

/-- The keyword is the first token. -/
theorem lexes_word {more : List UInt8} (hmore : Follows P.tail more) :
    Lexes (.keyword P.word, P.word.spelling) (Lexeme.word P.word).bytes
      (P.gap ++ (P.inner ++ more)) := by
  refine .word P.word ?_
  rw [← List.append_assoc]
  have hword : Apart isWordByte (P.gap ++ P.inner ++ P.tail) := by
    rw [List.append_assoc]
    exact P.word_apart
  exact hword.follows hmore rfl rfl

theorem joins_before {more : List UInt8} (hmore : Follows P.tail more) (h : Joins [] more) :
    Joins [] (P.before more) := by
  have hword := P.lexes_word hmore
  refine .front hword ?_ (.behind_trivia (P.filler.trivia _) ?_)
  · rwa [List.append_nil]
  · exact P.joins.append hmore h

/-- A text, in memory, that lexes completely. -/
def course (bytes : List UInt8) (tabWidth : UInt32) (h : Joins [] bytes) : Course :=
  ⟨Walker.ofSource (P.text bytes).inMemory tabWidth, none, h.finishes (by
    show bytes.toArray.toList.drop 0 = bytes
    rfl)⟩

theorem rest_course (bytes : List UInt8) (tabWidth : UInt32) (h : Joins [] bytes) :
    (P.course bytes tabWidth h).origin.rest = bytes := rfl

theorem joins_alone : Joins [] P.inner := by
  have h := P.joins.append (.inr (.inl rfl)) (.finished (.nil []))
  rwa [List.append_nil] at h

/-- The inner text alone. -/
def alone : Course := P.course P.inner defaultTabWidth P.joins_alone

/-- The inner text behind the keyword, and newlines. -/
def left : Course :=
  P.course (P.before P.pad) P.tabWidth (P.joins_before (follows_lines P.pad_lines) P.joins_pad)

/-- The whole. -/
def right : Course := P.course (P.before P.tail) P.tabWidth (P.joins_before (.inl rfl) P.joins_tail)

/-- The text alone, and behind the keyword. -/
def within : Lockstep := Course.within P.alone P.left rfl P.tail_apart

/-! ## What is known of parsers -/

/-- The keyword is current. -/
structure AtWord (p : Parser Buffer) : Prop where
  kind_eq : p.current.kind = P.word
  steady : P.left.Steady p
  rest_eq : p.lexer.rest = P.gap ++ (P.inner ++ P.pad)
  inTrait_eq : p.inTrait = false

/-- The keyword is current, or a parser over the text alone goes with the one over the text behind
the keyword. -/
def Region (p : Parser Buffer) : Prop :=
  P.AtWord p ∨ ∃ i o, Reached (P.text P.inner).inMemory defaultTabWidth o ∧ P.within.state i o p

variable {P} {p p' q : Parser Buffer}

/-- Behind the keyword is the first token of the text alone. -/
theorem AtWord.advance (h : P.AtWord p) :
    ∃ i o p', Parser.ofWalker P.alone.origin = .ok o ∧
      (Parser.advance : Parse Buffer Token).run p = (.ok p.current, p') ∧ P.within.fresh i o p' :=
  Course.within_start P.alone P.left rfl P.tail_apart P.filler P.joins P.pad_lines
    (P.rest_course _ _ _) h.steady h.rest_eq h.inTrait_eq

theorem Region.advance {t : Token} (h : P.Region p)
    (hrun : (Parser.advance : Parse Buffer Token).run p = (.ok t, p')) : P.Region p' := by
  rcases h with h | ⟨i, o, ho, hstate⟩
  · obtain ⟨i, o, p'', hstart, hrun', hfresh⟩ := h.advance
    obtain rfl : p'' = p' := (Prod.mk.inj (hrun'.symm.trans hrun)).2
    exact .inr ⟨i, o, .start hstart, P.within.state_of_fresh hfresh⟩
  · obtain ⟨ho', hp, hmatched⟩ := hstate
    obtain ⟨o', p'', j, hadvance, hrun', hfresh, -⟩ := hmatched.advance P.tail_apart ho' hp
    obtain rfl : p'' = p' := (Prod.mk.inj (hrun'.symm.trans hrun)).2
    have hreached := ho.take
    rw [hadvance] at hreached
    exact .inr ⟨j, o', hreached, P.within.state_of_fresh hfresh⟩

theorem Region.narrow {whole part : Symbol} (h : P.Region p) (hwhole : p.current.kind = whole)
    (hpart : whole.cut? = some part) : P.Region ((Parser.narrow part 1).run p).2 := by
  rcases h with h | ⟨i, o, ho, hstate⟩
  · rw [h.kind_eq] at hwhole
    cases hwhole
  · have hwhole' := (P.within.kind_eq hstate).trans hwhole
    exact .inr ⟨i, _, ho.cut hwhole' hpart, P.within.narrow_state hstate hwhole' hpart⟩

variable (P)

/-- The whole goes on where what it has in front of the symbol ends. -/
def extension : Extension where
  left := P.left
  right := P.right
  pad := P.pad
  gap := P.skip
  next := P.next
  behind := P.behind
  next_eq := P.next_eq
  pad_lines := P.pad_lines
  trivia := P.trivia
  lexes := P.lexes
  apart := P.tail_apart
  extent_eq := by
    show (P.before P.pad).toArray.size = (P.before P.tail).toArray.size
    simp only [before, pad, List.size_toArray, List.length_append, List.length_replicate]
  tabWidth_eq := rfl
  region := P.Region
  region_advance := Region.advance
  region_narrow := Region.narrow

/-! ## The first tokens -/

/-- The keyword is the first token of the whole, and behind it the first token of the text alone is
read, or nothing is left of it. -/
theorem start : ∃ p q, Parser.ofWalker P.left.origin = .ok p ∧
    Parser.ofWalker P.right.origin = .ok q ∧ P.extension.Twin p q ∧ P.AtWord p ∧
      q.lexer.rest = P.gap ++ (P.inner ++ P.tail) := by
  have hleft : P.left.origin.TakesNext [] (Lexeme.word P.word).bytes
    (.keyword P.word, P.word.spelling)
      (P.gap ++ (P.inner ++ P.pad)) :=
    takesNext (.nil _) (P.lexes_word (follows_lines P.pad_lines)) (P.rest_course _ _ _)
  have hright : P.right.origin.TakesNext [] (Lexeme.word P.word).bytes
      (.keyword P.word, P.word.spelling) (P.gap ++ (P.inner ++ P.tail)) :=
    takesNext (.nil _) (P.lexes_word (.inl rfl)) (P.rest_course _ _ _)
  obtain ⟨place, p, hplace, hp, hcurrent, hstart, hinTrait, hbehind, hrest⟩ := hleft.ofWalker
  obtain ⟨place', q, hplace', hq, hcurrent', hstart', hinTrait', hbehind', hrest'⟩ :=
    hright.ofWalker
  obtain rfl : place = place' := hplace.trans hplace'.symm
  have hplaced := Course.placed_of_start hp
  have hatWord : P.AtWord p := ⟨by rw [hcurrent], hplaced.steady, hrest, hinTrait⟩
  refine ⟨p, q, hp, hq, ⟨hplaced, Course.placed_of_start hq, .inl hatWord, ?_, ?_, ?_, ?_, ?_,
    P.gap ++ P.inner, ?_, ?_, ?_⟩, hatWord, hrest'⟩
  · rw [hcurrent]
    exact nofun
  · rw [hcurrent, hcurrent']
  · rw [hstart, hstart']
  · rw [hinTrait, hinTrait']
  · exact hbehind.trans hbehind'.symm
  · exact (Joins.behind_trivia (P.filler.trivia _) P.joins).along P.tail_apart
  · rw [hrest, List.append_assoc]
    rfl
  · rw [hrest', List.append_assoc]
    rfl

/-! ## Readings -/

/-- Parsers over the whole are at the keyword and behind it. -/
structure Begins (q q₁ : Parser Buffer) : Prop where
  start_eq : Parser.ofWalker P.right.origin = .ok q
  placed : P.right.Placed q
  kind_eq : q.current.kind = P.word
  rest_eq : q.lexer.rest = P.gap ++ (P.inner ++ P.tail)
  run_eq : (Parser.advance : Parse Buffer Token).run q = (.ok q.current, q₁)

/-- A parser over the whole is at the symbol behind the inner text. -/
structure AtNext (q : Parser Buffer) : Prop where
  placed : P.right.Placed q
  kind_eq : q.current.kind = P.next
  text_eq : q.current.text = P.next.spelling
  inTrait_eq : q.inTrait = false
  rest_eq : q.lexer.rest = P.behind

/-- What is read of the inner text alone is read of the whole between the keyword and the symbol,
with any grammar that is deep enough behind the keyword. -/
theorem reads {α β : Type} {mirrored : Prop} {u : α → β} {x : Grammar Buffer → Parse Buffer α}
    {a : α} (hx : ∀ {L : Lockstep} {n : Nat} {g g' : Grammar Buffer}, L.Grammars n g g' →
      L.Below n 1 (Alike u) (x g) (x g'))
    (hkeeps : ∀ depth, P.extension.Keeps mirrored (x (Grammar.upTo depth)))
    (halone : Parser.run (whole (grammar >>= x)) (P.text P.inner).inMemory = .ok a) :
    ∃ q q₁, P.Begins q q₁ ∧ ∀ depth, q.bound ≤ depth + 1 →
      ∃ a' q₂, (x (Grammar.upTo depth)).run q₁ = (.ok a', q₂) ∧ u a' = u a ∧ P.AtNext q₂ := by
  obtain ⟨o, o', ho, hread, heof⟩ := Parser.of_run halone
  rw [Parser.run_grammar] at hread
  obtain ⟨p, q, hp, hq, htwin, hatWord, hrest⟩ := P.start
  obtain ⟨i, o₁, p₁, ho₁, hrun, hfresh⟩ := hatWord.advance
  obtain rfl : o₁ = o := Except.ok.inj (ho₁.symm.trans ho)
  obtain ⟨p₁', q₁, hrun', hadvance, hstate⟩ := htwin.advance
  obtain rfl : p₁' = p₁ := (Prod.mk.inj (hrun'.symm.trans hrun)).2
  have hmatched := P.within.state_of_fresh hfresh
  rw [htwin.current_eq] at hadvance
  have hkind : q.current.kind = P.word := by rw [← htwin.current_eq, hatWord.kind_eq]
  refine ⟨q, q₁, ⟨hq, htwin.right, hkind, hrest, hadvance⟩, fun depth hdepth => ?_⟩
  have hbound : p₁'.bound = q.bound := by
    rw [hstate.bound_eq, hstate.right.steady.bound_eq, htwin.right.steady.bound_eq]
  -- Alone and behind the keyword.
  obtain ⟨a', p₂, j, hrun₂, hu, hbehind⟩ :=
    Lockstep.run_alike hx hmatched (hbound.trans_le hdepth) hread
  have heof' : p₂.current.kind = .eof := (P.within.kind_eq hbehind.state).symm.trans heof
  have hinTrait : p₂.inTrait = false := by
    have hkeeps := inTrait_advance (p := p)
    rw [hrun] at hkeeps
    exact (P.within.inTrait_eq hbehind.state).symm.trans (hbehind.inTrait_eq.trans
      ((P.within.inTrait_eq hmatched).trans (hkeeps.trans hatWord.inTrait_eq)))
  -- Behind the keyword, in front of newlines and in front of the symbol.
  have hon : P.extension.Ended mirrored ((x (Grammar.upTo depth)).run p₁')
      ((x (Grammar.upTo depth)).run q₁) := hkeeps depth hstate
  rw [hrun₂] at hon
  generalize hrun₃ : (x (Grammar.upTo depth)).run q₁ = r at hon
  cases hon with
  | @ok _ _ q₂ state =>
    have hparted := state.resolve_left fun htwin => htwin.kind_ne heof'
    exact ⟨a', q₂, rfl, hu, hparted.right, hparted.next_eq, hparted.text_eq,
      hparted.inTrait_eq.symm.trans hinTrait, hparted.rest_eq⟩

end Phrase

end ScriptFront
