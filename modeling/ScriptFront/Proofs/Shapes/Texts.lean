import ScriptFront.Proofs.Lexing.Yields
import ScriptFront.Proofs.Shapes.Units
import ScriptFront.Proofs.Speculation.Errors

/-!
# What the texts supply

A steady reading has tokens of its text before it, and so have all that it goes on to. This makes a
`Supply` of the steady readings of a text, so every tree that is read from a text is in order.

- `Course.Covers`: what the lexer yields from somewhere in the text on, it yields from the start on.
- `Course.supply`: the steady readings of a text.
-/

namespace ScriptFront

open ScriptFront.Parser

-- What a reading comes to is told by the rules; nothing is to be run to find out.
attribute [local irreducible] Ends

/-- Taking a token leads to the one that the lexer is in front of. -/
theorem Ends.advance_next {p : Parser Buffer} :
    Ends (fun _ _ => True) Parser.advance p fun t q =>
      t = p.current ∧ Lexer.next.run p.lexer = (.ok q.current, q.lexer) := by
  unfold Ends Parser.advance
  rcases hskip : Lexer.skip.run p.lexer with ⟨e | _, v⟩
  · rw [run_bind_error (run_lex_error hskip)]
    trivial
  · rw [run_bind_ok (run_lex_ok hskip), run_modify_bind, Walker.run_next_of_skip hskip]
    generalize hp' : ({ p with lexer := v, start := v.place } : Parser Buffer) = p'
    have hlexer : p'.lexer = v := by rw [← hp']
    rw [← hlexer]
    rcases hnext : Lexer.next.run p'.lexer with ⟨e | token, u⟩
    · rw [run_bind_error (run_lex_error hnext)]
      trivial
    · rw [run_bind_ok (run_lex_ok hnext), ← hp']
      exact ⟨rfl, rfl⟩

namespace Course

section States

variable (C : Course)

/-- What the lexer yields from here on, symbols and the end apart, it yields from the start of the
text on. -/
def Covers (w : Walker Buffer) : Prop :=
  ∀ token : Token, token.kind ≠ .eof → (∀ s : Symbol, token.kind ≠ s) → Walker.Yields token w →
    Walker.Yields token C.origin

/-- The stored place of a token `void` that the lexer yields. -/
def IsVoid (place : Place) : Prop :=
  ∃ token, Walker.Yields token C.origin ∧ token.kind = .primitive .void ∧ token.place = place

/-- A token of the text, with all that the lexer yields behind it. -/
structure Sits (place : Place) (token : Token) (behind : Walker Buffer) : Prop
    extends C.Stands place token behind where
  covers : C.Covers behind
  isVoid : token.kind = .primitive .void → C.IsVoid place.stored

/-- A steady reading in front of tokens of the text. -/
structure Served (p : Parser Buffer) : Prop where
  steady : C.Steady p
  known : ∃ token behind, C.Sits p.start token behind
  covers : C.Covers p.lexer
  isVoid : p.current.kind = .primitive .void → C.IsVoid p.start.stored

end States

variable {C : Course} {p q : Parser Buffer} {place : Place} {token token' : Token}
  {behind behind' : Walker Buffer}

/-- At a place of the text there is one token. -/
theorem Stands.unique (h : C.Stands place token behind) (h' : C.Stands place token' behind') :
    token' = token ∧ behind' = behind := by
  obtain ⟨w, hw, hplace, -, hnext⟩ := h.front
  obtain ⟨w', hw', hplace', -, hnext'⟩ := h'.front
  rw [Walker.eq_of_place (hw.symm.trans hw') (hplace'.trans hplace.symm), hnext] at hnext'
  obtain ⟨htoken, hbehind⟩ := Prod.mk.inj hnext'
  exact ⟨(Except.ok.inj htoken).symm, hbehind.symm⟩

/-- The text spells the tokens that stand there. -/
theorem Stands.wellFormed (h : C.Stands place token behind) (hkind : token.kind ≠ .eof) :
    Lexeme.WellFormed ⟨token.kind, token.text⟩ := by
  obtain ⟨w, -, -, hsettled, hnext⟩ := h.front
  obtain ⟨slice, -, hspells⟩ := Walker.lexed_of_next hsettled hnext hkind
  exact hspells.wellFormed

/-- The next token is one of the text if those to come are. -/
theorem Stands.sits {w : Walker Buffer} (h : C.Stands place token behind) (hw : C.Covers w)
    (hnext : Lexer.next.run w = (.ok token, behind)) : C.Sits place token behind where
  toStands := h
  covers := by
    intro t heof ht hyields
    by_cases hkind : token.kind = .eof
    · exact absurd (hyields.kind_of_atEnd (Walker.rest_of_eof hnext hkind)) heof
    · exact hw t heof ht (.later hnext hkind hyields)
  isVoid := by
    intro hkind
    refine ⟨token, hw token ?_ ?_ (.here hnext), hkind, h.place_eq⟩
    · rw [hkind]
      nofun
    · rw [hkind]
      nofun

/-- A reading at a token of the text. -/
theorem Sits.served (h : C.Sits p.start p.current p.lexer) : C.Served p :=
  ⟨.inl h.toStands, ⟨_, _, h⟩, h.covers, h.isVoid⟩

namespace Served

theorem sits (h : C.Served p) (hfresh : C.Fresh p) : C.Sits p.start p.current p.lexer := by
  obtain ⟨token, behind, hsits⟩ := h.known
  obtain ⟨htoken, hbehind⟩ := hsits.toStands.unique hfresh
  rw [htoken, hbehind]
  exact hsits

theorem withTrait (inTrait : Bool) (h : C.Served p) : C.Served { p with inTrait } :=
  ⟨h.steady.withTrait inTrait, h.known, h.covers, h.isVoid⟩

theorem advance (h : C.Served p) :
    Ends (fun _ q => C.Adrift q) Parser.advance p fun t q => t = p.current ∧ C.Served q := by
  refine ((Course.advance h.steady).and Ends.advance_next).imp (fun _ _ he => he.1.2) ?_
  rintro t q ⟨hfresh, htoken, hnext⟩
  exact ⟨htoken, (Stands.sits hfresh h.covers hnext).served⟩

/-- What is seen behind the current token is what is read there. -/
theorem peek (h : C.Served p) :
    Ends (fun _ q => C.Adrift q) Parser.peek p fun next q => C.Served q ∧ q.current = p.current ∧
      Ends (fun _ _ => True) Parser.advance q fun _ r => r.current = next := by
  obtain ⟨result, hpeek, -⟩ := Course.peek h.steady
  cases result with
  | error e =>
    unfold Ends
    rw [hpeek]
    exact h.steady.sameText
  | ok next =>
    refine .of_run hpeek ⟨h, rfl, Ends.advance_next.mono fun _ r hr => ?_⟩
    rcases hnext : Lexer.next.run p.lexer with ⟨e | token, v⟩
    · rw [run_peek_error hnext] at hpeek
      cases hpeek
    · rw [run_peek_ok hnext] at hpeek
      rw [hnext] at hr
      cases hr.2
      exact Except.ok.inj (congrArg Prod.fst hpeek)

theorem goBack {b : Bookmark} (hb : ∃ token behind, C.Sits b.start token behind)
    (h : C.Adrift p) :
    Ends (fun _ q => C.Adrift q) (Parser.goBack b) p fun _ q => C.Served q := by
  obtain ⟨token, behind, hsits⟩ := hb
  obtain ⟨token', behind', hstands, hrun⟩ := Course.goBack ⟨token, behind, hsits.toStands⟩ h
  obtain ⟨rfl, rfl⟩ := hsits.toStands.unique hstands
  exact .of_run hrun (Sits.served hsits)

theorem narrow (h : C.Served p) {whole part : Symbol} (hwhole : p.current.kind = whole)
    (hpart : whole.cut? = some part) : C.Served ((Parser.narrow part 1).run p).2 := by
  have hfresh : C.Fresh p := by
    refine h.steady.fresh ?_ ?_
    · rw [hwhole]
      exact (ne_of_cut hpart).1
    · rw [hwhole]
      exact (ne_of_cut hpart).2
  obtain ⟨more, hrun, hpasses⟩ := passes_of_narrow hfresh hwhole hpart
  refine ⟨.inr (Course.narrow hfresh hwhole hpart),
    h.known, fun token heof htoken hyields => ?_, ?_⟩
  · exact h.covers token heof htoken ((Walker.Yields.realigned htoken hrun hpasses).1 hyields)
  · rintro ⟨⟩

end Served

/-- The words of a text: names and constants are as the lexer takes them. -/
def words (source : TypeExpr → Prop) : Vocabulary where
  text kind text := kind ≠ .eof → (∀ s : Symbol, kind ≠ s) → Lexeme.WellFormed ⟨kind, text⟩
  source := source
  firm := True

/-- The steady readings of a text. -/
def supply (C : Course) (source : TypeExpr → Prop) : Supply Buffer where
  holds := C.Served
  adrift := C.Adrift
  known b := ∃ token behind, C.Sits b.start token behind
  vocabulary := words source
  isVoid := C.IsVoid
  free := True
  adrift_of_holds h := h.steady.sameText
  known_start h := h.known
  text_current h := by
    intro heof hsymbol
    exact Stands.wellFormed (h.steady.fresh (hsymbol .gt) (hsymbol .pipe)) heof
  isVoid_start h hkind := h.isVoid hkind
  holds_withTrait inTrait h := h.withTrait inTrait
  adrift_withTrait _ h := h
  advance_holds h _ := h.advance
  peek_holds h := by
    refine h.peek.mono fun next q hq =>
      ⟨hq.1, hq.2.1, fun _ hcolon => hq.2.2.mono fun _ r hr => ?_⟩
    rw [hr, hcolon]
    nofun
  goBack_holds hb h := Served.goBack hb h
  goBack_kind := by
    intro p q _ hp hgt hpipe hq
    have hfresh := hp.steady.fresh hgt hpipe
    obtain ⟨token, behind, hstands, hrun⟩ := Course.goBack (b := ⟨p.start⟩) hp.steady.known hq
    obtain ⟨rfl, -⟩ := Stands.unique hfresh hstands
    exact .of_run hrun rfl
  narrow_holds h hwhole hpart := h.narrow hwhole hpart

/-! ## Readings from the first token on -/

/-- The lexer is covered from the start of the text on. -/
theorem covers_origin : C.Covers C.origin := fun _ _ _ h => h

end Course

/-- A fresh parser is behind the first token. -/
theorem Parser.next_of_ofWalker {w : Walker Buffer} {p : Parser Buffer}
    (h : Parser.ofWalker w = .ok p) :
    Lexer.next.run w = (.ok p.current, p.lexer) ∧ p.inTrait = false := by
  unfold Parser.ofWalker at h
  rcases hskip : Lexer.skip.run w with ⟨e | _, v⟩
  · rw [hskip] at h
    cases h
  · rw [hskip] at h
    rw [Walker.run_next_of_skip hskip]
    rcases hnext : Lexer.next.run v with ⟨e | token, u⟩
    · simp only [hnext] at h
      cases h
    · simp only [hnext] at h
      cases h
      exact ⟨rfl, rfl⟩

/-- Where there is no first token, the lexer tells why. -/
theorem Parser.code_ofWalker {σ : Type} [ByteSource σ] {w : Walker σ} {e : SyntaxError}
    (h : Parser.ofWalker w = .error e) : e.code ≠ .misplacedVoid := by
  unfold Parser.ofWalker at h
  rcases hskip : Lexer.skip.run w with ⟨e' | _, v⟩
  · rw [hskip] at h
    cases h
    exact code_toSyntaxError e'
  · rw [hskip] at h
    rcases hnext : Lexer.next.run v with ⟨e' | token, u⟩
    · simp only [hnext] at h
      cases h
      exact code_toSyntaxError e'
    · simp only [hnext] at h
      cases h

namespace Course

variable {C : Course} {p : Parser Buffer}

/-- A fresh parser over the text is in front of its tokens. -/
theorem served_of_start (h : Parser.ofWalker C.origin = .ok p) : C.Served p := by
  have hfresh := C.start
  rw [h] at hfresh
  exact (Stands.sits hfresh covers_origin (Parser.next_of_ofWalker h).1).served

/-- What a reading of a text yields is in order, and an error about `void` is told at a token of the
text. -/
theorem ends_run {b : Buffer} {tabWidth : UInt32} (horigin : C.origin = Walker.ofSource b tabWidth)
    {source : TypeExpr → Prop}
    (hsources : ∀ depth, (C.supply source).ReadsSources (Grammar.upTo depth)) (entry : Entry) :
    match Parser.run entry.read b tabWidth with
    | .ok tree => ∀ n ∈ entry.roots tree, (C.supply source).Tree false n
    | .error e => e.code = .misplacedVoid → C.IsVoid e.place := by
  unfold Parser.run Parser.ofSource
  rw [← horigin]
  cases hp : Parser.ofWalker C.origin with
  | error e => exact fun hcode => absurd hcode (Parser.code_ofWalker hp)
  | ok p =>
    have hstays : (C.supply source).Stays false p :=
      ⟨served_of_start hp, (Parser.next_of_ofWalker hp).2⟩
    have hread := Supply.entry (S := C.supply source) trivial hsources entry p hstays
    show match (entry.read.run p).1 with
      | .ok tree => ∀ n ∈ entry.roots tree, (C.supply source).Tree false n
      | .error e => e.code = .misplacedVoid → C.IsVoid e.place
    unfold Supply.DeliversAt Ends at hread
    revert hread
    rcases entry.read.run p with ⟨e | tree, q⟩
    · exact fun h => h.isVoid
    · exact fun h => h.1

end Course

/-! ## All sources of a text -/

/-- Over two faithful sources of one text, a reading comes to one result. -/
theorem Twins.run_read {σ τ : Type} [ByteSource σ] [ByteSource τ] {T : Twins σ τ} {s : σ} {s' : τ}
    (hs : T.left s 0) (hs' : T.right s' 0) (tabWidth : UInt32) (entry : Entry) :
    Parser.run entry.read s tabWidth = Parser.run entry.read s' tabWidth := by
  have hstart := Twins.ofWalker (beside_ofSource hs hs' tabWidth)
  unfold Parser.run Parser.ofSource
  revert hstart
  generalize Parser.ofWalker (Walker.ofSource s tabWidth) = r
  generalize Parser.ofWalker (Walker.ofSource s' tabWidth) = r'
  rintro (h | e)
  · exact (T.reads entry h).1.eq
  · rfl

namespace Text

section

variable {σ : Type} [ByteSource σ] {t : Text} {limit : Nat} {shows : σ → Nat → Prop} {s : σ}

/-- Everything that is read from a faithful source of a text is in order, and an error about `void`
is told at a token `void` that the lexer takes as well. -/
theorem ends_run (hfaithful : t.Faithful limit shows) (hroom : t.content.size + 3 < limit)
    (hs : shows s 0) (tabWidth : UInt32) (entry : Entry) :
    match Parser.run entry.read s tabWidth with
    | .ok tree => ∀ n ∈ entry.roots tree,
      n.Everywhere (Node.Parsed (Course.words fun _ => True)) false
    | .error e => e.code = .misplacedVoid →
      ∃ token ∈ (Lexer.run.run (Walker.ofSource s tabWidth)).1.1,
        token.kind = .primitive .void ∧ token.place = e.place := by
  let T := besideMemory hfaithful hroom
  have hb : T.right t.inMemory 0 := t.inMemory_shows
  obtain ⟨C, horigin, -⟩ := Course.ofWalker (Walker.ofSource t.inMemory tabWidth)
  have hends := Course.ends_run horigin
    (Supply.readsSources (S := C.supply fun _ => True) trivial fun _ => trivial) entry
  have hlexer : (Lexer.run.run (Walker.ofSource s tabWidth)).1 = (Lexer.run.run C.origin).1 := by
    rw [horigin]
    exact (Twins.run (Twins.beside_ofSource (T := T) hs hb tabWidth)).1
  rw [Twins.run_read (T := T) hs hb, hlexer]
  revert hends
  cases Parser.run entry.read t.inMemory tabWidth with
  | ok tree => exact id
  | error e =>
    intro h hcode
    obtain ⟨token, hyields, hkind, hplace⟩ := h hcode
    exact ⟨token, hyields.mem_run, hkind, hplace⟩

/-- Whatever a fresh parser over a faithful source reads, every node of every tree that it yields is
well formed. -/
theorem trees_wellFormed (hfaithful : t.Faithful limit shows) (hroom : t.content.size + 3 < limit)
    (hs : shows s 0) (tabWidth : UInt32) (entry : Entry) {tree : entry.Tree}
    (h : Parser.run entry.read s tabWidth = .ok tree) :
    ∀ root ∈ entry.roots tree, ∀ n : Node, n.Within root → n.WellFormed := by
  have hends := t.ends_run hfaithful hroom hs tabWidth entry
  rw [h] at hends
  intro root hroot n hn
  obtain ⟨_, hparsed⟩ := (hends root hroot).within hn
  exact hparsed.wellFormed trivial

/-- Whatever a fresh parser over a faithful source reads, no `void` is in a tree where the type of a
value is needed, and if the reading stops because of a `void`, it tells the place of a token `void`
of the text. -/
theorem voids_placed (hfaithful : t.Faithful limit shows) (hroom : t.content.size + 3 < limit)
    (hs : shows s 0) (tabWidth : UInt32) (entry : Entry) :
    (∀ tree : entry.Tree, Parser.run entry.read s tabWidth = .ok tree →
      ∀ root ∈ entry.roots tree, ∀ n : Node, n.Within root → n.VoidsPlaced) ∧
    ∀ e : SyntaxError, Parser.run entry.read s tabWidth = .error e → e.code = .misplacedVoid →
      ∃ token ∈ (Lexer.run.run (Walker.ofSource s tabWidth)).1.1,
        token.kind = .primitive .void ∧ token.place = e.place := by
  have hends := t.ends_run hfaithful hroom hs tabWidth entry
  refine ⟨fun tree h root hroot n hn => ?_, fun e h => ?_⟩
  · rw [h] at hends
    obtain ⟨_, hparsed⟩ := (hends root hroot).within hn
    exact hparsed.voidsPlaced
  · rw [h] at hends
    exact hends

end

/-- A class, a variadic function and a lambda, in chunks of two bytes. -/
theorem trees_wellFormed_twoBytes :
    let t : Text :=
      ⟨"trees", utf8Bytes
        "namespace n \x7b class A \x7b fn f(x: i8, y...) \x7b |u| \x7b \x7d; \x7d \x7d \x7d"⟩
    let s := t.inChunks 2
    t.content.size + 3 < addressLimit - 1 ∧ (Parser.run (Entry.read .unit) s 4).isOk ∧
      ∀ tree, Parser.run (Entry.read .unit) s 4 = .ok tree →
        ∀ n : Node, n.Within (.unit tree) → n.WellFormed := by
  intro t s
  have hroom : t.content.size + 3 < addressLimit - 1 := by decide +kernel
  refine ⟨hroom, by decide +kernel, fun tree h n hn => ?_⟩
  have hroot : Node.unit tree ∈ Entry.roots .unit tree := List.mem_singleton.2 rfl
  exact t.trees_wellFormed t.chunks hroom (InChunks.start t 2) 4 .unit h (.unit tree) hroot n hn

/-- A lambda that is said to have a typed parameter first, behind an operator. -/
def startsTyped : Expr → Bool
  | ⟨_, .binary _ _ ⟨_, .lambda (p :: _) _ inference _⟩⟩ =>
    p.type.isNone && inference = .onlyReturn
  | _ => false

/-- Of a source that cannot be read to its end, a failed load says that the text ends where the load
starts. A later load from further in front brings bytes behind that end again, but the way back to a
token there leads to the end. Here, looking at the next token behind the name of the parameter leads
back into a comment, where an ellipsis stands in place of the colon that was seen. -/
theorem trees_malformed_unreadable :
    let s := Chunked.ofReader
      { content := utf8Bytes "f           </*...|\x7b\x7d;*/|a:i8|", failsAt := some 27 }
      "unreadable" 15
    ∃ tree, Parser.run (Entry.read .expr) s 4 = .ok tree ∧
      ∃ n : Node, n.Within (.expr tree) ∧ ¬n.WellFormed := by
  intro s
  have hread : (Parser.run (Entry.read .expr) s 4).toOption.any startsTyped = true := by
    decide +kernel
  obtain ⟨tree, htree, hread⟩ := exists_ok_of_any hread
  refine ⟨tree, htree, ?_⟩
  unfold startsTyped at hread
  split at hread
  · next op left pos p params result inference body =>
    simp only [Bool.and_eq_true, Option.isNone_iff_eq_none, decide_eq_true_eq] at hread
    obtain ⟨hnone, rfl⟩ := hread
    refine ⟨.expr ⟨pos, .lambda (p :: params) result .onlyReturn body⟩, ?_, fun hform => ?_⟩
    · exact .part (List.mem_cons_of_mem _ List.mem_cons_self) .here
    · rcases hform.2.params.2 ⟨p, params, rfl, hnone⟩ with h | h <;> cases h
  · cases hread

/-- A pair with a `void` in it, in chunks of two bytes. -/
theorem voids_placed_twoBytes :
    let t : Text := ⟨"voids", utf8Bytes "let x: (i8, void);"⟩
    let s := t.inChunks 2
    let e : SyntaxError := ⟨.misplacedVoid .value, ⟨⟨1, 13⟩, 12⟩, none⟩
    t.content.size + 3 < addressLimit - 1 ∧ Parser.run (Entry.read .statement) s 4 = .error e ∧
      ∃ token ∈ (Lexer.run.run (Walker.ofSource s 4)).1.1,
        token.kind = .primitive .void ∧ token.place = e.place := by
  intro t s e
  have hroom : t.content.size + 3 < addressLimit - 1 := by decide
  have hread : errorOf? (Parser.run (Entry.read .statement) s 4) = some e := by decide +kernel
  have hread' := eq_error_of_errorOf? hread
  have hplaced := t.voids_placed (s := s) t.chunks hroom (InChunks.start t 2) 4 .statement
  exact ⟨hroom, hread', hplaced.2 e hread' rfl⟩

/-- Whether there is no `void` among tokens. -/
def lacksVoid (tokens : Array Token) : Bool :=
  tokens.toList.all fun token => token.kind ≠ .primitive .void

theorem ne_void_of_lacksVoid {tokens : Array Token} (h : lacksVoid tokens) :
    ∀ token ∈ tokens, token.kind ≠ .primitive .void := fun token htoken =>
  of_decide_eq_true (List.all_eq_true.1 h token (Array.mem_toList_iff.2 htoken))

/-- Of a source that cannot be read to its end, `void` may be found in a comment that a look at the
next token led back into. The lexer takes no token `void`, be it that the text ends in the comment,
as it does for a lexer over the source, or that all of it is there. -/
theorem voids_misplaced_unreadable :
    let content := utf8Bytes "f          </*:void */|a:"
    let s := Chunked.ofReader { content, failsAt := some 25 } "unreadable" 14
    ∃ e, Parser.run (Entry.read .expr) s 4 = .error e ∧ e.code = .misplacedVoid ∧
      (∀ token ∈ (Lexer.run.run (Walker.ofSource s 4)).1.1, token.kind ≠ .primitive .void) ∧
      ∀ token ∈ (Lexer.run.run (Walker.ofSource (Buffer.ofBytes content) 4)).1.1,
        token.kind ≠ .primitive .void := by
  intro content s
  have hread : errorOf? (Parser.run (Entry.read .expr) s 4) =
      some ⟨.misplacedVoid (.parameter (some "a")), ⟨⟨1, 26⟩, 15⟩, some .lambda⟩ := by
    decide +kernel
  refine ⟨_, eq_error_of_errorOf? hread, rfl, ne_void_of_lacksVoid ?_, ne_void_of_lacksVoid ?_⟩
  · decide +kernel
  · decide +kernel

end Text

end ScriptFront
