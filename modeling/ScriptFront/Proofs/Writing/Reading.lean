import ScriptFront.Grammar.Units
import ScriptFront.Proofs.Coupling.Parser
import ScriptFront.Proofs.Writing.Relexing

/-!
# Reading what was written, token by token

- `Shows`: a parser of a written text whose current token is the first one of a row of lexemes, and
  which has the others before it.
- `Reads`: the same, and the parser can go back to the current token.
- `Parses`: where a row is before a parser, a reading comes to a value of some kind and leaves the
  end of the row. There is one rule for each step that productions are built from.
-/

namespace ScriptFront

open ScriptFront.Parser

/-! ## Tokens that were written -/

/-- The kind of the first of some lexemes, or of the end of the text. -/
def headKind : List Lexeme → TokenKind
  | [] => .eof
  | l :: _ => l.kind

/-- The text of the first of some lexemes, or of the end of the text. -/
def headText : List Lexeme → String
  | [] => Lexer.eofText
  | l :: _ => l.text

@[simp] theorem headKind_nil : headKind [] = .eof := rfl

@[simp] theorem headKind_cons (l : Lexeme) (ls : List Lexeme) : headKind (l :: ls) = l.kind := rfl

theorem bytes_ne_nil {l : Lexeme} (h : l.WellFormed) : l.bytes ≠ [] := by
  intro hnil
  have hopens := Takes.opensToken_bytes h .nil
  rw [hnil] at hopens
  exact absurd hopens Bool.false_ne_true

theorem length_le_behind (ls : List Lexeme) : ls.length ≤ (behind ls).length := by
  induction ls with
  | nil => exact Nat.le_refl _
  | cons l ls ih =>
    rw [behind, List.length_cons, List.length_cons, List.length_append]
    omega

/-- Every lexeme takes a byte. -/
theorem length_le_layout {ls : List Lexeme} (h : ∀ l ∈ ls, l.WellFormed) :
    ls.length ≤ (layout ls).length := by
  cases ls with
  | nil => exact Nat.le_refl _
  | cons l ls =>
    have hfull := List.length_pos_iff.2 (bytes_ne_nil (h l List.mem_cons_self))
    have hbehind := length_le_behind ls
    rw [layout, List.length_cons, List.length_append]
    omega

namespace Takes

variable {w : Walker Buffer} {ls : List Lexeme}

/-- Before a row of lexemes, perhaps behind a blank, the next token is the first of them. -/
theorem nextLexeme (hls : ∀ l ∈ ls, l.WellFormed) {blank : List UInt8}
    (hblank : blank = [] ∨ blank = [32]) (hrest : w.rest = blank ++ layout ls)
    (hend : ls = [] → blank = []) :
    ∃ n token v, Lexer.next.run w = (.ok token, v) ∧ w.Further n v ∧
      token.kind = headKind ls ∧ token.text = headText ls ∧ v.rest = behind ls.tail := by
  cases ls with
  | nil =>
    obtain rfl := hend rfl
    obtain ⟨token, hkind, htext, v, hrun, hv⟩ := Takes.next (skip_atEnd hrest) fun v hv =>
      scan_atEnd (hv.rest_eq.trans hrest)
    exact ⟨0, token, v, hrun, hv, hkind, htext, hv.rest_eq.trans hrest⟩
  | cons l ls =>
    have hl := hls l List.mem_cons_self
    have htail := separated_behind ls
    have hskip := Takes.skip hblank (opensToken_bytes hl htail) hrest
    obtain ⟨token, hkind, htext, v, hrun, hv⟩ := Takes.next hskip fun v hv =>
      scan hl htail (hv.rest_append hrest rfl)
    refine ⟨_, token, v, hrun, hv, hkind, htext, ?_⟩
    have hbytes : w.rest = (blank ++ l.bytes) ++ behind ls := by
      rw [hrest, List.append_assoc]
      rfl
    exact hv.rest_append hbytes List.length_append

end Takes

/-! ## Parsers of a written text -/

/-- What stays as it is while a text is read. -/
structure Setting where
  name : String
  content : Bytes
  inTrait : Bool

/-- A parser in a setting. -/
structure Setting.Holds (c : Setting) (p : Parser Buffer) : Prop where
  name_eq : p.lexer.source.name = c.name
  content_eq : p.lexer.source.content = c.content
  inTrait_eq : p.inTrait = c.inTrait

/-- A row of lexemes starts at a place of the text and goes on to its end. -/
structure Setting.Marks (c : Setting) (ls : List Lexeme) (b : Bookmark) : Prop where
  wellFormed : ∀ l ∈ ls, l.WellFormed
  layout_eq : c.content.toList.drop b.start.offset = layout ls
  offset_le : b.start.offset ≤ c.content.size

/-- A parser whose current token is the first of a row of lexemes, or the end, with the other
lexemes before it. A blank may be missing where the token has been cut off a longer symbol. -/
structure Shows (c : Setting) (ls : List Lexeme) (p : Parser Buffer) : Prop where
  holds : c.Holds p
  wellFormed : ∀ l ∈ ls, l.WellFormed
  kind_eq : p.current.kind = headKind ls
  text_eq : p.current.text = headText ls
  rest_eq : ∃ blank, (blank = [] ∨ blank = [32]) ∧ (ls.tail = [] → blank = []) ∧
    p.lexer.rest = blank ++ layout ls.tail

/-- A parser that shows a row of lexemes and can go back to where it starts. -/
structure Reads (c : Setting) (ls : List Lexeme) (p : Parser Buffer) : Prop
    extends Shows c ls p where
  marks : c.Marks ls ⟨p.start⟩

theorem blank_behind (ls : List Lexeme) : ∃ blank, (blank = [] ∨ blank = [32]) ∧
    (ls = [] → blank = []) ∧ behind ls = blank ++ layout ls := by
  cases ls with
  | nil => exact ⟨[], .inl rfl, fun _ => rfl, rfl⟩
  | cons l ls => exact ⟨[32], .inr rfl, fun h => absurd h (List.cons_ne_nil _ _), rfl⟩

variable {c : Setting} {l : Lexeme} {ls : List Lexeme} {p : Parser Buffer}

/-- Reading the next token at the start of a row shows the row. -/
theorem run_lexNext (hp : c.Holds p) (hls : ∀ l ∈ ls, l.WellFormed)
    (hrest : p.lexer.rest = layout ls) :
    ∃ token v, (lex Lexer.next).run p = (.ok token, { p with lexer := v }) ∧
      Shows c ls { p with lexer := v, current := token } := by
  obtain ⟨n, token, v, hrun, hv, hkind, htext, hbehind⟩ :=
    Takes.nextLexeme hls (.inl rfl) hrest fun _ => rfl
  refine ⟨token, v, run_lex_ok hrun, ?_⟩
  refine ⟨⟨hv.name_eq.trans hp.name_eq, hv.content_eq.trans hp.content_eq, hp.inTrait_eq⟩, hls,
    hkind, htext, ?_⟩
  obtain ⟨blank, hblank, hend, hsplit⟩ := blank_behind ls.tail
  exact ⟨blank, hblank, hend, hbehind.trans hsplit⟩

/-- Taking the first lexeme of a row leaves the others, wherever it has been cut off; the end is not
taken away. -/
theorem Shows.advance_tail (h : Shows c ls p) :
    ∃ p', Parser.advance.run p = (.ok p.current, p') ∧ Reads c ls.tail p' := by
  obtain ⟨blank, hblank, hend, hrest⟩ := h.rest_eq
  have hls : ∀ l ∈ ls.tail, l.WellFormed := fun l hl => h.wellFormed l (List.mem_of_mem_tail hl)
  have hskip : Takes Lexer.skip p.lexer blank.length () := by
    cases htail : ls.tail with
    | nil =>
      obtain rfl := hend htail
      rw [htail] at hrest
      exact Takes.skip_atEnd hrest
    | cons l' ls' =>
      rw [htail] at hrest hls
      refine Takes.skip hblank ?_ hrest
      exact Takes.opensToken_bytes (hls l' List.mem_cons_self) (separated_behind ls')
  obtain ⟨w, hw, hfurther⟩ := hskip
  have hleft : w.rest = layout ls.tail := hfurther.rest_append hrest rfl
  have hcontent : w.source.content = c.content := hfurther.content_eq.trans h.holds.content_eq
  let q : Parser Buffer := { p with lexer := w, start := w.place }
  have hq : c.Holds q := ⟨hfurther.name_eq.trans h.holds.name_eq, hcontent, h.holds.inTrait_eq⟩
  obtain ⟨token, v, hrun, hshows⟩ := run_lexNext hq hls hleft
  refine ⟨_, ?_, hshows, hls, ?_, ?_⟩
  · rw [Parser.advance, run_bind_ok (run_lex_ok hw), run_modify_bind, run_bind_ok hrun]
    rfl
  · rw [← hcontent]
    exact hleft
  · rw [← hcontent]
    exact w.source.position_le

theorem Shows.advance (h : Shows c (l :: ls) p) :
    ∃ p', Parser.advance.run p = (.ok p.current, p') ∧ Reads c ls p' :=
  h.advance_tail

/-- Going back to the start of a row, from wherever in the text. -/
theorem Setting.Marks.goBack {b : Bookmark} (hb : c.Marks ls b) (hp : c.Holds p) :
    ∃ p', (Parser.goBack b).run p = (.ok (), p') ∧ Reads c ls p' := by
  let w := (Walker.reset b.start p.lexer).2
  have hsource : w.source = p.lexer.source.moveTo b.start.offset := rfl
  have hposition : w.source.position = b.start.offset := by
    rw [hsource]
    show min b.start.offset p.lexer.source.content.size = b.start.offset
    rw [hp.content_eq]
    exact Nat.min_eq_left hb.offset_le
  have hrest : w.rest = layout ls := by
    rw [Walker.rest, hposition, hsource]
    show p.lexer.source.content.toList.drop b.start.offset = layout ls
    rw [hp.content_eq]
    exact hb.layout_eq
  let q : Parser Buffer := { p with lexer := w, start := b.start }
  have hq : c.Holds q := ⟨hp.name_eq, hp.content_eq, hp.inTrait_eq⟩
  obtain ⟨token, v, hrun, hshows⟩ := run_lexNext hq hb.wellFormed hrest
  refine ⟨_, ?_, hshows, hb⟩
  rw [Parser.goBack, run_modify_bind, run_bind_ok hrun]
  rfl

/-- Looking at the next lexeme leaves the row. -/
theorem Reads.peek (h : Reads c (l :: ls) p) :
    ∃ token p', (Parser.peek : Parse Buffer Token).run p = (.ok token, p') ∧
      token.kind = headKind ls ∧ Reads c (l :: ls) p' := by
  obtain ⟨blank, hblank, hend, hrest⟩ := h.rest_eq
  have hls : ∀ l ∈ ls, l.WellFormed := fun l hl => h.wellFormed l (List.mem_cons_of_mem _ hl)
  obtain ⟨n, token, w, hrun, hw, hkind, -, -⟩ := Takes.nextLexeme hls hblank hrest hend
  have hsource : (Walker.reset p.lexer.place w).2.source =
      w.source.moveTo p.lexer.source.position := rfl
  have hposition : min p.lexer.source.position w.source.content.size =
      p.lexer.source.position := by
    rw [hw.content_eq]
    exact Nat.min_eq_left p.lexer.source.position_le
  refine ⟨token, _, run_peek_ok hrun, hkind, ⟨⟨?_, ?_, h.holds.inTrait_eq⟩, h.wellFormed, h.kind_eq,
    h.text_eq, blank, hblank, hend, ?_⟩, h.marks⟩
  · exact hw.name_eq.trans h.holds.name_eq
  · exact hw.content_eq.trans h.holds.content_eq
  · rw [← hrest, Walker.rest, Walker.rest]
    show w.source.content.toList.drop (min p.lexer.source.position w.source.content.size) = _
    rw [hposition, hw.content_eq]

theorem Lexeme.WellFormed.eq_mark {s : Symbol} (hl : l.WellFormed) (hk : l.kind = s) :
    l = .mark s := by
  cases hl with
  | mark t =>
    cases hk
    rfl
  | _ => exact absurd hk nofun

/-- Cutting a symbol leaves the rest of it before the other lexemes, without a blank. -/
theorem Reads.narrow {whole part rest : Symbol} (h : Reads c (.mark whole :: ls) p)
    (hbytes : whole.bytes = part.bytes ++ rest.bytes) (hpart : part.bytes.length = 1) :
    ∃ p', (Parser.narrow part 1 : Parse Buffer Unit).run p = (.ok (), p') ∧
      Shows c (.mark part :: .mark rest :: ls) p' := by
  have hlayout : layout (.mark whole :: ls) = part.bytes ++ layout (.mark rest :: ls) := by
    rw [layout, layout, Takes.bytes_mark, Takes.bytes_mark, hbytes, List.append_assoc]
  have hdrop : c.content.toList.drop (p.start.offset + 1) = layout (.mark rest :: ls) := by
    rw [← List.drop_drop, h.marks.layout_eq, hlayout, ← hpart]
    exact List.drop_left
  have hle : p.start.offset + 1 ≤ c.content.size := by
    have hlength : (c.content.toList.drop p.start.offset).length = _ :=
      congrArg List.length h.marks.layout_eq
    have hsize : c.content.toList.length = c.content.size := Array.length_toList
    rw [List.length_drop, hlayout, List.length_append, hpart] at hlength
    omega
  refine ⟨_, rfl, ⟨⟨h.holds.name_eq, h.holds.content_eq, h.holds.inTrait_eq⟩, ?_, rfl, rfl, [],
    .inl rfl, fun _ => rfl, ?_⟩⟩
  · intro l hl
    rcases List.mem_cons.1 hl with rfl | hl
    · exact .mark part
    · rcases List.mem_cons.1 hl with rfl | hl
      · exact .mark rest
      · exact h.wellFormed l (List.mem_cons_of_mem _ hl)
  · have hmin : min (p.start.offset + 1) p.lexer.source.content.size = p.start.offset + 1 := by
      rw [h.holds.content_eq]
      exact Nat.min_eq_left hle
    show p.lexer.source.content.toList.drop
      (min (p.start.offset + 1) p.lexer.source.content.size) = layout (.mark rest :: ls)
    rw [hmin, h.holds.content_eq]
    exact hdrop

/-- The bounds of a reading leave room for all that the row can hold. -/
theorem Reads.le_bound (h : Reads c ls p) : 4 * (ls.length + 2) ≤ p.bound := by
  have hlength := length_le_layout h.wellFormed
  have hsize : c.content.toList.length = c.content.size := Array.length_toList
  rw [← h.marks.layout_eq, List.length_drop] at hlength
  have hextent : p.lexer.extent = c.content.size := congrArg Array.size h.holds.content_eq
  rw [Parser.bound, hextent]
  omega

/-! ## Readings of a row -/

/-- Where the row `ts` is before a parser, a reading comes to a value of which `V` holds and leaves
the row `us`. -/
def Parses {α : Type} (c : Setting) (ts : List Lexeme) (x : Parse Buffer α) (V : α → Prop)
    (us : List Lexeme) : Prop :=
  ∀ ⦃p⦄, Reads c ts p → ∃ a p', x.run p = (.ok a, p') ∧ V a ∧ Reads c us p'

namespace Parses

variable {α β : Type} {ts us vs : List Lexeme} {x : Parse Buffer α} {V : α → Prop}
  {W : β → Prop} {k : TokenKind}

theorem pure {a : α} (h : V a) : Parses c ts (Pure.pure a) V ts :=
  fun p hp => ⟨a, p, rfl, h, hp⟩

theorem bind {f : α → Parse Buffer β} (hx : Parses c ts x V us)
    (hf : ∀ a, V a → Parses c us (f a) W vs) : Parses c ts (x >>= f) W vs := by
  intro p hp
  obtain ⟨a, q, hq, ha, hreads⟩ := hx hp
  obtain ⟨b, r, hr, hb, hreads'⟩ := hf a ha hreads
  exact ⟨b, r, (run_bind_ok hq).trans hr, hb, hreads'⟩

theorem mono {W : α → Prop} (hx : Parses c ts x V us) (h : ∀ a, V a → W a) :
    Parses c ts x W us := by
  intro p hp
  obtain ⟨a, q, hq, ha, hreads⟩ := hx hp
  exact ⟨a, q, hq, h a ha, hreads⟩

theorem ifTrue {d : Prop} [Decidable d] {y : Parse Buffer α} (hd : d) (h : Parses c ts x V us) :
    Parses c ts (if d then x else y) V us := by
  rw [if_pos hd]
  exact h

theorem ifFalse {d : Prop} [Decidable d] {y : Parse Buffer α} (hd : ¬d)
    (h : Parses c ts y V us) : Parses c ts (if d then x else y) V us := by
  rw [if_neg hd]
  exact h

/-! ### Looking at the current token -/

theorem kind {f : TokenKind → Parse Buffer β} (h : Parses c ts (f (headKind ts)) W us) :
    Parses c ts (Parser.kind >>= f) W us := by
  intro p hp
  obtain ⟨b, q, hq, hb, hreads⟩ := h hp
  refine ⟨b, q, ?_, hb, hreads⟩
  have hkind : (Parser.kind : Parse Buffer TokenKind).run p = (.ok (headKind ts), p) := by
    rw [← hp.kind_eq]
    rfl
  exact (run_bind_ok hkind).trans hq

theorem check {f : Bool → Parse Buffer β} (h : Parses c ts (f (headKind ts = k)) W us) :
    Parses c ts (Parser.check k >>= f) W us := by
  intro p hp
  obtain ⟨b, q, hq, hb, hreads⟩ := h hp
  refine ⟨b, q, ?_, hb, hreads⟩
  have hcheck : (Parser.check k : Parse Buffer Bool).run p = (.ok (headKind ts = k), p) := by
    rw [← hp.kind_eq]
    rfl
  exact (run_bind_ok hcheck).trans hq

theorem position {f : Position → Parse Buffer β} (h : ∀ pos, Parses c ts (f pos) W us) :
    Parses c ts (Parser.position >>= f) W us :=
  fun p hp => h p.current.position hp

theorem save {f : Bookmark → Parse Buffer β} (h : ∀ b, c.Marks ts b → Parses c ts (f b) W us) :
    Parses c ts (Parser.save >>= f) W us :=
  fun p hp => h ⟨p.start⟩ hp.marks hp

/-- All lists have room in the text, and so has the depth that it nests to. -/
theorem listBound {f : Nat → Parse Buffer β}
    (h : ∀ n, 4 * (ts.length + 2) ≤ n → Parses c ts (f n) W us) :
    Parses c ts (Parser.listBound >>= f) W us :=
  fun p hp => h p.bound hp.le_bound hp

/-- The grammar nests as deep as the bounds of a reading. -/
theorem boundedGrammar {f : Grammar Buffer → Parse Buffer β}
    (h : ∀ depth, 4 * (ts.length + 2) ≤ depth → Parses c ts (f (.upTo depth)) W us) :
    Parses c ts (Parser.grammar >>= f) W us := by
  intro p hp
  have hgrammar : (Parser.grammar : Parse Buffer (Grammar Buffer)).run p =
      (.ok (Grammar.upTo p.bound), p) := rfl
  obtain ⟨b, q, hq, hb, hreads⟩ := h p.bound hp.le_bound hp
  exact ⟨b, q, (run_bind_ok hgrammar).trans hq, hb, hreads⟩

/-- The grammar nests deeper than a row is long. -/
theorem grammar {f : Grammar Buffer → Parse Buffer β}
    (h : ∀ depth, ts.length ≤ depth → Parses c ts (f (.upTo (depth + 1))) W us) :
    Parses c ts (Parser.grammar >>= f) W us := by
  refine boundedGrammar fun n hn => ?_
  obtain ⟨depth, rfl⟩ : ∃ k, n = k + 1 := ⟨n - 1, by omega⟩
  exact h depth (by omega)

theorem peek {f : Token → Parse Buffer β}
    (h : ∀ token, token.kind = headKind ls → Parses c (l :: ls) (f token) W us) :
    Parses c (l :: ls) (Parser.peek >>= f) W us := by
  intro p hp
  obtain ⟨token, q, hq, hkind, hreads⟩ := hp.peek
  obtain ⟨b, r, hr, hb, hreads'⟩ := h token hkind hreads
  exact ⟨b, r, (run_bind_ok hq).trans hr, hb, hreads'⟩

/-! ### Taking tokens -/

/-- The first lexeme is taken. -/
theorem take :
    Parses c (l :: ls) Parser.advance (fun t => t.kind = l.kind ∧ t.text = l.text) ls := by
  intro p hp
  obtain ⟨q, hq, hreads⟩ := hp.toShows.advance
  exact ⟨p.current, q, hq, ⟨hp.kind_eq, hp.text_eq⟩, hreads⟩

theorem takeChecked (hl : l.kind = k) :
    Parses c (l :: ls) (Parser.eat k) (fun b => b = true) ls :=
  check (ifTrue (decide_eq_true hl) (take.bind fun _ _ => pure rfl))

theorem takeExpected (hl : l.kind = k) :
    Parses c (l :: ls) (Parser.expect k) (fun t => t.kind = l.kind ∧ t.text = l.text) ls :=
  check (ifTrue (decide_eq_true hl) take)

theorem takeName {text : String} :
    Parses c (.name text :: ls) Parser.expectIdentifier (fun a => a = text) ls :=
  check (ifTrue rfl (take.bind fun _ h => pure h.2))

theorem advance {f : Token → Parse Buffer β}
    (h : ∀ token, token.kind = l.kind → token.text = l.text → Parses c ls (f token) W us) :
    Parses c (l :: ls) (Parser.advance >>= f) W us :=
  take.bind fun t ht => h t ht.1 ht.2

theorem drop {f : Unit → Parse Buffer β} (h : Parses c ls (f ()) W us) :
    Parses c (l :: ls) (Parser.drop >>= f) W us := by
  have hdrop : Parses c (l :: ls) Parser.drop (fun _ => True) ls :=
    take.bind fun _ _ => pure trivial
  exact hdrop.bind fun _ _ => h

theorem eat {f : Bool → Parse Buffer β} (hl : l.kind = k) (h : Parses c ls (f true) W us) :
    Parses c (l :: ls) (Parser.eat k >>= f) W us :=
  (takeChecked hl).bind fun _ hb => hb ▸ h

theorem eatNot {f : Bool → Parse Buffer β} (hk : headKind ts ≠ k) (h : Parses c ts (f false) W us) :
    Parses c ts (Parser.eat k >>= f) W us := by
  have hfalse : Parses c ts (Parser.eat k) (fun b => b = false) ts :=
    check (ifFalse (by simpa using hk) (pure rfl))
  exact hfalse.bind fun _ hb => hb ▸ h

theorem mark {f : Unit → Parse Buffer β} (hl : l.kind = k) (h : Parses c ls (f ()) W us) :
    Parses c (l :: ls) (Parser.mark k >>= f) W us := by
  have hmark : Parses c (l :: ls) (Parser.mark k) (fun _ => True) ls :=
    (takeExpected hl).bind fun _ _ => pure trivial
  exact hmark.bind fun _ _ => h

/-- The end of a text can be taken over and over. -/
theorem markEnd : Parses c [] (Parser.mark .eof) (fun _ => True) [] := by
  have htake : Parses c [] Parser.advance (fun _ => True) [] := by
    intro p hp
    obtain ⟨q, hq, hreads⟩ := hp.toShows.advance_tail
    exact ⟨p.current, q, hq, trivial, hreads⟩
  have hexpect : Parses c [] (Parser.expect .eof) (fun _ => True) [] := check (ifTrue rfl htake)
  exact hexpect.bind fun _ _ => pure trivial

theorem expectIdentifier {text : String} {f : String → Parse Buffer β}
    (h : Parses c ls (f text) W us) :
    Parses c (.name text :: ls) (Parser.expectIdentifier >>= f) W us :=
  takeName.bind fun _ ha => ha ▸ h

/-- What was being read is told in errors only. -/
theorem inContext (context : ErrorContext) (h : Parses c ts x V us) :
    Parses c ts (Parser.inContext context x) V us := by
  intro p hp
  obtain ⟨a, q, hq, ha, hreads⟩ := h hp
  refine ⟨a, q, ?_, ha, hreads⟩
  rw [Parser.inContext, run_tryCatch, hq]

end Parses

/-! ## From the start of a text -/

/-- The setting of a text outside traits. -/
def Setting.ofText (text name : String) : Setting := ⟨name, utf8Bytes text, false⟩

/-- A parser of a written text starts before the whole row. -/
theorem ofSource_writeLexemes (hls : ∀ l ∈ ls, l.WellFormed) (name : String) (tabWidth : UInt32) :
    ∃ p, Parser.ofSource (Buffer.ofString (writeLexemes ls) name) tabWidth = .ok p ∧
      Reads (.ofText (writeLexemes ls) name) ls p := by
  let w := Walker.ofSource (Buffer.ofString (writeLexemes ls) name) tabWidth
  have hrest : w.rest = layout ls := textBytes_writeLexemes ls
  have hskip : Takes Lexer.skip w 0 () := by
    cases ls with
    | nil => exact Takes.skip_atEnd hrest
    | cons l ls =>
      refine Takes.skip (.inl rfl) ?_ hrest
      exact Takes.opensToken_bytes (hls l List.mem_cons_self) (separated_behind ls)
  obtain ⟨v, hv, hfurther⟩ := hskip
  have hleft : v.rest = layout ls := hfurther.rest_eq.trans hrest
  obtain ⟨n, token, u, hu, hfurther', hkind, htext, hbehind⟩ :=
    Takes.nextLexeme hls (.inl rfl) hleft fun _ => rfl
  have hall := hfurther.trans hfurther'
  obtain ⟨blank, hblank, hend, hsplit⟩ := blank_behind ls.tail
  refine ⟨⟨u, token, v.place, false⟩, ?_, ⟨⟨hall.name_eq, hall.content_eq, rfl⟩, hls, hkind, htext,
    blank, hblank, hend, hbehind.trans hsplit⟩, hls, ?_, ?_⟩
  · have hskipped : Lexer.skip.run
        (Walker.ofSource (Buffer.ofString (writeLexemes ls) name) tabWidth) = (.ok (), v) := hv
    simp only [Parser.ofSource, Parser.ofWalker, hskipped, hu]
  · have hcontent : v.source.content = utf8Bytes (writeLexemes ls) := hfurther.content_eq
    show (utf8Bytes (writeLexemes ls)).toList.drop v.source.position = layout ls
    rw [← hcontent]
    exact hleft
  · have hcontent : v.source.content = utf8Bytes (writeLexemes ls) := hfurther.content_eq
    show v.source.position ≤ (utf8Bytes (writeLexemes ls)).size
    rw [← hcontent]
    exact v.source.position_le

/-- A reading of a whole row, run from its first token on. -/
theorem Parses.run {α : Type} {x : Parse Buffer α} {V : α → Prop} {us : List Lexeme}
    (hls : ∀ l ∈ ls, l.WellFormed) (name : String) (tabWidth : UInt32)
    (h : Parses (.ofText (writeLexemes ls) name) ls x V us) :
    ∃ a, Parser.run x (Buffer.ofString (writeLexemes ls) name) tabWidth = .ok a ∧ V a := by
  obtain ⟨p, hp, hreads⟩ := ofSource_writeLexemes hls name tabWidth
  obtain ⟨a, q, hq, ha, -⟩ := h hreads
  refine ⟨a, ?_, ha⟩
  rw [Parser.run, hp]
  show (x.run p).1 = .ok a
  rw [hq]

end ScriptFront
