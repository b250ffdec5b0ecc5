import ScriptFront.Proofs.Rewriting.Types
import ScriptFront.Proofs.Rewriting.TypeTokens
import ScriptFront.Proofs.Shapes.Texts

/-!
# Interfaces before the names of functions

A function of a class may name the interface that it comes from. Such a type is read only where a
dot comes before whatever ends the name of the function, and no dot is part of a type, so no type
that is read there holds a parenthesis.

- `Walker.DotAhead`: a dot comes before whatever ends a name.
- `Course.supplyTo`: the steady readings of a text, and those of them in front of such a dot.
- `Course.readsSources`: the interfaces before the names of functions hold no parentheses.
-/

namespace ScriptFront

open ScriptFront.Parser

-- What a reading comes to is told by the rules; nothing is to be run to find out.
attribute [local irreducible] Ends

/-! ## Dots ahead -/

/-- The tokens that end the name of a function. -/
def EndsName (k : TokenKind) : Prop :=
  k = Symbol.lParen ∨ k = Symbol.lBrace ∨ k = Symbol.semicolon ∨ k = .eof

namespace Walker

variable {w v : Walker Buffer} {token : Token}

/-- From here on, a dot comes before whatever ends a name. -/
inductive DotAhead : Walker Buffer → Prop where
  | here {w v : Walker Buffer} {token : Token} (h : Lexer.next.run w = (.ok token, v))
    (hdot : token.kind = Symbol.dot) : DotAhead w
  | later {w v : Walker Buffer} {token : Token} (h : Lexer.next.run w = (.ok token, v))
    (hname : ¬EndsName token.kind) (hmore : DotAhead v) : DotAhead w

/-- A token is a dot, or it does not end a name and a dot is ahead behind it. -/
def DotFrom (k : TokenKind) (behind : Walker Buffer) : Prop :=
  k = Symbol.dot ∨ ¬EndsName k ∧ behind.DotAhead

theorem dotAhead_iff (h : Lexer.next.run w = (.ok token, v)) :
    w.DotAhead ↔ DotFrom token.kind v := by
  constructor
  · rintro (⟨h', hdot⟩ | ⟨h', hname, hmore⟩)
    · rw [h] at h'
      cases h'
      exact .inl hdot
    · rw [h] at h'
      cases h'
      exact .inr ⟨hname, hmore⟩
  · rintro (hdot | ⟨hname, hmore⟩)
    · exact .here h hdot
    · exact .later h hname hmore

/-- Symbols of runs are no dots and end no names. -/
theorem dotFrom_of_runBytes {s : Symbol} (hs : ∀ c ∈ s.bytes, isRunByte c) :
    DotFrom s v ↔ v.DotAhead := by
  have hclass : s.bytes.all isRunByte = true := List.all_eq_true.2 hs
  have hname : ¬EndsName s ∧ (s : TokenKind) ≠ Symbol.dot := by
    revert hclass
    cases s <;> simp [EndsName] <;> decide
  simp [DotFrom, hname]

/-- Inside of a run of symbols, a dot is ahead wherever the lexer starts. -/
theorem DotAhead.realigned {bytes : List UInt8} (hbytes : ∀ c ∈ bytes, isRunByte c)
    (hpasses : w.Passes bytes v) : w.DotAhead ↔ v.DotAhead :=
  Walker.realigned (fun hnext hkind hs => by
    rw [dotAhead_iff hnext, hkind, dotFrom_of_runBytes hs]) hbytes hpasses

end Walker

open Walker (DotFrom)

/-! ## Readings in front of dots -/

namespace Course

section States

variable (C : Course)

/-- A served reading that sees a dot ahead sees it from its token of the text on as well. -/
structure Sighted (p : Parser Buffer) : Prop extends C.Served p where
  dotFrom : DotFrom p.current.kind p.lexer → ∀ token behind, C.Sits p.start token behind →
    DotFrom token.kind behind

end States

variable {C : Course} {p q : Parser Buffer}

theorem Served.sighted (h : C.Served p) (hfresh : C.Fresh p) : C.Sighted p := by
  refine ⟨h, fun hdot token behind hsits => ?_⟩
  obtain ⟨rfl, rfl⟩ := Stands.unique hfresh hsits.toStands
  exact hdot

namespace Sighted

theorem advance (h : C.Sighted p) :
    Ends (fun _ q => C.Adrift q) Parser.advance p fun t q => t = p.current ∧ C.Sighted q ∧
      (DotFrom p.current.kind p.lexer → p.current.kind ≠ Symbol.dot →
        DotFrom q.current.kind q.lexer) := by
  refine ((Course.advance h.steady).and (h.toServed.advance.and
    ((Ends.advance_next (p := p)).imp (fun _ _ _ => trivial) fun _ _ h => h))).imp
      (fun _ _ he => he.1.2) ?_
  rintro t q ⟨hfresh, ⟨htoken, hq⟩, -, hnext⟩
  refine ⟨htoken, hq.sighted hfresh, fun hdot hkind => ?_⟩
  exact (Walker.dotAhead_iff hnext).1 (hdot.resolve_left hkind).2

theorem peek (h : C.Sighted p) :
    Ends (fun _ q => C.Adrift q) Parser.peek p fun next q => q = p ∧
      Ends (fun _ _ => True) Parser.advance q fun _ r => r.current = next := by
  obtain ⟨result, hpeek, -⟩ := Course.peek h.steady
  have hend := h.toServed.peek
  cases result with
  | error e =>
    unfold Ends at hend ⊢
    rw [hpeek] at hend ⊢
    exact hend
  | ok next => exact .of_run hpeek ⟨rfl, (hend.ok hpeek).2.2⟩

theorem goBack {b : Bookmark} {token : Token} {behind : Walker Buffer}
    (hb : C.Sits b.start token behind) (h : C.Adrift p) :
    Ends (fun _ q => C.Adrift q) (Parser.goBack b) p fun _ q => C.Sighted q ∧
      q.current = token ∧ q.lexer = behind := by
  obtain ⟨token', behind', hstands, hrun⟩ := Course.goBack ⟨token, behind, hb.toStands⟩ h
  obtain ⟨rfl, rfl⟩ := hb.toStands.unique hstands
  exact .of_run hrun ⟨(Sits.served hb).sighted hb.toStands, rfl, rfl⟩

theorem narrow (h : C.Sighted p) {whole part : Symbol} (hwhole : p.current.kind = whole)
    (hpart : whole.cut? = some part) :
    C.Sighted ((Parser.narrow part 1).run p).2 ∧ (DotFrom p.current.kind p.lexer ↔
      DotFrom part ((Parser.narrow part 1).run p).2.lexer) := by
  have hfresh : C.Fresh p := by
    refine h.steady.fresh ?_ ?_
    · rw [hwhole]
      exact (ne_of_cut hpart).1
    · rw [hwhole]
      exact (ne_of_cut hpart).2
  obtain ⟨more, hrun, hpasses⟩ := passes_of_narrow hfresh hwhole hpart
  have hdot : DotFrom p.current.kind p.lexer ↔
      DotFrom part ((Parser.narrow part 1).run p).2.lexer := by
    obtain ⟨hpartRun, hwholeRun⟩ : (∀ c ∈ part.bytes, Walker.isRunByte c) ∧
        ∀ c ∈ whole.bytes, Walker.isRunByte c := by
      simp only [← List.all_eq_true]
      cases whole <;> cases hpart <;> decide
    rw [hwhole, Walker.dotFrom_of_runBytes hwholeRun, Walker.dotFrom_of_runBytes hpartRun,
      Walker.DotAhead.realigned hrun hpasses]
  refine ⟨⟨h.toServed.narrow hwhole hpart, fun hfrom token behind hsits => ?_⟩, hdot⟩
  exact h.dotFrom (hdot.2 hfrom) token behind hsits

end Sighted

/-- The steady readings of a text, or those of them that see a dot ahead. These take no dot, and
they find no parentheses. -/
def supplyTo (C : Course) (source : TypeExpr → Prop) (dotted : Prop) : Supply Buffer where
  holds p := C.Sighted p ∧ (dotted → DotFrom p.current.kind p.lexer)
  adrift := C.Adrift
  known b := ∃ token behind, C.Sits b.start token behind ∧ (dotted → DotFrom token.kind behind)
  vocabulary :=
    { words source with
      text kind text := (words source).text kind text ∧ (dotted → kind ≠ Symbol.lParen) }
  isVoid := C.IsVoid
  free := ¬dotted
  adrift_of_holds h := h.1.steady.sameText
  known_start h := by
    obtain ⟨token, behind, hsits⟩ := h.1.known
    exact ⟨token, behind, hsits, fun hdotted => h.1.dotFrom (h.2 hdotted) token behind hsits⟩
  text_current h := by
    refine ⟨fun heof hsymbol => ?_, fun hdotted hkind => ?_⟩
    · exact Stands.wellFormed (h.1.steady.fresh (hsymbol .gt) (hsymbol .pipe)) heof
    · have hfrom := h.2 hdotted
      rw [hkind] at hfrom
      exact (hfrom.resolve_left nofun).1 (.inl rfl)
  isVoid_start h hkind := h.1.isVoid hkind
  holds_withTrait inTrait h := ⟨⟨h.1.toServed.withTrait inTrait, h.1.dotFrom⟩, h.2⟩
  adrift_withTrait _ h := h
  advance_holds h hfree := h.1.advance.mono fun t q hq =>
    ⟨hq.1, hq.2.1, fun hdotted => hq.2.2 (h.2 hdotted) fun hkind => hfree hkind hdotted⟩
  peek_holds h := by
    refine h.1.peek.mono fun next q hq => ?_
    obtain ⟨rfl, hnext⟩ := hq
    refine ⟨h, rfl, fun _ hcolon => hnext.mono fun _ r hr => ?_⟩
    rw [hr, hcolon]
    nofun
  goBack_holds hb h := by
    obtain ⟨token, behind, hsits, hdotted⟩ := hb
    refine (Sighted.goBack hsits h).mono ?_
    rintro _ q ⟨hq, rfl, rfl⟩
    exact ⟨hq, hdotted⟩
  goBack_kind := by
    intro p q _ hp hgt hpipe hq
    have hfresh := hp.1.steady.fresh hgt hpipe
    refine (Sighted.goBack (hp.1.sits hfresh) hq).imp (fun _ _ _ => trivial) fun _ r hr => ?_
    rw [hr.2.1]
  narrow_holds h hwhole hpart :=
    ⟨(h.1.narrow hwhole hpart).1, fun hdotted => (h.1.narrow hwhole hpart).2.1 (h.2 hdotted)⟩

end Course

/-! ## Types without parentheses -/

/-- A type that holds no parentheses. -/
def TypeExpr.IsOpen (t : TypeExpr) : Prop := ∀ l ∈ t.lexemes, l.kind ≠ Symbol.lParen

section Open

variable {V : Vocabulary} {inTrait : Bool}

theorem PathSegment.ne_lParen {s : PathSegment} (h : ∀ t ∈ s.generics, t.IsOpen) :
    ∀ l ∈ s.lexemes, l.kind ≠ Symbol.lParen := by
  obtain ⟨pos, name, root, generics⟩ := s
  have hrows : ∀ row ∈ TypeExpr.rows generics, ∀ l ∈ row, l.kind ≠ Symbol.lParen := by
    rw [TypeExpr.rows_eq_map, List.forall_mem_map]
    exact h
  have hgenerics := forall_mem_commas nofun hrows
  rw [PathSegment.lexemes, List.forall_mem_cons]
  refine ⟨nofun, ?_⟩
  split
  · exact nofun
  · exact forall_mem_inAngles nofun nofun hgenerics

theorem PathSegment.ne_lParen_further {segments : List PathSegment}
    (h : ∀ s ∈ segments, ∀ t ∈ s.generics, t.IsOpen) :
    ∀ l ∈ PathSegment.furtherLexemes segments, l.kind ≠ Symbol.lParen := by
  induction segments with
  | nil => exact nofun
  | cons s segments ih =>
    rw [List.forall_mem_cons] at h
    rw [PathSegment.furtherLexemes, List.cons_append, List.forall_mem_cons, List.forall_mem_append]
    exact ⟨nofun, PathSegment.ne_lParen h.1, ih h.2⟩

/-- Where parentheses are no words, a type whose parts hold none holds none. -/
theorem TypeForm.ne_lParen (hV : ∀ text, ¬V.text Symbol.lParen text) {form : TypeForm}
    (hwords : V.OfType inTrait form) (parts : ∀ t ∈ form.types, t.IsOpen) :
    ∀ l ∈ form.lexemes, l.kind ≠ Symbol.lParen := by
  cases form with
  | primitive type => simp [TypeForm.lexemes, Lexeme.word]
  | selfType => simp [TypeForm.lexemes, Lexeme.word]
  | array element dims =>
    rw [TypeForm.lexemes, List.forall_mem_append, List.forall_mem_flatMap]
    refine ⟨parts element List.mem_cons_self, fun d _ => ?_⟩
    cases d <;> simp [ArrayDim.lexemes, inBrackets, Lexeme.mark]
  | function params result =>
    obtain ⟨text, htext⟩ := hwords
    exact absurd htext (hV text)
  | tuple members =>
    obtain ⟨text, htext⟩ := hwords
    exact absurd htext (hV text)
  | named path =>
    obtain ⟨head, tail⟩ := path
    have hsegments (s : PathSegment) (hs : s ∈ head :: tail) (t : TypeExpr) (ht : t ∈ s.generics) :
        t.IsOpen := parts t (List.mem_flatMap.2 ⟨s, hs, ht⟩)
    rw [TypeForm.lexemes, TypePath.lexemes, List.forall_mem_append, List.forall_mem_append]
    refine ⟨⟨?_, PathSegment.ne_lParen (hsegments head List.mem_cons_self)⟩,
      PathSegment.ne_lParen_further fun s hs => hsegments s (List.mem_cons_of_mem _ hs)⟩
    cases head.root <;> simp [Lexeme.mark]

/-- Where parentheses are no words, no type holds one. -/
theorem TypeExpr.isOpen (hV : ∀ text, ¬V.text Symbol.lParen text) {t : TypeExpr}
    (h : (Node.type t).Everywhere (Node.Parsed V) inTrait) : t.IsOpen := by
  generalize hn : Node.type t = n at h
  induction h generalizing t with
  | intro here parts ih =>
    subst hn
    obtain ⟨pos, nullable, form⟩ := t
    have hparts (s : TypeExpr) (hs : s ∈ form.types) : s.IsOpen :=
      ih (.type s) (List.mem_map_of_mem hs) rfl
    rw [TypeExpr.IsOpen, TypeExpr.lexemes, List.forall_mem_append]
    refine ⟨TypeForm.ne_lParen hV here.spelled hparts, ?_⟩
    cases nullable <;> simp [Lexeme.mark]

end Open

/-! ## Interfaces in front of dots -/

namespace Course

variable {C : Course} {p : Parser Buffer} {inTrait : Bool}

/-- Looking ahead for a dot tells whether one is there. -/
theorem dotFrom_of_dotAhead (steps : Nat) (p : Parser Buffer) :
    Ends (fun _ _ => True) (Grammar.dotAhead steps) p fun b _ =>
      b = true → DotFrom p.current.kind p.lexer := by
  induction steps generalizing p with
  | zero => exact .failAtStart trivial
  | succ steps ih =>
    refine .kind (.ite (fun hdot => .pure fun _ => .inl hdot) fun hdot => ?_)
    refine .ite (fun _ => .pure nofun) fun hname => ?_
    have hname : ¬EndsName p.current.kind := by simpa [EndsName, or_assoc] using hname
    refine Ends.bind (Q := fun _ q => Lexer.next.run p.lexer = (.ok q.current, q.lexer)) ?_
      fun _ q hnext => (ih q).mono fun b _ h hb => .inr ⟨hname, ?_⟩
    · exact Ends.advance_next.bind fun t q hq => .pure hq.2
    · exact (Walker.dotAhead_iff hnext).2 (h hb)

/-- If an interface comes before the name of a function, a dot is ahead. -/
theorem dotFrom_of_namesSourceType {source : TypeExpr → Prop}
    (hp : (C.supplyTo source False).Stays inTrait p) :
    Ends ((C.supplyTo source False).Stopped inTrait) Grammar.namesSourceType p fun b q =>
      (C.supplyTo source False).Stays inTrait q ∧ (b = true → DotFrom q.current.kind q.lexer) := by
  obtain ⟨token, behind, hsits⟩ := hp.holds.1.known
  have hattempt : Ends ((C.supplyTo source False).Stopped inTrait)
      (Parser.attempt (Grammar.dotAhead p.bound)) p fun r q => C.Adrift q ∧ q.inTrait = inTrait ∧
        match r with
        | .ok b => b = true → DotFrom token.kind behind
        | .error e => (C.supplyTo source False).Stopped inTrait e q := by
    have hstays := Supply.Delivers.dotAhead (S := C.supplyTo source False) p.bound p hp
    have hdot := dotFrom_of_dotAhead p.bound p
    have hrun : (Parser.attempt (Grammar.dotAhead p.bound)).run p =
        (.ok ((Grammar.dotAhead p.bound).run p).1, ((Grammar.dotAhead p.bound).run p).2) := rfl
    unfold Supply.DeliversAt Ends at hstays
    unfold Ends at hdot
    refine .of_run hrun ?_
    revert hstays hdot
    rcases (Grammar.dotAhead p.bound).run p with ⟨e | b, q⟩
    · exact fun hstopped _ => ⟨hstopped.adrift, hstopped.inTrait_eq, hstopped⟩
    · exact fun hstays hdot => ⟨hstays.2.holds.1.steady.sameText, hstays.2.inTrait_eq,
        fun hb => hp.holds.1.dotFrom (hdot hb) token behind hsits⟩
  refine .listBound (.save (hattempt.bind fun r q ⟨hadrift, hinTrait, hr⟩ => ?_))
  have hknown := (C.supplyTo source False).known_start hp.holds
  refine (((Supply.DeliversAt.goBack hknown hadrift hinTrait).and
    (Sighted.goBack hsits hadrift)).imp (fun _ _ he => he.1) fun _ _ h => h).bind ?_
  rintro _ q' ⟨⟨-, hstays⟩, -, rfl, rfl⟩
  cases r with
  | ok b => exact .pure ⟨hstays, hr⟩
  | error e =>
    exact .throw ⟨hstays.holds.1.steady.sameText, hstays.inTrait_eq, hr.isVoid, hr.selfPlaced⟩

/-- The types that are read before the names of functions hold no parentheses. -/
theorem readsSources (C : Course) (depth : Nat) :
    (C.supplyTo TypeExpr.IsOpen False).ReadsSources (Grammar.upTo depth) := by
  intro inTrait p hp
  refine (dotFrom_of_namesSourceType hp).bind fun b q ⟨hq, hdot⟩ => .ite (fun hb => ?_) fun _ =>
    .pure ⟨nofun, hq⟩
  -- The type is read in front of the dot, where there are no parentheses.
  have hnone (text : String) :
      ¬(C.supplyTo TypeExpr.IsOpen True).vocabulary.text Symbol.lParen text :=
    fun h => h.2 trivial rfl
  have hq' : (C.supplyTo TypeExpr.IsOpen True).Stays inTrait q :=
    ⟨⟨hq.holds.1, fun _ => hdot hb⟩, hq.inTrait_eq⟩
  have htype : (C.supplyTo TypeExpr.IsOpen False).DeliversAt inTrait q
      (Grammar.builtType (Grammar.upTo depth)) fun t : TypeExpr =>
        (C.supplyTo TypeExpr.IsOpen False).Tree inTrait (.type t) ∧ t.IsOpen := by
    refine (((C.supplyTo TypeExpr.IsOpen False).readsTypes depth hq).and
      ((C.supplyTo TypeExpr.IsOpen True).readsTypes depth hq')).imp (fun _ _ he => he.1) ?_
    rintro t r ⟨⟨ht, hr⟩, ht', -⟩
    exact ⟨⟨ht.tree, TypeExpr.isOpen hnone ht'.tree⟩, hr⟩
  refine (htype.bind fun t ht => (Supply.Delivers.mark _ fun _ => not_false).bind
    fun _ _ => .pure ht).bind fun t ht => .pure ?_
  rintro _ ⟨⟩
  exact ht

end Course

end ScriptFront
