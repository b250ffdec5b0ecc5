import ScriptFront.Proofs.Extending.Phrases
import ScriptFront.Proofs.Extending.Types
import ScriptFront.Proofs.Lexing.Yields
import ScriptFront.Proofs.Lockstep.Units
import ScriptFront.Proofs.Rewriting.SourceTypes

/-!
# Functions of classes behind an interface

Behind `fn`, a function of a class may name the interface that it comes from. Whether it does is
found out by looking for a dot in front of the parameters. A dot that is there is found unless the
interface itself has a token that ends the search, and where the function has only its name, none is
found.

- `Text.HidesDot`: a text in which the search for a dot ends.
- `Course.run_namesSourceType`: the search tells whether a dot is ahead.
- `Grammar.namedFunction`: a function from its name on.
- `Text.sources_recognised`: what is read behind `fn`.
-/

namespace ScriptFront

open ScriptFront.Parser Walker

-- What a reading comes to is told by the rules; nothing is to be run to find out.
attribute [local irreducible] Ends

/-! ## The search for a dot -/

/-- The text has a token, in front of its end, that ends the search for a dot. -/
def Text.HidesDot (t : Text) : Prop :=
  ∃ token, Yields token (Walker.ofSource t.inMemory) ∧ token.kind ≠ .eof ∧ EndsName token.kind

instance (k : TokenKind) : Decidable (EndsName k) := inferInstanceAs (Decidable (_ ∨ _ ∨ _ ∨ _))

/-- The tokens of a text tell whether it hides a dot. -/
theorem Text.not_hidesDot {t : Text}
    (h : ∀ token ∈ (Lexer.run.run (Walker.ofSource t.inMemory)).1.1, token.kind = .eof ∨
      ¬EndsName token.kind) : ¬t.HidesDot := by
  rintro ⟨token, hyields, hkind, hname⟩
  exact (h token hyields.mem_run).elim hkind fun hnot => hnot hname

/-- Behind tokens that do not end the search, a dot is ahead. -/
theorem Joins.dotAhead {bytes behind : List UInt8} (h : Joins (Symbol.dot.bytes ++ behind) bytes)
    (hdot : Lexes (.symbol .dot, Symbol.dot.spelling) Symbol.dot.bytes behind) {v w : Walker Buffer}
    (hv : v.rest = bytes) (hw : w.rest = bytes ++ (Symbol.dot.bytes ++ behind))
    (hopen : ∀ token, Yields token v → token.kind ≠ .eof → ¬EndsName token.kind) : w.DotAhead := by
  induction h generalizing v w with
  | finished hgap =>
    obtain ⟨token, u, hnext, hkind, -⟩ := (takesNext hgap hdot hw).taking.next
    exact .here hnext hkind
  | @token gap slice rest lexeme hgap hslice hslice' hmore ih =>
    obtain ⟨token, v', hnext, hkind, hv'⟩ := (takesNext hgap hslice hv).taking.next
    have hw' : w.rest = gap ++ (slice ++ (rest ++ (Symbol.dot.bytes ++ behind))) := by
      simpa only [List.append_assoc] using hw
    obtain ⟨token', w', hnext', hkind', hrest⟩ :=
      (takesNext (hgap.before hslice.ne_nil) hslice' hw').taking.next
    have hne : token.kind ≠ .eof := by
      intro heof
      have hformed := hslice.spells.wellFormed
      rw [← hkind, heof] at hformed
      nomatch hformed
    have hname : ¬EndsName token'.kind := by
      rw [hkind', ← hkind]
      exact hopen token (.here hnext) hne
    exact .later hnext' hname (ih hv' hrest fun t ht => hopen t (.later hnext hne ht))

namespace Course

variable {C : Course} {p q : Parser Buffer} {b : Bool}

/-- The search comes to an end, and tells whether there is a dot in front of all that ends a
name. -/
theorem run_dotAhead (hending : C.ending = none) {left steps : Nat} (hp : C.Steady p)
    (hahead : Ahead C.origin left p) (hsteps : left < steps) :
    ∃ b q, (Grammar.dotAhead steps).run p = (.ok b, q) ∧ C.Adrift q ∧ q.inTrait = p.inTrait ∧
      (b = true ↔ DotFrom p.current.kind p.lexer) := by
  induction steps generalizing left p with
  | zero => omega
  | succ steps ih =>
    unfold Grammar.dotAhead
    rw [run_bind_ok (run_kind p)]
    split
    · next hdot => exact ⟨true, p, rfl, hp.sameText, rfl, iff_of_true rfl (.inl hdot)⟩
    · next hdot =>
      split
      · next hend =>
        have hname : EndsName p.current.kind := by simpa [EndsName, or_assoc] using hend
        refine ⟨false, p, rfl, hp.sameText, rfl, iff_of_false Bool.false_ne_true ?_⟩
        exact not_or.2 ⟨hdot, fun h => h.1 hname⟩
      · next hend =>
        have hname : ¬EndsName p.current.kind := by simpa [EndsName, or_assoc] using hend
        have heof : p.current.kind ≠ .eof := fun h => hname (.inr (.inr (.inr h)))
        obtain ⟨_, _, htaking⟩ := hp.taking hending
        obtain ⟨q, left', hrun, hfresh, -, -, hinTrait, -, hahead', -, hless⟩ :=
          hp.advance_taking hahead htaking
        have hnext := (Ends.ok (Ends.advance_next (p := p)) hrun).2
        obtain ⟨b, r, hscan, hr, hinTrait', hiff⟩ :=
          ih (.inl hfresh) hahead' (Nat.lt_of_lt_of_le (hless heof) (Nat.le_of_lt_succ hsteps))
        have hdrop : (drop : Parse Buffer Unit).run p = (.ok (), q) := run_bind_ok hrun
        refine ⟨b, r, (run_bind_ok hdrop).trans hscan, hr, hinTrait'.trans hinTrait, hiff.trans ?_⟩
        rw [← dotAhead_iff hnext]
        exact ⟨fun h => .inr ⟨hname, h⟩, fun h => (h.resolve_left hdot).2⟩

/-- Right behind a token, looking for a dot changes nothing. -/
theorem run_namesSourceType (hending : C.ending = none) (hp : C.Fresh p) :
    ∃ b, (Grammar.namesSourceType : Parse Buffer Bool).run p = (.ok b, p) ∧
      (b = true ↔ DotFrom p.current.kind p.lexer) := by
  obtain ⟨left, hahead⟩ := hp.ahead
  have hsteps : left < p.bound := by
    have hleft := hahead.left_eq
    have hbound := Steady.bound_eq (.inl hp : C.Steady p)
    have hextent : C.origin.extent = C.origin.source.content.size := rfl
    omega
  obtain ⟨b, q, hscan, hq, hinTrait, hiff⟩ := run_dotAhead hending (.inl hp) hahead hsteps
  have hbound : (listBound : Parse Buffer Nat).run p = (.ok p.bound, p) := rfl
  refine ⟨b, ?_, hiff⟩
  unfold Grammar.namesSourceType
  rw [run_bind_ok hbound, run_lookAhead hscan (goBack_fresh hp hq hinTrait)]

end Course

/-! ## Functions from their names on -/

namespace Grammar

variable {σ : Type} [ByteSource σ] {g : Grammar σ}

/-- `name<T>(params) -> R (override|final)? { }` -/
def namedFunction (g : Grammar σ) : Parse σ ClassFunctionDecl := do
  let name ← expectIdentifier
  let generics ← g.generics
  let params ← g.parameters
  let result ← g.resultType .build
  let (isOverride, isFinal) ← closingModifiers false name
  let body ← g.block .build
  return { pos := .start, access := .privateMember, isStatic := false, isAbstract := false,
           isVirtual := false, isOverride, isFinal, sourceType := none, name, generics,
           params, result, body := some body }

/-- Without modifiers, a function is what is read from its name on, and an interface. -/
theorem classFunctionBehind_eq (g : Grammar σ) (pos : Position) :
    g.classFunctionBehind pos .privateMember false false false = (do
      mark Keyword.fnKw
      let sourceType ← builtOptionally namesSourceType g.sourceType
      let decl ← g.namedFunction
      return { decl with pos, sourceType }) := by
  have hbody {α : Type} (x : Parse σ α) :
      builtOptionally (pure !false) x = x >>= fun body => pure (some body) := by
    unfold builtOptionally optionally
    rw [pure_bind]
    rfl
  unfold classFunctionBehind namedFunction
  simp only [hbody, bind_assoc, pure_bind, Bool.false_eq_true, if_false]
  rfl

omit [ByteSource σ] in
theorem run_builtOptionally {α : Type} {test : Parse σ Bool} {part : Parse σ α} {p q r : Parser σ}
    {a : α} (htest : test.run p = (.ok true, q)) (hpart : part.run q = (.ok a, r)) :
    (builtOptionally test part).run p = (.ok (some a), r) :=
  (run_bind_ok htest).trans (run_bind_ok hpart)

/-- A member that begins with `fn` is a function. -/
theorem run_classMember {p p₁ p₂ p₃ : Parser σ} {sourceType : Option TypeExpr}
    {decl : ClassFunctionDecl} (hkind : p.current.kind = Keyword.fnKw)
    (hadvance : (advance : Parse σ Token).run p = (.ok p.current, p₁))
    (hsource : (builtOptionally namesSourceType g.sourceType).run p₁ = (.ok sourceType, p₂))
    (hnamed : g.namedFunction.run p₂ = (.ok decl, p₃)) :
    g.classMember.run p =
      (.ok (.function { decl with pos := p.current.position, sourceType }), p₃) := by
  have hbehind : (g.classFunctionBehind p.current.position .privateMember false false false).run p =
      (.ok { decl with pos := p.current.position, sourceType }, p₃) := by
    rw [classFunctionBehind_eq, run_bind_ok (run_mark hkind hadvance), run_bind_ok hsource,
      run_bind_ok hnamed]
    rfl
  have heat (k : TokenKind) (hk : Keyword.fnKw ≠ k) :
      (eat k : Parse σ Bool).run p = (.ok false, p) := by
    unfold eat
    rw [run_bind_ok (run_check k p), hkind, decide_eq_false hk]
    rfl
  have hfunction : (g.classFunction .privateMember false).run p =
      (.ok { decl with pos := p.current.position, sourceType }, p₃) := by
    unfold classFunction
    rw [run_bind_ok
      (show (position : Parse σ Position).run p = (.ok p.current.position, p) from rfl),
      run_bind_ok (heat _ (by nofun)), if_neg Bool.false_ne_true, run_bind_ok (heat _ (by nofun))]
    exact hbehind
  have hmodifier : (accessModifier : Parse σ (Option Access)).run p = (.ok none, p) := by
    unfold accessModifier
    rw [run_bind_ok (run_kind p), hkind]
    rfl
  unfold classMember
  rw [run_bind_ok hmodifier, run_bind_ok (heat _ (by nofun)), run_bind_ok (run_kind p), hkind]
  exact run_bind_ok hfunction

end Grammar

/-- Read a member of a class. -/
def Parser.parseMember {σ : Type} [ByteSource σ] : Parse σ Grammar.ClassMember := do
  Grammar.classMember (← grammar)

/-- Read a function of a class from its name on. -/
def Parser.parseNamedFunction {σ : Type} [ByteSource σ] : Parse σ ClassFunctionDecl := do
  Grammar.namedFunction (← grammar)

/-- Over two sources, the same is read from the name of a function on. -/
theorem Simulation.namedFunction {σ τ : Type} [ByteSource σ] [ByteSource τ] {S : Simulation σ τ}
    {g : Grammar σ} {g' : Grammar τ} (hg : S.Grammars g g') :
    S.Coupled Eq g.namedFunction g'.namedFunction := by
  refine S.expectIdentifier.bindEq fun name => hg.generics.bindEq fun generics => ?_
  refine hg.parameters.bindEq fun params => hg.builtResult.bindEq fun result => ?_
  refine (S.closingModifiers false name).bindEq fun (isOverride, isFinal) => ?_
  exact hg.builtBlock.bindEq fun _ => .pure rfl

theorem Simulation.parseNamedFunction {σ τ : Type} [ByteSource σ] [ByteSource τ]
    (S : Simulation σ τ) :
    S.Coupled Eq (parseNamedFunction : Parse σ ClassFunctionDecl) parseNamedFunction := by
  have h := S.followsAll_plain.withGrammar fun hg => S.namedFunction hg
  rwa [Lookaheads.grammar_plain] at h

theorem Simulation.parseMember {σ τ : Type} [ByteSource σ] [ByteSource τ] (S : Simulation σ τ) :
    S.Coupled Eq (parseMember : Parse σ Grammar.ClassMember) parseMember := by
  have h := S.followsAll_plain.withGrammar fun hg => (S.followsAll_plain.follows hg).classMember hg
  rw [Lookaheads.grammar_plain] at h
  simp only [Lookaheads.classMember_plain] at h
  exact h

/-- Parsers in lockstep read the same from the name of a function on. -/
theorem Lockstep.Grammars.namedFunction {L : Lockstep} {n : Nat} {g g' : Grammar Buffer}
    (hg : L.Grammars n g g') :
    L.Below n 1 (Alike ClassFunctionDecl.unplaced) g.namedFunction g'.namedFunction := by
  refine Below.expectIdentifier.andThenEq fun name => hg.generics.bind fun _ _ hgenerics => ?_
  refine hg.parameters.weaken.bind fun _ _ hparams => hg.builtResult.bind fun _ _ hresult => ?_
  refine (closingModifiers false name).bindEq fun (isOverride, isFinal) => ?_
  refine hg.builtBlock.weaken.bind fun _ _ hbody => .pure ?_
  simp only [Alike, ClassFunctionDecl.unplaced, Option.map_some, hgenerics, hparams, hresult, hbody]

/-- In front of a name that a function is read from, no dot is found. -/
theorem Course.Sighted.not_dotFrom {C : Course} {p q : Parser Buffer} {depth : Nat}
    {decl : ClassFunctionDecl} (hp : C.Sighted p)
    (h : (Grammar.upTo depth).namedFunction.run p = (.ok decl, q)) :
    ¬DotFrom p.current.kind p.lexer := by
  intro hdot
  let S := C.supplyTo (fun _ => True) True
  have hstays : S.Stays p.inTrait p := ⟨⟨hp, fun _ => hdot⟩, rfl⟩
  obtain ⟨name, p₁, hname, h₁⟩ := of_run_bind h
  obtain ⟨generics, p₂, hgenerics, h₂⟩ := of_run_bind h₁
  obtain ⟨params, p₃, hparams, -⟩ := of_run_bind h₂
  obtain ⟨_, _, hmark, -⟩ := of_run_bind hparams
  -- The dot would be ahead of the parenthesis that the parameters begin with.
  have hstays₁ := (Ends.ok (Supply.Delivers.expectIdentifier p hstays) hname).2
  have hstays₂ := (Ends.ok ((S.readsTypes depth).generics p₁ hstays₁) hgenerics).2
  have hfrom := hstays₂.holds.2 trivial
  rw [kind_of_run_mark hmark] at hfrom
  exact (hfrom.resolve_left (by rintro ⟨⟩)).1 (.inl rfl)

/-! ## In front of a name -/

/-- A dot is a token of its own in front of a name. -/
theorem Lexes.dot_before_name {w v : Walker Buffer} {token : Token}
    (hnext : Lexer.next.run w = (.ok token, v)) (hkind : token.kind = .identifier) :
    Lexes (.symbol .dot, Symbol.dot.spelling) Symbol.dot.bytes w.rest := by
  obtain ⟨gap, slice, mid, -, hgap, htrivia, hslice, hlexes⟩ :=
    lexes_of_next hnext (by rw [hkind]; nofun)
  rw [hgap.rest_eq, hslice.rest_eq]
  have hfurther : ∀ b ∈ Symbol.dot.furtherBytes, b = byteOf '.' := by decide +kernel
  refine .mark .dot (by decide) fun b hb hmem => ?_
  obtain rfl := hfurther b hmem
  by_cases hne : gap = []
  · -- A name begins with a letter.
    have hspells := hlexes.spells
    rw [hkind] at hspells
    have hwritten : slice = textBytes token.text := hspells.written
    have hformed := hspells.wellFormed
    generalize token.text = text at hwritten hformed
    cases hformed with
    | name hname =>
      obtain ⟨first, more, hbytes, hletter⟩ := Takes.bytes_name_cons hname
      rw [hne, hwritten, show textBytes text = first :: more from hbytes] at hb
      obtain rfl : first = byteOf '.' := Option.some.inj hb
      exact absurd hletter (by decide)
  · obtain ⟨first, more, rfl, hfirst⟩ := htrivia.head hne
    obtain rfl : first = byteOf '.' := Option.some.inj hb
    exact absurd hfirst (by decide)

/-- What stands between `fn` and the name of a function: nothing, or an interface and a dot. -/
inductive Text.Names (name : String) (behind : List UInt8) :
    List UInt8 → Option TypeExpr → Prop where
  | nothing : Names name behind [] none
  | interface {source : List UInt8} {type : TypeExpr}
    (hjoins : Joins (Symbol.dot.bytes ++ behind) source)
    (htype : Parser.run (whole parseType) (Text.mk name source.toArray).inMemory = .ok type)
    (hopen : ¬(Text.mk name source.toArray).HidesDot) :
    Names name behind (source ++ Symbol.dot.bytes) (some type)

/-! ## Behind `fn` -/

namespace Course

variable {C : Course} {q q₁ q₂ q₃ : Parser Buffer} {name : String} {behind : List UInt8}
  {named : ClassFunctionDecl}

/-- A function that can stand alone from its name on is read at the end of another text. -/
theorem run_namedFunction (hname : C.origin.source.name = name) (hq : C.Steady q)
    (hinTrait : q.inTrait = false) (hrest : q.lexer.rest = behind)
    (hnamed : Parser.run (whole parseNamedFunction)
      (Text.mk name behind.toArray).inMemory = .ok named) :
    ∃ q', (Parser.advance : Parse Buffer Token).run q = (.ok q.current, q') ∧ C.Fresh q' ∧
      ∀ depth, q'.bound ≤ depth + 1 → ∃ decl q'',
        (Grammar.upTo depth).namedFunction.run q' = (.ok decl, q'') ∧
          decl.unplaced = named.unplaced ∧ C.Steady q'' ∧ q''.current.kind = .eof := by
  obtain ⟨o, o', ho, hread, heof⟩ := Parser.of_run hnamed
  have hfinishes := finishes_of_run (fun C => C.places.parseNamedFunction) ho hread heof
  let D : Course := ⟨_, none, hfinishes⟩
  obtain ⟨left, o₁, q', ho₁, hadvance, hlayouts⟩ :=
    layouts_behind (C := D) hname rfl hq hinTrait hrest
  obtain rfl : o₁ = o := Except.ok.inj (ho₁.symm.trans ho)
  have hread' : ((Grammar.upTo o₁.bound).namedFunction).run o₁ = (.ok named, o') :=
    (Parser.run_grammar (fun g => g.namedFunction) o₁).symm.trans hread
  have hfresh := Ends.ok (C.advance hq) hadvance
  refine ⟨q', hadvance, hfresh, fun depth hdepth => ?_⟩
  obtain ⟨decl, q'', j, hrun, hunplaced, hend⟩ := Lockstep.run_alike
    (u := ClassFunctionDecl.unplaced) (x := fun g => g.namedFunction) (fun hg => hg.namedFunction)
    (Lockstep.state_of_fresh _ hlayouts) hdepth hread'
  exact ⟨decl, q'', hrun, hunplaced, hend.state.2.1,
    (Lockstep.kind_eq _ hend.state).symm.trans heof⟩

/-- A text that is `fn`, perhaps an interface, and a function from its name on is a member. -/
theorem run_member {depth : Nat} {source : Option TypeExpr} (hkind : q.current.kind = Keyword.fnKw)
    (hdepth : q.bound = depth)
    (hadvance : (Parser.advance : Parse Buffer Token).run q = (.ok q.current, q₁))
    (hsource : (Grammar.builtOptionally Grammar.namesSourceType
      (Grammar.upTo depth).sourceType).run q₁ = (.ok source, q₂))
    (hnamed : (Grammar.upTo depth).namedFunction.run q₂ = (.ok named, q₃)) (hq : C.Steady q₃)
    (heof : q₃.current.kind = .eof) :
    ∃ q₄, (whole parseMember).run q =
      (.ok (.function { named with pos := q.current.position, sourceType := source }), q₄) := by
  refine hq.run_whole ?_ heof
  refine (Parser.run_grammar (fun g => g.classMember) q).trans ?_
  rw [hdepth]
  exact Grammar.run_classMember hkind hadvance hsource hnamed

end Course

/-- An interface is put in without places as it is with places. -/
theorem ClassFunctionDecl.unplaced_source (f : ClassFunctionDecl) (pos : Position)
    (source : Option TypeExpr) :
    { f with pos, sourceType := source }.unplaced =
      { f.unplaced with sourceType := source.map TypeExpr.unplaced } := rfl

/-- Behind an interface in which no dot is hidden, a function is read as it is alone. -/
theorem Phrase.member {P : Phrase} (hword : P.word = .fnKw) (hgap : P.gap = [])
    (hskip : P.skip = []) (hnext : P.next = .dot) {type : TypeExpr} {named : ClassFunctionDecl}
    (htype : Parser.run (whole parseType) (P.text P.inner).inMemory = .ok type)
    (hopen : ¬(P.text P.inner).HidesDot)
    (hnamed : Parser.run (whole parseNamedFunction) (P.text P.behind).inMemory = .ok named) :
    ∃ decl, Parser.run (whole parseMember) (P.text (P.before P.tail)).inMemory P.tabWidth =
        .ok (.function decl) ∧
      decl.unplaced = { named.unplaced with sourceType := some type.unplaced } := by
  obtain ⟨q, q₁, hbegins, hreads⟩ := P.reads (u := TypeExpr.unplaced) (x := fun g => g.builtType)
    (fun hg => hg.builtType) (fun depth => P.extension.types_upTo depth .build) htype
  have hfresh : P.right.Fresh q₁ := by
    have h := Ends.ok (P.right.advance hbegins.placed.steady) hbegins.run_eq
    exact h
  have hbound : q₁.bound = q.bound := by
    rw [Course.Steady.bound_eq (.inl hfresh), hbegins.placed.steady.bound_eq]
  obtain ⟨type', q₂, htype', hunplaced, hdot⟩ := hreads q.bound (Nat.le_succ _)
  -- The dot is found, and the interface is read up to there.
  have hnames : (Grammar.namesSourceType : Parse Buffer Bool).run q₁ = (.ok true, q₁) := by
    have htail : P.tail = Symbol.dot.bytes ++ P.behind := by
      unfold tail
      rw [hskip, hnext, List.nil_append]
    have hjoins := P.joins
    have hlexes := P.lexes
    have hrest := hbegins.rest_eq
    rw [hgap, List.nil_append, htail] at hrest
    rw [hskip, hnext, List.nil_append] at hjoins
    rw [hnext] at hlexes
    have hahead : q.lexer.DotAhead := hjoins.dotAhead hlexes (P.rest_course _ _ P.joins_alone) hrest
      fun token hyields hkind hname => hopen ⟨token, hyields, hkind, hname⟩
    obtain ⟨b, hrun, hiff⟩ := Course.run_namesSourceType rfl hfresh
    obtain rfl : b = true :=
      hiff.2 ((dotAhead_iff (Ends.ok Ends.advance_next hbegins.run_eq).2).1 hahead)
    exact hrun
  obtain ⟨q₃, hadvance, hfresh₃, hfunction⟩ :=
    Course.run_namedFunction (C := P.right) rfl hdot.placed.steady hdot.inTrait_eq
      hdot.rest_eq hnamed
  have hsource : (Grammar.builtOptionally Grammar.namesSourceType
      (Grammar.upTo q.bound).sourceType).run q₁ = (.ok (some type'), q₃) := by
    have hmark : (mark Symbol.dot : Parse Buffer Unit).run q₂ = (.ok (), q₃) :=
      run_mark (hdot.kind_eq.trans (congrArg _ hnext)) hadvance
    have hread : (Grammar.upTo q.bound).sourceType.run q₁ = (.ok type', q₃) := by
      unfold Grammar.sourceType
      rw [run_bind_ok htype', run_bind_ok hmark]
      rfl
    exact Grammar.run_builtOptionally hnames hread
  have hbound₃ : q₃.bound = q.bound := by
    rw [Course.Steady.bound_eq (.inl hfresh₃), hbegins.placed.steady.bound_eq]
  obtain ⟨named', q₄, hnamed', hsame, hsteady, heof⟩ :=
    hfunction q.bound (hbound₃.trans_le (Nat.le_succ _))
  obtain ⟨_, hwhole⟩ := Course.run_member (hbegins.kind_eq.trans (congrArg _ hword)) rfl
    hbegins.run_eq hsource hnamed' hsteady heof
  refine ⟨_, Parser.run_of_start hbegins.start_eq hwhole, ?_⟩
  rw [ClassFunctionDecl.unplaced_source, hsame, Option.map_some, hunplaced]

namespace Text

variable {σ : Type} [ByteSource σ] {t : Text} {limit : Nat} {shows : σ → Nat → Prop} {s : σ}
  {names behind : List UInt8} {source : Option TypeExpr} {named : ClassFunctionDecl}

/-- A function that has only its name behind `fn` is read as it is alone. -/
theorem member_of_nothing
    (hcontent : t.content.toList = (Lexeme.word .fnKw).bytes ++ behind)
    (hapart : Apart isWordByte behind)
    (hnamed : Parser.run (whole parseNamedFunction)
      (Text.mk t.name behind.toArray).inMemory = .ok named)
    (tabWidth : UInt32) :
    ∃ decl, Parser.run (whole parseMember) t.inMemory tabWidth = .ok (.function decl) ∧
      decl.unplaced = { named.unplaced with sourceType := none } := by
  have hjoins : Joins [] behind := joins_of_run (fun C => C.places.parseNamedFunction) hnamed
  have hword := Lexes.word .fnKw hapart
  have hwhole : Joins [] t.content.toList := by
    rw [hcontent]
    refine .front hword ?_ hjoins
    rwa [List.append_nil]
  let C : Course := ⟨Walker.ofSource t.inMemory tabWidth, none, hwhole.finishes rfl⟩
  have htakes : C.origin.TakesNext [] (Lexeme.word .fnKw).bytes
      (.keyword .fnKw, Keyword.fnKw.spelling) behind := takesNext (.nil _) hword hcontent
  obtain ⟨_, q, -, hq, hcurrent, -, hinTrait, -, hrest⟩ := htakes.ofWalker
  have hkind : q.current.kind = Keyword.fnKw := by rw [hcurrent]
  have hplaced := Course.placed_of_start hq
  obtain ⟨q₁, hadvance, hfresh, hfunction⟩ :=
    Course.run_namedFunction rfl hplaced.steady hinTrait hrest hnamed
  have hbound : q₁.bound = q.bound := by
    rw [Course.Steady.bound_eq (.inl hfresh), hplaced.steady.bound_eq]
  obtain ⟨named', q₂, hnamed', hsame, hsteady, heof⟩ :=
    hfunction q.bound (hbound.trans_le (Nat.le_succ _))
  -- No dot is found.
  have hsighted : C.Sighted q₁ := by
    have hstart := (Course.served_of_start hq).sighted (hplaced.steady.fresh (by rw [hkind]; nofun)
      (by rw [hkind]; nofun))
    exact (Ends.ok hstart.advance hadvance).2.1
  have hnames : (Grammar.namesSourceType : Parse Buffer Bool).run q₁ = (.ok false, q₁) := by
    obtain ⟨b, hrun, hiff⟩ := Course.run_namesSourceType rfl hfresh
    obtain rfl : b = false := Bool.eq_false_iff.2 fun hb => hsighted.not_dotFrom hnamed' (hiff.1 hb)
    exact hrun
  have hsource : (Grammar.builtOptionally Grammar.namesSourceType
      (Grammar.upTo q.bound).sourceType).run q₁ = (.ok none, q₁) := run_bind_ok hnames
  obtain ⟨_, hwhole⟩ := Course.run_member hkind rfl hadvance hsource hnamed' hsteady heof
  refine ⟨_, Parser.run_of_start hq hwhole, ?_⟩
  rw [ClassFunctionDecl.unplaced_source, hsame, Option.map_none]

/-- An interface in front of the name of a function is recognised, whatever its arguments are,
unless one of its tokens ends the search for the dot; and where there is only a name, with any type
parameters, none is. This is so whatever the source and the tab width are, of a function and an
interface that can each stand alone, if `fn` is a token of its own and the tokens of the interface
are not changed by the dot behind them. -/
theorem sources_recognised (hfaithful : t.Faithful limit shows) (hroom : t.content.size + 3 < limit)
    (hs : shows s 0)
    (hcontent : t.content.toList = (Lexeme.word .fnKw).bytes ++ (names ++ behind))
    (hapart : Apart isWordByte (names ++ behind)) (hnames : Names t.name behind names source)
    (hnamed : Parser.run (whole parseNamedFunction)
      (Text.mk t.name behind.toArray).inMemory = .ok named)
    (tabWidth : UInt32) :
    ∃ decl, Parser.run (whole parseMember) s tabWidth = .ok (.function decl) ∧
      decl.unplaced = { named.unplaced with sourceType := source.map TypeExpr.unplaced } := by
  let T := besideMemory hfaithful hroom
  have hsame : Parser.run (whole parseMember) s tabWidth =
      Parser.run (whole parseMember) t.inMemory tabWidth :=
    Twins.run_whole (T := T) hs t.inMemory_shows tabWidth T.simulation.parseMember
  rw [hsame]
  cases hnames with
  | nothing => exact member_of_nothing hcontent hapart hnamed tabWidth
  | @interface source type hjoins htype hopen =>
    rw [List.append_assoc] at hcontent hapart
    have hlexes : Lexes (.symbol .dot, Symbol.dot.spelling) Symbol.dot.bytes behind := by
      obtain ⟨o, _, ho, hread, -⟩ := Parser.of_run hnamed
      have hread' := (Parser.run_grammar (fun g => g.namedFunction) o).symm.trans hread
      obtain ⟨name, _, hname, -⟩ := of_run_bind hread'
      refine Lexes.dot_before_name (Parser.next_of_ofWalker ho).1 ?_
      by_contra hkind
      obtain ⟨_, _, herror, -⟩ := Stalls.expectIdentifier hkind o rfl
      cases hname.symm.trans herror
    let P : Phrase := {
      name := t.name, tabWidth, word := .fnKw, gap := [], inner := source, skip := [], next := .dot
      behind, next_eq := .inr rfl, filler := .nil, word_apart := hapart, joins := hjoins
      trivia := .nil _, lexes := hlexes
      finishes := joins_of_run (fun C => C.places.parseNamedFunction) hnamed }
    have htext : t = P.text (P.before P.tail) := by
      have hbytes : t.content.toList = P.before P.tail := by
        simp only [hcontent, P, Phrase.before, Phrase.tail, List.nil_append]
      exact congrArg (Text.mk t.name) (Array.toList_inj.1 hbytes)
    have hmember := P.member rfl rfl rfl rfl htype hopen hnamed
    rw [htext]
    exact hmember

/-- A type with an argument in front of the name, and a type parameter behind it. -/
theorem sources_recognised_generic :
    let t : Text := ⟨"members", utf8Bytes "fn I<A>.m<T>() \x7b\x7d"⟩
    let source : Text := ⟨"members", utf8Bytes " I<A>"⟩
    let behind : Text := ⟨"members", utf8Bytes "m<T>() \x7b\x7d"⟩
    t.content.size + 3 < addressLimit - 1 ∧ ¬source.HidesDot ∧ ∃ type named decl,
      Parser.run (whole parseType) source.inMemory = .ok type ∧
      Parser.run (whole parseNamedFunction) behind.inMemory = .ok named ∧
      Parser.run (whole parseMember) (t.inChunks 3) 8 = .ok (.function decl) ∧
      decl.unplaced = { named.unplaced with sourceType := some type.unplaced } := by
  intro t source behind
  have hroom : t.content.size + 3 < addressLimit - 1 := by decide
  have hopen : ¬source.HidesDot := not_hidesDot (by decide +kernel)
  have hname (b : UInt8) (text : String) (htext : IsName text) (hbytes : textBytes text = [b])
      (tail : List UInt8) (htail : Apart isWordByte tail) : Lexes (.identifier, text) [b] tail := by
    have h := Lexes.name htext htail
    rwa [show (Lexeme.name text).bytes = [b] from hbytes] at h
  have hI := hname 73 "I" ⟨73, [], by decide +kernel⟩ rfl
  have hA := hname 65 "A" ⟨65, [], by decide +kernel⟩ rfl
  have hlt (tail : List UInt8) : Lexes (.symbol .lt, "<") [60] (65 :: tail) :=
    .mark .lt (by decide) (by simp; decide)
  have hgt (tail : List UInt8) (h : ∀ b ∈ tail.head?, b ∉ Symbol.gt.furtherBytes) :
      Lexes (.symbol .gt, ">") [62] tail := .mark .gt (by decide) h
  have hjoins : Joins (46 :: behind.content.toList) [32, 73, 60, 65, 62] := by
    have hclose : Joins (46 :: behind.content.toList) [62] :=
      .front (hgt [] nofun) (hgt (46 :: behind.content.toList) (by simp; decide))
        (.finished (.nil _))
    have hargument : Joins (46 :: behind.content.toList) [65, 62] :=
      .front (hA [62] rfl) (hA (62 :: 46 :: behind.content.toList) rfl) hclose
    have hangle : Joins (46 :: behind.content.toList) [60, 65, 62] :=
      .front (hlt _) (hlt _) hargument
    exact @Joins.token _ [32] [73] [60, 65, 62] _ (.blank rfl (.nil _)) (hI _ rfl) (hI _ rfl) hangle
  have hread : (Parser.run (whole parseType) source.inMemory).isOk ∧
      (Parser.run (whole parseNamedFunction) behind.inMemory).isOk := by decide +kernel
  obtain ⟨type, htype⟩ := exists_ok_of_isOk hread.1
  obtain ⟨named, hnamed⟩ := exists_ok_of_isOk hread.2
  have hnames : Names "members" behind.content.toList [32, 73, 60, 65, 62, 46] (some type) :=
    .interface hjoins htype hopen
  have hapart : Apart isWordByte ([32, 73, 60, 65, 62, 46] ++ behind.content.toList) := rfl
  obtain ⟨decl, hrun, hdecl⟩ := sources_recognised t.chunks hroom (InChunks.start t 3)
    (by decide) hapart hnames hnamed 8
  exact ⟨hroom, hopen, type, named, decl, htype, hnamed, hrun, hdecl⟩

/-- The parenthesis of a tuple hides the dot. -/
theorem sources_hidden :
    (Parser.run (whole parseType) (Buffer.ofString "I<(A,B)>")).isOk ∧
      (Parser.run (whole parseNamedFunction) (Buffer.ofString "m() \x7b\x7d")).isOk ∧
      Parser.run (whole parseMember) (Buffer.ofString "fn I<(A,B)>.m() \x7b\x7d") =
        .error ⟨.missingIdentifier "(", ⟨⟨1, 6⟩, 5⟩, some .genericParams⟩ :=
  ⟨by decide +kernel, by decide +kernel, eq_error_of_errorOf? (by decide +kernel)⟩

end Text

end ScriptFront
