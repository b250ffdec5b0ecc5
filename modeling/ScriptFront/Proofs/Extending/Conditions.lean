import ScriptFront.Proofs.Extending.Phrases
import ScriptFront.Proofs.Extending.Stmts

/-!
# Conditions in front of blocks

A condition is an expression like any other, directly in front of a brace. It ends where it would
end alone, and the block is the one that would be read alone, unless the condition ends with `new
T(args)`: the brace behind that opens the fields of the value.

- `Text.EndsInNew`: where the fields of a value might stand, the text is at its end.
- `StmtForm.conditional`, `Grammar.run_conditional`: `if` and `while` with a condition and a block.
- `Phrase.grammars`: the grammar reads the condition behind its keyword.
- `Text.conditions_end`: a condition ends where its expression ends.
- `Text.conditions_overrun`: one that ends with `new` takes the brace.
-/

namespace ScriptFront

open ScriptFront.Parser Walker

-- What a reading comes to is told by the rules; nothing is to be run to find out.
attribute [local irreducible] Ends

/-! ## Behind `new` -/

/-- The text, read in memory, ends behind `new T(args)`, where the fields of the value might
stand. -/
def Text.EndsInNew (t : Text) : Prop :=
  ∃ (depth : Nat) (mode : Mode) (p q : Parser Buffer)
    (head : Yield mode TypeExpr × Yield mode (List Expr)),
    Reached t.inMemory defaultTabWidth p ∧ p.current.kind = Keyword.newKw ∧
      ((Grammar.upTo depth).newHead mode).run p = (.ok head, q) ∧ q.current.kind = .eof

/-- Parsers in lockstep read the same up to where fields may stand. -/
theorem Lockstep.Grammars.newHead {L : Lockstep} {n : Nat} {m : Mode} {g g' : Grammar Buffer}
    (hg : L.Grammars n g g') :
    L.Below (n + 1) 1 (fun _ _ => True) (g.newHead m) (g'.newHead m) := by
  refine (Below.markWord _ (by nofun)).afterEq fun _ => (hg.types m).weaken.bind fun _ _ _ => ?_
  exact (Below.mark _).weaken.bindEq fun _ => hg.callArgs.bind fun _ _ _ => .pure trivial

/-- A text in which the word does not occur does not end behind `new`. -/
theorem Text.not_endsInNew {t : Text} (hjoins : Joins [] t.content.toList)
    (h : ¬textBytes Keyword.newKw.spelling <:+: t.content.toList) : ¬t.EndsInNew := by
  rintro ⟨depth, mode, p, q, head, hreached, hkind, -⟩
  have hne {k : TokenKind} (hk : Keyword.newKw ≠ k) : p.current.kind ≠ k := fun h => hk (hkind ▸ h)
  obtain ⟨slice, rest, hlexes, hinfix⟩ :=
    hreached.spelled hjoins (hne nofun) (hne nofun) (hne nofun)
  rw [hkind] at hlexes
  have hspells := hlexes.spells
  have hwritten : slice = textBytes p.current.text := hspells.written
  generalize p.current.text = text at hspells hwritten
  cases hspells.wellFormed with
  | word => exact h (hwritten ▸ hinfix)

/-! ## Statements with a condition -/

/-- What a condition and a block stand behind. -/
def conditionWord (loop : Bool) : Keyword := if loop then .whileKw else .ifKw

/-- `while condition { }`, or `if condition { }`. -/
def StmtForm.conditional (loop : Bool) (condition : Expr) (body : Block) : StmtForm :=
  if loop then .whileLoop condition body else .branch condition body none

/-- The keyword, the condition, the block, and no `else`. -/
theorem Grammar.run_conditional {g : Grammar Buffer} {loop : Bool} {p p₁ p₂ p₃ : Parser Buffer}
    {condition : Expr} {body : Block} (hkind : p.current.kind = conditionWord loop)
    (hadvance : (advance : Parse Buffer Token).run p = (.ok p.current, p₁))
    (hlet : p₁.current.kind ≠ Keyword.letKw)
    (hcondition : (g.expr .build Level.chain).run p₁ = (.ok condition, p₂))
    (hbody : (g.block .build).run p₂ = (.ok body, p₃)) (helse : p₃.current.kind ≠ Keyword.elseKw) :
    (g.statementStep .build).run p =
    (.ok ⟨p.current.position, .conditional loop condition body⟩, p₃) := by
  have hform : (g.stmtForm .build).run p = (.ok (.conditional loop condition body), p₃) := by
    unfold Grammar.stmtForm
    rw [run_bind_ok (run_kind p), hkind]
    cases loop with
    | true =>
      have hdrop : (drop : Parse Buffer Unit).run p = (.ok (), p₁) := run_bind_ok hadvance
      show (g.whileLoop .build).run p = _
      unfold Grammar.whileLoop
      rw [run_bind_ok hdrop, run_bind_ok hcondition, run_bind_ok hbody]
      rfl
    | false =>
      have hpeek : (peek : Parse Buffer Token).run p = (.ok p₁.current, p) := by
        rcases Parser.run_peek p with ⟨_, _, hrun, hpeek⟩ | ⟨_, _, hrun, -⟩
        · rw [hadvance] at hrun
          rw [(Prod.mk.inj hrun).2]
          exact hpeek
        · rw [hadvance] at hrun
          cases hrun
      have helseBlock : (g.elseBlock .build).run p₃ = (.ok none, p₃) := by
        unfold Grammar.elseBlock optionally eat
        rw [bind_assoc, run_bind_ok (run_check _ p₃), decide_eq_false helse]
        rfl
      show ((do
        if (← peek).kind = Keyword.letKw then g.branchOn .build else g.branch .build :
          Parse Buffer (Yield .build StmtForm))).run p = _
      rw [run_bind_ok hpeek, if_neg hlet]
      have hword : (mark Keyword.ifKw : Parse Buffer Unit).run p = (.ok (), p₁) :=
        run_mark hkind hadvance
      unfold Grammar.branch
      rw [run_bind_ok hword, run_bind_ok hcondition, run_bind_ok hbody,
        run_bind_ok helseBlock]
      rfl
  unfold Grammar.statementStep
  rw [run_bind_ok (show (position : Parse Buffer Position).run p =
    (.ok p.current.position, p) from rfl), run_bind_ok hform]
  rfl

/-! ## Behind the keyword -/

namespace Phrase

variable {P : Phrase}

/-- Unless the condition ends behind `new`, the grammar reads it in front of the brace as it does in
front of nothing. -/
theorem grammars (hnext : P.next = .lBrace) (hword : P.word ≠ .newKw)
    (hnew : ¬(P.text P.inner).EndsInNew) (depth : Nat) :
    P.extension.Grammars (Grammar.upTo depth) := by
  refine Extension.grammars_upTo hnext ?_ depth
  rintro depth m p p' head (h | ⟨i, o, ho, hstate⟩) hkind hrun heof
  · rw [h.kind_eq] at hkind
    exact hword (TokenKind.keyword.inj hkind)
  · -- The same is read of the condition alone.
    have hg := P.within.upTo_same (fun _ => ⟨rfl, rfl⟩) depth i
    have hhead : Meets _ _ _ _ (((Grammar.upTo depth).newHead m).run o)
        (((Grammar.upTo depth).newHead m).run p) := hg.newHead (Nat.lt_succ_self i) hstate
    rw [hrun] at hhead
    generalize hrun' : ((Grammar.upTo depth).newHead m).run o = r at hhead
    cases hhead with
    | ok value states =>
      obtain ⟨j, -, hbehind⟩ := states
      exact hnew ⟨depth, m, o, _, _, ho, (P.within.kind_eq hstate).trans hkind, hrun',
        (P.within.kind_eq hbehind.state).trans heof⟩

/-- A condition that can stand alone, and behind it, where the brace is, a block that is read at the
end of another text. -/
theorem conditional {loop : Bool} (hword : P.word = conditionWord loop) (hnext : P.next = .lBrace)
    (hnew : ¬(P.text P.inner).EndsInNew) {condition : Expr} {body : Block}
    (hcondition : Parser.run (whole parseExpr) (P.text P.inner).inMemory = .ok condition)
    {C : Course} {r r' : Parser Buffer} (hname : C.origin.source.name = P.name) (hr : C.Fresh r)
    (hkind : r.current.kind = Symbol.lBrace) (htext : r.current.text = Symbol.lBrace.spelling)
    (hinTrait : r.inTrait = false) (hrest : r.lexer.rest = P.behind)
    (hfinishes : r.lexer.Finishes none)
    (hbody : ((Grammar.upTo r.bound).block .build).run r = (.ok body, r'))
    (heof : r'.current.kind = .eof) :
    ∃ stmt, Parser.run (whole parseStatement) (P.text (P.before P.tail)).inMemory P.tabWidth =
      .ok stmt ∧ stmt.unplaced = (Stmt.mk .start (.conditional loop condition body)).unplaced := by
  have hnewKw : P.word ≠ .newKw := by
    rw [hword]
    cases loop <;> rintro ⟨⟩
  obtain ⟨q, q₁, hbegins, hreads⟩ :=
    P.reads (u := Expr.unplaced) (x := fun g => g.expr .build Level.chain)
      (fun hg => hg.exprs .build Level.chain)
      (fun depth => (P.grammars hnext hnewKw hnew depth).exprs .build Level.chain) hcondition
  obtain ⟨depth, hdepth⟩ : ∃ depth, q.bound = depth + 1 := ⟨q.bound - 1, by unfold bound; omega⟩
  obtain ⟨condition', q₂, hcondition', hunplaced, hbehind⟩ := hreads depth (Nat.le_of_eq hdepth)
  -- The block, at the end of its text and at the end of the whole.
  have hbrace : q₂.current.kind = Symbol.lBrace := hbehind.kind_eq.trans (congrArg _ hnext)
  have hfresh : P.right.Fresh q₂ :=
    hbehind.placed.steady.fresh (by rw [hbrace]; rintro ⟨⟩) (by rw [hbrace]; rintro ⟨⟩)
  obtain ⟨left, hblocks⟩ := Course.layouts_here hname.symm hr hfresh
    (hkind.trans hbrace.symm) (htext.trans ((congrArg _ hnext).symm.trans hbehind.text_eq.symm))
    (hinTrait.trans hbehind.inTrait_eq.symm) (hrest.trans hbehind.rest_eq.symm) hfinishes
  have hbound : q₂.bound = q.bound := by
    rw [hbehind.placed.steady.bound_eq, hbegins.placed.steady.bound_eq]
  obtain ⟨body', q₃, j, hbody', hunplaced', hend⟩ := Lockstep.run_alike (u := Block.unplaced)
    (x := fun g => g.block .build) (fun hg => hg.builtBlock) (Lockstep.state_of_fresh _ hblocks)
    (hbound.trans hdepth).le hbody
  have heof' : q₃.current.kind = .eof := (Lockstep.kind_eq _ hend.state).symm.trans heof
  -- Put together behind the keyword.
  have hlet : q₁.current.kind ≠ Keyword.letKw := by
    intro hlet
    have hstalls : Stalls Keyword.letKw ((Grammar.upTo depth).expr .build Level.chain) :=
      Extension.Grammars.stalls_upTo (.inr rfl) depth Level.chain
    obtain ⟨e, _, herror, -⟩ := hstalls q₁ hlet
    cases hcondition'.symm.trans herror
  have hstmt := Grammar.run_conditional (hbegins.kind_eq.trans (congrArg _ hword)) hbegins.run_eq
    hlet hcondition' hbody' (by rw [heof']; rintro ⟨⟩)
  have hread : (parseStatement : Parse Buffer Stmt).run q =
      (.ok ⟨q.current.position, .conditional loop condition' body'⟩, q₃) := by
    refine (Parser.run_grammar (fun g => g.statement .build) q).trans ?_
    rw [hdepth]
    exact hstmt
  have hsteady : P.right.Steady q₃ := hend.state.2.1
  obtain ⟨q₄, hwhole⟩ := hsteady.run_whole hread heof'
  refine ⟨_, Parser.run_of_start hbegins.start_eq hwhole, ?_⟩
  cases loop with
  | true => simp only [StmtForm.conditional, Stmt.unplaced, StmtForm.unplaced, if_true, hunplaced,
      hunplaced']
  | false => simp only [StmtForm.conditional, Stmt.unplaced, StmtForm.unplaced, Bool.false_eq_true,
      if_false, hunplaced, hunplaced']

end Phrase

namespace Text

variable {σ : Type} [ByteSource σ] {t : Text} {limit : Nat} {shows : σ → Nat → Prop} {s : σ}
  {loop : Bool} {gap gap' e b : List UInt8} {condition : Expr} {body : Block}

/-- A condition ends where its expression ends: of an expression and a block that can each stand
alone, `if` or `while` makes a statement, whatever the source and the tab width are, unless the
expression ends behind `new T(args)`. The keyword and the expression are two tokens for the lexer,
and the tokens of the expression are not changed by what stands behind it. -/
theorem conditions_end (hfaithful : t.Faithful limit shows) (hroom : t.content.size + 3 < limit)
    (hs : shows s 0)
    (hcontent : t.content.toList =
      (Lexeme.word (conditionWord loop)).bytes ++ (gap ++ (e ++ (gap' ++ b))))
    (hgap : Filler gap) (hapart : Apart isWordByte (gap ++ (e ++ (gap' ++ b))))
    (hgap' : Filler gap')
    (hjoins : Joins (gap' ++ b) e)
    (hcondition : Parser.run (whole parseExpr) (Text.mk t.name e.toArray).inMemory = .ok condition)
    (hbody : Parser.run (whole parseBlock) (Text.mk t.name b.toArray).inMemory = .ok body)
    (hnew : ¬(Text.mk t.name e.toArray).EndsInNew) (tabWidth : UInt32) :
    ∃ stmt, Parser.run (whole parseStatement) s tabWidth = .ok stmt ∧
      stmt.unplaced = (Stmt.mk .start (.conditional loop condition body)).unplaced := by
  have hjoins' : Joins [] b := joins_of_run (fun C => C.places.entry .block) hbody
  obtain ⟨r, r', hr, hblock, heof⟩ := Parser.of_run hbody
  have hblock' : ((Grammar.upTo r.bound).block .build).run r = (.ok body, r') :=
    (Parser.run_grammar (fun g => g.block .build) r).symm.trans hblock
  have hkind : r.current.kind = Symbol.lBrace := by
    obtain ⟨_, _, hposition, hrest⟩ := of_run_bind hblock'
    obtain ⟨_, _, hmark, -⟩ := of_run_bind hrest
    cases hposition
    exact kind_of_run_mark hmark
  obtain ⟨skip, behind, rfl, htrivia, hlexes, hbehind, htext, hinTrait, hrest⟩ :=
    hjoins'.opens rfl hr hkind
  have hassoc : gap' ++ (skip ++ (Symbol.lBrace.bytes ++ behind)) =
      gap' ++ skip ++ (Symbol.lBrace.bytes ++ behind) := (List.append_assoc _ _ _).symm
  rw [hassoc] at hcontent hapart hjoins
  let P : Phrase := {
    name := t.name, tabWidth, word := conditionWord loop, gap, inner := e, skip := gap' ++ skip
    next := .lBrace, behind, next_eq := .inl rfl, filler := hgap, word_apart := hapart,
      joins := hjoins
    trivia := (hgap'.trivia _).append htrivia, lexes := hlexes, finishes := hbehind }
  have htext' : t = P.text (P.before P.tail) := by
    obtain ⟨name, content⟩ := t
    exact congrArg (Text.mk name) (Array.toList_inj.1 hcontent)
  have hfinishes : r.lexer.Finishes none := hbehind.finishes hrest
  let C : Course := P.course _ defaultTabWidth hjoins'
  have hfresh := C.start
  rw [show Parser.ofWalker C.origin = .ok r from hr] at hfresh
  obtain ⟨stmt, hrun, hstmt⟩ := P.conditional rfl rfl hnew hcondition (C := C) rfl hfresh hkind
    htext hinTrait hrest hfinishes hblock' heof
  let T := besideMemory hfaithful hroom
  have hsame : Parser.run (whole parseStatement) s tabWidth =
      Parser.run (whole parseStatement) t.inMemory tabWidth :=
    Twins.run_whole (T := T) hs t.inMemory_shows tabWidth (T.simulation.entry .statement)
  refine ⟨stmt, hsame.trans ?_, hstmt⟩
  rw [htext']
  exact hrun

/-- A loop with nothing between the condition and the block, in chunks of two bytes. -/
theorem conditions_end_tight :
    let t : Text := ⟨"loop", utf8Bytes "while a\x7b\x7d"⟩
    let e : Text := ⟨"loop", utf8Bytes "a"⟩
    let b : Text := ⟨"loop", utf8Bytes "\x7b\x7d"⟩
    t.content.size + 3 < addressLimit - 1 ∧ ¬e.EndsInNew ∧ ∃ condition body stmt,
      Parser.run (whole parseExpr) e.inMemory = .ok condition ∧
      Parser.run (whole parseBlock) b.inMemory = .ok body ∧
      Parser.run (whole parseStatement) (t.inChunks 2) 8 = .ok stmt ∧
      stmt.unplaced = (Stmt.mk .start (.conditional true condition body)).unplaced := by
  intro t e b
  have hroom : t.content.size + 3 < addressLimit - 1 := by decide
  have hname (tail : List UInt8) (htail : Apart isWordByte tail) :
      Lexes (.identifier, "a") [97] tail := by
    have hletter : IsName "a" := ⟨97, [], by decide +kernel⟩
    exact Lexes.name hletter htail
  have hjoins : Joins [123, 125] [97] :=
    @Joins.token _ [] [97] [] _ (.nil _) (hname [] rfl) (hname _ rfl) (.finished (.nil _))
  have hjoins' : Joins [] e.content.toList :=
    @Joins.token _ [] [97] [] _ (.nil _) (hname [] rfl) (hname [] rfl) (.finished (.nil _))
  have hnew : ¬e.EndsInNew := e.not_endsInNew hjoins' (by decide)
  have hread : (Parser.run (whole parseExpr) e.inMemory).isOk ∧
      (Parser.run (whole parseBlock) b.inMemory).isOk := by decide +kernel
  obtain ⟨condition, hcondition⟩ := exists_ok_of_isOk hread.1
  obtain ⟨body, hbody⟩ := exists_ok_of_isOk hread.2
  have hcontent : t.content.toList = (Lexeme.word (conditionWord true)).bytes ++
      ([32] ++ ([97] ++ ([] ++ [123, 125]))) := by decide
  obtain ⟨stmt, hrun, hstmt⟩ := conditions_end t.chunks hroom (InChunks.start t 2) hcontent
    (.blank rfl .nil) rfl .nil hjoins hcondition hbody hnew 8
  exact ⟨hroom, hnew, condition, body, stmt, hcondition, hbody, hrun, hstmt⟩

/-- Behind `new`, the brace of the block opens the fields of the value, and no block is left. -/
theorem conditions_overrun :
    (Parser.run (whole parseExpr) (Buffer.ofString "new T()")).isOk ∧
      (Parser.run (whole parseBlock) (Buffer.ofString "\x7b \x7d")).isOk ∧
      Parser.run (whole parseStatement) (Buffer.ofString "if new T() \x7b \x7d") =
        .error ⟨.wrongToken Symbol.lBrace Lexer.eofText, ⟨⟨1, 15⟩, 14⟩, none⟩ :=
  ⟨by decide +kernel, by decide +kernel, eq_error_of_errorOf? (by decide +kernel)⟩

end Text

end ScriptFront
