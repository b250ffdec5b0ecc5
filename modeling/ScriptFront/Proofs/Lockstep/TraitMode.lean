import ScriptFront.Proofs.Lockstep.Reached
import ScriptFront.Proofs.Shapes.Texts
import ScriptFront.Proofs.Sources.Loads

/-!
# The scope of `self`

`self` is a type in the part of a trait behind its header, and nowhere else. The flag that says so
is set for that part only, however the reading of it ends.

- `Supply.anywhere`: what is so of every reading, from whatever state, of whatever source.
- `Node.SelfPlaced`: where the type `self` may stand in a tree.
- `Twins.goes`: ways are the same over all faithful sources of a text.
- `traitMode_scoped`: what all calls of a session have to do with `self`.
- `traitMode_escaped_unreadable`: over a source that cannot be read to its end, a call may pass
  `self` outside traits.
-/

namespace ScriptFront

open ScriptFront.Parser

-- What a reading comes to is told by the rules; nothing is to be run to find out.
attribute [local irreducible] Ends

/-! ## What is so anywhere -/

/-- All states, and any words. -/
def Supply.anywhere (σ : Type) [ByteSource σ] : Supply σ where
  holds _ := True
  adrift _ := True
  known _ := True
  vocabulary := ⟨fun _ _ => True, fun _ => True, False⟩
  isVoid _ := True
  free := True
  adrift_of_holds _ := trivial
  known_start _ := trivial
  text_current _ := trivial
  isVoid_start _ _ := trivial
  holds_withTrait _ _ := trivial
  adrift_withTrait _ _ := trivial
  advance_holds {p} _ _ := by
    unfold Ends
    rcases hskip : Lexer.skip.run p.lexer with ⟨e | _, v⟩
    · rw [run_advance_unskipped hskip]
      trivial
    · rcases hnext : Lexer.next.run v with ⟨e | token, u⟩
      · rw [run_advance_error hskip hnext]
        trivial
      · rw [run_advance_ok hskip hnext]
        exact ⟨rfl, trivial⟩
  peek_holds {p} _ := by
    unfold Ends
    rcases hnext : Lexer.next.run p.lexer with ⟨e | token, v⟩
    · rw [run_peek_error hnext]
      trivial
    · rw [run_peek_ok hnext]
      exact ⟨trivial, rfl, fun hfirm => hfirm.elim⟩
  goBack_holds _ _ := .of_state trivial
  goBack_kind hfirm := hfirm.elim
  narrow_holds _ _ _ := trivial

namespace Node

/-- The node is the type `self`. -/
def IsSelf : Node → Prop
  | .type t => t.form = .selfType
  | _ => False

/-- The type `self` is in the body of a trait. -/
def SelfPlaced (inTrait : Bool) (n : Node) : Prop := n.IsSelf → inTrait = true

theorem Parsed.selfPlaced {V : Vocabulary} {inTrait : Bool} {n : Node} (h : n.Parsed V inTrait) :
    n.SelfPlaced inTrait := by
  intro hself
  cases n with
  | type t =>
    have hspelled : V.OfType inTrait t.form := h.spelled
    rw [show t.form = .selfType from hself] at hspelled
    exact hspelled
  | _ => exact hself.elim

/-- Nodes of types, patterns, expressions and statements, and of what these are made of. -/
def IsLocal : Node → Prop
  | .type _ | .expr _ | .exprArm _ | .newItem _ | .pattern _ | .fieldPattern _ | .block _ | .stmt _
  | .stmtArm _ | .handler _ | .variable _ | .lambdaParam _ => True
  | _ => False

theorem isLocal_patternNodes (p : PatternForm) : ∀ m ∈ p.nodes, m.IsLocal := by
  cases p <;> simp [PatternForm.nodes, IsLocal]

theorem isLocal_exprNodes (e : ExprForm) : ∀ m ∈ e.nodes, m.IsLocal := by
  cases e with
  | call callee args => simp [ExprForm.nodes, IsLocal]
  | genericCall callee generics args =>
    simp only [ExprForm.nodes, List.forall_mem_cons, List.forall_mem_append, List.forall_mem_map]
    exact ⟨trivial, fun _ _ => trivial, fun _ _ => trivial⟩
  | new type args init =>
    simp only [ExprForm.nodes, List.forall_mem_cons, List.forall_mem_append, List.forall_mem_map]
    exact ⟨trivial, fun _ _ => trivial, fun _ _ => trivial⟩
  | _ => simp [ExprForm.nodes, IsLocal]

theorem isLocal_bindingNodes (b : Binding) : ∀ m ∈ b.nodes, m.IsLocal := by
  cases b <;> simp [Binding.nodes, IsLocal]

theorem isLocal_stmtNodes (s : StmtForm) : ∀ m ∈ s.nodes, m.IsLocal := by
  cases s with
  | forLoop init condition update body =>
    simp only [StmtForm.nodes, List.cons_append, List.forall_mem_cons, List.forall_mem_append,
      List.forall_mem_map]
    exact ⟨trivial, ⟨fun _ _ => trivial, fun _ _ => trivial⟩, fun _ _ => trivial⟩
  | _ => simp [StmtForm.nodes, IsLocal]

/-- Nothing below a type, a pattern, an expression or a statement is a declaration. -/
theorem IsLocal.parts {n : Node} (h : n.IsLocal) : ∀ m ∈ n.parts, m.IsLocal := by
  cases n with
  | type t => exact List.forall_mem_map.2 fun _ _ => trivial
  | expr e => exact isLocal_exprNodes e.form
  | exprArm a => cases ha : a.body <;> simp [Node.parts, ha, ArmBody.node, IsLocal]
  | newItem i => exact List.forall_mem_map.2 fun _ _ => trivial
  | pattern p => exact isLocal_patternNodes p.form
  | fieldPattern f => cases hf : f.binding <;> simp [Node.parts, hf, FieldBinding.nodes, IsLocal]
  | block b => exact List.forall_mem_map.2 fun _ _ => trivial
  | stmt s => exact isLocal_stmtNodes s.form
  | stmtArm a => simp [Node.parts, IsLocal]
  | handler c => simp [Node.parts, IsLocal]
  | «variable» d =>
    simp only [Node.parts, List.forall_mem_append, List.forall_mem_map]
    exact ⟨⟨isLocal_bindingNodes d.binding, fun _ _ => trivial⟩, fun _ _ => trivial⟩
  | lambdaParam p => exact List.forall_mem_map.2 fun _ _ => trivial
  | _ => exact h.elim

/-- There is no `self` below a type, a pattern, an expression or a statement outside of traits. -/
theorem Everywhere.not_isSelf {n m : Node} (h : n.Everywhere (fun b k => k.SelfPlaced b) false)
    (hn : n.IsLocal) (hm : m.Within n) : ¬m.IsSelf := by
  induction hm with
  | here =>
    intro hself
    cases h.here hself
  | @part k n hk hm ih =>
    have hbody : n.isTraitBody = false := by
      cases n with
      | traitBody => exact hn.elim
      | _ => rfl
    exact ih (h.part hk hbody) (hn.parts k hk)

end Node

/-! ## Ways over a text -/

theorem Arrival.ok_of_right {ε s t α β : Type} {T : ε → Prop} {E R : s → t → Prop}
    {V : α → β → Prop} {r : Except ε α × s} {b : β} {q : t} (h : Arrival T E V R r (.ok b, q)) :
    ∃ a p, r = (.ok a, p) ∧ V a b ∧ R p q := by
  cases h with
  | ok value states => exact ⟨_, _, rfl, value, states⟩

namespace Simulation.Grammars

variable {σ τ : Type} [ByteSource σ] [ByteSource τ] {S : Simulation σ τ} {g : Grammar σ}
  {g' : Grammar τ}

theorem traitHead (hg : S.Grammars g g') : S.Coupled Eq g.traitHead g'.traitHead := by
  refine (S.mark _).bindEq fun _ => S.expectIdentifier.bindEq fun name => ?_
  exact hg.generics.bindEq fun generics => .pure rfl

end Simulation.Grammars

namespace Twins

variable {σ : Type} [ByteSource σ] {T : Twins σ Buffer} {traits : Prop} {depth : Nat}
  {p : Parser σ} {q r : Parser Buffer}

/-- The way that a parser over the text in memory goes, one over another source of it can go. -/
theorem goes (h : Parser.Goes (Grammar.upTo depth) traits q r) (htogether : T.Together p q) :
    ∃ p', Parser.Goes (Grammar.upTo depth) traits p p' ∧ T.Together p' r := by
  have hg : T.simulation.Grammars (Grammar.upTo depth) (Grammar.upTo depth) :=
    T.simulation.upTo depth
  induction h generalizing p with
  | done q => exact ⟨p, .done p, htogether⟩
  | @take q q' r token step kind_ne more ih =>
    have hadvance := T.simulation.advance_fresh htogether
    rw [step] at hadvance
    obtain ⟨t, p', hstep, -, hstates⟩ := hadvance.ok_of_right
    obtain ⟨p'', hway, hend⟩ := ih hstates.states
    rw [← htogether.current_eq] at kind_ne
    exact ⟨p'', .take hstep kind_ne hway, hend⟩
  | @cut q r whole part kind_eq cut_eq more ih =>
    rw [← htogether.current_eq] at kind_eq
    obtain ⟨p'', hway, hend⟩ := ih (htogether.narrow part kind_eq)
    exact ⟨p'', .cut kind_eq cut_eq hway, hend⟩
  | @again q q' r step current_eq more ih =>
    have hback := T.simulation.goBack_fresh (b := ⟨q.start⟩)
      (htogether.start_eq ▸ htogether.start_le) htogether
    rw [step] at hback
    obtain ⟨_, p', hstep, -, hstates⟩ := hback.ok_of_right
    obtain ⟨p'', hway, hend⟩ := ih hstates.states
    rw [← hstates.states.current_eq, ← htogether.current_eq] at current_eq
    rw [← htogether.start_eq] at hstep
    exact ⟨p'', .again hstep current_eq hway, hend⟩
  | @body q q₁ w q₂ r head body inTraits header way view_eq part more ihWay ih =>
    -- The header is read from the state that its way starts from; where both end is the same.
    have hhead : Arrival _ _ _ _ _ _ := hg.traitHead htogether
    rw [header] at hhead
    obtain ⟨_, p₁, hhead', -, hstates⟩ := hhead.ok_of_right
    obtain ⟨p', hway, hend⟩ := ihWay htogether
    have hview : p'.view = p₁.view :=
      hend.view_eq.trans (view_eq.trans hstates.states.view_eq.symm)
    have hbody : Arrival _ _ _ _ _ _ :=
      hg.traitBody (T.simulation.state_withTrait true hstates.states)
    rw [part] at hbody
    obtain ⟨_, p₂, hbody', -, hstates'⟩ := hbody.ok_of_right
    have hbehind := T.simulation.state_withTrait q.inTrait hstates'.states
    rw [← htogether.inTrait_eq] at hbehind ih
    obtain ⟨p₃, hmore, hlast⟩ := ih hbehind
    exact ⟨p₃, .body inTraits hhead' hway hview hbody' hmore, hlast⟩

end Twins

/-! ## Sessions -/

/-- The states of a parser over a source in front of a call, whatever the calls before came to. -/
inductive Parser.Asked {σ : Type} [ByteSource σ] (s : σ) (tabWidth : UInt32) : Parser σ → Prop where
  | start {p : Parser σ} (h : Parser.ofSource s tabWidth = .ok p) : Asked s tabWidth p
  | behind {p : Parser σ} (entry : Entry) (h : Asked s tabWidth p) :
    Asked s tabWidth ((entry.read : Parse σ entry.Tree).run p).2

section

variable {σ : Type} [ByteSource σ] {s : σ} {tabWidth : UInt32} {p q : Parser σ} {e : SyntaxError}

/-- A parser starts outside of traits. -/
theorem inTrait_ofSource (h : Parser.ofSource s tabWidth = .ok p) : p.inTrait = false := by
  unfold Parser.ofSource Parser.ofWalker at h
  rcases hskip : Lexer.skip.run (Walker.ofSource s tabWidth) with ⟨e | _, w⟩
  · rw [hskip] at h
    cases h
  · rw [hskip] at h
    rcases hnext : Lexer.next.run w with ⟨e | token, v⟩
    · simp only [hnext] at h
      cases h
    · simp only [hnext] at h
      cases h
      rfl

/-- Every call leaves the flag as it was. -/
theorem inTrait_read (entry : Entry) (p : Parser σ) :
    ((entry.read : Parse σ entry.Tree).run p).2.inTrait = p.inTrait := by
  have hread := (Simulation.refl σ).entry entry (rfl : p = p)
  exact (hread.states (F := fun q r => q = r ∧ q.inTrait = p.inTrait)
    (fun _ _ h => ⟨h.states, h.inTrait_eq⟩) fun _ _ h => ⟨h.states, h.inTrait_eq⟩).2

namespace Parser.Asked

theorem reached (h : Asked s tabWidth p) : Reached s tabWidth p := by
  induction h with
  | start h => exact .start h
  | behind entry h ih => exact ih.read entry

/-- In front of every call the flag is off. -/
theorem inTrait_eq (h : Asked s tabWidth p) : p.inTrait = false := by
  induction h with
  | start h => exact inTrait_ofSource h
  | behind entry h ih => exact (inTrait_read entry _).trans ih

end Parser.Asked

/-- What is read with the flag off has `self` in the parts of traits only. -/
theorem selfPlaced_read (entry : Entry) (hp : p.inTrait = false) {tree : entry.Tree}
    (h : entry.read.run p = (.ok tree, q)) :
    ∀ n ∈ entry.roots tree, n.Everywhere (fun b k => k.SelfPlaced b) false := by
  have hsources := Supply.readsSources (S := Supply.anywhere σ) trivial fun _ => trivial
  have hstays : (Supply.anywhere σ).Stays false p := ⟨trivial, hp⟩
  have hread := Supply.entry trivial hsources entry p hstays
  intro n hn
  exact ((Ends.ok hread h).1 n hn).mono fun _ _ hparsed => hparsed.selfPlaced

/-- With the flag on, the part of a trait is never refused because of `self`. -/
theorem fault_traitBody (depth : Nat) (hp : p.inTrait = true)
    (h : (Grammar.upTo depth).traitBody.run p = (.error e, q)) : e.fault ≠ .selfOutsideTrait := by
  have hbody := ((Supply.anywhere σ).sound trivial depth).traitBody p ⟨trivial, hp⟩
  unfold Supply.DeliversAt Ends at hbody
  rw [h] at hbody
  exact hbody.selfPlaced rfl

end

/-- Whatever calls of a session came before, and whatever they came to: a call finds the flag off
and leaves it off. A tree that it yields has `self` in the parts of traits behind their headers
only, and not at all if it is no unit. A part of a trait that is read with the flag on, be it in a
call or not, is never refused because of `self`. And over a faithful source, a call that succeeds
has taken no token `self` but in such a part: the state that it ends in is come to by taking other
tokens, cutting symbols, going back to the current token, and reading parts of traits. -/
theorem traitMode_scoped {σ : Type} [ByteSource σ] {s : σ} {tabWidth : UInt32} {p : Parser σ}
    (hp : Asked s tabWidth p) (entry : Entry) :
    p.inTrait = false ∧ ((entry.read : Parse σ entry.Tree).run p).2.inTrait = false ∧
      (∀ tree q, entry.read.run p = (.ok tree, q) → ∀ root ∈ entry.roots tree,
        root.Everywhere (fun inTrait n => n.SelfPlaced inTrait) false ∧
          (entry ≠ .unit → ∀ n : Node, n.Within root → ¬n.IsSelf)) ∧
      (∀ (depth : Nat) (q r : Parser σ) (e : SyntaxError), q.inTrait = true →
        (Grammar.upTo depth).traitBody.run q = (.error e, r) → e.fault ≠ .selfOutsideTrait) ∧
      ∀ (t : Text) (limit : Nat) (shows : σ → Nat → Prop), t.Faithful limit shows →
        t.content.size + 3 < limit → shows s 0 →
        ∀ tree q, entry.read.run p = (.ok tree, q) →
          ∃ r, Parser.Goes (Grammar.upTo p.bound) (entry = .unit) p r ∧ r.view = q.view := by
  have hflag := hp.inTrait_eq
  refine ⟨hflag, (inTrait_read entry p).trans hflag, ?_, fun depth q r e hq h =>
    fault_traitBody depth hq h, ?_⟩
  · intro tree q h root hroot
    have hplaced := selfPlaced_read entry hflag h root hroot
    refine ⟨hplaced, fun hentry n hn => hplaced.not_isSelf ?_ hn⟩
    cases entry with
    | unit => exact absurd rfl hentry
    | eof => cases hroot
    | _ =>
      obtain rfl := List.mem_singleton.1 hroot
      trivial
  · intro t limit shows hfaithful hroom hs tree q h
    let T := t.besideMemory hfaithful hroom
    obtain ⟨p', htogether, left, hstanding⟩ :=
      Text.standing_of_reached hfaithful hroom hs hp.reached
    have hbound : p.bound = p'.bound := by
      unfold Parser.bound
      rw [htogether.lexers.extent_eq]
    let L := Parser.ways (Walker.ofSource t.inMemory tabWidth) (Grammar.upTo p'.bound)
      (entry = .unit)
    have hread : Meets _ _ _ _ _ _ := L.read entry (p := p') ⟨rfl, hstanding⟩
      fun hunit => Parser.ways_bridges hunit
    have hcoupled : Arrival _ _ _ _ _ _ := T.simulation.entry entry htogether
    rw [h] at hcoupled
    generalize hrun : (entry.read : Parse Buffer entry.Tree).run p' = result at hread hcoupled
    cases hcoupled with
    | @ok _ tree' _ q' value states =>
      cases hread with
      | ok value' states' =>
        obtain ⟨j, -, hbehind⟩ := states'
        have hway := hbehind.since (htogether.inTrait_eq.symm.trans hflag)
        obtain ⟨r, hgoes, hend⟩ := Twins.goes hway htogether
        rw [hbound]
        exact ⟨r, hgoes, hend.view_eq.trans states.states.view_eq.symm⟩

/-- A trait for `self` in a unit, in chunks of two bytes, behind a type that is refused. -/
theorem traitMode_scoped_forSelf :
    let t : Text :=
      ⟨"traits", utf8Bytes
        "namespace n \x7b trait t for self \x7b fn f() -> self \x7b \x7d \x7d \x7d"⟩
    let s := t.inChunks 2
    ∃ p q, Parser.ofSource s 4 = .ok p ∧ (∃ e, (Entry.read .type).run p = (.error e, q)) ∧
      Asked s 4 q ∧ ∃ tree r w, (Entry.read .unit).run q = (.ok tree, r) ∧ r.inTrait = false ∧
        (Node.unit tree).Everywhere (fun inTrait n => n.SelfPlaced inTrait) false ∧
        Parser.Goes (Grammar.upTo q.bound) (Entry.unit = .unit) q w ∧ w.view = r.view := by
  intro t s
  have hroom : t.content.size + 3 < addressLimit - 1 := by decide
  have hread : ((Parser.ofSource s 4).toOption.any fun p =>
      !((Entry.read .type).run p).1.isOk &&
        ((Entry.read .unit).run ((Entry.read .type).run p).2).1.isOk) = true := by
    decide +kernel
  obtain ⟨p, hp, hread⟩ := exists_ok_of_any hread
  simp only [Bool.and_eq_true, Bool.not_eq_true'] at hread
  obtain ⟨hfails, hreads⟩ := hread
  have hasked : Asked s 4 ((Entry.read .type).run p).2 := (Asked.start hp).behind .type
  rcases htype : (Entry.read .type).run p with ⟨e | type, q⟩
  · rw [htype] at hreads hasked
    rcases hunit : (Entry.read .unit).run q with ⟨e' | tree, r⟩
    · rw [hunit] at hreads
      cases hreads
    · obtain ⟨-, hflag, hplaced, -, hways⟩ := traitMode_scoped hasked .unit
      rw [hunit] at hflag
      obtain ⟨w, hgoes, hview⟩ :=
        hways t _ _ t.chunks hroom (Text.InChunks.start t 2) tree r hunit
      exact ⟨p, q, hp, ⟨e, htype⟩, hasked, tree, r, w, hunit, hflag,
        (hplaced tree r hunit (.unit tree) List.mem_cons_self).1, hgoes, hview⟩
  · rw [htype] at hfails
    cases hfails

/-- Where going back to the current token leads. -/
def Parser.again (p : Parser Chunked) : Except SyntaxError Unit × Parser Chunked :=
  (goBack ⟨p.start⟩ : Parse Chunked Unit).run p

/-- Where taking the current token leads. -/
def Parser.further (p : Parser Chunked) : Except SyntaxError Token × Parser Chunked :=
  (advance : Parse Chunked Token).run p

/-- From a state where the first of two tokens is current and behind which there is no third one, no
way leads to another token, as long as going back leads nowhere else. -/
theorem Parser.Goes.two_tokens {g : Grammar Chunked} {traits : Prop} {p r : Parser Chunked}
    (htraits : ¬traits) (h : Parser.Goes g traits p r) {first second : Parser Chunked}
    (hp : p = first ∨ p = second) (hfirst : first.again = (.ok (), first))
    (hsecond : second.again = (.ok (), second)) (hnext : first.further.2 = second)
    (hlast : second.further.1.isOk = false)
    (hwhole : ∀ whole : Symbol, first.current.kind = whole ∨ second.current.kind = whole →
      whole.cut? = none) : r = first ∨ r = second := by
  -- A token that is taken in the first state leads to the second one, and there none can be taken.
  induction h with
  | done p => exact hp
  | take step kind_ne more ih =>
    rcases hp with rfl | rfl
    · rw [Parser.further, step] at hnext
      exact ih (.inr hnext)
    · rw [Parser.further, step] at hlast
      cases hlast
  | cut kind_eq cut_eq more ih =>
    have hnone := hwhole _ (hp.imp (· ▸ kind_eq) (· ▸ kind_eq))
    rw [hnone] at cut_eq
    cases cut_eq
  | again step current_eq more ih =>
    rcases hp with rfl | rfl
    · obtain rfl := congrArg Prod.snd (hfirst.symm.trans step)
      exact ih (.inl rfl)
    · obtain rfl := congrArg Prod.snd (hsecond.symm.trans step)
      exact ih (.inr rfl)
  | body inTraits => exact absurd inTraits htraits

/-- What a source knows, but for its reader and its position. -/
def Chunked.loaded (c : Chunked) : String × Nat × Bytes × Nat × Option Nat × Option ReadFailure :=
  (c.name, c.chunkSize, c.chunk, c.chunkStart, c.length?, c.failure?)

/-- Whether two states show the same and their sources know the same. -/
def Parser.alike (p q : Parser Chunked) : Bool :=
  decide (p.view = q.view) && decide (p.lexer.tabWidth = q.lexer.tabWidth) &&
    decide (p.lexer.source.loaded = q.lexer.source.loaded)

theorem Parser.eq_of_alike {p q : Parser Chunked} (h : p.alike q = true)
    (hreader : p.lexer.source.reader = q.lexer.source.reader) : p = q := by
  simp only [Parser.alike, Bool.and_eq_true, decide_eq_true_eq] at h
  obtain ⟨⟨hview, htabWidth⟩, hloaded⟩ := h
  have hposition : p.lexer.source.position = q.lexer.source.position :=
    congrArg (fun v => v.lexerPlace.offset) hview
  rcases p with ⟨⟨⟨_⟩, _⟩, _⟩
  rcases q with ⟨⟨⟨_⟩, _⟩, _⟩
  simp_all [Parser.view, Walker.place, Walker.linePosition, Chunked.loaded]

theorem Chunked.reader_next (w : Walker Chunked) :
    (Lexer.next.run w).2.source.reader = w.source.reader := by
  have hself : (Chunked.strides w.source.reader).rel 0 w w := ⟨rfl, rfl⟩
  exact ((Chunked.strides w.source.reader).next hself).2.2

/-- Going back keeps the reader. -/
theorem Parser.reader_again (p : Parser Chunked) :
    p.again.2.lexer.source.reader = p.lexer.source.reader := by
  have hreset : ((Walker.reset p.start).run p.lexer).2.source.reader = p.lexer.source.reader :=
    Chunked.reader_ask (.reset p.start.offset) p.lexer.source
  have hnext := Chunked.reader_next ((Walker.reset p.start).run p.lexer).2
  rw [hreset] at hnext
  rw [Parser.again]
  rcases hresult : Lexer.next.run ((Walker.reset p.start).run p.lexer).2 with ⟨e | token, v⟩
  · rw [hresult] at hnext
    rw [run_goBack_error (b := ⟨p.start⟩) hresult]
    exact hnext
  · rw [hresult] at hnext
    rw [run_goBack_ok (b := ⟨p.start⟩) hresult]
    exact hnext

/-- Going back to the current token changes nothing. -/
def Parser.stays (p : Parser Chunked) : Bool := p.again.1.isOk && p.again.2.alike p

theorem Parser.again_of_stays {p : Parser Chunked} (h : p.stays = true) :
    p.again = (.ok (), p) := by
  rw [Parser.stays, Bool.and_eq_true] at h
  obtain ⟨hok, halike⟩ := h
  have hstate := Parser.eq_of_alike halike (Parser.reader_again p)
  rcases hagain : p.again with ⟨e | _, q⟩
  · rw [hagain] at hok
    cases hok
  · rw [hagain] at hstate
    exact congrArg (Prod.mk (Except.ok ())) hstate

/-- A source that cannot be read to its end. -/
def Chunked.tornComment : Chunked :=
  let content :=
    utf8Bytes "f                           </*self\x7d\x7d;*/match a\x7bwhen 1->\x7ba:\""
  .ofReader { content, failsAt := some 59 } "unreadable" 31

/-- An expression is read up to a semicolon, although there is nothing but a name and an angle, and
going back to either leads nowhere else. -/
def Parser.escapes (p : Parser Chunked) : Bool :=
  let (result, q) := (Entry.read .expr).run p
  let second := p.further.2
  p.stays && second.stays && !second.further.1.isOk && result.isOk &&
    decide (p.current.kind = .identifier) && decide (second.current.kind = Symbol.lt) &&
    decide (q.current.kind = Symbol.semicolon)

/-- Of a source that cannot be read to its end, looking at the token behind the name of a label
leads back into a comment, and the `self` there is taken for the colon. An expression is read up to
the semicolon behind it, although no way past other tokens leads there. -/
theorem traitMode_escaped_unreadable :
    let s := Chunked.tornComment
    ∃ p tree q, Asked s 4 p ∧ (Entry.read .expr).run p = (.ok tree, q) ∧
      ¬∃ r, Parser.Goes (Grammar.upTo p.bound) (Entry.expr = .unit) p r ∧ r.view = q.view := by
  intro s
  have hescapes : (Parser.ofSource s 4).toOption.any Parser.escapes = true := by decide +kernel
  obtain ⟨p, hp, hescapes⟩ := exists_ok_of_any hescapes
  unfold Parser.escapes at hescapes
  rcases hrun : (Entry.read .expr).run p with ⟨e | tree, q⟩
  · rw [hrun] at hescapes
    simp only [Except.isOk, Except.toBool, Bool.and_false, Bool.false_and,
      Bool.false_eq_true] at hescapes
  · rw [hrun] at hescapes
    simp only [Bool.and_eq_true, Bool.not_eq_true', decide_eq_true_eq] at hescapes
    obtain ⟨⟨⟨⟨⟨⟨hstays, hstays'⟩, hlast⟩, -⟩, hfirst⟩, hsecond⟩, hend⟩ := hescapes
    have hagain := Parser.again_of_stays hstays
    have hagain' := Parser.again_of_stays hstays'
    have hwhole (whole : Symbol)
        (h : p.current.kind = whole ∨ p.further.2.current.kind = whole) : whole.cut? = none := by
      rw [hfirst, hsecond] at h
      rcases h with h | h
      · cases h
      · cases h
        rfl
    refine ⟨p, tree, q, .start hp, hrun, ?_⟩
    rintro ⟨r, hgoes, hview⟩
    have hcurrent : r.current = q.current := congrArg View.current hview
    -- Neither of the two tokens is a semicolon.
    rcases hgoes.two_tokens nofun (.inl rfl) hagain hagain' rfl hlast hwhole with rfl | rfl
    · rw [← hcurrent, hfirst] at hend
      cases hend
    · rw [← hcurrent, hsecond] at hend
      cases hend

end ScriptFront
