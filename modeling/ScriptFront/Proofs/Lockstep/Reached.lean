import ScriptFront.Proofs.Lockstep.Ways
import ScriptFront.Proofs.Speculation.Traceless

/-!
# Every reading ends

A parser may be asked for one reading after the other, also behind an error. Over a faithful source,
it is in a state all the time from which every reading ends, without having run out of steps; and
what is read is behind it then.

- `Parser.Reached`: all states that a parser over a source can be in, readings by the steps of
  readings.
- `Parser.Reached.read`: no reading leads out of them.
- `Text.standing_of_reached`: over a faithful source they are sound.
- `Text.readings_progress`: every reading ends, and makes progress.
- `Text.readings_stall_unreadable`: over a source that cannot be read to its end, it may not.
-/

namespace ScriptFront

open ScriptFront.Parser

-- What a reading comes to is told by the rules; nothing is to be run to find out.
attribute [local irreducible] Ends

/-! ## States of a parser -/

/-- The states of a parser over a source: the first one, and where steps lead, be they successful or
not. The way back leads from each of them to where the token of any of them starts. -/
inductive Parser.Reached {σ : Type} [ByteSource σ] (s : σ) (tabWidth : UInt32) :
    Parser σ → Prop where
  | start {p : Parser σ} (h : Parser.ofSource s tabWidth = .ok p) : Reached s tabWidth p
  | take {p : Parser σ} (h : Reached s tabWidth p) :
    Reached s tabWidth ((advance : Parse σ Token).run p).2
  | look {p : Parser σ} (h : Reached s tabWidth p) :
    Reached s tabWidth ((peek : Parse σ Token).run p).2
  | back {p q : Parser σ} (h : Reached s tabWidth p) (h' : Reached s tabWidth q) :
    Reached s tabWidth ((goBack ⟨p.start⟩ : Parse σ Unit).run q).2
  | cut {p : Parser σ} {whole part : Symbol} (h : Reached s tabWidth p)
    (kind_eq : p.current.kind = whole) (cut_eq : whole.cut? = some part) :
    Reached s tabWidth ((narrow part 1).run p).2
  | mode {p : Parser σ} (inTrait : Bool) (h : Reached s tabWidth p) :
    Reached s tabWidth { p with inTrait }

namespace Parser.Reached

variable {σ : Type} [ByteSource σ] {s : σ} {tabWidth : UInt32} {p : Parser σ}

/-- A step that stays among the reached states, wherever it ends, is coupled with itself. -/
theorem arrival {α : Type} {x : Parse σ α} (hx : Reached s tabWidth (x.run p).2)
    (hinTrait : (x.run p).2.inTrait = p.inTrait) :
    Arrival (fun _ => True) (Kept (fun p q => p = q ∧ Reached s tabWidth p) p.inTrait) Eq
      (Kept (fun p q => p = q ∧ Reached s tabWidth p) p.inTrait) (x.run p) (x.run p) := by
  rcases hrun : x.run p with ⟨e | a, q⟩
  · rw [hrun] at hx hinTrait
    exact .error trivial ⟨⟨rfl, hx⟩, hinTrait⟩
  · rw [hrun] at hx hinTrait
    exact .ok rfl ⟨⟨rfl, hx⟩, hinTrait⟩

variable (s tabWidth)

/-- Equality of reached states. -/
def simulation : Simulation σ σ where
  state p q := p = q ∧ Reached s tabWidth p
  fresh p q := p = q ∧ Reached s tabWidth p
  adrift p q := p = q ∧ Reached s tabWidth p
  known b := ∃ p, Reached s tabWidth p ∧ b = ⟨p.start⟩
  told _ := True
  state_of_fresh h := h
  fresh_of_kind h _ _ := h
  adrift_of_state h := h
  current_eq h := congrArg Parser.current h.1
  start_eq h := congrArg Parser.start h.1
  known_start h := ⟨_, h.2, rfl⟩
  inTrait_eq h := congrArg Parser.inTrait h.1
  extent_eq h := congrArg (fun p => p.lexer.extent) h.1
  name_eq h := congrArg Parser.sourceName h.1
  state_withTrait inTrait h := ⟨h.1 ▸ rfl, h.2.mode inTrait⟩
  adrift_withTrait inTrait h := ⟨h.1 ▸ rfl, h.2.mode inTrait⟩
  told_here _ _ _ := trivial
  told_at _ _ _ := trivial
  told_within _ _ := trivial
  advance_fresh := by
    rintro p _ ⟨rfl, h⟩
    exact arrival h.take inTrait_advance
  peek_state := by
    rintro p _ ⟨rfl, h⟩
    exact arrival h.look inTrait_peek
  goBack_fresh := by
    rintro _ p _ ⟨q, hq, rfl⟩ ⟨rfl, h⟩
    exact arrival (hq.back h) (inTrait_goBack _)
  narrow_state := by
    rintro p _ whole part ⟨rfl, h⟩ hwhole hpart
    exact ⟨rfl, h.cut hwhole hpart⟩

variable {s tabWidth}

/-- Every reading is put together from these steps: it ends in a state that is reached, whatever it
comes to. -/
theorem read (h : Reached s tabWidth p) (entry : Entry) :
    Reached s tabWidth ((entry.read : Parse σ entry.Tree).run p).2 := by
  have hread := (simulation s tabWidth).entry entry ⟨rfl, h⟩
  have hstate : ((entry.read : Parse σ entry.Tree).run p).2 = _ ∧ Reached s tabWidth _ :=
    hread.states (fun _ _ h => h.states) fun _ _ h => h.states
  exact hstate.2

end Parser.Reached

/-! ## Over a faithful source -/

/-- A parser over a text in memory starts at a token of it. -/
theorem Parser.standing_of_ofWalker {origin : Walker Buffer} {p : Parser Buffer}
    (h : Parser.ofWalker origin = .ok p) : ∃ left, Standing origin left p := by
  unfold Parser.ofWalker at h
  rcases hskip : Lexer.skip.run origin with ⟨e | _, v⟩
  · rw [hskip] at h
    cases h
  · obtain ⟨gap, hv, -⟩ := Ends.ok (Ends.skip origin) hskip
    rw [hskip] at h
    rcases hnext : Lexer.next.run v with ⟨e | token, u⟩
    · simp only [hnext] at h
      cases h
    · simp only [hnext] at h
      cases h
      exact ⟨_, (standing_of_next hv.toSameText (Walker.settled_of_skip hskip) hnext false).1⟩

namespace Text

section

variable {σ : Type} [ByteSource σ] {t : Text} {limit : Nat} {shows : σ → Nat → Prop} {s : σ}
  {tabWidth : UInt32} {p : Parser σ}

/-- Beside every parser over a faithful source there is a standing one over the text in memory. -/
theorem standing_of_reached (hfaithful : t.Faithful limit shows)
    (hroom : t.content.size + 3 < limit) (hs : shows s 0) (hp : Reached s tabWidth p) :
    ∃ q, (besideMemory hfaithful hroom).Together p q ∧
      ∃ left, Standing (Walker.ofSource t.inMemory tabWidth) left q := by
  let T := besideMemory hfaithful hroom
  have hb : T.right t.inMemory 0 := t.inMemory_shows
  induction hp with
  | start h =>
    have hstart := Twins.ofWalker (Twins.beside_ofSource (T := T) hs hb tabWidth)
    unfold Parser.ofSource at h
    rw [h] at hstart
    generalize hrun : Parser.ofWalker (Walker.ofSource t.inMemory tabWidth) = r at hstart
    cases hstart with
    | ok htogether => exact ⟨_, htogether, standing_of_ofWalker hrun⟩
  | @take p h ih =>
    obtain ⟨q, htogether, left, hstanding⟩ := ih
    refine ⟨_, (Twins.Together.advance htogether).2, ?_⟩
    have hadvance := hstanding.advance
    unfold Ends at hadvance
    rcases hrun : (advance : Parse Buffer Token).run q with ⟨e | token, q'⟩
    · rw [hrun] at hadvance
      exact hadvance.2
    · rw [hrun] at hadvance
      obtain ⟨-, left', hstanding', -⟩ := hadvance
      exact ⟨left', hstanding'⟩
  | @look p h ih =>
    obtain ⟨q, htogether, left, hstanding⟩ := ih
    refine ⟨_, (Twins.Together.peek htogether).2, left, ?_⟩
    rcases Parser.run_peek q with ⟨_, _, -, hpeek⟩ | ⟨_, _, -, hpeek⟩
    · rw [hpeek]
      exact hstanding
    · rw [hpeek]
      exact hstanding
  | @back p p' h h' ih ih' =>
    obtain ⟨q, htogether, left, hstanding⟩ := ih
    obtain ⟨q', htogether', left', hstanding'⟩ := ih'
    refine ⟨_, (Twins.Together.goBack htogether.start_le htogether').2, ?_⟩
    rw [htogether.start_eq]
    have hback := hstanding.goBack hstanding'.sameText
    unfold Ends at hback
    rcases hrun : (goBack ⟨q.start⟩ : Parse Buffer Unit).run q' with ⟨e | _, q''⟩
    · rw [hrun] at hback
      exact hback.2
    · rw [hrun] at hback
      exact hback.1
  | @cut p whole part h kind_eq cut_eq ih =>
    obtain ⟨q, htogether, left, hstanding⟩ := ih
    refine ⟨_, htogether.narrow part kind_eq, left, hstanding.narrow ?_ cut_eq⟩
    rw [← htogether.current_eq]
    exact kind_eq
  | @mode p inTrait h ih =>
    obtain ⟨q, htogether, left, hstanding⟩ := ih
    exact ⟨{ q with inTrait }, { htogether with inTrait_eq := rfl }, left,
      hstanding.withTrait inTrait⟩

end

end Text

/-! ## Progress -/

/-- The reading does not run out of steps, and if it comes to something, it has gone on by some
bytes at least. -/
def Parser.Progresses {σ α : Type} (least : Nat) (x : Parse σ α) (p : Parser σ) : Prop :=
  match x.run p with
  | (.ok _, q) => p.start.offset + least ≤ q.start.offset
  | (.error e, _) => e.fault ≠ .tooDeep

/-- In memory, a reading that goes in lockstep with itself makes progress, and so does one that is
coupled with it. -/
theorem Parser.progresses_of_at {σ α β : Type} [ByteSource σ] {T : Twins σ Buffer}
    {origin : Walker Buffer} {g : Grammar Buffer} {traits : Prop} {left least : Nat} {u : α → β}
    {x : Parse σ α} {y : Parse Buffer α} {p : Parser σ} {q : Parser Buffer}
    (htogether : T.Together p q) (hxy : T.simulation.Coupled Eq x y)
    (hy : (ways origin g traits).At left least q q (Alike u) y y)
    (hq : Standing origin left q) : Progresses least x p := by
  have hcoupled : Arrival _ _ _ _ (x.run p) (y.run q) := hxy htogether
  have hmeets : Meets _ _ _ _ (y.run q) (y.run q) := hy
  unfold Progresses
  rcases hrun : x.run p with ⟨e | a, p'⟩
  · rcases hrun' : y.run q with ⟨e' | a', q'⟩
    · rw [hrun, hrun'] at hcoupled
      rw [hrun'] at hmeets
      cases hcoupled
      cases hmeets with
      | error told states => exact told.2
    · rw [hrun, hrun'] at hcoupled
      cases hcoupled
  · rcases hrun' : y.run q with ⟨e' | a', q'⟩
    · rw [hrun, hrun'] at hcoupled
      cases hcoupled
    · rw [hrun, hrun'] at hcoupled
      rw [hrun'] at hmeets
      cases hcoupled with
      | ok value states =>
        cases hmeets with
        | ok value' states' =>
          obtain ⟨j, hj, hbehind⟩ := states'
          have hleft := hq.left_eq
          have hleft' := hbehind.state.2.left_eq
          have hstart : p.start = q.start := htogether.start_eq
          have hstart' : p'.start = q'.start := states.states.start_eq
          show p.start.offset + least ≤ p'.start.offset
          rw [hstart, hstart']
          omega

namespace Lexer

variable {w : Walker Buffer}

/-- From a walker on there is at most one more token than there are bytes, and if there is no error,
the last one is the end of the text. -/
theorem size_runOnto {steps : Nat} (hsteps : w.rest.length < steps) (taken : Array Token) :
    let (tokens, error) := ((runOnto steps taken).run w).1
    tokens.size ≤ taken.size + w.rest.length + 1 ∧
      (error = none → ∃ (front : Array Token) (last : Token), tokens = front.push last ∧
        last.kind = .eof) := by
  induction steps generalizing w taken with
  | zero => exact absurd hsteps (Nat.not_lt_zero _)
  | succ steps ih =>
    rcases hrun : Lexer.next.run w with ⟨e | token, v⟩
    · rw [runOnto_error hrun]
      exact ⟨by omega, nofun⟩
    · have hopen : (runOnto (steps + 1) taken).run w = _ := runOnto_ok hrun
      rw [hopen]
      by_cases hkind : token.kind = .eof
      · rw [if_pos hkind]
        refine ⟨?_, fun _ => ⟨taken, token, rfl, hkind⟩⟩
        simp only [Array.size_push]
        omega
      · rw [if_neg hkind]
        have hless := Walker.position_of_next hrun hkind
        have hleft := v.length_rest
        have hleft' := w.length_rest
        rw [(Walker.sameText_of_next hrun).content_eq] at hleft
        obtain ⟨hsize, hlast⟩ := ih (w := v) (by omega) (taken.push token)
        refine ⟨?_, hlast⟩
        rw [Array.size_push] at hsize
        omega

end Lexer

namespace Text

variable {σ : Type} [ByteSource σ] {t : Text} {limit : Nat} {shows : σ → Nat → Prop} {s : σ}
  {tabWidth : UInt32} {p : Parser σ}

/-- Over a faithful source, from every state that a parser can be in, every reading and every
declaration comes to an end, and no loop and no recursion of it runs out of steps. What is read is
behind the parser then, at least one byte of it unless a unit or the end of the text was asked for.
The lexer ends too, with at most one more token than there are bytes. -/
theorem readings_progress (hfaithful : t.Faithful limit shows)
    (hroom : t.content.size + 3 < limit) (hs : shows s 0) (hp : Reached s tabWidth p) :
    (∀ entry : Entry, Progresses entry.least entry.read p) ∧
      Progresses 1 Grammar.includeDecl p ∧ Progresses 1 (Grammar.upTo p.bound).generalDecl p ∧
      Progresses 1 (Grammar.upTo p.bound).topNamespace p ∧
      ∀ tokens, (Lexer.tokenize.run (Walker.ofSource s tabWidth)).1 = .ok tokens →
        tokens.size ≤ t.content.size + 1 ∧
          ∃ (front : Array Token) (last : Token), tokens = front.push last ∧ last.kind = .eof := by
  let T := besideMemory hfaithful hroom
  obtain ⟨q, htogether, left, hstanding⟩ := standing_of_reached hfaithful hroom hs hp
  have hbound : p.bound = q.bound := by
    unfold Parser.bound
    rw [htogether.lexers.extent_eq]
  -- Any grammar and any traits will do, for nothing is said of the way.
  let L := ways (Walker.ofSource t.inMemory tabWidth) (Grammar.upTo q.bound) True
  have hstate : L.state left q q := ⟨rfl, hstanding⟩
  have hbridges : L.Bridges (Grammar.upTo q.bound) := ways_bridges trivial
  have hleft := L.le_left hstate
  have hg : L.Grammars (left + 1) (Grammar.upTo q.bound) (Grammar.upTo q.bound) := by
    refine L.upTo ?_ ?_
    · unfold Parser.bound
      omega
    · unfold Parser.bound
      omega
  have hleft' := Nat.lt_succ_self left
  have hgrammars : T.simulation.Grammars (Grammar.upTo p.bound) (Grammar.upTo q.bound) := by
    rw [hbound]
    exact T.simulation.upTo q.bound
  have hfollows := T.simulation.followsAll_plain.follows hgrammars
  have hgeneral := hfollows.generalDecl hgrammars
  have hnamespace := hfollows.topNamespace hgrammars
  rw [Lookaheads.generalDecl_plain] at hgeneral
  rw [Lookaheads.topNamespace_plain] at hnamespace
  refine ⟨fun entry => ?_, ?_, ?_, ?_, fun tokens htokens => ?_⟩
  case refine_1 =>
    exact progresses_of_at htogether (T.simulation.entry entry)
      (L.read entry hstate fun _ => hbridges) hstanding
  case refine_2 =>
    exact progresses_of_at htogether T.simulation.includeDecl (Lockstep.includeDecl hleft' hstate)
      hstanding
  case refine_3 =>
    exact progresses_of_at htogether hgeneral (hg.generalDecl hbridges hleft' hstate) hstanding
  case refine_4 =>
    exact progresses_of_at htogether hnamespace (hg.topNamespace hbridges hleft' hstate) hstanding
  case refine_5 =>
    have hrun := (Twins.run (Twins.beside_ofSource (T := T) hs t.inMemory_shows tabWidth)).1
    let w : Walker Buffer := Walker.ofSource t.inMemory tabWidth
    have hsize := Lexer.size_runOnto (w := w) (Nat.lt_succ_self w.rest.length) #[]
    have hrest : w.rest.length = t.content.size := Array.length_toList
    rw [hrest] at hsize
    have hopen : (Lexer.run.run w).1 = ((Lexer.runOnto (t.content.size + 1) #[]).run w).1 := rfl
    rw [← hopen, ← hrun] at hsize
    rcases hlexed : Lexer.run.run (Walker.ofSource s tabWidth) with ⟨⟨found, error⟩, v⟩
    rw [Lexer.run_tokenize hlexed] at htokens
    rw [hlexed] at hsize
    cases error with
    | some e => cases htokens
    | none =>
      cases htokens
      obtain ⟨hsize, hlast⟩ := hsize
      refine ⟨?_, hlast rfl⟩
      simpa using hsize

/-- A statement behind one that fails in the middle of a block, in chunks of two bytes. -/
theorem readings_progress_behindError :
    let t : Text := ⟨"statements", utf8Bytes "\x7b a<b; c c; \x7d"⟩
    let s := t.inChunks 2
    t.content.size + 3 < addressLimit - 1 ∧ ∃ p q, Parser.ofSource s 4 = .ok p ∧
      (∃ e, (Entry.read .block).run p = (.error e, q)) ∧ Progresses 1 (Entry.read .statement) q ∧
      ∃ tree r, (Entry.read .statement).run q = (.ok tree, r) ∧
        q.start.offset < r.start.offset := by
  intro t s
  have hroom : t.content.size + 3 < addressLimit - 1 := by decide
  have hread : ((Parser.ofSource s 4).toOption.any fun p =>
      !((Entry.read .block).run p).1.isOk &&
        ((Entry.read .statement).run ((Entry.read .block).run p).2).1.isOk) = true := by
    decide +kernel
  obtain ⟨p, hp, hread⟩ := exists_ok_of_any hread
  simp only [Bool.and_eq_true, Bool.not_eq_true'] at hread
  obtain ⟨hfails, hreads⟩ := hread
  rcases hblock : (Entry.read .block).run p with ⟨e | block, q⟩
  · rw [hblock] at hreads
    have hreached : Reached s 4 ((Entry.read .block).run p).2 := (Reached.start hp).read .block
    rw [hblock] at hreached
    have hprogress : Progresses 1 (Entry.read .statement) q :=
      (t.readings_progress t.chunks hroom (InChunks.start t 2) hreached).1 .statement
    refine ⟨hroom, p, q, hp, ⟨e, hblock⟩, hprogress, ?_⟩
    rcases hrun : (Entry.read .statement).run q with ⟨e' | tree, r⟩
    · rw [hrun] at hreads
      cases hreads
    · unfold Progresses at hprogress
      rw [hrun] at hprogress
      exact ⟨tree, r, rfl, hprogress⟩
  · rw [hblock] at hfails
    cases hfails

/-- A statement is read, and the parser is where it was. -/
def stalls (p : Parser Chunked) : Bool :=
  let (result, q) := (Entry.read .statement).run p
  result.isOk && decide (q.start.offset = p.start.offset)

/-- Of a source that cannot be read to its end, a look at what follows may lead to a failed load,
and the way back to the token leads to an earlier place then. Here, a statement ends at the offset
where it starts, and says that it was read. -/
theorem readings_stall_unreadable :
    let s := Chunked.ofReader
      { content := utf8Bytes "x       <         yy;a<b;      ", failsAt := some 30 } "unreadable" 20
    ∃ p tree q, Reached s 4 p ∧ (Entry.read .statement).run p = (.ok tree, q) ∧
      ¬Progresses 1 (Entry.read .statement) p ∧ q.start.offset = p.start.offset := by
  intro s
  have hread : ((Parser.ofSource s 4).toOption.any fun p =>
      stalls ((Entry.read .statement).run p).2) = true := by decide +kernel
  obtain ⟨p, hp, hread⟩ := exists_ok_of_any hread
  have hreached : Reached s 4 ((Entry.read .statement).run p).2 :=
    (Reached.start hp).read .statement
  have hstalls : stalls ((Entry.read .statement).run p).2 = true := hread
  generalize ((Entry.read .statement).run p).2 = q at hreached hstalls
  unfold stalls at hstalls
  rcases hrun : (Entry.read .statement).run q with ⟨e | tree, r⟩
  · rw [hrun] at hstalls
    cases hstalls
  · rw [hrun] at hstalls
    have hstays : r.start.offset = q.start.offset := of_decide_eq_true hstalls
    refine ⟨q, tree, r, hreached, hrun, fun hprogress => ?_, hstays⟩
    unfold Progresses at hprogress
    rw [hrun] at hprogress
    have hless : q.start.offset + 1 ≤ r.start.offset := hprogress
    omega

end Text

end ScriptFront
