import ScriptFront.Proofs.Rewriting.SourceTypes
import ScriptFront.Proofs.Rewriting.Units

/-!
# Units are read back from what is written of them

Whatever a text is read as is in order everywhere, so all of its parts can be written and are read
back. A text that is written of a unit is thus a unit again, and the same one up to places.

- `Node.rewritten`: a tree that is in order everywhere is read back.
- `Course.tree_of_run`: a unit that is read from a text is in order everywhere.
- `Text.units_rewritten`: a unit that is read from a text is read back.
-/

namespace ScriptFront

open ScriptFront.Parser

-- What a reading comes to is told by the rules; nothing is to be run to find out.
attribute [local irreducible] Ends

/-! ## Trees -/

section Trees

variable {V : Vocabulary} {inTrait : Bool} {n : Node}

/-- What is known of all nodes of a tree holds everywhere in it. -/
theorem Node.Everywhere.writable (h : n.Everywhere (Node.Parsed V) inTrait)
    (hvoid : ∀ m : Node, m.Within n → m.NoVoidValue) : n.Everywhere (Node.Writable V) inTrait := by
  induction h with
  | intro here parts ih =>
    exact .intro ⟨here, hvoid _ .here⟩ fun m hm => ih m hm fun k hk => hvoid k (.part hm hk)

/-- Whether no `void` stands in the place of a value, where a tree is not deeper than `steps`. -/
def Node.lacksVoidValue : (steps : Nat) → Node → Bool
  | 0, _ => false
  | steps + 1, n =>
    (match n with
      | .expr ⟨_, .primitive value⟩ => !value.isVoid
      | _ => true) && n.parts.all (lacksVoidValue steps)

theorem Node.noVoidValue_of_lacks {steps : Nat} {m : Node} (h : n.lacksVoidValue steps)
    (hm : m.Within n) : m.NoVoidValue := by
  induction hm generalizing steps with
  | here =>
    cases steps with
    | zero => cases h
    | succ steps =>
      have hhere := (Bool.and_eq_true_iff.1 h).1
      cases m with
      | expr e =>
        rintro type hform
        obtain ⟨pos, form⟩ := e
        obtain rfl : form = .primitive type := hform
        rwa [Bool.not_eq_true'] at hhere
      | _ => trivial
  | @part k n hk _ ih =>
    cases steps with
    | zero => cases h
    | succ steps => exact ih (List.all_eq_true.1 (Bool.and_eq_true_iff.1 h).2 k hk)

/-- A parameter of a lambda whose type can be written can be written. -/
theorem LambdaParam.rewritten (hV : V.Writable) {p : LambdaParam}
    (here : (Node.lambdaParam p).Writable V inTrait)
    (parts : ∀ m ∈ (Node.lambdaParam p).parts, m.Rewritten inTrait) :
    (Node.lambdaParam p).Rewritten inTrait where
  name := hV.name here.spelled
  type t ht := ⟨parts (.type t) (by simp_all [Node.parts]), here.voidsPlaced t ht⟩

/-- A tree that is in order everywhere is read back. -/
theorem Node.rewritten (hV : V.Writable) (h : n.Everywhere (Node.Writable V) inTrait) :
    n.Rewritten inTrait := by
  induction h with
  | @intro inTrait n here parts ih =>
    have hparts (hn : n.isTraitBody = false) (m : Node) (hm : m ∈ n.parts) :
        m.Rewritten inTrait := by
      have hpart := ih m hm
      rw [hn, Bool.or_false] at hpart
      exact hpart
    cases n with
    | type t => exact t.written hV here fun s hs => hparts rfl (.type s) (List.mem_map_of_mem hs)
    | expr e => exact e.rewritten hV here (hparts rfl)
    | exprArm a => exact a.rewritten (hparts rfl)
    | newItem i => exact i.rewritten hV here (hparts rfl)
    | pattern p => exact p.rewritten hV here (hparts rfl)
    | fieldPattern f => exact f.rewritten hV here (hparts rfl)
    | block b => exact b.rewritten fun s hs => hparts rfl (.stmt s) (List.mem_map_of_mem hs)
    | stmt s => exact s.rewritten hV here (hparts rfl)
    | stmtArm a => exact a.rewritten (hparts rfl)
    | handler c => exact c.rewritten hV here (hparts rfl)
    | «variable» d => exact d.rewritten hV here (hparts rfl)
    | lambdaParam p => exact p.rewritten hV here (hparts rfl)
    | genericItem i => exact i.rewritten hV here (hparts rfl)
    | generics d => exact d.rewritten hV here (hparts rfl)
    | parameter d => exact d.rewritten hV here (hparts rfl)
    | classFunction d => exact d.rewritten hV here (hparts rfl)
    | fieldInit i => exact i.rewritten hV here (hparts rfl)
    | constructor d => exact d.rewritten hV here (hparts rfl)
    | destructor d => exact d.rewritten (hparts rfl)
    | «class» d => exact d.rewritten hV here (hparts rfl)
    | signature d => exact d.rewritten hV here (hparts rfl)
    | interface d => exact d.rewritten hV here (hparts rfl)
    | struct d => exact d.rewritten hV here (hparts rfl)
    | traitFunction d => exact d.rewritten hV here (hparts rfl)
    | traitBody forType functions =>
      refine Node.rewritten_traitBody hV here fun m hm => ?_
      have hpart := ih m hm
      rw [Node.isTraitBody, Bool.or_true] at hpart
      exact hpart
    | trait d => exact d.rewritten hV here (hparts rfl)
    | enumItem i => exact i.rewritten hV here (hparts rfl)
    | enum d => exact d.rewritten hV here (hparts rfl)
    | function d => exact d.rewritten hV here (hparts rfl)
    | declaration d => exact d.rewritten hV here (hparts rfl d.node (List.mem_singleton_self _))
    | «namespace» d => exact d.rewritten hV here (hparts rfl)
    | «include» d => exact d.rewritten hV here
    | unit u => exact u.rewritten (hparts rfl)

/-- A unit that is in order everywhere is read back from the text that is written of it. -/
theorem CodeUnit.reread (hV : V.Writable) {u : CodeUnit}
    (h : (Node.unit u).Everywhere (Node.Writable V) false) (tabWidth : UInt32) :
    ∃ u', Parser.run Parser.parseUnit
      (Buffer.ofString (writeLexemes (u.lexemes parenthesized)) u.sourceName) tabWidth = .ok u' ∧
        u'.unplaced = u.unplaced := by
  obtain ⟨hlegible, hread⟩ := Node.rewritten hV h
  let c : Setting := .ofText (writeLexemes (u.lexemes parenthesized)) u.sourceName
  have hunit : Parses c (u.lexemes parenthesized) Parser.parseUnit
      (Copies CodeUnit.unplaced u) [] :=
    Parses.boundedGrammar fun depth hdepth => hread c rfl rfl depth (by omega)
  exact hunit.run hlegible u.sourceName tabWidth

end Trees

/-! ## Texts -/

namespace Course

variable {C : Course}

/-- The words of a text can be written. -/
theorem writable_vocabulary :
    (C.supplyTo TypeExpr.IsOpen False).vocabulary.Writable where
  wellFormed h heof hsymbol := h.1 heof hsymbol
  firm := trivial
  source h := h

/-- A unit that is read from a text is in order everywhere. -/
theorem tree_of_run {b : Buffer} {tabWidth : UInt32}
    (horigin : C.origin = Walker.ofSource b tabWidth)
    {u : CodeUnit} (h : Parser.run (Entry.read .unit) b tabWidth = .ok u) :
    (C.supplyTo TypeExpr.IsOpen False).Tree false (.unit u) := by
  unfold Parser.run Parser.ofSource at h
  rw [← horigin] at h
  cases hp : Parser.ofWalker C.origin with
  | error e =>
    rw [hp] at h
    cases h
  | ok p =>
    rw [hp] at h
    have hfresh := C.start
    rw [hp] at hfresh
    have hstays : (C.supplyTo TypeExpr.IsOpen False).Stays false p :=
      ⟨⟨(served_of_start hp).sighted hfresh, nofun⟩, (Parser.next_of_ofWalker hp).2⟩
    have hread := Supply.entry not_false C.readsSources .unit p hstays
    have hrun : ((Entry.read .unit).run p).1 = .ok u := h
    unfold Supply.DeliversAt Ends at hread
    revert hread hrun
    rcases (Entry.read .unit).run p with ⟨e | tree, q⟩
    · exact fun _ hrun => nomatch hrun
    · rintro ⟨htree, -⟩ hrun
      cases hrun
      exact htree _ (List.mem_singleton_self _)

end Course

namespace Text

section

variable {σ : Type} [ByteSource σ] {t : Text} {limit : Nat} {shows : σ → Nat → Prop} {s : σ}

/-- Whatever unit is read from a faithful source of a text, without `void` in the place of a value,
the text that is written of it, with a blank between any two tokens and with parentheses around the
parts of expressions, is read as that unit again, up to places. -/
theorem units_rewritten (hfaithful : t.Faithful limit shows) (hroom : t.content.size + 3 < limit)
    (hs : shows s 0) (tabWidth : UInt32) {u : CodeUnit}
    (h : Parser.run (Entry.read .unit) s tabWidth = .ok u)
    (hvoid : ∀ n : Node, n.Within (.unit u) → n.NoVoidValue) (tabWidth' : UInt32) :
    ∃ u', Parser.run Parser.parseUnit
      (Buffer.ofString (writeLexemes (u.lexemes parenthesized)) u.sourceName) tabWidth' = .ok u' ∧
        u'.unplaced = u.unplaced := by
  let T := besideMemory hfaithful hroom
  have hb : T.right t.inMemory 0 := t.inMemory_shows
  obtain ⟨C, horigin, -⟩ := Course.ofWalker (Walker.ofSource t.inMemory tabWidth)
  rw [Twins.run_read (T := T) hs hb] at h
  have htree := Course.tree_of_run horigin h
  exact CodeUnit.reread Course.writable_vocabulary (htree.writable hvoid) tabWidth'

end

/-- A class with an interface before the name of a function, in chunks of two bytes. The variable is
written behind the function. -/
theorem units_rewritten_twoBytes :
    let t : Text :=
      ⟨"units", utf8Bytes
        "namespace n \x7b class A \x7b let y: i8; fn I.f() \x7b y = -y * 2; \x7d \x7d \x7d"⟩
    let s := t.inChunks 2
    t.content.size + 3 < addressLimit - 1 ∧ ∃ u, Parser.run (Entry.read .unit) s 4 = .ok u ∧
      (∀ n : Node, n.Within (.unit u) → n.NoVoidValue) ∧
      ∃ u', Parser.run Parser.parseUnit
        (Buffer.ofString (writeLexemes (u.lexemes parenthesized)) u.sourceName) 4 = .ok u' ∧
          u'.unplaced = u.unplaced := by
  intro t s
  have hroom : t.content.size + 3 < addressLimit - 1 := by decide +kernel
  have hread : ((Parser.run (Entry.read .unit) s 4).toOption.any fun u =>
      (Node.unit u).lacksVoidValue 20) = true := by decide +kernel
  obtain ⟨u, hunit, hread⟩ := exists_ok_of_any hread
  have hvoid (n : Node) (hn : n.Within (.unit u)) : n.NoVoidValue :=
    Node.noVoidValue_of_lacks hread hn
  exact ⟨hroom, u, hunit, hvoid,
    t.units_rewritten t.chunks hroom (InChunks.start t 2) 4 hunit hvoid 4⟩

/-- A unit with a lambda of which nothing is told, behind an operator. -/
def startsUntold : CodeUnit → Bool
  | ⟨_, _,
    [⟨_, _, _,
      [.variable ⟨_, _, _, _, _, _, some ⟨_, .binary _ _ ⟨_, .lambda _ _ inference _⟩⟩⟩]⟩]⟩ =>
    inference = .full
  | _ => false

/-- Of a source that cannot be read to its end, a failed load says that the text ends where the load
starts. Here looking at the next token behind the name of a parameter leads back into a comment, so
the lambda is read as one whose first parameter is typed, although that is variadic. The text that
is written of it is read as a lambda of which nothing is told. -/
theorem units_altered_unreadable :
    let content := utf8Bytes
      "namespace n\x7blet x=f</*...|\x7b\x7d;\x7d//*/|a:i8|\x7b\x7d;\x7d"
    let s := Chunked.ofReader { content, failsAt := some 41 } "unreadable" 22
    ∃ u, Parser.run (Entry.read .unit) s 4 = .ok u ∧
      (∀ n : Node, n.Within (.unit u) → n.NoVoidValue) ∧
      ∃ u', Parser.run Parser.parseUnit
        (Buffer.ofString (writeLexemes (u.lexemes parenthesized)) u.sourceName) 4 = .ok u' ∧
          u'.unplaced ≠ u.unplaced := by
  intro content s
  have hread : ((Parser.run (Entry.read .unit) s 4).toOption.any fun u =>
      (Node.unit u).lacksVoidValue 20 && !startsUntold u.unplaced &&
        (Parser.run Parser.parseUnit
          (Buffer.ofString (writeLexemes (u.lexemes parenthesized)) u.sourceName) 4).toOption.any
            fun u' => startsUntold u'.unplaced) = true := by decide +kernel
  obtain ⟨u, hunit, hread⟩ := exists_ok_of_any hread
  simp only [Bool.and_eq_true, Bool.not_eq_true'] at hread
  obtain ⟨⟨hvoid, htold⟩, hagain⟩ := hread
  obtain ⟨u', hu', hagain⟩ := exists_ok_of_any hagain
  refine ⟨u, hunit, fun n hn => Node.noVoidValue_of_lacks hvoid hn, u', hu', fun hsame => ?_⟩
  rw [hsame, htold] at hagain
  cases hagain

end Text

end ScriptFront
