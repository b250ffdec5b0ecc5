import ScriptFront.Proofs.Lexing.Yields

/-!
# Where tokens start

A reading that cuts symbols in two sees tokens that the lexer alone does not. Each of them starts
where a token of the lexer starts, or inside of a symbol of the lexer.

- `Walker.Comes`: where the lexer comes to, token by token.
- `Walker.Strays`: a walker that the lexer comes to, or that is in a run of symbols behind one.
- `Walker.Strays.cases`: such a walker is between two tokens or inside of a symbol.
- `Walker.Strays.next`: tokens lead from such walkers to such walkers.
-/

namespace ScriptFront

namespace Walker

-- What a reading comes to is told by the rules; nothing is to be run to find out.
attribute [local irreducible] Ends

variable {origin w v u : Walker Buffer} {token : Token}

/-! ## Between two tokens -/

/-- Skipping and taking token by token, the lexer comes to a walker. -/
inductive Comes (origin : Walker Buffer) : Walker Buffer → Prop where
  | here : Comes origin origin
  | skip {w v : Walker Buffer} (h : Comes origin w) (hskip : Lexer.skip.run w = (.ok (), v)) :
    Comes origin v
  | next {w v : Walker Buffer} {token : Token} (h : Comes origin w)
    (hnext : Lexer.next.run w = (.ok token, v)) (hkind : token.kind ≠ .eof) : Comes origin v

/-- What the lexer yields from a walker on that it comes to, it yields from the start on. -/
theorem Comes.yields (h : Comes origin w) (hw : Yields token w) : Yields token origin := by
  induction h with
  | here => exact hw
  | skip h hskip ih => exact ih (.of_next_eq (run_next_of_skip hskip) hw)
  | next h hnext hkind ih => exact ih (.later hnext hkind hw)

/-- White space and comments that are skipped are passed. -/
theorem Skips.passes {gap : List UInt8} (h : w.Skips w.place gap v) : w.Passes gap v :=
  ⟨h.toSameText, h.rest_eq, h.place_eq⟩

theorem passes_of_skip (h : Lexer.skip.run w = (.ok (), v)) : ∃ gap, w.Passes gap v := by
  obtain ⟨gap, hgap, -⟩ := Ends.ok (Ends.skip w) h
  exact ⟨gap, hgap.passes⟩

theorem passes_of_next (h : Lexer.next.run w = (.ok token, v)) : ∃ bytes, w.Passes bytes v := by
  obtain ⟨gap, slice, mid, hmid, hslice, -⟩ := Ends.ok (Ends.next w) h
  exact ⟨gap ++ slice, hmid.passes.trans hslice⟩

/-- The lexer passes all bytes on its way. -/
theorem Comes.passes (h : Comes origin w) : ∃ bytes, origin.Passes bytes w := by
  induction h with
  | here => exact ⟨[], .refl origin⟩
  | skip h hskip ih =>
    obtain ⟨bytes, hbytes⟩ := ih
    obtain ⟨gap, hgap⟩ := passes_of_skip hskip
    exact ⟨bytes ++ gap, hbytes.trans hgap⟩
  | next h hnext hkind ih =>
    obtain ⟨bytes, hbytes⟩ := ih
    obtain ⟨more, hmore⟩ := passes_of_next hnext
    exact ⟨bytes ++ more, hbytes.trans hmore⟩

/-- The lexer passes all bytes in front of an error, which is told where the fault is. -/
theorem Finishes.passes {ending : Option (LexError × Place)} {e : LexError} {place : Place}
    (h : origin.Finishes ending) (hending : ending = some (e, place)) :
    ∃ bytes w, origin.Passes bytes w ∧ e.fault.At w.rest ∧ e.place = w.place.stored := by
  induction h with
  | eof hnext hkind => cases hending
  | error hnext =>
    cases hending
    obtain ⟨gap, hgap, hfault, hplace⟩ := stopped_of_next hnext
    exact ⟨gap, _, hgap.passes, hfault, hplace⟩
  | token hnext hkind hmore ih =>
    obtain ⟨bytes, w, hbytes, hfault, hplace⟩ := ih hending
    obtain ⟨front, hfront⟩ := passes_of_next hnext
    exact ⟨front ++ bytes, w, hfront.trans hbytes, hfault, hplace⟩

/-- Where a walker is that has passed bytes from the start of a text on. -/
theorem Passes.of_start {content : Bytes} {name : String} {tabWidth : UInt32} {bytes : List UInt8}
    (h : (Walker.ofSource (Buffer.ofBytes content name) tabWidth).Passes bytes w) :
    w.place.offset ≤ content.size ∧ w.rest = content.toList.drop w.place.offset ∧
      w.place = Place.start.afterAll tabWidth (content.toList.take w.place.offset) := by
  have hrest : content.toList = bytes ++ w.rest := h.rest_eq
  have hplace : w.place = Place.start.afterAll tabWidth bytes := h.place_eq
  have hoffset : w.place.offset = bytes.length := by
    rw [hplace, Place.offset_afterAll]
    exact Nat.zero_add _
  refine ⟨?_, ?_, ?_⟩
  · rw [hoffset, ← Array.length_toList, hrest, List.length_append]
    exact Nat.le_add_right _ _
  · rw [hoffset, hrest, List.drop_left]
  · rw [hoffset, hrest, List.take_left]
    exact hplace

/-! ## Inside of a symbol -/

/-- The walker stands behind some bytes of a symbol that the lexer comes to, and in front of
others. -/
structure Inside (origin w : Walker Buffer) (token : Token) (symbol : Symbol)
    (front back : List UInt8) : Prop where
  yields : Yields token origin
  kind_eq : token.kind = symbol
  bytes_eq : symbol.bytes = front ++ back
  class_eq : ∀ c ∈ symbol.bytes, isRunByte c
  front_ne : front ≠ []
  back_ne : back ≠ []
  passes : ∃ v : Walker Buffer, token.place = v.place.stored ∧ v.Passes front w
  rest_eq : back <+: w.rest

/-! ## In a run of symbols -/

/-- The lexer comes to the walker, or to one in front of it with nothing in between but bytes of the
symbols that are ever cut. -/
def Strays (origin w : Walker Buffer) : Prop :=
  ∃ v run, Comes origin v ∧ v.Passes run w ∧ ∀ c ∈ run, isRunByte c

namespace Strays

theorem of_comes (h : Comes origin w) : Strays origin w :=
  ⟨w, [], h, .refl w, nofun⟩

theorem passes (h : Strays origin w) : ∃ bytes, origin.Passes bytes w := by
  obtain ⟨v, run, hv, hrun, -⟩ := h
  obtain ⟨bytes, hbytes⟩ := hv.passes
  exact ⟨bytes ++ run, hbytes.trans hrun⟩

theorem sameText (h : Strays origin w) : origin.SameText w := by
  obtain ⟨bytes, hbytes⟩ := h.passes
  exact hbytes.toSameText

/-- Further on in the run. -/
theorem further {more : List UInt8} (h : Strays origin w) (hpasses : w.Passes more u)
    (hmore : ∀ c ∈ more, isRunByte c) : Strays origin u := by
  obtain ⟨v, run, hv, hrun, hclass⟩ := h
  refine ⟨v, run ++ more, hv, hrun.trans hpasses, fun c hc => ?_⟩
  exact (List.mem_append.1 hc).elim (hclass c) (hmore c)

/-- Such a walker is one that the lexer comes to, or it is inside of a symbol. -/
theorem cases (h : Strays origin w) :
    Comes origin w ∨ ∃ token symbol front back, Inside origin w token symbol front back := by
  obtain ⟨v, run, hv, hpasses, hclass⟩ := h
  induction hlength : run.length using Nat.strongRecOn generalizing v run with
  | ind length ih =>
    cases run with
    | nil =>
      rw [eq_of_place hpasses.toSameText hpasses.place_eq]
      exact .inl hv
    | cons b more =>
      -- The run begins with a symbol of the lexer, which ends in the run or goes on behind it.
      have hrest := hpasses.rest_eq
      rw [List.cons_append] at hrest
      obtain ⟨-, s, v', hnext, hv', hbytes⟩ := run_next_runByte hrest (hclass b List.mem_cons_self)
      have hsplit := hv'.rest_eq
      rw [hpasses.rest_eq] at hsplit
      rcases List.append_eq_append_iff.1 hsplit with ⟨back, hback, hleft⟩ | ⟨left, hwhole, hleft⟩
      · cases back with
        | nil =>
          rw [List.append_nil] at hback
          have hsame : w = v' := by
            refine eq_of_place (hv'.toSameText.symm.trans hpasses.toSameText) ?_
            rw [hpasses.place_eq, hv'.place_eq, hback]
          rw [hsame]
          exact .inl (hv.next hnext nofun)
        | cons c back =>
          refine .inr ⟨_, s, b :: more, c :: back, hv.yields (.here hnext), rfl, hback, hbytes,
            nofun, nofun, ⟨v, rfl, hpasses⟩, ?_⟩
          rw [hleft]
          exact List.prefix_append (c :: back) v'.rest
      · have hmore : v'.Passes left w := by
          rw [hwhole] at hpasses
          exact hpasses.cancel hv'
        have hless : left.length < length := by
          have htotal := congrArg List.length hwhole
          have hpos := List.length_pos_iff.2 s.bytes_ne_nil
          rw [List.length_append] at htotal
          omega
        refine ih left.length hless v' left (hv.next hnext nofun) hmore
          (fun c hc => hclass c ?_) rfl
        rw [hwhole]
        exact List.mem_append_right _ hc

/-- Skipping leads to where the next token starts, and taking it leads behind it. -/
theorem next (h : Strays origin w) (hskip : Lexer.skip.run w = (.ok (), v)) :
    Strays origin v ∧ ∀ token u, Lexer.next.run v = (.ok token, u) → Strays origin u := by
  rcases h.cases with hcomes | ⟨_, symbol, front, back, hinside⟩
  · have hv := hcomes.skip hskip
    refine ⟨.of_comes hv, fun token u hnext => ?_⟩
    by_cases hkind : token.kind = .eof
    · -- Behind the end of the text the lexer does not move.
      have hsettled := settled_of_skip hskip
      have hrest := rest_of_settled_eof (settled_of_skip hskip) hnext hkind
      rw [run_next_atEnd hrest] at hnext
      obtain ⟨-, rfl⟩ := Prod.mk.inj hnext
      exact .of_comes hv
    · exact .of_comes (hv.next hnext hkind)
  · obtain ⟨c, back', hback⟩ := List.exists_cons_of_ne_nil hinside.back_ne
    have hc : isRunByte c := by
      refine hinside.class_eq c ?_
      rw [hinside.bytes_eq, hback]
      exact List.mem_append_right _ List.mem_cons_self
    obtain ⟨tail, htail⟩ := hinside.rest_eq
    rw [hback, List.cons_append] at htail
    obtain ⟨hsettled, s, u', hnext', hpasses, hbytes⟩ := run_next_runByte htail.symm hc
    rw [run_skip_of_settled hsettled] at hskip
    obtain ⟨-, rfl⟩ := Prod.mk.inj hskip
    refine ⟨h, fun token u hnext => ?_⟩
    rw [hnext'] at hnext
    obtain ⟨-, rfl⟩ := Prod.mk.inj hnext
    exact h.further hpasses hbytes

end Strays

end Walker

end ScriptFront
