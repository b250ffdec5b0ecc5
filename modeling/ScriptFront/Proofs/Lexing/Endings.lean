import ScriptFront.Proofs.Lexing.Accounts

/-!
# How a text ends

From every byte on, the tokens of a text end at an error or at the end of the text. A reading that
goes to a place of the text and asks for tokens there comes to the end that it would have come to
anyway, if the place is between two tokens, and also if it is inside of a run of the symbols that
are ever cut in two.

- `Walker.Finishes`: how the tokens from a walker on end.
- `Walker.Finishes.of_runOnto`: that is how the lexer ends.
- `Walker.realigned`: inside of a run of symbols it makes no difference where to start.
-/

namespace ScriptFront

open Walker

-- What a reading comes to is told by the rules; nothing is to be run to find out.
attribute [local irreducible] Ends

namespace Walker

variable {w v u : Walker Buffer} {token : Token} {e : LexError}

/-! ## Single steps -/

/-- A walker is told by its text and its place. -/
theorem eq_of_place (h : w.SameText v) (hplace : v.place = w.place) : v = w := by
  have hw := run_reset h
  rw [← hplace, run_reset (.refl v)] at hw
  exact (Prod.mk.inj hw).2

/-- Nothing is to be skipped in front of the walker. -/
def Settled (w : Walker Buffer) : Prop := w.rest = [] ∨ Takes.opensToken w.rest

theorem run_skip_of_settled (h : w.Settled) : Lexer.skip.run w = (.ok (), w) := by
  have htakes : Takes Lexer.skip w 0 () := by
    rcases h with hnil | hopens
    · exact Takes.skip_atEnd hnil
    · exact Takes.skip (.inl rfl) hopens rfl
  obtain ⟨v, hrun, hfurther⟩ := htakes
  obtain ⟨gap, hv, -⟩ := Ends.ok (Ends.skip w) hrun
  have hgap : gap = [] := by
    have hrest := hv.rest_eq
    rw [hfurther.rest_eq, List.drop_zero] at hrest
    exact List.self_eq_append_left.1 hrest
  have hplace : v.place = w.place := by
    rw [hv.place_eq, hgap]
    rfl
  rw [hrun, eq_of_place hv.toSameText hplace]

theorem settled_of_skip (h : Lexer.skip.run w = (.ok (), v)) : v.Settled := by
  obtain ⟨gap, -, hsettled⟩ := Ends.ok (Ends.skip w) h
  exact hsettled

/-- What has been skipped need not be skipped again. -/
theorem run_next_of_skip (h : Lexer.skip.run w = (.ok (), v)) :
    Lexer.next.run w = Lexer.next.run v := by
  unfold Lexer.next
  rw [run_bind_ok h, run_bind_ok (run_skip_of_settled (settled_of_skip h))]

theorem run_next_of_skip_error (h : Lexer.skip.run w = (.error e, v)) :
    Lexer.next.run w = (.error e, v) := by
  unfold Lexer.next
  rw [run_bind_error h]

/-- Where nothing is to be skipped, the next token is the lexeme that stands there. -/
theorem run_next_settled (hw : w.Settled) :
    Lexer.next.run w = match Lexer.scan.run w with
      | (.ok (kind, text), v) => (.ok ⟨kind, text, w.place.stored⟩, v)
      | (.error fault, v) =>
        (.error ⟨fault, w.place.stored⟩, ((Walker.reset w.place).run v).2) := by
  unfold Lexer.next
  rw [run_bind_ok (run_skip_of_settled hw), run_get_bind]
  dsimp only
  rcases hscan : Lexer.scan.run w with ⟨fault | ⟨kind, text⟩, v⟩ <;>
  · rw [run_lift_bind (show StateT.run Lexer.scan.run w = _ from hscan)]
    rfl

theorem token_of_next (hw : w.Settled) (h : Lexer.next.run w = (.ok token, v)) :
    token.place = w.place.stored ∧ Lexer.scan.run w = (.ok (token.kind, token.text), v) := by
  rw [run_next_settled hw] at h
  rcases hscan : Lexer.scan.run w with ⟨fault | ⟨kind, text⟩, u⟩
  · rw [hscan] at h
    cases h
  · rw [hscan] at h
    cases h
    exact ⟨rfl, rfl⟩

theorem sameText_of_next (h : Lexer.next.run w = (.ok token, v)) : w.SameText v := by
  obtain ⟨gap, slice, mid, hmid, hslice, -, -⟩ := Ends.ok (Ends.next w) h
  exact hmid.toSameText.trans hslice.toSameText

theorem stopped_of_next (h : Lexer.next.run w = (.error e, v)) : Ends.Stopped w e v := by
  have hnext := Ends.next w
  unfold Ends at hnext
  rw [h] at hnext
  exact hnext

theorem position_of_stopped (h : Ends.Stopped w e v) : w.source.position ≤ v.source.position := by
  obtain ⟨gap, hv, -, -⟩ := h
  have hoffset := congrArg Place.offset hv.place_eq
  rw [Place.offset_afterAll] at hoffset
  exact Nat.le.intro hoffset.symm

/-- Every token but the last takes a byte. -/
theorem position_of_next (h : Lexer.next.run w = (.ok token, v)) (hkind : token.kind ≠ .eof) :
    w.source.position < v.source.position := by
  obtain ⟨gap, slice, mid, hmid, hslice, -, hend | hspells⟩ := Ends.ok (Ends.next w) h
  · exact absurd hend.1 hkind
  · have hoffset := congrArg Place.offset hmid.place_eq
    rw [Place.offset_afterAll] at hoffset
    have hmid' : mid.source.position = w.source.position + gap.length := hoffset
    have hpos := List.length_pos_iff.2 hspells.slice_ne_nil
    rw [hslice.offset_eq, hmid']
    omega

/-- Behind the last token nothing is left. -/
theorem rest_of_eof (h : Lexer.next.run w = (.ok token, v)) (hkind : token.kind = .eof) :
    v.rest = [] := by
  obtain ⟨gap, slice, mid, hmid, hslice, -, hend | hspells⟩ := Ends.ok (Ends.next w) h
  · obtain ⟨-, -, rfl, hrest⟩ := hend
    have hnil := hslice.rest_eq
    rw [hrest] at hnil
    exact hnil.symm
  · rw [hkind] at hspells
    nomatch hspells.wellFormed

theorem run_next_atEnd (h : w.rest = []) :
    Lexer.next.run w = (.ok ⟨.eof, Lexer.eofText, w.place.stored⟩, w) := by
  obtain ⟨v, hscan, hfurther⟩ := Takes.scan_atEnd h
  have hnext := run_next_settled (.inl h)
  rw [hscan] at hnext
  rw [hnext]
  obtain ⟨gap, slice, mid, hmid, hslice, -, -⟩ := Ends.ok (Ends.next w) hnext
  have hrest := hmid.rest_eq
  rw [h, hslice.rest_eq] at hrest
  obtain ⟨rfl, hnil⟩ := List.append_eq_nil_iff.1 hrest.symm
  obtain ⟨rfl, -⟩ := List.append_eq_nil_iff.1 hnil
  have hplace : v.place = w.place := by
    rw [hslice.place_eq, hmid.place_eq]
    rfl
  rw [eq_of_place (hmid.toSameText.trans hslice.toSameText) hplace]

/-- Where nothing is to be skipped, the text spells the token. -/
theorem lexed_of_next (hw : w.Settled) (h : Lexer.next.run w = (.ok token, v))
    (hkind : token.kind ≠ .eof) :
    ∃ slice, w.Passes slice v ∧ Spells token.kind token.text slice v.rest := by
  have hscan := (token_of_next hw h).2
  rcases hw with hnil | hopens
  · rw [run_next_atEnd hnil] at h
    cases h
    exact absurd rfl hkind
  · cases hrest : w.rest with
    | nil =>
      rw [hrest] at hopens
      cases hopens
    | cons b tail =>
      rw [hrest, Takes.opensToken] at hopens
      simp only [Bool.and_eq_true, Bool.not_eq_true'] at hopens
      exact Ends.ok (Ends.scan hrest hopens.1.1) hscan

/-- Where a token starts of which there is nothing, the text is at its end. -/
theorem rest_of_settled_eof (hw : w.Settled) (h : Lexer.next.run w = (.ok token, v))
    (hkind : token.kind = .eof) : w.rest = [] := by
  have hscan := (token_of_next hw h).2
  rcases hw with hnil | hopens
  · exact hnil
  · cases hrest : w.rest with
    | nil => rfl
    | cons b tail =>
      rw [hrest, Takes.opensToken] at hopens
      simp only [Bool.and_eq_true, Bool.not_eq_true'] at hopens
      obtain ⟨slice, -, hspells⟩ := Ends.ok (Ends.scan hrest hopens.1.1) hscan
      rw [hkind] at hspells
      cases hspells.wellFormed

/-- A symbol is written as it is. -/
theorem passes_of_symbol {s : Symbol} (hw : w.Settled) (h : Lexer.next.run w = (.ok token, v))
    (hkind : token.kind = s) : w.Passes s.bytes v := by
  obtain ⟨slice, hpasses, hspells⟩ := lexed_of_next hw h (by rw [hkind]; nofun)
  rw [hkind] at hspells
  have hwritten : slice = textBytes token.text := hspells.written
  have hbytes : slice = s.bytes := by
    rw [hwritten, ← Takes.bytes_mark s]
    generalize token.text = text at hspells
    cases hspells.wellFormed with
    | mark => rfl
  rw [← hbytes]
  exact hpasses

/-! ## Endings -/

/-- The tokens from `w` on end at the end of the text, or at an error, which is found at a place. -/
inductive Finishes : Walker Buffer → Option (LexError × Place) → Prop where
  | eof {w v : Walker Buffer} {token : Token} (h : Lexer.next.run w = (.ok token, v))
    (hkind : token.kind = .eof) : Finishes w none
  | error {w v : Walker Buffer} {e : LexError} (h : Lexer.next.run w = (.error e, v)) :
    Finishes w (some (e, v.place))
  | token {w v : Walker Buffer} {token : Token} {ending : Option (LexError × Place)}
    (h : Lexer.next.run w = (.ok token, v)) (hkind : token.kind ≠ .eof)
    (hmore : Finishes v ending) : Finishes w ending

namespace Finishes

variable {ending : Option (LexError × Place)} {place : Place}

theorem of_next_eq (h : Lexer.next.run w = Lexer.next.run v) (hv : v.Finishes ending) :
    w.Finishes ending := by
  cases hv with
  | eof hnext hkind => exact .eof (h.trans hnext) hkind
  | error hnext => exact .error (h.trans hnext)
  | token hnext hkind hmore => exact .token (h.trans hnext) hkind hmore

theorem atEnd (h : w.rest = []) : w.Finishes none := .eof (run_next_atEnd h) rfl

theorem of_error (hw : w.Finishes ending) (h : Lexer.next.run w = (.error e, v)) :
    ending = some (e, v.place) := by
  cases hw with
  | eof hnext hkind =>
    rw [h] at hnext
    cases hnext
  | error hnext =>
    rw [h] at hnext
    cases hnext
    rfl
  | token hnext hkind hmore =>
    rw [h] at hnext
    cases hnext

/-- Behind a token, the text ends as it does in front of it. -/
theorem behind (hw : w.Finishes ending) (h : Lexer.next.run w = (.ok token, v)) :
    v.Finishes ending := by
  cases hw with
  | eof hnext hkind =>
    rw [h] at hnext
    cases hnext
    exact atEnd (rest_of_eof h hkind)
  | error hnext =>
    rw [h] at hnext
    cases hnext
  | token hnext hkind hmore =>
    rw [h] at hnext
    cases hnext
    exact hmore

/-- There is no error behind the last token. -/
theorem of_eof (hw : w.Finishes ending) (h : Lexer.next.run w = (.ok token, v))
    (hkind : token.kind = .eof) : ending = none := by
  cases hw with
  | eof hnext hkind => rfl
  | error hnext =>
    rw [h] at hnext
    cases hnext
  | token hnext hkind' hmore =>
    rw [h] at hnext
    cases hnext
    exact absurd hkind hkind'

/-- The tokens of a text end in one way. -/
theorem unique {ending' : Option (LexError × Place)} (h : w.Finishes ending)
    (h' : w.Finishes ending') : ending' = ending := by
  induction h with
  | eof hnext hkind => exact h'.of_eof hnext hkind
  | error hnext => exact h'.of_error hnext
  | token hnext hkind hmore ih => exact ih (h'.behind hnext)

/-- An error is told at the place where it is found, which is further on. -/
theorem place_eq (hw : w.Finishes ending) (hending : ending = some (e, place)) :
    e.place = place.stored ∧ w.source.position ≤ place.offset := by
  induction hw with
  | eof hnext hkind => cases hending
  | error hnext =>
    cases hending
    have hstopped := stopped_of_next hnext
    obtain ⟨gap, hv, hfault, hplace⟩ := id hstopped
    exact ⟨hplace, position_of_stopped hstopped⟩
  | token hnext hkind hmore ih =>
    obtain ⟨hplace, hle⟩ := ih hending
    exact ⟨hplace, Nat.le_trans (Nat.le_of_lt (position_of_next hnext hkind)) hle⟩

/-- The lexer comes to how a text ends. -/
theorem of_runOnto {steps : Nat} (hsteps : w.rest.length < steps) (taken : Array Token) :
    ∃ tokens ending v, (Lexer.runOnto steps taken).run w = ((tokens, ending.map Prod.fst), v) ∧
      w.Finishes ending := by
  induction steps generalizing w taken with
  | zero => exact absurd hsteps (Nat.not_lt_zero _)
  | succ steps ih =>
    rcases hrun : Lexer.next.run w with ⟨e | token, v⟩
    · exact ⟨taken, some (e, v.place), v, Lexer.runOnto_error hrun, .error hrun⟩
    · have hopen : (Lexer.runOnto (steps + 1) taken).run w = _ := Lexer.runOnto_ok hrun
      by_cases hkind : token.kind = .eof
      · refine ⟨taken.push token, none, v, ?_, .eof hrun hkind⟩
        rw [hopen, if_pos hkind]
        rfl
      · have hsame := sameText_of_next hrun
        have hless := position_of_next hrun hkind
        have hleft := v.length_rest
        have hleft' := w.length_rest
        rw [hsame.content_eq] at hleft
        obtain ⟨tokens, ending, u, hmore, hending⟩ :=
          ih (w := v) (by omega) (taken.push token)
        refine ⟨tokens, ending, u, ?_, .token hrun hkind hending⟩
        rw [hopen, if_neg hkind]
        exact hmore

end Finishes

/-! ## Symbols -/

/-- The first byte tells the scanner. -/
theorem run_scan_cons {b : UInt8} {tail : List UInt8} (hrest : w.rest = b :: tail) :
    Lexer.scan.run w = (if isLetter b then Lexer.word else if isDigit b then Lexer.number
      else if b = Lexer.quote then Lexer.characterLiteral
      else if b = Lexer.doubleQuote then Lexer.stringLiteral
      else Lexer.symbol : Scan Buffer (TokenKind × String)).run w := by
  have hend : (walk Walker.atEnd : Scan Buffer Bool).run w = (.ok false, w) := by
    show (Except.ok (Walker.atEnd.run w).1, (Walker.atEnd.run w).2) = _
    rw [run_atEnd, hrest]
    rfl
  have hfirst : (walk Walker.current : Scan Buffer UInt8).run w = (.ok b, w) := by
    show (Except.ok ((Walker.read 0).run w).1, ((Walker.read 0).run w).2) = _
    rw [run_read, hrest]
    rfl
  unfold Lexer.scan
  rw [run_bind_ok hend]
  exact run_bind_ok hfirst

/-- Neither a letter nor a digit nor a quote begins a symbol. -/
theorem run_scan_of_symbol {s : Symbol} (hs : s.bytes <+: w.rest) :
    Lexer.scan.run w = Lexer.symbol.run w := by
  obtain ⟨b, more, hbytes, hb⟩ := Takes.bytes_mark_cons s
  obtain ⟨tail, htail⟩ := hs
  rw [hbytes] at htail
  simp only [Bool.or_eq_false_iff, decide_eq_false_iff_not] at hb
  obtain ⟨⟨⟨hletter, hdigit⟩, hquote⟩, hdouble⟩ := hb
  rw [run_scan_cons htail.symm, if_neg (Bool.eq_false_iff.1 hletter),
    if_neg (Bool.eq_false_iff.1 hdigit), if_neg hquote, if_neg hdouble]

/-- The three bytes that tell which symbols stand in front. -/
def front (w : Walker Buffer) : List UInt8 :=
  [w.rest[0]?.getD endByte, w.rest[1]?.getD endByte, w.rest[2]?.getD endByte]

theorem run_front (w : Walker Buffer) :
    (walk (Lexer.lookAt 3 0) : Scan Buffer (List UInt8)).run w = (.ok w.front, w) := by
  show (Except.ok ((Lexer.lookAt 3 0).run w).1, ((Lexer.lookAt 3 0).run w).2) = _
  rw [Ends.run_lookAt]
  rfl

/-- The symbol that is found is taken. -/
theorem run_symbol_of_front {s : Symbol} (hfound : Symbol.atFront? w.front = some s) :
    ∃ v, Lexer.symbol.run w = (.ok (.symbol s, s.spelling), v) ∧ w.Passes s.bytes v := by
  obtain ⟨tail, htail⟩ := (Ends.isPrefix_lookAhead s _).1 (Symbol.atFront?_eq_some hfound).1
  unfold Lexer.symbol
  rw [run_bind_ok (run_front w), Symbol.classify_eq, hfound]
  exact ⟨_, rfl, Ends.passes_advanceBy htail.symm⟩

/-- A symbol that is taken is one that was found. -/
theorem front_of_run_symbol {lexeme : TokenKind × String}
    (hrun : Lexer.symbol.run w = (.ok lexeme, v)) : ∃ s, Symbol.atFront? w.front = some s := by
  cases hfound : Symbol.atFront? w.front with
  | none =>
    unfold Lexer.symbol at hrun
    rw [run_bind_ok (run_front w), Symbol.classify_eq, hfound] at hrun
    cases hrun
  | some s => exact ⟨s, rfl⟩

/-- Where a symbol stands, the longest one that stands there is found. -/
theorem atFront?_front {t : Symbol} (ht : t.bytes <+: w.rest) :
    ∃ s, Symbol.atFront? w.front = some s ∧
      ∀ t : Symbol, t.bytes <+: w.rest → t.bytes.length ≤ s.bytes.length := by
  cases hfound : Symbol.atFront? w.front with
  | none => exact absurd ((Ends.isPrefix_lookAhead t _).2 ht) (Symbol.atFront?_eq_none hfound t)
  | some s =>
    refine ⟨s, rfl, fun t ht => ?_⟩
    exact (Symbol.atFront?_eq_some hfound).2 t ((Ends.isPrefix_lookAhead t _).2 ht)

/-- Where a symbol stands, the longest one that stands there is taken. -/
theorem run_scan_symbol {t : Symbol} (ht : t.bytes <+: w.rest) :
    ∃ s v, Lexer.scan.run w = (.ok (.symbol s, s.spelling), v) ∧ w.Passes s.bytes v ∧
      ∀ t : Symbol, t.bytes <+: w.rest → t.bytes.length ≤ s.bytes.length := by
  obtain ⟨s, hfound, hlongest⟩ := atFront?_front ht
  obtain ⟨v, hrun, hpasses⟩ := run_symbol_of_front hfound
  exact ⟨s, v, (run_scan_of_symbol ht).trans hrun, hpasses, hlongest⟩

/-- Where a symbol stands and no comment, the next token is the longest symbol. -/
theorem run_next_symbol {t : Symbol} (ht : t.bytes <+: w.rest) (hw : w.Settled) :
    ∃ s v, Lexer.next.run w = (.ok ⟨.symbol s, s.spelling, w.place.stored⟩, v) ∧
      w.Passes s.bytes v ∧
      ∀ t : Symbol, t.bytes <+: w.rest → t.bytes.length ≤ s.bytes.length := by
  obtain ⟨s, v, hscan, hpasses, hlongest⟩ := run_scan_symbol ht
  refine ⟨s, v, ?_, hpasses, hlongest⟩
  rw [run_next_settled hw, hscan]

/-! ## Runs of symbols -/

/-- The bytes of the symbols that are ever cut. -/
def isRunByte (b : UInt8) : Bool := b = byteOf '>' || b = byteOf '=' || b = byteOf '|'

/-- A symbol that begins with such a byte has no others. -/
theorem isRunByte_of_mem {s : Symbol} {b : UInt8} {more : List UInt8} (h : s.bytes = b :: more)
    (hb : isRunByte b) : ∀ c ∈ s.bytes, isRunByte c := by
  have hall : (s.bytes.head?.all fun b => !isRunByte b) || s.bytes.all isRunByte := by
    cases s <;> decide
  rw [h] at hall
  simp only [List.head?_cons, Option.all_some, hb, Bool.not_true, Bool.false_or] at hall
  rw [h]
  exact List.all_eq_true.1 hall

/-- Each such byte is a symbol. -/
theorem exists_symbol {b : UInt8} (hb : isRunByte b) : ∃ s : Symbol, s.bytes = [b] := by
  simp only [isRunByte, Bool.or_eq_true, decide_eq_true_eq] at hb
  rcases hb with (rfl | rfl) | rfl
  · exact ⟨.gt, rfl⟩
  · exact ⟨.eq, rfl⟩
  · exact ⟨.pipe, rfl⟩

/-- In front of a byte of a run of symbols, nothing is to be skipped, and the next token is a symbol
of such bytes. -/
theorem run_next_runByte {b : UInt8} {tail : List UInt8} (hrest : w.rest = b :: tail)
    (hb : isRunByte b) :
    w.Settled ∧ ∃ s v, Lexer.next.run w = (.ok ⟨.symbol s, s.spelling, w.place.stored⟩, v) ∧
      w.Passes s.bytes v ∧ ∀ c ∈ s.bytes, isRunByte c := by
  obtain ⟨t, ht⟩ := exists_symbol hb
  have hprefix : t.bytes <+: w.rest := by
    rw [ht, hrest]
    exact List.prefix_append [b] tail
  have hsettled : w.Settled := by
    right
    rw [hrest]
    refine Takes.opensToken_of_ne _ ?_ ?_
    · grind [isRunByte, isBlank]
    · rintro rfl
      exact absurd hb (by decide)
  obtain ⟨s, v, hnext, hpasses, -⟩ := run_next_symbol hprefix hsettled
  obtain ⟨c, front, hbytes⟩ := List.exists_cons_of_ne_nil s.bytes_ne_nil
  refine ⟨hsettled, s, v, hnext, hpasses, isRunByte_of_mem hbytes ?_⟩
  have hsplit := hpasses.rest_eq
  rw [hrest, hbytes] at hsplit
  rw [← (List.cons.inj hsplit).1]
  exact hb

/-- A token that begins inside of a run ends inside of it. -/
theorem run_next_inRun {b : UInt8} {more tail : List UInt8} (hrest : w.rest = b :: more ++ tail)
    (hrun : ∀ c ∈ b :: more, isRunByte c) (htail : Apart isRunByte tail) :
    ∃ s v left, Lexer.next.run w = (.ok ⟨.symbol s, s.spelling, w.place.stored⟩, v) ∧
      b :: more = s.bytes ++ left ∧ w.Passes s.bytes v ∧ v.rest = left ++ tail := by
  obtain ⟨-, s, v, hnext, hpasses, hclass⟩ := run_next_runByte hrest (hrun b List.mem_cons_self)
  have hsplit := hpasses.rest_eq
  rw [hrest] at hsplit
  rcases List.append_eq_append_iff.1 hsplit with ⟨beyond, hbeyond, hleft⟩ | ⟨left, hwhole, hleft⟩
  · -- What goes beyond the run would go on with it.
    cases beyond with
    | nil =>
      refine ⟨s, v, [], hnext, ?_, hpasses, ?_⟩
      · rw [hbeyond, List.append_nil, List.append_nil]
      · exact hleft.symm
    | cons c beyond =>
      have hc : isRunByte c := hclass c (by rw [hbeyond]; simp)
      rw [Apart, hleft] at htail
      have hc' : isRunByte c = false := htail
      rw [hc] at hc'
      cases hc'
  · exact ⟨s, v, left, hnext, hwhole, hpasses, hleft⟩

namespace Passes

/-- Of two walks over a text, the longer one goes on where the shorter one ends. -/
theorem cancel {xs ys : List UInt8} (h : w.Passes (xs ++ ys) u) (hv : w.Passes xs v) :
    v.Passes ys u where
  toSameText := hv.toSameText.symm.trans h.toSameText
  rest_eq := by
    have hsplit := h.rest_eq
    rw [hv.rest_eq, List.append_assoc] at hsplit
    exact List.append_cancel_left hsplit
  place_eq := by rw [h.place_eq, hv.place_eq, hv.tabWidth_eq, Place.afterAll_append]

end Passes

/-- What no symbol of such bytes changes is so inside of a run exactly if it is so behind the
run. -/
theorem inRun {P : Walker Buffer → Prop}
    (hstep : ∀ {w v : Walker Buffer} {token : Token} {s : Symbol},
      Lexer.next.run w = (.ok token, v) → token.kind = s → (∀ c ∈ s.bytes, isRunByte c) →
        (P w ↔ P v))
    {run : List UInt8} (hrun : ∀ c ∈ run, isRunByte c) (hpasses : w.Passes run u)
    (htail : Apart isRunByte u.rest) : P w ↔ P u := by
  induction hlength : run.length using Nat.strongRecOn generalizing w run with
  | ind length ih =>
    cases run with
    | nil => rw [eq_of_place hpasses.toSameText hpasses.place_eq]
    | cons b more =>
      obtain ⟨s, v, left, hnext, hsplit, hv, -⟩ := run_next_inRun hpasses.rest_eq hrun htail
      have hmore : v.Passes left u := by
        rw [hsplit] at hpasses
        exact hpasses.cancel hv
      have hless : left.length < length := by
        have htotal := congrArg List.length hsplit
        have hpos := List.length_pos_iff.2 s.bytes_ne_nil
        rw [List.length_append] at htotal
        omega
      have hleft : ∀ c ∈ left, isRunByte c := by
        intro c hc
        refine hrun c ?_
        rw [hsplit]
        exact List.mem_append_right _ hc
      rw [← ih left.length hless hleft hmore rfl]
      refine hstep hnext rfl fun c hc => hrun c ?_
      rw [hsplit]
      exact List.mem_append_left _ hc

/-- What no symbol of such bytes changes is so behind some bytes of a run exactly if it is so in
front of them, wherever in the run they start. -/
theorem realigned {P : Walker Buffer → Prop}
    (hstep : ∀ {w v : Walker Buffer} {token : Token} {s : Symbol},
      Lexer.next.run w = (.ok token, v) → token.kind = s → (∀ c ∈ s.bytes, isRunByte c) →
        (P w ↔ P v))
    {bytes : List UInt8} (hbytes : ∀ c ∈ bytes, isRunByte c) (hpasses : w.Passes bytes v) :
    P w ↔ P v := by
  have hend : isRunByte endByte = false := rfl
  obtain ⟨run, u, -, hbehind, hrun, htail⟩ := Ends.collect hend (Nat.le_refl v.rest.length) #[]
  rw [inRun hstep hrun hbehind htail]
  refine inRun hstep ?_ (hpasses.trans hbehind) htail
  exact fun c hc => (List.mem_append.1 hc).elim (hbytes c) (hrun c)

/-- A text ends as it does behind some bytes of a run, wherever in the run these start. -/
theorem Finishes.realigned {ending : Option (LexError × Place)} {bytes : List UInt8}
    (hbytes : ∀ c ∈ bytes, isRunByte c) (hpasses : w.Passes bytes v) (hv : v.Finishes ending) :
    w.Finishes ending := by
  refine (Walker.realigned (P := (Finishes · ending)) (fun hnext hkind _ => ?_) hbytes hpasses).2 hv
  exact ⟨fun h => h.behind hnext, .token hnext (by rw [hkind]; nofun)⟩

end Walker

end ScriptFront
