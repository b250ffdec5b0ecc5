import ScriptFront.Proofs.Lexing.Layouts
import ScriptFront.Proofs.Lexing.Literals
import ScriptFront.Proofs.Lexing.Sessions
import ScriptFront.Proofs.Unspaced.Tokens

/-!
# Tokens can be separated

What the lexer takes for a token is a token by itself: in front of a blank it is taken again,
whatever stood behind it before. So the tokens of a text can be written with other white space and
other comments between them, also where nothing stood between two of them.

- `Takes.scanBlank`: one token in front of a blank.
- `Filler`: white space and complete comments.
- `Listed`: the tokens of a text and what stands between them.
- `Text.Sliced`: the bytes that the lexer takes for each token.
- `Text.tokens_separable`: the tokens of a text, separated.
-/

namespace ScriptFront

open Walker

-- What a reading comes to is told by the rules; nothing is to be run to find out.
attribute [local irreducible] Ends

/-! ## Tokens in front of a blank -/

section Blank

variable {w : Walker Buffer} {slice rest tail : List UInt8} {b : UInt8}

/-- No lexeme goes on with a blank. -/
theorem atStop_blank (hb : isBlank b) (tail : List UInt8) : AtStop (b :: tail) :=
  Replaces.mem_stops (.inl hb)

/-- No class without white space goes on with a blank. -/
theorem apart_blank (hb : isBlank b) {inClass : UInt8 → Bool} (hclass : stops.any inClass = false) :
    Apart inClass (b :: tail) :=
  none_of_any hclass b (atStop_blank hb tail)

namespace Lexes

variable {lexeme : TokenKind × String} {text : String}

/-- What is taken for a token spells it. -/
theorem spells (h : Lexes lexeme slice rest) : Spells lexeme.1 lexeme.2 slice rest := by
  obtain ⟨v, hrun, hv⟩ := h.scans
  have hfront := rest_ofBytes (slice ++ rest)
  have hopens := h.opens
  obtain ⟨c, more, rfl⟩ := List.exists_cons_of_ne_nil h.ne_nil
  rw [List.cons_append, Takes.opensToken] at hopens
  simp only [Bool.and_eq_true, Bool.not_eq_true'] at hopens
  obtain ⟨taken, hpasses, hspells⟩ := Ends.ok (Ends.scan hfront hopens.1.1) hrun
  have hsplit := hfront.symm.trans hpasses.rest_eq
  rw [hv] at hsplit hspells
  rw [List.append_cancel_right hsplit]
  exact hspells

/-- No comment begins where a blank follows. -/
theorem opens_blank (h : Lexes lexeme slice rest) (hb : isBlank b) :
    Takes.opensToken (slice ++ b :: tail) := by
  have hopens := h.opens
  obtain ⟨c, more, rfl⟩ := List.exists_cons_of_ne_nil h.ne_nil
  cases more with
  | cons d more => exact hopens
  | nil =>
    have hslash : b ≠ byteOf '/' := by
      rintro rfl
      exact absurd hb (by decide)
    have hstar : b ≠ byteOf '*' := by
      rintro rfl
      exact absurd hb (by decide)
    rw [List.cons_append, Takes.opensToken] at hopens
    simp only [Bool.and_eq_true, Bool.not_eq_true'] at hopens
    show (!isBlank c && !(c = byteOf '/' && b = byteOf '/') &&
      !(c = byteOf '/' && b = byteOf '*')) = true
    rw [hopens.1.1, decide_eq_false hslash, decide_eq_false hstar, Bool.and_false]
    rfl

/-- Only shorter symbols stand in front of a blank, so the symbol itself is found. -/
theorem atFront?_blank (s : Symbol) (hb : isBlank b) (hw : w.rest = s.bytes ++ b :: tail) :
    Symbol.atFront? w.front = some s := by
  have hs : s.bytes <+: w.rest := hw ▸ List.prefix_append _ _
  obtain ⟨t, hfound, hlongest⟩ := atFront?_front hs
  have ht := (Ends.isPrefix_lookAhead t _).1 (Symbol.atFront?_eq_some hfound).1
  rw [hw] at ht
  have hshort := Local.isPrefix_of_stop (atStop_blank hb tail) s.bytes_ne_nil ht
  obtain rfl : t = s := by
    refine Symbol.bytes_injective (hshort.eq_of_length ?_)
    exact Nat.le_antisymm hshort.length_le (hlongest s hs)
  exact hfound

/-- A number is taken in front of a blank. -/
theorem takes_numeral {kind : TokenKind} {text : String} (h : Numeral kind text slice)
    (hb : isBlank b) (hw : w.rest = slice ++ b :: tail) :
    Takes Lexer.scan w slice.length (kind, text) := by
  obtain ⟨c, more, hslice, hc⟩ := h.cons
  have hcons : w.rest = c :: (more ++ b :: tail) := by rw [hw, hslice, List.cons_append]
  have hletter : ¬isLetter c := by grind [isLetter, isDigit]
  have happart : Apart isNumberByte (b :: tail) := apart_blank hb (by decide)
  have hread := NumberRead.of_numeral h happart
  have hlongest := hread.longestNumeral
  rw [← hw] at hlongest
  obtain ⟨v, hrun, hv⟩ := ((Lexer.decides_number hcons hc).accepts _ _).2 hlongest
  refine ⟨v, ?_, hv.further⟩
  rw [run_scan_cons hcons, if_neg hletter, if_pos hc]
  exact hrun

/-- The marks around a string are there in front of anything but a quotation mark. -/
theorem encloses (h : Lexes (.string, text) slice rest) :
    ∃ mark, slice = mark ++ textBytes text ++ mark ∧
      (tail[0]?.getD endByte ≠ Lexer.doubleQuote → Encloses mark (textBytes text) tail) := by
  obtain ⟨v, hrun, hv⟩ := h.scans
  obtain ⟨mark, hmark, hslice⟩ := h.spells.written
  have hcons : ∃ more, slice ++ rest = Lexer.doubleQuote :: more := by
    simp only [List.mem_cons, List.not_mem_nil, or_false] at hmark
    rcases hmark with rfl | rfl
    · exact ⟨_, by rw [hslice]; rfl⟩
    · exact ⟨_, by rw [hslice]; rfl⟩
  obtain ⟨more, hmore⟩ := hcons
  have hrest := (rest_ofBytes (slice ++ rest)).trans hmore
  rw [run_scan_cons hrest, if_neg (by decide), if_neg (by decide), if_neg (by decide),
    if_pos rfl] at hrun
  obtain ⟨mark', text', hlexeme, hpasses, hencloses⟩ := Ends.ok (Ends.enclosedText hrest) hrun
  obtain rfl : text = text' := (Prod.mk.inj hlexeme).2
  have hsplit := (rest_ofBytes (slice ++ rest)).symm.trans hpasses.rest_eq
  rw [hv] at hsplit
  refine ⟨mark', List.append_cancel_right hsplit, fun htail => ?_⟩
  exact hencloses.imp (fun ⟨hone, hline, _⟩ => ⟨hone, hline, fun _ => htail⟩) id

/-- A token is taken again in front of a blank, whatever stood behind it. -/
theorem before_blank (h : Lexes lexeme slice rest) (hb : isBlank b) :
    Lexes lexeme slice (b :: tail) := by
  have hspells := h.spells
  have hopens : Takes.opensToken (slice ++ b :: tail) := h.opens_blank hb
  have hrest := rest_ofBytes (slice ++ b :: tail)
  -- It is enough that the scanner takes as many bytes.
  have of_takes (htakes : ∀ w : Walker Buffer, w.rest = slice ++ b :: tail →
      Takes Lexer.scan w slice.length lexeme) : Lexes lexeme slice (b :: tail) := by
    obtain ⟨v, hrun, hfurther⟩ := htakes _ hrest
    exact ⟨hopens, v, hrun, hfurther.rest_append hrest rfl⟩
  obtain ⟨kind, text⟩ := lexeme
  have hwritten := hspells.written
  cases hspells.wellFormed with
  | mark s =>
    obtain rfl : slice = s.bytes := hwritten.trans (Takes.bytes_mark s)
    refine of_takes fun w hw => ?_
    obtain ⟨v, hrun, hv⟩ := run_symbol_of_front (atFront?_blank s hb hw)
    exact ⟨v, (run_scan_of_symbol (hw ▸ List.prefix_append _ _)).trans hrun, hv.further⟩
  | word k =>
    obtain rfl : slice = (Lexeme.word k).bytes := hwritten
    exact Lexes.word k (apart_blank hb (by decide))
  | name hname =>
    obtain rfl : slice = (Lexeme.name text).bytes := hwritten
    exact Lexes.name hname (apart_blank hb (by decide))
  | @integer form _ _ =>
    have hnumeral := Ends.numeral_of_spells hspells (.inl ⟨form, rfl⟩)
    exact of_takes fun w hw => takes_numeral hnumeral hb hw
  | @real form _ _ =>
    have hnumeral := Ends.numeral_of_spells hspells (.inr ⟨form, rfl⟩)
    exact of_takes fun w hw => takes_numeral hnumeral hb hw
  | character htext =>
    obtain rfl : slice = (Lexeme.mk .character text).bytes :=
      hwritten.trans (Takes.bytes_character text).symm
    refine of_takes fun w hw => ?_
    have hcons : w.rest = Lexer.quote :: (textBytes text ++ [Lexer.quote] ++ b :: tail) := by
      rw [hw, Takes.bytes_character]
      rfl
    have htakes := Takes.character htext hw
    refine Takes.notAtEnd hcons (Takes.current hcons ?_)
    exact Takes.ifFalse (by decide) (Takes.ifFalse (by decide) (Takes.ifTrue rfl htakes))
  | string htext =>
    obtain ⟨mark, rfl, hmark⟩ := h.encloses
    have hencloses : Encloses mark (textBytes text) (b :: tail) := hmark fun hquote => by
      obtain rfl : b = Lexer.doubleQuote := hquote
      exact absurd hb (by decide)
    refine of_takes fun w hw => ?_
    have hcons : ∃ more, w.rest = Lexer.doubleQuote :: more := by
      rw [hw]
      rcases hencloses with ⟨rfl, -⟩ | ⟨rfl, -⟩
      · exact ⟨_, rfl⟩
      · exact ⟨_, rfl⟩
    obtain ⟨more, hcons⟩ := hcons
    have htakes := Takes.stringLiteral hencloses hw
    refine Takes.notAtEnd hcons (Takes.current hcons ?_)
    exact Takes.ifFalse (by decide) (Takes.ifFalse (by decide) (Takes.ifFalse (by decide)
      (Takes.ifTrue rfl htakes)))

end Lexes

end Blank

/-! ## Tokens and what stands between them -/

/-- White space and complete comments, whatever stands behind them: a comment to the end of a line
has its newline. -/
inductive Filler : List UInt8 → Prop where
  | nil : Filler []
  | blank {b : UInt8} {gap : List UInt8} (hb : isBlank b) (hgap : Filler gap) : Filler (b :: gap)
  | line {body gap : List UInt8} (hbody : newline ∉ body) (hgap : Filler gap) :
    Filler (lineCommentOpen ++ body ++ newline :: gap)
  | block {body gap : List UInt8} (hbody : isCommentBody body) (hgap : Filler gap) :
    Filler (commentOpen ++ body ++ commentClose ++ gap)

/-- What may be put between two tokens: a filler that begins with a blank. -/
def Separator (gap : List UInt8) : Prop := Filler gap ∧ ∃ b more, gap = b :: more ∧ isBlank b

theorem Filler.trivia {gap : List UInt8} (h : Filler gap) (rest : List UInt8) :
    Trivia gap rest := by
  induction h with
  | nil => exact .nil rest
  | blank hb hgap ih => exact .blank hb ih
  | line hbody hgap ih =>
    refine .line hbody ?_ (.blank rfl ih)
    intro b hb
    exact (Option.some.inj hb).symm
  | block hbody hgap ih => exact .block hbody ih

/-- The bytes of tokens, with something in front of the first one and something behind each. -/
def weave (first : List UInt8) (slices gaps : List (List UInt8)) : List UInt8 :=
  first ++ (List.zipWith (· ++ ·) slices gaps).flatten

/-- The tokens of a text, each with its bytes, and nothing but white space and comments between
them. -/
inductive Listed : List UInt8 → List ((TokenKind × String) × List UInt8) → Prop where
  | finished {gap : List UInt8} (hgap : Trivia gap []) : Listed gap []
  | token {gap slice rest : List UInt8} {lexeme : TokenKind × String}
    {pieces : List ((TokenKind × String) × List UInt8)} (hgap : Trivia gap (slice ++ rest))
    (hslice : Lexes lexeme slice rest) (hmore : Listed rest pieces) :
    Listed (gap ++ (slice ++ rest)) ((lexeme, slice) :: pieces)

/-- A token without its place. -/
def Token.lexeme (token : Token) : TokenKind × String := (token.kind, token.text)

namespace Listed

variable {bytes : List UInt8} {pieces : List ((TokenKind × String) × List UInt8)}
    {w : Walker Buffer}

/-- Every token takes a byte. -/
theorem length_le (h : Listed bytes pieces) : pieces.length ≤ bytes.length := by
  induction h with
  | finished hgap => exact Nat.zero_le _
  | token hgap hslice hmore ih =>
    have hpos := List.length_pos_iff.2 hslice.ne_nil
    rw [List.length_append, List.length_append, List.length_cons]
    omega

/-- A text that lexes completely is listed. -/
theorem of_finishes (h : w.Finishes none) : ∃ pieces, Listed w.rest pieces := by
  generalize hending : none = ending at h
  induction h with
  | eof hnext hkind => exact ⟨[], .finished (trivia_of_eof hnext hkind)⟩
  | error hnext => cases hending
  | @token w v token ending hnext hkind hmore ih =>
    obtain ⟨gap, slice, mid, -, hgap, htrivia, hslice, hlexes⟩ := lexes_of_next hnext hkind
    obtain ⟨pieces, hpieces⟩ := ih hending
    rw [hgap.rest_eq, hslice.rest_eq]
    exact ⟨_, .token htrivia hlexes hpieces⟩

/-- The same tokens, with other things between them. -/
theorem separated (h : Listed bytes pieces) {first : List UInt8} (hfirst : Filler first)
    {gaps : List (List UInt8)} (hlength : gaps.length = pieces.length)
    (hgaps : ∀ gap ∈ gaps, Separator gap) :
    Listed (weave first (pieces.map Prod.snd) gaps) pieces := by
  induction h generalizing first gaps with
  | finished hgap =>
    rw [weave, List.map_nil, List.zipWith_nil_left, List.flatten_nil, List.append_nil]
    exact .finished (hfirst.trivia [])
  | @token gap slice rest lexeme pieces hgap hslice hmore ih =>
    cases gaps with
    | nil => nomatch hlength
    | cons second gaps =>
      obtain ⟨hsecond, b, more, rfl, hb⟩ := hgaps second List.mem_cons_self
      have hbehind := ih hsecond (Nat.succ.inj hlength) fun gap hgap =>
        hgaps gap (List.mem_cons_of_mem _ hgap)
      have hsplit : weave first (((lexeme, slice) :: pieces).map Prod.snd) ((b :: more) :: gaps) =
          first ++ (slice ++ weave (b :: more) (pieces.map Prod.snd) gaps) := by
        simp [weave]
      rw [hsplit]
      exact .token (hfirst.trivia _) (hslice.before_blank hb) hbehind

/-- The lexer takes these tokens, and then it is at the end of the text. -/
theorem runOnto (h : Listed w.rest pieces) {steps : Nat} (hsteps : pieces.length < steps)
    (taken : Array Token) : ∃ (tokens : List Token) (v : Walker Buffer),
      (Lexer.runOnto steps taken).run w = ((taken ++ tokens.toArray, none), v) ∧
        tokens.map Token.lexeme = pieces.map Prod.fst ++ [(.eof, Lexer.eofText)] := by
  generalize hw : w.rest = bytes at h
  induction h generalizing w steps taken with
  | @finished gap hgap =>
    obtain ⟨steps, rfl⟩ : ∃ k, steps = k + 1 := ⟨steps - 1, by omega⟩
    obtain ⟨mid, hskip, -, hrest⟩ := hgap.run_skip (hw.trans (List.append_nil gap).symm) (.inl rfl)
    have hnext := (run_next_of_skip hskip).trans (run_next_atEnd hrest)
    refine ⟨[⟨.eof, Lexer.eofText, mid.place.stored⟩], mid, ?_, rfl⟩
    rw [Lexer.runOnto_ok hnext, if_pos rfl]
    simp
  | @token gap slice rest lexeme pieces hgap hslice hmore ih =>
    obtain ⟨steps, rfl⟩ : ∃ k, steps = k + 1 := ⟨steps - 1, by omega⟩
    obtain ⟨mid, hskip, -, hmid⟩ := hgap.run_skip hw (.inr hslice.opens)
    obtain ⟨kind, text⟩ := lexeme
    obtain ⟨-, v, hrun, hv⟩ := hslice.run_next hmid
    have hnext := (run_next_of_skip hskip).trans hrun
    have hrest : v.rest = rest := hv.further.rest_append hmid rfl
    have hkind : kind ≠ .eof := by
      rintro rfl
      nomatch hslice.spells.wellFormed
    obtain ⟨tokens, u, hmore, hlexemes⟩ :=
      ih (Nat.lt_of_succ_lt_succ hsteps) (taken.push ⟨kind, text, mid.place.stored⟩) hrest
    refine ⟨⟨kind, text, mid.place.stored⟩ :: tokens, u, ?_, ?_⟩
    · rw [Lexer.runOnto_ok hnext, if_neg hkind, hmore]
      simp
    · rw [List.map_cons, hlexemes]
      rfl

end Listed

/-! ## Over every source -/

namespace Text

variable {σ τ : Type} [ByteSource σ] [ByteSource τ] {t t' : Text} {limit limit' : Nat}
  {shows : σ → Nat → Prop} {shows' : τ → Nat → Prop} {s : σ} {s' : τ}

/-- The bytes of a text from one place to another one. -/
def between (t : Text) (start stop : Place) : List UInt8 :=
  (t.content.toList.drop start.offset).take (stop.offset - start.offset)

/-- From `w` on, the lexer takes these tokens and then the one at the end of the text. Each of them
stands with its bytes: from where nothing more is skipped to where the lexer comes to. -/
inductive Sliced (t : Text) : Walker σ → List (Token × List UInt8) → Prop where
  | finished {w v : Walker σ} {token : Token} (hnext : Lexer.next.run w = (.ok token, v))
    (hkind : token.kind = .eof) : Sliced t w []
  | token {w mid v : Walker σ} {token : Token} {pieces : List (Token × List UInt8)}
    (hskip : Lexer.skip.run w = (.ok (), mid)) (hnext : Lexer.next.run w = (.ok token, v))
    (hkind : token.kind ≠ .eof) (hmore : Sliced t v pieces) :
    Sliced t w ((token, t.between mid.place v.place) :: pieces)

/-- What the lexer takes, token by token, is what it takes of the whole text. -/
theorem Sliced.runOnto {w : Walker σ} {pieces : List (Token × List UInt8)} (h : t.Sliced w pieces)
    {steps : Nat} (hsteps : pieces.length < steps) (taken : Array Token) :
    ∃ last v, last.kind = .eof ∧ (Lexer.runOnto steps taken).run w =
      ((taken ++ (pieces.map Prod.fst ++ [last]).toArray, none), v) := by
  induction h generalizing steps taken with
  | @finished w v token hnext hkind =>
    obtain ⟨steps, rfl⟩ : ∃ k, steps = k + 1 := ⟨steps - 1, by omega⟩
    refine ⟨token, v, hkind, ?_⟩
    rw [Lexer.runOnto_ok hnext, if_pos hkind]
    simp
  | @token w mid v token pieces hskip hnext hkind hmore ih =>
    obtain ⟨steps, rfl⟩ : ∃ k, steps = k + 1 := ⟨steps - 1, by omega⟩
    obtain ⟨last, u, hlast, hrun⟩ := ih (Nat.lt_of_succ_lt_succ hsteps) (taken.push token)
    refine ⟨last, u, hlast, ?_⟩
    rw [Lexer.runOnto_ok hnext, if_neg hkind, hrun]
    simp

/-- A text is sliced in one way. -/
theorem Sliced.unique {w : Walker σ} {pieces pieces' : List (Token × List UInt8)}
    (h : t.Sliced w pieces) (h' : t.Sliced w pieces') : pieces = pieces' := by
  induction h generalizing pieces' with
  | finished hnext hkind =>
    cases h' with
    | finished hnext' hkind' => rfl
    | token hskip' hnext' hkind' hmore' =>
      rw [hnext] at hnext'
      cases hnext'
      exact absurd hkind hkind'
  | token hskip hnext hkind hmore ih =>
    cases h' with
    | finished hnext' hkind' =>
      rw [hnext] at hnext'
      cases hnext'
      exact absurd hkind' hkind
    | token hskip' hnext' hkind' hmore' =>
      rw [hskip] at hskip'
      rw [hnext] at hnext'
      cases hskip'
      cases hnext'
      rw [ih hmore']

/-- The bytes between two places on the way through the text are those passed. -/
theorem between_eq {origin w v : Walker Buffer} {bytes : List UInt8}
    (horigin : origin.source.content = t.content) (hw : origin.SameText w) (h : w.Passes bytes v) :
    t.between w.place v.place = bytes := by
  have hrest : t.content.toList.drop w.place.offset = bytes ++ v.rest := by
    rw [← horigin, ← hw.content_eq]
    exact h.rest_eq
  have hlength : v.place.offset - w.place.offset = bytes.length := by
    have hoffset : v.place.offset = w.place.offset + bytes.length := h.offset_eq
    omega
  rw [between, hrest, hlength]
  exact List.take_left

/-- The lexer takes the tokens that are listed of a text in one way, each with its bytes. -/
theorem sliced_of_listed {T : Twins σ Buffer} {origin b : Walker Buffer} {w : Walker σ}
    (horigin : origin.source.content = t.content) (hb : origin.SameText b) (h : T.beside 0 w b)
    {pieces : List ((TokenKind × String) × List UInt8)} (hlisted : Listed b.rest pieces) :
    ∃ pieces', t.Sliced w pieces' ∧
      pieces'.map (fun piece => (piece.1.lexeme, piece.2)) = pieces := by
  have place_eq {w : Walker σ} {b : Walker Buffer} (h : T.beside 0 w b) : w.place = b.place := by
    obtain ⟨n, -, hn⟩ := h
    exact hn.place_eq
  have next_eq {w : Walker σ} {b c : Walker Buffer} {token : Token} (h : T.beside 0 w b)
      (hnext : Lexer.next.run b = (.ok token, c)) :
      ∃ v, Lexer.next.run w = (.ok token, v) ∧ T.beside 0 v c := by
    obtain ⟨htoken, hbehind⟩ := Twins.next h
    rw [hnext] at htoken hbehind
    exact ⟨_, Prod.ext htoken.eq rfl, hbehind⟩
  generalize hrest : b.rest = bytes at hlisted
  induction hlisted generalizing w b with
  | @finished gap hgap =>
    obtain ⟨mid, hskip, -, hmid⟩ :=
      hgap.run_skip (hrest.trans (List.append_nil gap).symm) (.inl rfl)
    obtain ⟨v, hnext, -⟩ := next_eq h ((run_next_of_skip hskip).trans (run_next_atEnd hmid))
    exact ⟨[], .finished hnext rfl, rfl⟩
  | @token gap slice rest lexeme pieces hgap hslice hmore ih =>
    obtain ⟨mid, hskip, hsame, hmid⟩ := hgap.run_skip hrest (.inr hslice.opens)
    obtain ⟨kind, text⟩ := lexeme
    obtain ⟨-, c, hrun, hpasses⟩ := hslice.run_next hmid
    have hkind : kind ≠ .eof := by
      rintro rfl
      nomatch hslice.spells.wellFormed
    obtain ⟨hdone, hbeside⟩ := Twins.skip h
    rw [hskip] at hdone hbeside
    obtain ⟨v, hnext, hbehind⟩ := next_eq h ((run_next_of_skip hskip).trans hrun)
    have hsame' := hb.trans hsame
    obtain ⟨pieces', hsliced, rfl⟩ := ih (hsame'.trans hpasses.toSameText) hbehind
      (hpasses.further.rest_append hmid rfl)
    refine ⟨_, .token (Prod.ext hdone.eq rfl) hnext hkind hsliced, ?_⟩
    rw [List.map_cons, place_eq hbeside, place_eq hbehind, between_eq horigin hsame' hpasses]
    rfl

/-- The tokens of a text that is listed, over any source of it. -/
theorem tokenize_of_listed (hfaithful : t.Faithful limit shows) (hroom : t.content.size + 3 < limit)
    (hs : shows s 0) {pieces : List ((TokenKind × String) × List UInt8)}
    (h : Listed t.content.toList pieces) (tabWidth : UInt32) : ∃ tokens,
      (Lexer.tokenize.run (Walker.ofSource s tabWidth)).1 = .ok tokens ∧
        tokens.toList.map Token.lexeme = pieces.map Prod.fst ++ [(.eof, Lexer.eofText)] := by
  let T := besideMemory hfaithful hroom
  have hbeside : T.beside 0 (Walker.ofSource s tabWidth) (Walker.ofSource t.inMemory tabWidth) :=
    Twins.beside_ofSource hs t.inMemory_shows tabWidth
  have hsteps : pieces.length < t.content.size + 1 := Nat.lt_succ_of_le h.length_le
  obtain ⟨tokens, v, hrun, hlexemes⟩ :=
    Listed.runOnto (w := Walker.ofSource t.inMemory tabWidth) h hsteps #[]
  have htokenize := Lexer.run_tokenize (w := Walker.ofSource t.inMemory tabWidth) hrun
  refine ⟨tokens.toArray, ?_, hlexemes⟩
  rw [(Twins.tokenize hbeside).1.eq, htokenize]
  simp

/-- Where a text lexes completely, its tokens can be separated. Its slices can be written with any
white space and any complete comments between them, begun by a blank, with any in front of the first
one, and in any source: this lexes completely, to tokens of the same kinds and texts. -/
theorem tokens_separable (hfaithful : t.Faithful limit shows) (hroom : t.content.size + 3 < limit)
    (hs : shows s 0) {tabWidth : UInt32} {tokens : Array Token}
    (htokens : (Lexer.tokenize.run (Walker.ofSource s tabWidth)).1 = .ok tokens) :
    ∃ pieces, t.Sliced (Walker.ofSource s tabWidth) pieces ∧
      (∃ last, last.kind = .eof ∧ tokens.toList = pieces.map Prod.fst ++ [last]) ∧
      ∀ {τ : Type} [ByteSource τ] {t' : Text} {limit' : Nat} {shows' : τ → Nat → Prop} {s' : τ}
        (tabWidth' : UInt32) (first : List UInt8) (gaps : List (List UInt8)),
        t'.Faithful limit' shows' → t'.content.size + 3 < limit' → shows' s' 0 → Filler first →
          gaps.length = pieces.length → (∀ gap ∈ gaps, Separator gap) →
          t'.content.toList = weave first (pieces.map Prod.snd) gaps →
          ∃ tokens', (Lexer.tokenize.run (Walker.ofSource s' tabWidth')).1 = .ok tokens' ∧
            tokens'.toList.map Token.lexeme = tokens.toList.map Token.lexeme := by
  let T := besideMemory hfaithful hroom
  let origin := Walker.ofSource t.inMemory tabWidth
  have hbeside : T.beside 0 (Walker.ofSource s tabWidth) origin :=
    Twins.beside_ofSource hs t.inMemory_shows tabWidth
  -- In memory, the text lexes completely too.
  have hfinishes : origin.Finishes none := by
    have hmemory := htokens
    rw [(Twins.tokenize hbeside).1.eq] at hmemory
    obtain ⟨found, ending, v, hrun, hfinishes⟩ :=
      Walker.Finishes.of_runOnto (w := origin) (Nat.lt_succ_of_le origin.length_rest_le) #[]
    cases ending with
    | none => exact hfinishes
    | some ending =>
      rw [Lexer.run_tokenize (w := origin) hrun] at hmemory
      cases hmemory
  obtain ⟨_, hlisted⟩ := Listed.of_finishes hfinishes
  obtain ⟨pieces, hsliced, rfl⟩ := sliced_of_listed rfl (.refl origin) hbeside hlisted
  obtain ⟨tokens₁, htokens₁, hlexemes⟩ := tokenize_of_listed hfaithful hroom hs hlisted tabWidth
  obtain rfl : tokens₁ = tokens := Except.ok.inj (htokens₁.symm.trans htokens)
  refine ⟨pieces, hsliced, ?_, ?_⟩
  · have hsteps : pieces.length < (Walker.ofSource s tabWidth).extent + 1 := by
      have hlength := hlisted.length_le
      rw [hbeside.extent_eq]
      rw [List.length_map] at hlength
      exact Nat.lt_succ_of_le (Nat.le_trans hlength origin.length_rest_le)
    obtain ⟨last, v, hlast, hrun⟩ := hsliced.runOnto hsteps #[]
    rw [Lexer.run_tokenize (w := Walker.ofSource s tabWidth) hrun] at htokens
    refine ⟨last, hlast, ?_⟩
    rw [← Except.ok.inj htokens]
    simp
  · intro τ _ t' limit' shows' s' tabWidth' first gaps hfaithful' hroom' hs' hfirst hlength hgaps
      hcontent
    have hseparated := hlisted.separated hfirst (hlength.trans (List.length_map _).symm) hgaps
    have hslices : (pieces.map fun piece => (piece.1.lexeme, piece.2)).map Prod.snd =
        pieces.map Prod.snd := by rw [List.map_map]; rfl
    rw [hslices, ← hcontent] at hseparated
    obtain ⟨tokens', htokens', hlexemes'⟩ :=
      tokenize_of_listed hfaithful' hroom' hs' hseparated tabWidth'
    exact ⟨tokens', htokens', hlexemes'.trans hlexemes.symm⟩

/-- Two points between two digits, in chunks of two bytes: a real, a point and an integer. They stay
what they are with lines and comments between them. -/
theorem tokens_separable_points :
    let t : Text := ⟨"joined", utf8Bytes "1..2"⟩
    let t' : Text := ⟨"apart", utf8Bytes "/*..*/1.\n.\t//.\n2 "⟩
    let w := Walker.ofSource (t.inChunks 2) 8
    t.content.size + 3 < addressLimit - 1 ∧ t'.content.size + 3 < addressLimit - 1 ∧
      ∃ pieces tokens tokens', (Lexer.tokenize.run w).1 = .ok tokens ∧ tokens.size = 4 ∧
        t.Sliced w pieces ∧ pieces.map Prod.snd = [[49, 46], [46], [50]] ∧
        (Lexer.tokenize.run (Walker.ofSource (t'.inChunks 3) 4)).1 = .ok tokens' ∧
        tokens'.toList.map Token.lexeme = tokens.toList.map Token.lexeme := by
  intro t t' w
  have hroom : t.content.size + 3 < addressLimit - 1 := by decide
  have hroom' : t'.content.size + 3 < addressLimit - 1 := by decide
  have hlisted : Listed t.content.toList [((.real .fp64, "1."), [49, 46]),
      ((.symbol .dot, "."), [46]), ((.integer .i32, "2"), [50])] := by
    have hreal : Lexes (.real .fp64, "1.") [49, 46] [46, 50] :=
      .of_run rfl (by decide +kernel) (by decide +kernel)
    have hpoint : Lexes (.symbol .dot, ".") [46] [50] :=
      .of_run rfl (by decide +kernel) (by decide +kernel)
    have hinteger : Lexes (.integer .i32, "2") [50] [] :=
      .of_run rfl (by decide +kernel) (by decide +kernel)
    exact .token (.nil _) hreal
      (.token (.nil _) hpoint (.token (.nil _) hinteger (.finished (.nil _))))
  obtain ⟨tokens, htokens, hlexemes⟩ :=
    tokenize_of_listed t.chunks hroom (InChunks.start t 2) hlisted 8
  obtain ⟨pieces, hsliced, -, hseparable⟩ :=
    tokens_separable t.chunks hroom (InChunks.start t 2) htokens
  -- The slices are those that are listed.
  let T := besideMemory t.chunks hroom
  let b := Walker.ofSource t.inMemory 8
  have hcontents : b.source.content = t.content := rfl
  have hbeside : T.beside 0 w b := Twins.beside_ofSource (InChunks.start t 2) t.inMemory_shows 8
  have hrest : Listed b.rest _ := hlisted
  obtain ⟨pieces', hsliced', hpieces⟩ := sliced_of_listed hcontents (.refl b) hbeside hrest
  obtain rfl := hsliced.unique hsliced'
  have hslices : pieces.map Prod.snd = [[49, 46], [46], [50]] := by
    have hmap := congrArg (List.map Prod.snd) hpieces
    rwa [List.map_map] at hmap
  have hlength : pieces.length = 3 := by
    have hmap := congrArg List.length hslices
    rwa [List.length_map] at hmap
  have hcontent : t'.content.toList = weave [47, 42, 46, 46, 42, 47] (pieces.map Prod.snd)
      [[10], [9, 47, 47, 46, 10], [32]] := by
    rw [hslices]
    decide
  have hfirst : Filler [47, 42, 46, 46, 42, 47] := @Filler.block [46, 46] [] (by decide) .nil
  have hgaps : ∀ gap ∈ [[10], [9, 47, 47, 46, 10], [32]], Separator gap := by
    have hline : Filler [47, 47, 46, 10] := @Filler.line [46] [] (by decide) .nil
    simp only [List.forall_mem_cons]
    refine ⟨⟨.blank rfl .nil, _, _, rfl, rfl⟩, ⟨.blank rfl hline, _, _, rfl, rfl⟩,
      ⟨.blank rfl .nil, _, _, rfl, rfl⟩, by simp⟩
  obtain ⟨tokens', htokens', hsame⟩ := hseparable 4 _ [[10], [9, 47, 47, 46, 10], [32]]
    t'.chunks hroom' (InChunks.start t' 3) hfirst hlength.symm hgaps hcontent
  refine ⟨hroom, hroom', pieces, tokens, tokens', htokens, ?_, hsliced, hslices, htokens', hsame⟩
  have hcount := congrArg List.length hlexemes
  rwa [List.length_map, Array.length_toList] at hcount

end Text

end ScriptFront
