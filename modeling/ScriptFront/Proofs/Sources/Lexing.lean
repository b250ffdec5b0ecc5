import ScriptFront.Lexer.Next
import ScriptFront.Proofs.Sources.Walks

/-!
# Lexers in step

Two walkers that correspond read the same tokens and stop at the same errors, and correspond
afterwards. Over one text, they never end up before the place where they began; that is why a place
taken down on the way can be gone back to.

- `Strides.scan`: a lexeme.
- `Strides.skip`, `Strides.next`: white space and comments, and one token.
- `Strides.run`, `Strides.tokenize`: all tokens.
- `Twins.next_atEnd`: the token behind the last byte.
-/

namespace ScriptFront

namespace Strides

variable {σ τ : Type} [ByteSource σ] [ByteSource τ] (S : Strides σ τ) {least : Nat}

/-! ## Numbers -/

theorem radixDigits (form : IntegerForm) (inClass : UInt8 → Bool) :
    Coupled (S.rel least) Eq (Lexer.radixDigits form inClass)
      (Lexer.radixDigits form inClass) := by
  refine (S.advanceBy 2).walk.bindEq fun _ => (S.takeWhile inClass).walk.bindEq fun digits => ?_
  exact .ite _ (.throw _) (.pure rfl)

theorem integerSize : Coupled (S.rel least) Eq Lexer.integerSize Lexer.integerSize := by
  refine S.current.walk.bindEq fun letter => .ite _ ?_ (.pure rfl)
  refine (S.read (by decide)).walk.bindEq fun second => ?_
  refine (S.read (by decide)).walk.bindEq fun third => ?_
  cases Lexer.sizeBits? second third with
  | some size => exact (S.advanceBy size.2).walk.bindEq fun _ => .pure rfl
  | none => exact .throw _

theorem realSize : Coupled (S.rel least) Eq Lexer.realSize Lexer.realSize :=
  S.current.walk.bindEq fun _ => .ite _ (S.advance.walk.bindEq fun _ => .pure rfl) (.pure rfl)

theorem decimal : Coupled (S.rel least) Eq Lexer.decimal Lexer.decimal := by
  refine (S.takeWhile isDigit).walk.bindEq fun whole => S.current.walk.bindEq fun byte => ?_
  refine .ite _ ?_ (S.integerSize.bindEq fun _ => .pure rfl)
  refine S.advance.walk.bindEq fun _ => (S.takeWhile isDigit).walk.bindEq fun _ => ?_
  exact S.realSize.bindEq fun _ => .pure rfl

theorem number : Coupled (S.rel least) Eq Lexer.number Lexer.number := by
  refine S.current.walk.bindEq fun first => (S.read (by decide)).walk.bindEq fun second => ?_
  exact .ite _ (S.radixDigits _ _) (.ite _ (S.radixDigits _ _) S.decimal)

/-! ## Characters and strings -/

theorem takeByte (fault : LexFault) (taken : Bytes) :
    Coupled (S.rel least) Eq (Lexer.takeByte fault taken) (Lexer.takeByte fault taken) :=
  S.atEnd.walk.bindEq fun _ => .ite _ (.throw _) (S.bump.walk.bindEq fun _ => .pure rfl)

theorem takeBytes (fault : LexFault) (count : Nat) (taken : Bytes) :
    Coupled (S.rel least) Eq (Lexer.takeBytes fault count taken)
      (Lexer.takeBytes fault count taken) := by
  induction count generalizing taken with
  | zero => exact .pure rfl
  | succ count ih => exact (S.takeByte fault taken).bindEq fun _ => ih _

theorem quotedText (fault : LexFault) (body : Bytes) :
    Coupled (S.rel least) Eq (Lexer.quotedText fault body) (Lexer.quotedText fault body) := by
  unfold Lexer.quotedText
  split
  · exact .pure rfl
  · exact .throw _

theorem characterLiteral :
    Coupled (S.rel least) Eq Lexer.characterLiteral Lexer.characterLiteral := by
  refine S.advance.walk.bindEq fun _ => S.atEnd.walk.bindEq fun _ => .ite _ (.throw _) ?_
  refine S.current.walk.bindEq fun lead => .ite _ (.throw _) ?_
  refine (S.takeBytes _ _ _).bindEq fun body => S.atEnd.walk.bindEq fun _ => .ite _ (.throw _) ?_
  refine S.current.walk.bindEq fun _ => .ite _ ?_ (.throw _)
  exact S.advance.walk.bindEq fun _ => (S.quotedText _ _).bindEq fun _ => .pure rfl

theorem lineString (steps : Nat) (taken : Bytes) :
    Coupled (S.rel least) Eq (Lexer.lineString steps taken)
      (Lexer.lineString steps taken) := by
  induction steps generalizing taken with
  | zero => exact .throw _
  | succ steps ih =>
    refine S.atEnd.walk.bindEq fun _ => .ite _ (.throw _) ?_
    refine S.current.walk.bindEq fun byte => .ite _ (.throw _) (.ite _ ?_ (.ite _ ?_ ?_))
    · exact S.advance.walk.bindEq fun _ => .pure rfl
    · exact (S.takeBytes _ _ _).bindEq fun _ => ih _
    · exact S.bump.walk.bindEq fun _ => ih _

theorem atTripleQuote :
    Paired (S.rel least) Eq Lexer.atTripleQuote Lexer.atTripleQuote := by
  refine (S.read (by decide)).bindEq fun _ => .ite _ (.pure rfl) ?_
  refine (S.read (by decide)).bindEq fun _ => .ite _ (.pure rfl) ?_
  exact (S.read (by decide)).bindEq fun _ => .pure rfl

theorem rawString (steps : Nat) (taken : Bytes) :
    Coupled (S.rel least) Eq (Lexer.rawString steps taken) (Lexer.rawString steps taken) := by
  induction steps generalizing taken with
  | zero => exact .throw _
  | succ steps ih =>
    refine S.atEnd.walk.bindEq fun _ => .ite _ (.throw _) ?_
    refine S.atTripleQuote.walk.bindEq fun _ => .ite _ ?_ (S.bump.walk.bindEq fun _ => ih _)
    exact (S.advanceBy 3).walk.bindEq fun _ => .pure rfl

theorem stringBody : Coupled (S.rel least) Eq Lexer.stringBody Lexer.stringBody := by
  refine Coupled.bind (V := S.rel least) (fun _ _ h => ⟨.ok h, h⟩) fun w v h => ?_
  rw [S.extent_eq h]
  refine S.advance.walk.bindEq fun _ => S.current.walk.bindEq fun _ => .ite _ ?_ (S.lineString _ _)
  refine S.advance.walk.bindEq fun _ => S.current.walk.bindEq fun _ => .ite _ ?_ (.pure rfl)
  exact S.advance.walk.bindEq fun _ => S.rawString _ _

theorem stringLiteral : Coupled (S.rel least) Eq Lexer.stringLiteral Lexer.stringLiteral :=
  S.stringBody.bindEq fun _ => (S.quotedText _ _).bindEq fun _ => .pure rfl

/-! ## What stands between tokens -/

theorem atCommentEnd : Paired (S.rel least) Eq Lexer.atCommentEnd Lexer.atCommentEnd := by
  refine S.current.bindEq fun _ => .ite _ ?_ (.pure rfl)
  exact (S.read (by decide)).bindEq fun _ => .pure rfl

/-- Where a state is taken down, both stand at one place, which can be gone back to. -/
theorem getPlace {ε α : Type} {V : α → α → Prop} {f : Walker σ → ExceptT ε (StateM (Walker σ)) α}
    {g : Walker τ → ExceptT ε (StateM (Walker τ)) α}
    (h : ∀ (w : Walker σ) (v : Walker τ), w.place = v.place → w.extent = v.extent →
      S.known least w.place → Coupled (S.rel least) V (f w) (g v)) :
    Coupled (S.rel least) V (get >>= f) (get >>= g) :=
  fun w v hR => h w v (S.place_eq hR) (S.extent_eq hR) (S.known_place hR) hR

theorem failAt {α : Type} {V : α → α → Prop} (fault : LexFault) {start : Place}
    (hknown : S.known least start) :
    Coupled (S.rel least) V (Lexer.failAt fault start : Lex σ α) (Lexer.failAt fault start) :=
  fun _ _ h => ⟨.error _, S.reset hknown h⟩

theorem closeComment {start : Place} (hknown : S.known least start) (steps : Nat) :
    Coupled (S.rel least) Eq (Lexer.closeComment start steps)
      (Lexer.closeComment start steps) := by
  induction steps with
  | zero => exact S.failAt _ hknown
  | succ steps ih =>
    refine S.atEnd.walk.bindEq fun _ => .ite _ (S.failAt _ hknown) ?_
    refine S.atCommentEnd.walk.bindEq fun _ => .ite _ (S.advanceBy 2).walk ?_
    exact S.advance.walk.bindEq fun _ => ih

theorem skipComment : Coupled (S.rel least) Eq Lexer.skipComment Lexer.skipComment := by
  refine S.getPlace fun w v hplace hextent hknown => ?_
  rw [← hplace, ← hextent]
  exact (S.advanceBy 2).walk.bindEq fun _ => S.closeComment hknown _

theorem skipUpTo (steps : Nat) :
    Coupled (S.rel least) Eq (Lexer.skipUpTo steps) (Lexer.skipUpTo steps) := by
  induction steps with
  | zero => exact .pure rfl
  | succ steps ih =>
    refine S.atEnd.walk.bindEq fun _ => .ite _ (.pure rfl) ?_
    refine S.current.walk.bindEq fun _ => (S.read (by decide)).walk.bindEq fun _ => ?_
    refine .ite _ ?_ (.ite _ ?_ (.ite _ ?_ (.pure rfl)))
    · exact S.advance.walk.bindEq fun _ => ih
    · exact S.skipLine.walk.bindEq fun _ => ih
    · exact S.skipComment.bindEq fun _ => ih

theorem skip : Coupled (S.rel least) Eq Lexer.skip Lexer.skip := by
  refine S.getPlace fun w v _ hextent _ => ?_
  rw [hextent]
  exact S.skipUpTo _

/-! ## Lexemes -/

theorem word : Coupled (S.rel least) Eq Lexer.word Lexer.word := by
  refine (S.takeWhile isWordByte).walk.bindEq fun bytes => ?_
  dsimp only
  split
  · exact .pure rfl
  · exact .pure rfl

theorem lookAt (count ahead : Nat) (h : ahead + count ≤ 4) :
    Paired (S.rel least) Eq (Lexer.lookAt count ahead) (Lexer.lookAt count ahead) := by
  induction count generalizing ahead with
  | zero => exact .pure rfl
  | succ count ih =>
    refine (S.read (by omega)).bindEq fun byte => ?_
    exact (ih (ahead + 1) (by omega)).bindEq fun _ => .pure rfl

theorem describeCurrent :
    Paired (S.rel least) Eq Lexer.describeCurrent Lexer.describeCurrent := by
  refine S.current.bindEq fun lead => .ite _ (.pure rfl) ?_
  refine (S.lookAt _ 0 (by simpa using Utf8.width_le lead)).bindEq fun bytes => ?_
  split
  · exact .pure rfl
  · exact .pure rfl

theorem symbol : Coupled (S.rel least) Eq Lexer.symbol Lexer.symbol := by
  refine (S.lookAt 3 0 (by decide)).walk.bindEq fun front => ?_
  split
  · exact (S.advanceBy _).walk.bindEq fun _ => .pure rfl
  · exact S.describeCurrent.walk.bindEq fun _ => .throw _

theorem scan : Coupled (S.rel least) Eq Lexer.scan Lexer.scan := by
  refine S.atEnd.walk.bindEq fun _ => .ite _ (.pure rfl) ?_
  refine S.current.walk.bindEq fun first => .ite _ S.word (.ite _ S.number ?_)
  exact .ite _ S.characterLiteral (.ite _ S.stringLiteral S.symbol)

/-! ## Tokens -/

theorem next : Coupled (S.rel least) Eq Lexer.next Lexer.next := by
  refine S.skip.bindEq fun _ => S.getPlace fun w v hplace _ hknown => ?_
  rw [← hplace]
  have hscan : Paired (S.rel least) (Matching Eq) Lexer.scan.run Lexer.scan.run :=
    fun _ _ h => S.scan h
  refine hscan.walk.bind fun a b hab => ?_
  cases hab with
  | ok h => exact .pure (by rw [h])
  | error fault => exact S.failAt fault hknown

theorem runOnto (steps : Nat) (taken : Array Token) :
    Paired (S.rel least) Eq (Lexer.runOnto steps taken) (Lexer.runOnto steps taken) := by
  have hnext : Paired (S.rel least) (Matching Eq) Lexer.next.run Lexer.next.run :=
    fun _ _ h => S.next h
  induction steps generalizing taken with
  | zero => exact .pure rfl
  | succ steps ih =>
    refine hnext.bind fun a b hab => ?_
    cases hab with
    | ok h =>
      rw [h]
      exact .ite _ (.pure rfl) (ih _)
    | error e => exact .pure rfl

theorem run : Paired (S.rel least) Eq Lexer.run Lexer.run := by
  refine Paired.get.bind fun w v h => ?_
  rw [S.extent_eq h]
  exact S.runOnto _ _

theorem tokenize : Coupled (S.rel least) Eq Lexer.tokenize Lexer.tokenize := by
  refine S.run.walk.bindEq fun result => ?_
  split
  · exact .pure rfl
  · exact .throw _

end Strides

namespace Twins

variable {σ τ : Type} [ByteSource σ] [ByteSource τ] {T : Twins σ τ} {least : Nat}

/-! ## Sources of one text -/

theorem skip : Coupled (T.beside least) Eq Lexer.skip Lexer.skip := T.strides.skip

theorem next : Coupled (T.beside least) Eq Lexer.next Lexer.next := T.strides.next

theorem run : Paired (T.beside least) Eq Lexer.run Lexer.run := T.strides.run

theorem tokenize : Coupled (T.beside least) Eq Lexer.tokenize Lexer.tokenize :=
  T.strides.tokenize

/-! ## The end of the text -/

/-- Where no byte is left, asking for one says so, whatever the source does to find out. -/
theorem walk_atEnd {ε : Type} {w : Walker σ} {v : Walker τ}
    (h : T.Abreast T.text.content.size w v) :
    ∃ w' v', (walk Walker.atEnd : ExceptT ε _ Bool).run w = (.ok true, w') ∧
      T.Abreast T.text.content.size w' v' := by
  have hroom := T.room
  have hleft := T.left_faithful.atEnd (n := T.text.content.size) (by omega)
  have hright := T.right_faithful.atEnd (n := T.text.content.size) (by omega)
  obtain ⟨hw, -, hstep⟩ := ask hleft hright h
  refine ⟨_, _, ?_, hstep⟩
  show (Except.ok (Walker.atEnd.run w).1, (Walker.atEnd.run w).2) = _
  rw [show (Walker.atEnd.run w).1 = true from hw.trans (by simp)]
  rfl

/-- Where no byte is left, the next token is the one at the end. -/
theorem next_atEnd {w : Walker σ} {v : Walker τ} (h : T.beside T.text.content.size w v) :
    ∃ token, (Lexer.next.run w).1 = .ok token ∧ token.kind = .eof := by
  obtain ⟨n, hn, h⟩ := h
  have hle := h.position_le
  obtain rfl : n = T.text.content.size := by omega
  obtain ⟨w₁, v₁, hskip, h₁⟩ := walk_atEnd (ε := LexError) h
  obtain ⟨w₂, v₂, hscan, h₂⟩ := walk_atEnd (ε := LexFault) h₁
  have hskipped : Lexer.skip.run w = (.ok (), w₁) := by
    have hget : (get : Lex σ (Walker σ)).run w = (.ok w, w) := rfl
    rw [Lexer.skip, run_bind_ok hget, Lexer.skipUpTo, run_bind_ok hskip, if_pos rfl]
    rfl
  have hscanned : Lexer.scan.run w₁ = (.ok (.eof, Lexer.eofText), w₂) := by
    rw [Lexer.scan, run_bind_ok hscan, if_pos rfl]
    rfl
  refine ⟨⟨.eof, Lexer.eofText, w₁.place.stored⟩, ?_, rfl⟩
  rw [Lexer.next, run_bind_ok hskipped, run_get_bind]
  dsimp only
  rw [run_lift_bind (show StateT.run Lexer.scan.run w₁ = _ from hscanned)]
  rfl

end Twins

end ScriptFront
