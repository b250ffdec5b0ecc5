import ScriptFront.Proofs.Writing.Wording

/-!
# Characters and strings read back

- `Takes.character`: a character between quotes.
- `Takes.lineString`, `Takes.rawString`: the two ways to write a string, byte by byte.
- `Takes.string`: a string, written in the one way or in the other.
-/

namespace ScriptFront

open Walker

namespace Takes

variable {w : Walker Buffer} {tail : List UInt8}

section Quoted

variable {bytes : List UInt8} {fault : LexFault}

theorem takeByte {b : UInt8} (taken : Bytes) (hrest : w.rest = b :: tail) :
    Takes (Lexer.takeByte fault taken) w 1 (taken.push b) :=
  notAtEnd hrest ((Walks.bump hrest).walk.map fun _ _ => .pure _)

theorem takeBytes (taken : Bytes) (hrest : w.rest = bytes ++ tail) :
    Takes (Lexer.takeBytes fault bytes.length taken) w bytes.length (taken ++ bytes.toArray) := by
  induction bytes generalizing w taken with
  | nil =>
    have hnone : taken ++ ([] : List UInt8).toArray = taken := by simp
    rw [hnone]
    exact .pure taken
  | cons b bytes ih =>
    have hpush : taken.push b ++ bytes.toArray = taken ++ (b :: bytes).toArray := by simp
    rw [List.length_cons, Lexer.takeBytes, Nat.add_comm, ← hpush]
    exact (takeByte taken hrest).bind fun v hv => ih _ (hv.rest_cons hrest)

theorem quotedText (text : String) :
    Takes (Lexer.quotedText fault (textBytes text).toArray) w 0 text := by
  rw [Lexer.quotedText, decode?_textBytes]
  exact .pure text

theorem bytes_character (text : String) :
    (Lexeme.mk .character text).bytes = Lexer.quote :: (textBytes text ++ [Lexer.quote]) := by
  show textBytes ("'" ++ text ++ "'") = _
  have hquote : textBytes "'" = [Lexer.quote] := by decide
  rw [textBytes_append, textBytes_append, hquote]
  rfl

theorem character {text : String} (h : IsCharacter text)
    (hrest : w.rest = (Lexeme.mk .character text).bytes ++ tail) :
    Takes Lexer.characterLiteral w (Lexeme.mk .character text).bytes.length (.character, text) := by
  have hlength : (Lexer.quote :: (textBytes text ++ [Lexer.quote])).length =
      1 + ((textBytes text).length + 1) := by
    simp
    omega
  rw [bytes_character] at hrest ⊢
  rw [hlength]
  rw [List.cons_append, List.append_assoc] at hrest
  rw [IsCharacter] at h
  cases hbody : textBytes text with
  | nil => simp [hbody, isCharacterBody] at h
  | cons lead more =>
    rw [hbody] at h hrest
    simp only [isCharacterBody, ne_eq, Bool.and_eq_true, decide_eq_true_eq] at h
    obtain ⟨⟨hquote, hline⟩, hcount⟩ := h
    refine (Walks.advance hrest).walk.bind fun v hv => ?_
    have hinside := hv.rest_cons hrest
    refine notAtEnd hinside (current hinside (ifFalse ?_ ?_))
    · simp [hquote, hline]
    dsimp only
    rw [← hcount]
    refine (takeBytes #[] hinside).bind fun u hu => ?_
    have hclose := hu.rest_append hinside rfl
    refine notAtEnd hclose (current hclose (ifTrue rfl ?_))
    refine (Walks.advance hclose).walk.map fun t _ => ?_
    rw [Array.empty_append, ← hbody]
    exact (quotedText text).map fun _ _ => .pure _

/-- An ordinary byte of a string on one line. -/
theorem lineStringByte {b : UInt8} {steps n : Nat} {taken result : Bytes}
    (hb : b ≠ newline ∧ b ≠ Lexer.doubleQuote ∧ b ≠ Lexer.backslash) (hrest : w.rest = b :: tail)
    (h : ∀ v, w.Further 1 v → Takes (Lexer.lineString steps (taken.push b)) v n result) :
    Takes (Lexer.lineString (steps + 1) taken) w (1 + n) result := by
  obtain ⟨hline, hquote, hescape⟩ := hb
  refine notAtEnd hrest (current hrest (ifFalse hline (ifFalse hquote (ifFalse hescape ?_))))
  exact (Walks.bump hrest).walk.bind h

/-- What stands between single quotation marks is taken up to the closing one. -/
theorem lineString (hbytes : isLineBody bytes) {steps : Nat} (hsteps : bytes.length < steps)
    (taken : Bytes) (hrest : w.rest = bytes ++ Lexer.doubleQuote :: tail) :
    Takes (Lexer.lineString steps taken) w (bytes.length + 1) (taken ++ bytes.toArray) := by
  -- As a backslash takes the next byte with it, the induction goes over two bytes at once.
  induction bytes using isLineBody.induct generalizing w steps taken with
  | case1 =>
    obtain ⟨steps, rfl⟩ : ∃ k, steps = k + 1 := ⟨steps - 1, by omega⟩
    have hnone : taken ++ ([] : List UInt8).toArray = taken := by simp
    rw [hnone]
    refine notAtEnd hrest (current hrest (ifFalse (by decide) (ifTrue rfl ?_)))
    exact (Walks.advance hrest).walk.map fun _ _ => .pure _
  | case2 b =>
    simp only [isLineBody, ne_eq, Bool.and_eq_true, decide_eq_true_eq, and_assoc] at hbytes
    obtain ⟨steps, rfl⟩ : ∃ k, steps = k + 2 := ⟨steps - 2, by simp at hsteps; omega⟩
    have hpush : taken.push b = taken ++ [b].toArray := by simp
    refine lineStringByte hbytes hrest fun v hv => ?_
    have hclose := hv.rest_cons hrest
    rw [← hpush]
    refine notAtEnd hclose (current hclose (ifFalse (by decide) (ifTrue rfl ?_)))
    exact (Walks.advance hclose).walk.map fun _ _ => .pure _
  | case3 c bytes ih =>
    rw [isLineBody, if_pos rfl] at hbytes
    obtain ⟨steps, rfl⟩ : ∃ k, steps = k + 1 := ⟨steps - 1, by omega⟩
    have hpair : w.rest = [Lexer.backslash, c] ++ (bytes ++ Lexer.doubleQuote :: tail) := hrest
    have hpush : taken ++ [Lexer.backslash, c].toArray ++ bytes.toArray =
        taken ++ (Lexer.backslash :: c :: bytes).toArray := by simp
    have hlength : (Lexer.backslash :: c :: bytes).length + 1 = 2 + (bytes.length + 1) := by
      simp
      omega
    rw [hlength, ← hpush]
    refine notAtEnd hrest
      (current hrest (ifFalse (by decide) (ifFalse (by decide) (ifTrue rfl ?_))))
    refine (takeBytes taken hpair).bind fun v hv => ?_
    refine ih hbytes ?_ _ (hv.rest_append hpair rfl)
    simp at hsteps
    omega
  | case4 b c bytes hb ih =>
    rw [isLineBody, if_neg hb] at hbytes
    simp only [ne_eq, Bool.and_eq_true, decide_eq_true_eq] at hbytes
    obtain ⟨⟨hline, hquote⟩, hmore⟩ := hbytes
    obtain ⟨steps, rfl⟩ : ∃ k, steps = k + 1 := ⟨steps - 1, by omega⟩
    have hpush : taken.push b ++ (c :: bytes).toArray = taken ++ (b :: c :: bytes).toArray := by
      simp
    rw [List.length_cons, Nat.add_comm (c :: bytes).length 1, Nat.add_assoc, ← hpush]
    refine lineStringByte ⟨hline, hquote, hb⟩ hrest fun v hv => ?_
    refine ih hmore ?_ _ (hv.rest_cons hrest)
    rw [List.length_cons] at hsteps
    exact Nat.lt_of_succ_lt_succ hsteps

theorem isPrefixOf_tripleQuote (a b c : UInt8) (front : List UInt8) :
    tripleQuote.isPrefixOf (a :: b :: c :: front) =
      (decide (a = Lexer.doubleQuote) &&
        (decide (b = Lexer.doubleQuote) && decide (c = Lexer.doubleQuote))) := by
  have hsame (x : UInt8) : (Lexer.doubleQuote == x) = decide (x = Lexer.doubleQuote) := by
    rw [Bool.beq_eq_decide_eq]
    exact decide_eq_decide.2 eq_comm
  rw [tripleQuote, List.isPrefixOf, List.isPrefixOf, List.isPrefixOf, List.isPrefixOf, hsame,
    hsame, hsame, Bool.and_true]

/-- Whether three quotation marks stand in front. -/
theorem atTripleQuote {front : List UInt8} (hfront : 3 ≤ front.length)
    (hrest : w.rest = front ++ tail) :
    Walks Lexer.atTripleQuote w 0 (tripleQuote.isPrefixOf front) := by
  obtain ⟨a, b, c, front, rfl⟩ : ∃ a b c more, front = a :: b :: c :: more := by
    match front, hfront with
    | a :: b :: c :: more, _ => exact ⟨a, b, c, more, rfl⟩
  rw [isPrefixOf_tripleQuote]
  refine Walks.read ?_
  rw [hrest]
  show Walks (if a ≠ Lexer.doubleQuote then _ else _) _ _ _
  by_cases ha : a = Lexer.doubleQuote
  · rw [if_neg (not_not_intro ha), decide_eq_true ha]
    refine Walks.read ?_
    rw [hrest]
    show Walks (if b ≠ Lexer.doubleQuote then _ else _) _ _ _
    by_cases hb : b = Lexer.doubleQuote
    · rw [if_neg (not_not_intro hb), decide_eq_true hb]
      refine Walks.read ?_
      rw [hrest]
      exact .pure _
    · rw [if_pos hb, decide_eq_false hb]
      exact .pure _
  · rw [if_pos ha, decide_eq_false ha]
    exact .pure _

/-- What stands between triple quotation marks is taken up to the closing ones. -/
theorem rawString (hbytes : isRawBody bytes) {steps : Nat} (hsteps : bytes.length < steps)
    (taken : Bytes) (hrest : w.rest = bytes ++ (tripleQuote ++ tail)) :
    Takes (Lexer.rawString steps taken) w (bytes.length + 3) (taken ++ bytes.toArray) := by
  induction bytes generalizing w steps taken with
  | nil =>
    obtain ⟨steps, rfl⟩ : ∃ k, steps = k + 1 := ⟨steps - 1, by omega⟩
    have hnone : taken ++ ([] : List UInt8).toArray = taken := by simp
    rw [hnone, List.length_nil, Nat.zero_add]
    have hquotes : w.rest = tripleQuote ++ tail := hrest
    rw [← Nat.zero_add 3]
    refine notAtEnd hrest ?_
    refine (atTripleQuote (by decide) hquotes).walk.bind fun v hv => ?_
    have hleft : v.rest = tripleQuote ++ tail := hv.rest_eq.trans hquotes
    rw [show tripleQuote.isPrefixOf tripleQuote = true from rfl]
    exact ifTrue rfl ((Walks.advanceBy hleft).walk.map fun _ _ => .pure _)
  | cons b bytes ih =>
    obtain ⟨steps, rfl⟩ : ∃ k, steps = k + 1 := ⟨steps - 1, by omega⟩
    rw [isRawBody, Bool.and_eq_true, Bool.not_eq_true'] at hbytes
    obtain ⟨hopen, hmore⟩ := hbytes
    have hfront : w.rest = b :: bytes ++ tripleQuote ++ tail := by
      rw [hrest, List.append_assoc]
    have hlong : 3 ≤ (b :: bytes ++ tripleQuote).length := by
      rw [List.length_append]
      exact Nat.le_add_left _ _
    have hpush : taken.push b ++ bytes.toArray = taken ++ (b :: bytes).toArray := by simp
    have hlength : (b :: bytes).length + 3 = 0 + (1 + (bytes.length + 3)) := by
      simp
      omega
    rw [hlength, ← hpush]
    refine notAtEnd hrest ?_
    refine (atTripleQuote hlong hfront).walk.bind fun v hv => ?_
    have hleft : v.rest = b :: (bytes ++ (tripleQuote ++ tail)) := hv.rest_eq.trans hrest
    rw [hopen]
    refine ifFalse Bool.false_ne_true ((Walks.bump hleft).walk.bind fun u hu => ?_)
    exact ih hmore (Nat.lt_of_succ_lt_succ hsteps) _ (hu.rest_cons hleft)

theorem bytes_lineString {text : String} (h : isLineBody (textBytes text)) :
    (Lexeme.mk .string text).bytes =
      Lexer.doubleQuote :: (textBytes text ++ [Lexer.doubleQuote]) := by
  have hquote : textBytes "\"" = [Lexer.doubleQuote] := by decide
  rw [Lexeme.bytes, Lexeme.spelling]
  dsimp only
  rw [if_pos h, textBytes_append, textBytes_append, hquote]
  rfl

theorem bytes_rawString {text : String} (h : ¬isLineBody (textBytes text)) :
    (Lexeme.mk .string text).bytes = tripleQuote ++ (textBytes text ++ tripleQuote) := by
  have hquotes : textBytes "\"\"\"" = tripleQuote := by decide
  rw [Lexeme.bytes, Lexeme.spelling]
  dsimp only
  rw [if_neg h, textBytes_append, textBytes_append, hquotes, List.append_assoc]

/-- A string on one line, behind its opening quotation mark. Where nothing stands inside, both
marks are taken at once, and what follows must not be a third one. -/
theorem lineBody (hbytes : isLineBody bytes) {steps : Nat} (hsteps : bytes.length < steps)
    (htail : bytes = [] → tail[0]?.getD endByte ≠ Lexer.doubleQuote)
    (hrest : w.rest = bytes ++ Lexer.doubleQuote :: tail) :
    Takes (do
      if (← walk Walker.current) = Lexer.doubleQuote then
        walk Walker.advance
        if (← walk Walker.current) = Lexer.doubleQuote then
          walk Walker.advance
          Lexer.rawString steps #[]
        else return #[]
      else Lexer.lineString steps #[]) w (bytes.length + 1) bytes.toArray := by
  have hstring := lineString hbytes hsteps #[] hrest
  rw [Array.empty_append] at hstring
  cases bytes with
  | nil =>
    refine current hrest (ifTrue rfl ((Walks.advance hrest).walk.map fun v hv => ?_))
    refine Takes.read (ifFalse ?_ (.pure _))
    rw [hv.rest_cons hrest]
    exact htail rfl
  | cons b bytes =>
    refine current hrest (ifFalse ?_ hstring)
    rintro rfl
    cases bytes <;> simp [isLineBody, Lexer.doubleQuote, Lexer.backslash] at hbytes

/-- What stands between quotation marks, one or three of them. -/
theorem stringBody {mark : List UInt8} (hmark : Encloses mark bytes tail)
    (hrest : w.rest = mark ++ bytes ++ mark ++ tail) :
    Takes Lexer.stringBody w (mark ++ bytes ++ mark).length bytes.toArray := by
  have hle := w.length_rest_le
  rcases hmark with ⟨rfl, hline, htail⟩ | ⟨rfl, hraw⟩
  · have hlength : ([Lexer.doubleQuote] ++ bytes ++ [Lexer.doubleQuote]).length =
        1 + (bytes.length + 1) := by
      simp
      omega
    rw [hrest, List.length_append, hlength] at hle
    rw [List.append_assoc, List.append_assoc] at hrest
    rw [hlength]
    refine Takes.get ((Walks.advance hrest).walk.bind fun v hv => ?_)
    exact lineBody hline (by omega) htail (hv.rest_cons hrest)
  · have hlength : (tripleQuote ++ bytes ++ tripleQuote).length =
        1 + (1 + (1 + (bytes.length + 3))) := by
      simp [tripleQuote]
      omega
    rw [hrest, List.length_append, hlength] at hle
    rw [List.append_assoc, List.append_assoc] at hrest
    have hempty : #[] ++ bytes.toArray = bytes.toArray := Array.empty_append
    rw [hlength, ← hempty]
    refine Takes.get ((Walks.advance hrest).walk.bind fun v hv => ?_)
    have hsecond := hv.rest_cons hrest
    refine current hsecond (ifTrue rfl ((Walks.advance hsecond).walk.bind fun u hu => ?_))
    have hthird := hu.rest_cons hsecond
    refine current hthird (ifTrue rfl ((Walks.advance hthird).walk.bind fun t ht => ?_))
    exact rawString hraw (by omega) #[] (ht.rest_cons hthird)

theorem stringLiteral {mark : List UInt8} {text : String}
    (hmark : Encloses mark (textBytes text) tail)
    (hrest : w.rest = mark ++ textBytes text ++ mark ++ tail) :
    Takes Lexer.stringLiteral w (mark ++ textBytes text ++ mark).length (.string, text) :=
  (stringBody hmark hrest).map fun _ _ => (quotedText text).map fun _ _ => .pure _

theorem string {text : String} (h : IsString text) (htail : Separated tail)
    (hrest : w.rest = (Lexeme.mk .string text).bytes ++ tail) :
    Takes Lexer.stringLiteral w (Lexeme.mk .string text).bytes.length (.string, text) := by
  by_cases hline : isLineBody (textBytes text)
  · have hbytes : (Lexeme.mk .string text).bytes =
        [Lexer.doubleQuote] ++ textBytes text ++ [Lexer.doubleQuote] := bytes_lineString hline
    rw [hbytes] at hrest ⊢
    have hapart : tail[0]?.getD endByte ≠ Lexer.doubleQuote := htail.head_ne (by decide) (by decide)
    exact stringLiteral (.inl ⟨rfl, hline, fun _ => hapart⟩) hrest
  · have hbytes : (Lexeme.mk .string text).bytes = tripleQuote ++ textBytes text ++
        tripleQuote := by
      rw [bytes_rawString hline, List.append_assoc]
    rw [hbytes] at hrest ⊢
    exact stringLiteral (.inr ⟨rfl, h.resolve_left hline⟩) hrest

end Quoted

end Takes

end ScriptFront
