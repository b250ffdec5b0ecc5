import ScriptFront.Source.Buffer

/-!
# Faithful sources

A source is *faithful* to a text if its answers are those of the text alone: whatever else it
keeps, from position `n` on it gives one answer to each question and goes to one position, and
both can be read off the text.

- `Gives`: what an action answers at a position, and where it ends.
- `Text.Steps`: faithful to a text as far as single steps go. `Text.Faithful` adds searching and
  skipping.
- `Text.Steps.stepped`: whoever is faithful in single steps is faithful if searched and skipped
  byte by byte.
- `Text.buffer`: a buffer is faithful.
-/

namespace ScriptFront

/-- From any state that shows position `n`, the action answers `a` and shows position `m`. -/
def Gives {σ α : Type} (shows : σ → Nat → Prop) (n : Nat) (act : StateM σ α) (a : α) (m : Nat) :
    Prop :=
  ∀ ⦃s : σ⦄, shows s n → (act.run s).1 = a ∧ shows (act.run s).2 m

namespace Gives

variable {σ α β : Type} {shows : σ → Nat → Prop} {n m k : Nat}

theorem pure (a : α) : Gives shows n (Pure.pure a) a n := fun _ h => ⟨rfl, h⟩

theorem bind {x : StateM σ α} {f : α → StateM σ β} {a : α} {b : β} (h : Gives shows n x a m)
    (hf : Gives shows m (f a) b k) : Gives shows n (x >>= f) b k := by
  intro s hs
  obtain ⟨ha, hm⟩ := h hs
  have hrun : (x >>= f).run s = (f a).run (x.run s).2 := by
    show (f (x.run s).1).run (x.run s).2 = _
    rw [ha]
  rw [hrun]
  exact hf hm

/-- What the state shows may be used to tell what an action does. -/
theorem ofShown {act : StateM σ α} {a : α}
    (h : ∀ s, shows s n → Gives shows n act a m) : Gives shows n act a m :=
  fun s hs => h s hs hs

end Gives

/-- A text and its name. -/
structure Text where
  name : String
  content : Bytes

namespace Text

/-- The byte at an offset, or `endByte`. -/
def byteAt (t : Text) (n : Nat) : UInt8 := t.content[n]?.getD endByte

/-- The distance from an offset to the next such byte. -/
def distance (t : Text) (n : Nat) (needle : UInt8) : Option Nat :=
  (t.content.extract n t.content.size).idxOf? needle

/-- The bytes from an offset on. -/
theorem toList_from (content : Bytes) (n : Nat) :
    (content.extract n content.size).toList = content.toList.drop n := by
  simp [List.take_of_length_le]

theorem idxOf?_toList (content : Bytes) (needle : UInt8) :
    content.toList.idxOf? needle = content.idxOf? needle := by
  rw [← List.idxOf?_toArray, Array.toArray_toList]

theorem isSome_content (t : Text) (n : Nat) :
    t.content[n]?.isSome = decide (n < t.content.size) := by
  by_cases hlt : n < t.content.size
  · rw [Array.getElem?_eq_getElem hlt, decide_eq_true hlt]
    rfl
  · rw [Array.getElem?_eq_none (Nat.not_lt.1 hlt), decide_eq_false hlt]
    rfl

/-- A source, single steps of which are those of a text, as long as no address reaches `limit`. -/
structure Steps {σ : Type} [ByteAccess σ] (t : Text) (limit : Nat) (shows : σ → Nat → Prop) :
    Prop where
  name_eq : ∀ {s n}, shows s n → ByteAccess.name s = t.name
  position_eq : ∀ {s n}, shows s n → ByteAccess.position s = n
  extent_eq : ∀ {s n}, shows s n → ByteAccess.extent s = t.content.size
  position_le : ∀ {s n}, shows s n → n ≤ t.content.size
  read : ∀ {n} (k : Nat), n + k < limit →
    Gives shows n (ByteAccess.read k) (t.byteAt (n + k)) n
  has : ∀ {n} (k : Nat), n + k < limit →
    Gives shows n (ByteAccess.has k) (decide (n + k < t.content.size)) n
  advance : ∀ {n}, n < limit → Gives shows n ByteAccess.advance () (min (n + 1) t.content.size)
  reset : ∀ {n m}, m ≤ t.content.size → Gives shows n (ByteAccess.reset m) () m

/-- A source that also searches and skips as the text says. -/
structure Faithful {σ : Type} [ByteSource σ] (t : Text) (limit : Nat)
    (shows : σ → Nat → Prop) : Prop extends t.Steps limit shows where
  find : ∀ {n} (needle : UInt8),
    Gives shows n (ByteSource.find needle) (t.distance n needle) n
  skip : ∀ {n} (count : Nat), min (n + count) t.content.size < limit →
    Gives shows n (ByteSource.skip count) () (min (n + count) t.content.size)

/-! ## Single steps -/

namespace Steps

variable {σ : Type} [ByteAccess σ] {t : Text} {limit : Nat} {shows : σ → Nat → Prop} {n : Nat}

theorem mono {limit' : Nat} (h : t.Steps limit shows) (hle : limit' ≤ limit) :
    t.Steps limit' shows :=
  { h with
    read := fun k hk => h.read k (Nat.lt_of_lt_of_le hk hle)
    has := fun k hk => h.has k (Nat.lt_of_lt_of_le hk hle)
    advance := fun hn => h.advance (Nat.lt_of_lt_of_le hn hle) }

theorem atEnd (h : t.Steps limit shows) (hn : n < limit) :
    Gives shows n ByteAccess.atEnd (decide (t.content.size ≤ n)) n := by
  have hnot : (!decide (n < t.content.size)) = decide (t.content.size ≤ n) := by
    rw [← decide_not]
    exact decide_eq_decide.2 Nat.not_lt
  refine (h.has 0 hn).bind ?_
  rw [Nat.add_zero, hnot]
  exact .pure _

/-- Byte by byte, the steps stop where the text does. -/
theorem skipStepwise (h : t.Steps limit shows) (count : Nat)
    (hn : min (n + count) t.content.size < limit) :
    Gives shows n (ByteAccess.skipStepwise count) () (min (n + count) t.content.size) := by
  induction count generalizing n with
  | zero =>
    refine .ofShown fun s hs => ?_
    rw [Nat.add_zero, Nat.min_eq_left (h.position_le hs)]
    exact .pure ()
  | succ count ih =>
    refine .ofShown fun s hs => ?_
    have hle := h.position_le hs
    have hlimit : n < limit := by omega
    refine (h.atEnd hlimit).bind ?_
    by_cases hend : t.content.size ≤ n
    · have hstay : min (n + (count + 1)) t.content.size = n := by omega
      rw [hstay, if_pos (decide_eq_true hend)]
      exact .pure ()
    · have hnext : min (n + 1) t.content.size = n + 1 := by omega
      have hadvance := h.advance hlimit
      have hrest := @ih (n + 1)
      rw [hnext] at hadvance
      rw [Nat.add_right_comm, Nat.add_assoc] at hrest
      rw [if_neg (by simpa using hend)]
      exact hadvance.bind (hrest hn)

end Steps

/-! ## Searching -/

theorem distance_eq (t : Text) (n : Nat) (needle : UInt8) :
    t.distance n needle = (t.content.toList.drop n).idxOf? needle := by
  rw [← toList_from, idxOf?_toList, distance]

theorem distance_of_le {t : Text} {n : Nat} {needle : UInt8} (h : t.content.size ≤ n) :
    t.distance n needle = none := by
  rw [distance_eq, List.drop_eq_nil_of_le h]
  rfl

/-- Either the byte at hand is the one, or the search goes on behind it. -/
theorem distance_of_lt {t : Text} {n : Nat} {needle : UInt8} (h : n < t.content.size) :
    t.distance n needle =
      if t.byteAt n = needle then some 0 else (t.distance (n + 1) needle).map (· + 1) := by
  have hbyte : t.byteAt n = t.content[n] := by
    rw [byteAt, Array.getElem?_eq_getElem h]
    rfl
  have hrest : t.content.toList.drop n = t.content[n] :: t.content.toList.drop (n + 1) := by
    rw [← Array.getElem_toList]
    exact List.drop_eq_getElem_cons (by simpa using h)
  rw [distance_eq, distance_eq, hrest, List.idxOf?_cons, hbyte]
  simp

/-- Byte by byte, the search finds what the text says. -/
theorem Steps.findFrom {σ : Type} [ByteAccess σ] {t : Text} {limit : Nat}
    {shows : σ → Nat → Prop} {n : Nat} (h : t.Steps limit shows) (hsize : t.content.size < limit)
    (needle : UInt8) (steps ahead : Nat) (hsteps : t.content.size < n + ahead + steps)
    (hle : n + ahead ≤ t.content.size) :
    Gives shows n (ByteAccess.findFrom needle steps ahead)
      ((t.distance (n + ahead) needle).map (· + ahead)) n := by
  induction steps generalizing ahead with
  | zero => omega
  | succ steps ih =>
    refine (h.has ahead (by omega)).bind ?_
    by_cases hend : n + ahead < t.content.size
    · rw [if_pos (decide_eq_true hend), distance_of_lt hend]
      refine (h.read ahead (by omega)).bind ?_
      split
      · rw [Option.map_some, Nat.zero_add]
        exact .pure _
      · have hrest := ih (ahead + 1) (by omega) (by omega)
        rw [← Nat.add_assoc] at hrest
        have hshift : (Option.map (· + 1) (t.distance (n + ahead + 1) needle)).map (· + ahead) =
            (t.distance (n + ahead + 1) needle).map (· + (ahead + 1)) := by
          rw [Option.map_map]
          congr 1
          funext k
          simp only [Function.comp_apply]
          omega
        rw [hshift]
        exact hrest
    · rw [if_neg (by simpa using hend), distance_of_le (by omega)]
      exact .pure none

/-- A source that is searched and skipped byte by byte is as faithful as its single steps are. -/
theorem Steps.stepped {σ : Type} [ByteAccess σ] {t : Text} {limit : Nat}
    {shows : σ → Nat → Prop} (h : t.Steps limit shows) (hsize : t.content.size < limit) :
    t.Faithful limit fun (s : Stepped σ) n => shows s.inner n := by
  have hsteps : t.Steps limit fun (s : Stepped σ) n => shows s.inner n :=
    { name_eq := fun hs => h.name_eq hs
      position_eq := fun hs => h.position_eq hs
      extent_eq := fun hs => h.extent_eq hs
      position_le := fun hs => h.position_le hs
      read := fun k hk _ hs => h.read k hk hs
      has := fun k hk _ hs => h.has k hk hs
      advance := fun hn _ hs => h.advance hn hs
      reset := fun hm _ hs => h.reset hm hs }
  refine { hsteps with find := fun needle => ?_, skip := hsteps.skipStepwise }
  refine .ofShown fun s hs => ?_
  intro s hs
  have hle := h.position_le hs
  have hfind := hsteps.findFrom hsize needle (t.content.size + 1) 0 (by omega) (by omega) hs
  simp only [Nat.add_zero, Option.map_id'] at hfind
  have hrun : (ByteSource.find needle : StateM (Stepped σ) _).run s =
      (ByteAccess.findFrom needle (t.content.size + 1) 0).run s := by
    show (ByteAccess.findFrom needle (ByteAccess.extent s.inner + 1) 0).run s = _
    rw [h.extent_eq hs]
  rw [hrun]
  exact hfind

theorem Faithful.mono {σ : Type} [ByteSource σ] {t : Text} {limit limit' : Nat}
    {shows : σ → Nat → Prop} (h : t.Faithful limit shows) (hle : limit' ≤ limit) :
    t.Faithful limit' shows :=
  { h.toSteps.mono hle with
    find := h.find
    skip := fun count hn => h.skip count (Nat.lt_of_lt_of_le hn hle) }

/-! ## Buffers -/

/-- A buffer that holds the text. -/
def InBuffer (t : Text) (b : Buffer) (n : Nat) : Prop :=
  b.name = t.name ∧ b.content = t.content ∧ b.position = n

/-- Buffers need no bound for addresses. -/
theorem buffer (t : Text) (limit : Nat) : t.Faithful limit t.InBuffer where
  name_eq h := h.1
  position_eq h := h.2.2
  extent_eq h := congrArg Array.size h.2.1
  position_le := by
    rintro b _ ⟨_, hcontent, rfl⟩
    exact hcontent ▸ b.position_le
  read k _ := by
    rintro b ⟨hname, hcontent, rfl⟩
    refine ⟨?_, hname, hcontent, rfl⟩
    show (b.byteAhead? k).getD endByte = _
    rw [Buffer.byteAhead?, hcontent]
    rfl
  has k _ := by
    rintro b ⟨hname, hcontent, rfl⟩
    refine ⟨?_, hname, hcontent, rfl⟩
    show (b.byteAhead? k).isSome = _
    rw [Buffer.byteAhead?, hcontent]
    exact t.isSome_content _
  advance _ := by
    rintro b ⟨hname, hcontent, rfl⟩
    refine ⟨rfl, hname, hcontent, ?_⟩
    show min (b.position + 1) b.content.size = _
    rw [hcontent]
  reset {_ m} hm := by
    rintro b ⟨hname, hcontent, rfl⟩
    refine ⟨rfl, hname, hcontent, ?_⟩
    show min m b.content.size = m
    rw [hcontent, Nat.min_eq_left hm]
  find needle := by
    rintro b ⟨hname, hcontent, rfl⟩
    refine ⟨?_, hname, hcontent, rfl⟩
    show b.rest.idxOf? needle = _
    rw [Buffer.rest, hcontent]
    rfl
  skip count _ := by
    rintro b ⟨hname, hcontent, rfl⟩
    refine ⟨rfl, hname, hcontent, ?_⟩
    show min (b.position + count) b.content.size = _
    rw [hcontent]

end Text

end ScriptFront
