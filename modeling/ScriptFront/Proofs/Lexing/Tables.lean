import ScriptFront.Token.Keyword
import ScriptFront.Token.Symbol

/-!
# Words and symbols in tables

A reserved word is found by halving a sorted table, and a symbol by trying symbols in a fixed order.
Both find what going through all words or symbols finds.

- `Keyword.seek_eq`: halving comes to the entry of a word, wherever in the table it stands.
- `Keyword.lookup?_eq`: the keyword that the table has for a word is the one with this spelling.
- `Symbol.classify_eq`: the symbol that is tried first is the longest one, and its width is that of
  its spelling.
-/

namespace ScriptFront

namespace Keyword

theorem ofSpelling?_spelling (k : Keyword) : ofSpelling? k.spelling = some k := by
  cases k with
  | primitive type => cases type <;> decide
  | _ => decide

theorem ofSpelling?_eq_some {word : String} {k : Keyword} :
    ofSpelling? word = some k ↔ k.spelling = word := by
  constructor
  · intro h
    have hfound := List.find?_some h
    exact eq_of_beq hfound
  · rintro rfl
    exact ofSpelling?_spelling k

theorem ofSpelling?_eq_none {word : String} :
    ofSpelling? word = none ↔ ∀ k : Keyword, k.spelling ≠ word := by
  rw [Option.eq_none_iff_forall_ne_some]
  exact forall_congr' fun k => not_congr ofSpelling?_eq_some

theorem not_precedes_self (a : String) : ¬precedes a a := by
  simp only [precedes, decide_eq_true_eq]
  exact List.lt_irrefl _

theorem precedes_trans {a b c : String} (hab : precedes a b) (hbc : precedes b c) :
    precedes a c := by
  simp only [precedes, decide_eq_true_eq] at hab hbc ⊢
  exact List.lt_trans hab hbc

theorem sorted_table : table.toList.Pairwise fun a b => precedes a.1 b.1 := by decide +kernel

theorem spelling_of_mem_table : ∀ entry ∈ table.toList, entry.2.spelling = entry.1 := by decide

theorem mem_table (k : Keyword) : (k.spelling, k) ∈ table.toList := by
  cases k with
  | primitive type => cases type <;> decide
  | _ => decide

theorem precedes_of_lt {i j : Nat} {a b : String × Keyword} (ha : table[i]? = some a)
    (hb : table[j]? = some b) (hij : i < j) : precedes a.1 b.1 := by
  rw [← Array.getElem?_toList] at ha hb
  obtain ⟨hi, rfl⟩ := List.getElem?_eq_some_iff.1 ha
  obtain ⟨hj, rfl⟩ := List.getElem?_eq_some_iff.1 hb
  exact List.pairwise_iff_getElem.1 sorted_table i j hi hj hij

/-- As long as the entry of the word is among those that are left, halving comes to it. -/
theorem seek_eq {word : String} {keyword : Keyword} {index steps base size : Nat}
    (hentry : table[index]? = some (word, keyword)) (hbase : base ≤ index)
    (hindex : index < base + size) (hsize : base + size ≤ table.size) (hsteps : size ≤ steps + 1) :
    seek word steps base size = index := by
  induction steps generalizing base size with
  | zero =>
    rw [seek]
    omega
  | succ steps ih =>
    rw [seek]
    split
    · omega
    · next hmany =>
      obtain ⟨⟨spelling, middle⟩, hmid⟩ : ∃ entry, table[base + size / 2]? = some entry :=
        ⟨_, Array.getElem?_eq_getElem (by omega)⟩
      dsimp only
      rw [hmid]
      dsimp only
      split
      · next hlt =>
        have hfront : index < base + size / 2 := by
          refine Nat.lt_of_not_le fun hbehind => ?_
          rcases Nat.eq_or_lt_of_le hbehind with rfl | hbehind
          · rw [hentry] at hmid
            cases hmid
            exact not_precedes_self _ hlt
          · exact not_precedes_self _ (precedes_trans hlt (precedes_of_lt hmid hentry hbehind))
        exact ih hbase (by omega) (by omega) (by omega)
      · next hnot =>
        have hbehind : base + size / 2 ≤ index :=
          Nat.le_of_not_lt fun hfront => hnot (precedes_of_lt hentry hmid hfront)
        exact ih hbehind (by omega) (by omega) (by omega)

/-- Halving the table and going through all keywords come to the same. -/
theorem lookup?_eq (word : String) : lookup? word = ofSpelling? word := by
  cases hfound : ofSpelling? word with
  | some keyword =>
    obtain rfl := ofSpelling?_eq_some.1 hfound
    obtain ⟨index, hindex, hentry⟩ := List.getElem_of_mem (mem_table keyword)
    have hentry : table[index]? = some (keyword.spelling, keyword) := by
      rw [← Array.getElem?_toList, List.getElem?_eq_getElem hindex, hentry]
    have hseek : seek keyword.spelling table.size 0 table.size = index :=
      seek_eq hentry (Nat.zero_le index) (by simpa using hindex) (by omega) (by omega)
    rw [lookup?, hseek, hentry]
    exact if_pos rfl
  | none =>
    rw [lookup?]
    split
    · next spelling keyword hentry =>
      rw [← Array.getElem?_toList] at hentry
      have hspelling := spelling_of_mem_table _ (List.mem_of_getElem? hentry)
      exact if_neg fun h => ofSpelling?_eq_none.1 hfound keyword (hspelling.trans h)
    · rfl

end Keyword

namespace Symbol

theorem atFront?_bytes (s : Symbol) : atFront? s.bytes = some s := by cases s <;> rfl

theorem bytes_injective {s t : Symbol} (h : s.bytes = t.bytes) : s = t := by
  have hs := atFront?_bytes s
  rw [h, atFront?_bytes t] at hs
  exact (Option.some.inj hs).symm

/-- The symbol that is found is in front, and no longer one is. -/
theorem atFront?_eq_some {front : List UInt8} {s : Symbol} (h : atFront? front = some s) :
    s.bytes <+: front ∧ ∀ t : Symbol, t.bytes <+: front → t.bytes.length ≤ s.bytes.length := by
  obtain ⟨hs, before, after, hall, hbefore⟩ := List.find?_eq_some_iff_append.1 h
  refine ⟨List.isPrefixOf_iff_prefix.1 hs, ?_⟩
  intro t ht
  have hmem := mem_all t
  rw [hall] at hmem
  rcases List.mem_append.1 hmem with hmem | hmem
  · -- A symbol that is tried earlier was found not to be there.
    have hnot := hbefore t hmem
    rw [List.isPrefixOf_iff_prefix.2 ht] at hnot
    nomatch hnot
  · rcases List.mem_cons.1 hmem with rfl | hmem
    · exact Nat.le_refl _
    · have hpairwise := all_longest_first
      rw [hall, List.pairwise_append, List.pairwise_cons] at hpairwise
      exact hpairwise.2.1.1 t hmem

theorem atFront?_eq_none {front : List UInt8} (h : atFront? front = none) (s : Symbol) :
    ¬s.bytes <+: front := by
  intro hs
  have hnot := List.find?_eq_none.1 h s (mem_all s)
  exact hnot (List.isPrefixOf_iff_prefix.2 hs)

/-- In `arms`, no symbol stands behind one that it begins with. -/
theorem arms_ordered : arms.Pairwise fun a b => ¬a.1.bytes <+: b.1.bytes := by decide

theorem mem_arms (s : Symbol) : (s, s.bytes.length) ∈ arms := by cases s <;> decide

/-- The symbol that is tried first is the longest one. -/
theorem classify_eq (front : List UInt8) :
    classify front = (atFront? front).map fun s => (s, s.bytes.length) := by
  cases hfound : atFront? front with
  | none =>
    refine List.find?_eq_none.2 fun arm _ harm => ?_
    exact atFront?_eq_none hfound arm.1 (List.isPrefixOf_iff_prefix.1 harm)
  | some s =>
    obtain ⟨hs, hlongest⟩ := atFront?_eq_some hfound
    obtain ⟨before, after, harms⟩ := List.append_of_mem (mem_arms s)
    refine List.find?_eq_some_iff_append.2
      ⟨List.isPrefixOf_iff_prefix.2 hs, before, after, harms, ?_⟩
    intro arm harm
    have hordered := arms_ordered
    rw [harms, List.pairwise_append] at hordered
    have hnot := hordered.2.2 arm harm _ List.mem_cons_self
    -- A symbol that is tried earlier and is there would be the front of `s`.
    have habsent : ¬arm.1.bytes <+: front := fun hfront =>
      hnot (List.prefix_of_prefix_length_le hfront hs (hlongest arm.1 hfront))
    show (!arm.1.bytes.isPrefixOf front) = true
    rw [Bool.not_eq_true', ← Bool.not_eq_true, List.isPrefixOf_iff_prefix]
    exact habsent

end Symbol

end ScriptFront
