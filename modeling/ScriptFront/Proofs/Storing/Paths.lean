import Mathlib.Data.String.Basic
import ScriptFront.Command.Parse

/-!
# Where trees are stored

The tree of a file is stored under the name of the file: in one directory, files of different names
get different places, and writing to one of them changes nothing at the others.

- `Route.splitOn_slash`: the parts of a path.
- `FileTree.resolve_childPath`: a path in a directory leads to the name that it ends in.
- `FileTree.read_write`, `FileTree.read_write_other`: what writing a file changes.
-/

namespace ScriptFront

/-! ## Parts of paths -/

namespace Route

open String in
/-- The parts of a path from the place on where one of them, of which `m` has been passed,
begins. -/
theorem splitOnAux_slash (l m r : List Char) (acc : List String) :
    (ofList (l ++ m ++ r)).splitOnAux "/" ⟨utf8Len l⟩ ⟨utf8Len l + utf8Len m⟩ 0 acc =
      acc.reverse ++ (List.splitOnPPrepend (· == '/') r m.reverse).map ofList := by
  induction r generalizing l m acc with
  | nil =>
    have hend : Pos.Raw.atEnd (ofList (l ++ m ++ [])) ⟨utf8Len l + utf8Len m⟩ = true := by
      simp only [List.append_nil, atEnd_iff, rawEndPos_ofList, utf8Len_append]
      exact Nat.le_refl _
    rw [splitOnAux, if_pos hend, extract_of_valid]
    simp
  | cons c r ih =>
    have hsize : 0 < c.utf8Size := c.utf8Size_pos
    have hend : ¬Pos.Raw.atEnd (ofList (l ++ m ++ c :: r)) ⟨utf8Len l + utf8Len m⟩ = true := by
      simp only [List.append_assoc, atEnd_iff, rawEndPos_ofList, utf8Len_append, utf8Len_cons,
        Pos.Raw.mk_le_mk]
      omega
    have hget : Pos.Raw.get (ofList (l ++ m ++ c :: r)) ⟨utf8Len l + utf8Len m⟩ = c := by
      have hvalid := get_of_valid (l ++ m) (c :: r)
      rw [utf8Len_append] at hvalid
      exact hvalid
    have hnext : Pos.Raw.next (ofList (l ++ m ++ c :: r)) ⟨utf8Len l + utf8Len m⟩ =
        ⟨utf8Len l + utf8Len m + c.utf8Size⟩ := by
      have hvalid := next_of_valid (l ++ m) c r
      rw [utf8Len_append] at hvalid
      exact hvalid
    have hslash : Pos.Raw.get "/" 0 = '/' := rfl
    have hbehind : Pos.Raw.next "/" 0 = ⟨1⟩ := rfl
    have hsep : Pos.Raw.atEnd "/" ⟨1⟩ = true := rfl
    rw [splitOnAux, if_neg hend, hget, hnext, hslash, hbehind]
    by_cases hc : c = '/'
    · subst hc
      have hextract : Pos.Raw.extract (ofList (l ++ m ++ '/' :: r)) ⟨utf8Len l⟩
          ⟨utf8Len l + utf8Len m⟩ = ofList m := extract_of_valid l m ('/' :: r)
      have hback : (⟨utf8Len l + utf8Len m + '/'.utf8Size⟩ : Pos.Raw).unoffsetBy ⟨1⟩ =
          ⟨utf8Len l + utf8Len m⟩ := rfl
      have hrest := ih (l ++ m ++ ['/']) [] (ofList m :: acc)
      have hlength : utf8Len (l ++ m ++ ['/']) = utf8Len l + utf8Len m + '/'.utf8Size := by
        simp [Nat.add_assoc]
      have hwhole : l ++ m ++ ['/'] ++ [] ++ r = l ++ m ++ '/' :: r := by simp
      rw [hlength, hwhole, utf8Len_nil, Nat.add_zero] at hrest
      rw [if_pos (beq_self_eq_true _), if_pos hsep, hback, hextract, hrest]
      simp [List.splitOnPPrepend_cons_eq_if]
    · have hback : (⟨utf8Len l + utf8Len m⟩ : Pos.Raw).unoffsetBy 0 = ⟨utf8Len l + utf8Len m⟩ := rfl
      have hrest := ih l (m ++ [c]) acc
      have hlength : utf8Len l + utf8Len (m ++ [c]) = utf8Len l + utf8Len m + c.utf8Size := by
        simp [Nat.add_assoc]
      have hwhole : l ++ (m ++ [c]) ++ r = l ++ m ++ c :: r := by simp
      have hne : ¬(c == '/') = true := by simpa using hc
      rw [hlength, hwhole] at hrest
      rw [if_neg hne, hback, hnext, hrest, List.splitOnPPrepend_cons_eq_if, if_neg hne]
      simp

/-- The parts of a path are what stands between its slashes. -/
theorem splitOn_slash (path : String) :
    path.splitOn "/" = (List.splitOnP (· == '/') path.toList).map String.ofList := by
  have haux := splitOnAux_slash [] [] path.toList []
  have hopen : path.splitOn "/" = path.splitOnAux "/" 0 0 0 [] := rfl
  rw [hopen]
  simpa using haux

/-- Behind its last slash, a path has one more part. -/
theorem splitOn_append {front last : String} (h : '/' ∉ last.toList) :
    (front ++ "/" ++ last).splitOn "/" = front.splitOn "/" ++ [last] := by
  have hlast : List.splitOnP (· == '/') last.toList = [last.toList] := by
    refine List.splitOnP_eq_singleton fun c hc => ?_
    rw [beq_eq_false_iff_ne]
    rintro rfl
    exact h hc
  have hchars : (front ++ "/" ++ last).toList = front.toList ++ '/' :: last.toList := by simp
  rw [splitOn_slash, splitOn_slash, hchars, List.splitOnP_append_cons _ _ (by rfl), hlast]
  simp

theorem not_of_mem_splitOnPPrepend {p : Char → Bool} {chars passed part : List Char}
    (hpassed : ∀ c ∈ passed, p c = false) (h : part ∈ List.splitOnPPrepend p chars passed) :
    ∀ c ∈ part, p c = false := by
  induction chars generalizing passed with
  | nil =>
    simp only [List.splitOnPPrepend_nil, List.mem_singleton] at h
    subst h
    exact fun c hc => hpassed c (List.mem_reverse.1 hc)
  | cons c chars ih =>
    rw [List.splitOnPPrepend_cons_eq_if] at h
    by_cases hc : p c = true
    · rw [if_pos hc] at h
      rcases List.mem_cons.1 h with rfl | h
      · exact fun c hc => hpassed c (List.mem_reverse.1 hc)
      · exact ih (fun _ hb => absurd hb List.not_mem_nil) h
    · rw [if_neg hc] at h
      refine ih (fun b hb => ?_) h
      rcases List.mem_cons.1 hb with rfl | hb
      · exact eq_false_of_ne_true hc
      · exact hpassed b hb

/-- No part of a path has a slash in it. -/
theorem slash_not_mem_of_mem_splitOn {path part : String} (h : part ∈ path.splitOn "/") :
    '/' ∉ part.toList := by
  rw [splitOn_slash] at h
  obtain ⟨chars, hchars, rfl⟩ := List.mem_map.1 h
  intro hslash
  rw [String.toList_ofList] at hslash
  exact absurd (not_of_mem_splitOnPPrepend (fun _ hc => absurd hc List.not_mem_nil) hchars '/'
    hslash) (by decide)

end Route

/-- A name that a path may end in, other than the directory itself and the one above it. -/
structure IsFileName (name : String) : Prop where
  slash_not_mem : '/' ∉ name.toList
  ne_here : name ≠ "."
  ne_above : name ≠ ".."
  ne_empty : name ≠ ""

theorem isFileName_treeName (path : String) : IsFileName (treeName path) := by
  have hends : ∃ front, treeName path = front ++ ".ast" := ⟨_, rfl⟩
  have hne {short : String} (hshort : short.length < 4) : treeName path ≠ short := by
    obtain ⟨front, hfront⟩ := hends
    rintro rfl
    rw [hfront, String.length_append] at hshort
    have hast : ".ast".length = 4 := rfl
    omega
  refine ⟨?_, hne (by decide), hne (by decide), hne (by decide)⟩
  rw [treeName, String.toList_append, List.mem_append]
  rintro (hpart | hast)
  · rw [List.getLastD_eq_getLast?] at hpart
    rcases hlast : (path.splitOn "/").getLast? with _ | part
    · rw [hlast] at hpart
      cases hpart
    · rw [hlast] at hpart
      exact Route.slash_not_mem_of_mem_splitOn (List.mem_of_getLast? hlast) hpart
  · revert hast
    decide

/-- The path of a file in a directory ends in the name of the file. -/
theorem childPath_eq (dir : String) :
    ∃ front, ∀ name, childPath dir name = front ++ "/" ++ name := by
  by_cases hslash : dir.toList.getLast? = some '/'
  · obtain ⟨chars, hchars⟩ := List.getLast?_eq_some_iff.1 hslash
    refine ⟨String.ofList chars, fun name => ?_⟩
    have hdir : dir = String.ofList chars ++ "/" := by
      rw [← String.toList_inj, hchars]
      simp
    rw [childPath, if_pos (beq_iff_eq.2 hslash), ← hdir]
  · refine ⟨dir, fun name => ?_⟩
    rw [childPath, if_neg (by simpa using hslash)]

/-! ## Trees of files -/

namespace FileTree

variable {t t' : FileTree} {here names : List String} {steps : List String} {path name : String}
  {content : Bytes}

/-- What follows one step. -/
theorem follow_cons (h : t.follow here (name :: steps) = .ok names) :
    t.node? here = some .directory ∧
      ((name = "." ∧ t.follow here steps = .ok names) ∨
        (name = ".." ∧ t.follow here.dropLast steps = .ok names) ∨
        t.follow (here ++ [name]) steps = .ok names) := by
  rw [follow] at h
  rcases hnode : t.node? here with _ | _ | content
  · rw [hnode] at h
    cases h
  · rw [hnode] at h
    refine ⟨rfl, ?_⟩
    by_cases hhere : name = "."
    · exact .inl ⟨hhere, by simpa [hhere] using h⟩
    · by_cases habove : name = ".."
      · exact .inr (.inl ⟨habove, by simpa [habove] using h⟩)
      · simp only [if_neg hhere, if_neg habove] at h
        split at h
        · cases h
        · exact .inr (.inr h)
  · rw [hnode] at h
    cases h

/-- Steps that end in the name of a file lead to that name in a directory. -/
theorem follow_concat (hname : IsFileName name) (h : t.follow here (steps ++ [name]) = .ok names) :
    ∃ front, names = front ++ [name] := by
  induction steps generalizing here with
  | nil =>
    obtain ⟨-, ⟨hhere, -⟩ | ⟨habove, -⟩ | hlast⟩ := follow_cons h
    · exact absurd hhere hname.ne_here
    · exact absurd habove hname.ne_above
    · cases hlast
      exact ⟨here, rfl⟩
  | cons step steps ih =>
    obtain ⟨-, ⟨-, hrest⟩ | ⟨-, hrest⟩ | hrest⟩ := follow_cons h
    · exact ih hrest
    · exact ih hrest
    · exact ih hrest

/-- A path leads where its steps lead. -/
theorem follow_of_resolve (h : t.resolve path = .ok names) :
    ∃ r, Route.ofPath path = .ok r ∧ t.follow (t.origin r) r.allSteps = .ok names := by
  unfold resolve at h
  cases hroute : Route.ofPath path with
  | error fault =>
    rw [hroute] at h
    cases h
  | ok r =>
    rw [hroute] at h
    exact ⟨r, rfl, h⟩

/-- A path in a directory leads to the name that it ends in. -/
theorem resolve_childPath {dir : String} (hname : IsFileName name)
    (h : t.resolve (childPath dir name) = .ok names) : ∃ front, names = front ++ [name] := by
  obtain ⟨front, hfront⟩ := childPath_eq dir
  rw [hfront] at h
  obtain ⟨r, hroute, hfollow⟩ := follow_of_resolve h
  have hparts : (front ++ "/" ++ name).splitOn "/" = front.splitOn "/" ++ [name] :=
    Route.splitOn_append hname.slash_not_mem
  have hsteps : r.allSteps = (front.splitOn "/").filter (· ≠ "") ++ [name] := by
    unfold Route.ofPath at hroute
    split at hroute
    · cases hroute
    · split at hroute
      · cases hroute
      · cases hroute
        simp [Route.allSteps, hparts, hname.ne_empty]
  rw [hsteps] at hfollow
  exact follow_concat hname hfollow

/-! ## What writing changes -/

/-- A file is written where its path leads, unless a directory is there. -/
theorem of_write (h : t.write path content = .ok t') :
    ∃ names, t.resolve path = .ok names ∧ t.node? names ≠ some .directory ∧
      t' = t.insert names (.file content) := by
  unfold write at h
  cases hnames : t.resolve path with
  | error fault =>
    rw [hnames] at h
    cases h
  | ok names =>
    rw [hnames] at h
    refine ⟨names, rfl, ?_⟩
    rcases hnode : t.node? names with _ | _ | old
    · simp only [bind, Except.bind, hnode] at h
      cases h
      exact ⟨nofun, rfl⟩
    · simp only [bind, Except.bind, hnode] at h
      cases h
    · simp only [bind, Except.bind, hnode] at h
      cases h
      exact ⟨nofun, rfl⟩

theorem write_of_resolve (hnames : t.resolve path = .ok names)
    (hnode : t.node? names ≠ some .directory) :
    t.write path content = .ok (t.insert names (.file content)) := by
  unfold write
  rw [hnames]
  rcases hstands : t.node? names with _ | _ | old
  · simp only [bind, Except.bind, hstands]
    rfl
  · exact absurd hstands hnode
  · simp only [bind, Except.bind, hstands]
    rfl

/-- Of two files put at one place, the second one stays. -/
theorem insert_insert (first second : FileNode) :
    (t.insert names first).insert names second = t.insert names second := by
  simp [insert]

theorem lookup_filter_ne {nodes : List (List String × FileNode)} (hne : names ≠ here) :
    (nodes.filter fun entry => entry.1 ≠ here).lookup names = nodes.lookup names := by
  induction nodes with
  | nil => rfl
  | cons entry nodes ih =>
    obtain ⟨at', node⟩ := entry
    by_cases hat : at' = here
    · subst hat
      rw [List.filter_cons_of_neg (by simp), List.lookup_cons, ih, beq_eq_false_iff_ne.2 hne]
    · rw [List.filter_cons_of_pos (by simpa using hat), List.lookup_cons, List.lookup_cons, ih]

/-- A file stands where it was put, and what stands elsewhere stays. -/
theorem node?_insert (node : FileNode) (hhere : t.node? here ≠ some .directory) :
    (t.insert here node).node? names = if names = here then some node else t.node? names := by
  have hhome : here.isPrefixOf t.home = false := by
    refine eq_false_of_ne_true fun hhome => hhere ?_
    rw [node?, if_pos hhome]
  rw [node?, node?, insert]
  by_cases hnames : names = here
  · subst hnames
    simp [hhome]
  · rw [if_neg hnames, List.lookup_cons, beq_eq_false_iff_ne.2 hnames, lookup_filter_ne hnames]

/-- Files are not gone through, so that steps lead to the same place after a file is put in. -/
theorem follow_insert {from' : List String} (hhere : t.node? here ≠ some .directory)
    (h : t.follow from' steps = .ok names) :
    (t.insert here (.file content)).follow from' steps = .ok names := by
  induction steps generalizing from' with
  | nil => exact h
  | cons step steps ih =>
    obtain ⟨hnode, -⟩ := follow_cons h
    have hne : from' ≠ here := by
      rintro rfl
      exact hhere hnode
    have hstays : (t.insert here (.file content)).node? from' = some .directory := by
      rw [node?_insert _ hhere, if_neg hne, hnode]
    rw [follow, hnode] at h
    rw [follow, hstays]
    dsimp only at h ⊢
    split at h
    · rw [if_pos ‹_›]
      exact ih h
    · rw [if_neg ‹_›]
      split at h
      · rw [if_pos ‹_›]
        exact ih h
      · rw [if_neg ‹_›]
        split at h
        · cases h
        · rw [if_neg ‹_›]
          exact ih h

/-- After a file is put in, paths lead to the same places. -/
theorem resolve_insert (content : Bytes) (hhere : t.node? here ≠ some .directory)
    (h : t.resolve path = .ok names) :
    (t.insert here (.file content)).resolve path = .ok names := by
  obtain ⟨r, hroute, hfollow⟩ := follow_of_resolve h
  unfold resolve
  rw [hroute]
  exact follow_insert hhere hfollow

/-- A file can be read at the place that its path leads to. -/
theorem read_eq_ok : t.read path = .ok content ↔
    ∃ names, t.resolve path = .ok names ∧ t.node? names = some (.file content) := by
  unfold read
  cases hnames : t.resolve path with
  | error fault => exact ⟨nofun, nofun⟩
  | ok names =>
    rcases hnode : t.node? names with _ | _ | old <;>
      simp [bind, Except.bind, hnode, pure, Except.pure, throw, throwThe, MonadExceptOf.throw]

/-- What has been written can be read. -/
theorem read_write (h : t.write path content = .ok t') : t'.read path = .ok content := by
  obtain ⟨names, hnames, hnode, rfl⟩ := of_write h
  refine read_eq_ok.2 ⟨names, resolve_insert _ hnode hnames, ?_⟩
  rw [node?_insert _ hnode, if_pos rfl]

/-- Writing a file leaves the others of its directory as they are. -/
theorem read_write_other {dir other : String} {stored : Bytes} (hname : IsFileName name)
    (hother : IsFileName other) (hne : name ≠ other)
    (h : t.write (childPath dir name) content = .ok t')
    (hread : t.read (childPath dir other) = .ok stored) :
    t'.read (childPath dir other) = .ok stored := by
  obtain ⟨names, hnames, hnode, rfl⟩ := of_write h
  obtain ⟨names', hnames', hstored⟩ := read_eq_ok.1 hread
  obtain ⟨front, rfl⟩ := resolve_childPath hname hnames
  obtain ⟨front', rfl⟩ := resolve_childPath hother hnames'
  refine read_eq_ok.2 ⟨_, resolve_insert _ hnode hnames', ?_⟩
  rw [node?_insert _ hnode, if_neg, hstored]
  intro heq
  exact hne (List.append_inj' heq rfl |>.2 |> List.singleton_injective).symm

end FileTree

end ScriptFront
