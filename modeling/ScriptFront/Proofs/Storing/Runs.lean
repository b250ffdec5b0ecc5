import ScriptFront.Proofs.Storing.Paths
import ScriptFront.Proofs.Storing.Units

/-!
# Trees of many files

The files of a run are read before a tree is stored, and told about one after the other. The tree of
a file that is told to be fine can be read from the directory of trees, unless a later one that is
fine has the same name: the later tree takes its place.

- `FileTree.readUnit`: what reading a file comes to.
- `finishFile_succeeds`, `finishFile_fails`: what telling about a file changes.
- `tellFiles`: the files with what is told about them.
- `tree_kept`: whose trees can be read after the run.
- `trees_lost`: two files of one name, both told to be fine.
-/

namespace ScriptFront

variable {t t' ready after : FileTree} {tabWidth : UInt32} {colored : Bool} {dir path : String}

/-! ## One file -/

/-- What reading the unit of a file comes to. -/
def FileTree.readUnit (t : FileTree) (tabWidth : UInt32) (path : String) : UnitResult :=
  match t.read path with
  | .error cause => .missing ⟨path, cause⟩
  | .ok content =>
    match parseBytes path content tabWidth with
    | .ok unit => .unit unit
    | .error e => .faulty content e

section

variable {α β : Type}

theorem run_pure (a : α) : (pure a : StateM FileTree α).run t = (a, t) := rfl

theorem run_bind (x : StateM FileTree α) (f : α → StateM FileTree β) :
    (x >>= f).run t = (f (x.run t).1).run (x.run t).2 := rfl

theorem run_read (path : String) :
    (FileAccess.read path : StateM FileTree (Except FileFault Bytes)).run t =
    (t.read path, t) := rfl

theorem run_makeDirs (h : t.makeDirs path = .ok ready) :
    (FileAccess.makeDirs path : StateM FileTree (Except FileFault Unit)).run t =
    (.ok (), ready) := by
  change FileTree.update (·.makeDirs path) t = _
  rw [FileTree.update, h]

theorem run_write (content : Bytes) :
    (FileAccess.write path content : StateM FileTree (Except FileFault Unit)).run t =
      match t.write path content with
      | .ok next => (.ok (), next)
      | .error cause => (.error cause, t) := rfl

end

/-- Reading a file changes none. -/
theorem parseFile_run (path : String) :
    (parseFile tabWidth path : StateM FileTree (String × UnitResult)).run t =
      ((path, t.readUnit tabWidth path), t) := by
  unfold parseFile load FileTree.readUnit
  cases hread : t.read path with
  | error cause => simp only [run_bind, run_read, run_pure, hread]
  | ok content =>
    cases hunit : parseBytes path content tabWidth <;>
      simp only [run_bind, run_read, run_pure, hread, hunit]

theorem of_readUnit {unit : CodeUnit} (h : t.readUnit tabWidth path = .unit unit) :
    ∃ content, t.read path = .ok content ∧ parseBytes path content tabWidth = .ok unit := by
  unfold FileTree.readUnit at h
  cases hread : t.read path with
  | error cause =>
    rw [hread] at h
    cases h
  | ok content =>
    rw [hread] at h
    refine ⟨content, rfl, ?_⟩
    cases hunit : parseBytes path content tabWidth with
    | error e =>
      simp only [hunit] at h
      cases h
    | ok parsed =>
      simp only [hunit] at h
      cases h
      rfl

/-- A tree is stored under the name of its file, or nothing changes. -/
theorem storeTree_run (unit : CodeUnit) :
    (storeTree dir path unit : StateM FileTree (Except LoadFault Unit)).run t =
      match t.write (childPath dir (treeName path)) unit.datum.bytes with
      | .ok next => (.ok (), next)
      | .error cause => (.error ⟨childPath dir (treeName path), cause⟩, t) := by
  unfold storeTree
  cases hstored : t.write (childPath dir (treeName path)) unit.datum.bytes <;>
    simp only [run_bind, run_write, run_pure, hstored]

/-- What telling about a file changes: the tree of its unit is stored if it is told to be fine, and
nothing changes if something is wrong. -/
theorem finishFile_run {result : UnitResult} {outcome : Outcome}
    (h : (finishFile (some dir) colored (path, result) : StateM FileTree Outcome).run t =
      (outcome, t')) :
    (outcome.succeeds = true ∧ ∃ unit, result = .unit unit ∧ outcome = .print (unit.report path) ∧
        t.write (childPath dir (treeName path)) unit.datum.bytes = .ok t') ∨
      (outcome.succeeds = false ∧ t' = t) := by
  cases result with
  | missing fault =>
    cases h
    exact .inr ⟨rfl, rfl⟩
  | faulty content e =>
    cases h
    exact .inr ⟨rfl, rfl⟩
  | unit unit =>
    unfold finishFile at h
    cases hstored : t.write (childPath dir (treeName path)) unit.datum.bytes with
    | error cause =>
      simp only [run_bind, storeTree_run, run_pure, hstored] at h
      cases h
      exact .inr ⟨rfl, rfl⟩
    | ok next =>
      simp only [run_bind, storeTree_run, run_pure, hstored] at h
      cases h
      exact .inl ⟨rfl, unit, rfl, rfl, hstored⟩

/-! ## All files of a run -/

/-- The files with what is told about them. -/
def tellFiles (files : List (String × UnitResult)) (dir : String) (colored : Bool) :
    StateM FileTree (List (String × Outcome)) :=
  files.mapM fun file => return (file.1, ← finishFile (some dir) colored file)

/-- The distinct files of a run with what is read from them. -/
def FileTree.readUnits (t : FileTree) (tabWidth : UInt32) (files : List String) :
    List (String × UnitResult) :=
  files.eraseDups.map fun path => (path, t.readUnit tabWidth path)

/-- All files are read, as they are when the directory of trees is ready, before one is told
about. -/
theorem parseFiles_run (files : List String) (hready : t.makeDirs dir = .ok ready) :
    (parseFiles files tabWidth (some dir) colored : StateM FileTree Outcome).run t =
      let told := (tellFiles (ready.readUnits tabWidth files) dir colored).run ready
      (.all (told.1.map Prod.snd), told.2) := by
  have hread (paths : List String) :
      (paths.mapM (parseFile tabWidth) : StateM FileTree (List (String × UnitResult))).run ready =
        (paths.map fun path => (path, ready.readUnit tabWidth path), ready) := by
    induction paths with
    | nil => rfl
    | cons path paths ih =>
      rw [List.mapM_cons]
      simp only [run_bind, run_pure, parseFile_run, ih, List.map_cons]
  have htold (units : List (String × UnitResult)) (t : FileTree) :
      (units.mapM (finishFile (some dir) colored) : StateM FileTree (List Outcome)).run t =
        let told := (tellFiles units dir colored).run t
        (told.1.map Prod.snd, told.2) := by
    unfold tellFiles
    induction units generalizing t with
    | nil => rfl
    | cons unit units ih =>
      rw [List.mapM_cons, List.mapM_cons]
      simp only [run_bind, run_pure, ih, List.map_cons]
  unfold parseFiles
  simp only [run_bind, run_pure, run_makeDirs hready, hread, htold, FileTree.readUnits]

/-- One file is told about, and then those behind it. -/
theorem tellFiles_cons {file : String × UnitResult} {outcome : Outcome}
    (files : List (String × UnitResult))
    (hfirst : (finishFile (some dir) colored file : StateM FileTree Outcome).run t =
      (outcome, t')) :
    (tellFiles (file :: files) dir colored).run t =
      let later := (tellFiles files dir colored).run t'
      ((file.1, outcome) :: later.1, later.2) := by
  unfold tellFiles
  rw [List.mapM_cons]
  simp only [run_bind, run_pure, hfirst]

theorem tellFiles_map_fst (files : List (String × UnitResult)) :
    ((tellFiles files dir colored).run t).1.map Prod.fst = files.map Prod.fst := by
  induction files generalizing t with
  | nil => rfl
  | cons file files ih =>
    rw [tellFiles_cons files rfl]
    simp only [List.map_cons, ih]

/-- Files of other names leave a tree as it is. -/
theorem read_tellFiles {files : List (String × UnitResult)} {stored : Bytes}
    (hother : ∀ other ∈ ((tellFiles files dir colored).run t).1, other.2.succeeds = true →
      treeName other.1 ≠ treeName path)
    (hread : t.read (childPath dir (treeName path)) = .ok stored) :
    ((tellFiles files dir colored).run t).2.read (childPath dir (treeName path)) = .ok stored := by
  induction files generalizing t with
  | nil => exact hread
  | cons file files ih =>
    rcases hfirst : (finishFile (some dir) colored file : StateM FileTree Outcome).run t with
      ⟨outcome, next⟩
    rw [tellFiles_cons files hfirst] at hother ⊢
    refine ih (fun other hmem => hother other (List.mem_cons_of_mem _ hmem)) ?_
    rcases finishFile_run hfirst with ⟨hfine, unit, -, -, hwrite⟩ | ⟨-, rfl⟩
    · have hne := hother _ List.mem_cons_self hfine
      exact FileTree.read_write_other (isFileName_treeName _) (isFileName_treeName _)
        hne hwrite hread
    · exact hread

/-- The tree of a file that is told to be fine is there, unless a later file has the same name. -/
theorem read_tellFiles_append {files : List (String × UnitResult)}
    {earlier later : List (String × Outcome)} {outcome : Outcome}
    (htold : ((tellFiles files dir colored).run t).1 = earlier ++ (path, outcome) :: later)
    (hfine : outcome.succeeds = true) :
    ∃ unit, (path, .unit unit) ∈ files ∧ outcome = .print (unit.report path) ∧
      ((∀ other ∈ later, other.2.succeeds = true → treeName other.1 ≠ treeName path) →
        ((tellFiles files dir colored).run t).2.read (childPath dir (treeName path)) =
          .ok unit.datum.bytes) := by
  induction files generalizing t earlier with
  | nil => cases earlier <;> cases htold
  | cons file files ih =>
    rcases hfirst : (finishFile (some dir) colored file : StateM FileTree Outcome).run t with
      ⟨outcome', next⟩
    rw [tellFiles_cons files hfirst] at htold ⊢
    cases earlier with
    | nil =>
      obtain ⟨path', result⟩ := file
      obtain ⟨hhead, hlater⟩ := List.cons.inj htold
      cases hhead
      rcases finishFile_run hfirst with ⟨-, unit, rfl, houtcome, hwrite⟩ | ⟨hfails, -⟩
      · refine ⟨unit, List.mem_cons_self, houtcome, fun hother => ?_⟩
        refine read_tellFiles (fun other hmem => hother other ?_) (FileTree.read_write hwrite)
        rw [← hlater]
        exact hmem
      · exact absurd hfine (ne_true_of_eq_false hfails)
    | cons told earlier =>
      obtain ⟨unit, hmem, houtcome, hread⟩ := ih (List.cons.inj htold).2
      exact ⟨unit, List.mem_cons_of_mem _ hmem, houtcome, hread⟩

theorem decode_bytes {unit : CodeUnit} (hfits : unit.datum.fits = true) :
    CodeUnit.decode.run unit.datum.bytes.toList = some (unit, []) := by
  have hlossless : Decode.Lossless CodeUnit.decode CodeUnit.datum :=
    .of_recovers (Decoder.whole_recovers fun _ _ hd => hd.codeUnit)
  have hdecode := hlossless.recovers unit hfits []
  rw [List.append_nil] at hdecode
  exact hdecode

/-- Each file of a run is told about once. The unit of a file that is told to be fine is what the
bytes of the file are, and its tree can be read from the directory of trees when all is done, unless
a file that is told about later, and to be fine, has the same name. -/
theorem tree_kept (files : List String) (hready : t.makeDirs dir = .ok ready) :
    let told := (tellFiles (ready.readUnits tabWidth files) dir colored).run ready
    (parseFiles files tabWidth (some dir) colored : StateM FileTree Outcome).run t =
        (.all (told.1.map Prod.snd), told.2) ∧
      told.1.map Prod.fst = files.eraseDups ∧
      ∀ earlier path outcome later, told.1 = earlier ++ (path, outcome) :: later →
        outcome.succeeds = true →
        ∃ content unit, ready.read path = .ok content ∧
          parseBytes path content tabWidth = .ok unit ∧ outcome = .print (unit.report path) ∧
          (unit.datum.fits = true →
            (∀ other ∈ later, other.2.succeeds = true → treeName other.1 ≠ treeName path) →
            ∃ stored, told.2.read (childPath dir (treeName path)) = .ok stored ∧
              CodeUnit.decode.run stored.toList = some (unit, [])) := by
  intro told
  refine ⟨parseFiles_run files hready, ?_, fun earlier path outcome later htold hfine => ?_⟩
  · rw [tellFiles_map_fst, FileTree.readUnits, List.map_map]
    exact List.map_id _
  · obtain ⟨unit, hmem, houtcome, hread⟩ := read_tellFiles_append htold hfine
    obtain ⟨path', -, hunit⟩ := List.mem_map.1 hmem
    obtain ⟨rfl, hresult⟩ := Prod.mk.inj hunit
    obtain ⟨content, hcontent, hparsed⟩ := of_readUnit hresult
    refine ⟨content, unit, hcontent, hparsed, houtcome, fun hfits hother => ?_⟩
    exact ⟨_, hread hother, decode_bytes hfits⟩

/-! ## Files of one name -/

/-- Of two files of one name, both are told to be fine, and the tree of the first one is gone. -/
theorem tellFiles_sameName {first second : String} {names : List String} (unit unit' : CodeUnit)
    (hsame : treeName second = treeName first)
    (hnames : t.resolve (childPath dir (treeName first)) = .ok names)
    (hnode : t.node? names ≠ some .directory) :
    (tellFiles [(first, .unit unit), (second, .unit unit')] dir colored).run t =
      ([(first, .print (unit.report first)), (second, .print (unit'.report second))],
        t.insert names (.file unit'.datum.bytes)) := by
  have hstores {t : FileTree} {path : String} (unit : CodeUnit)
      (hnames : t.resolve (childPath dir (treeName path)) = .ok names)
      (hnode : t.node? names ≠ some .directory) :
      (finishFile (some dir) colored (path, .unit unit) : StateM FileTree Outcome).run t =
        (.print (unit.report path), t.insert names (.file unit.datum.bytes)) := by
    unfold finishFile
    simp only [run_bind, run_pure, storeTree_run, FileTree.write_of_resolve hnames hnode]
  have hnode' : (t.insert names (.file unit.datum.bytes)).node? names ≠ some .directory := by
    rw [FileTree.node?_insert _ hnode, if_pos rfl]
    exact nofun
  have hnames' := FileTree.resolve_insert unit.datum.bytes hnode hnames
  rw [tellFiles_cons _ (hstores unit hnames hnode),
    tellFiles_cons _ (hstores unit' (hsame ▸ hnames') hnode'), FileTree.insert_insert]
  rfl

/-- Two directories, each with an empty file named `x`. -/
def FileTree.sameNames : FileTree where
  nodes := [(["a"], .directory), (["a", "x"], .file #[]), (["b"], .directory),
    (["b", "x"], .file #[])]
  home := []

/-- The two directories with one for trees. -/
def FileTree.sameNamesReady : FileTree := FileTree.sameNames.insert ["out"] .directory

/-- The paths that the run goes. -/
theorem sameNames_route {path : String} (steps : List String)
    (h : (path, steps) ∈ [("out", ["out"]), ("a/x", ["a", "x"]), ("b/x", ["b", "x"]),
      ("out/x.ast", ["out", "x.ast"])]) :
    Route.ofPath path = .ok ⟨false, steps, false⟩ := by
  rw [Route.ofPath, Route.splitOn_slash]
  simp only [List.mem_cons, Prod.mk.injEq, List.not_mem_nil, or_false] at h
  rcases h with ⟨rfl, rfl⟩ | ⟨rfl, rfl⟩ | ⟨rfl, rfl⟩ | ⟨rfl, rfl⟩ <;> decide

theorem sameNames_makeDirs : FileTree.sameNames.makeDirs "out" = .ok FileTree.sameNamesReady := by
  rw [FileTree.makeDirs, sameNames_route ["out"] (by simp)]
  rfl

theorem sameNames_read {path : String} (h : path = "a/x" ∨ path = "b/x") :
    FileTree.sameNamesReady.read path = .ok #[] := by
  rcases h with rfl | rfl
  · rw [FileTree.read, FileTree.resolve, sameNames_route ["a", "x"] (by simp)]
    rfl
  · rw [FileTree.read, FileTree.resolve, sameNames_route ["b", "x"] (by simp)]
    rfl

theorem sameNames_readUnits : FileTree.sameNamesReady.readUnits 4 ["a/x", "b/x"] =
    [("a/x", .unit ⟨"a/x", [], []⟩), ("b/x", .unit ⟨"b/x", [], []⟩)] := by
  show [("a/x", FileTree.sameNamesReady.readUnit 4 "a/x"),
    ("b/x", FileTree.sameNamesReady.readUnit 4 "b/x")] = _
  rw [FileTree.readUnit, sameNames_read (.inl rfl), FileTree.readUnit, sameNames_read (.inr rfl)]
  rfl

theorem sameNames_treeName {path : String} (h : path = "a/x" ∨ path = "b/x") :
    treeName path = "x.ast" := by
  rcases h with rfl | rfl
  · rw [treeName, Route.splitOn_slash]
    decide
  · rw [treeName, Route.splitOn_slash]
    decide

/-- Both files are told to be fine, and there is one tree. -/
theorem sameNames_tellFiles :
    (tellFiles (FileTree.sameNamesReady.readUnits 4 ["a/x", "b/x"]) "out" false).run
        FileTree.sameNamesReady =
      ([("a/x", .print (CodeUnit.report "a/x" ⟨"a/x", [], []⟩)),
          ("b/x", .print (CodeUnit.report "b/x" ⟨"b/x", [], []⟩))],
        FileTree.sameNamesReady.insert ["out", "x.ast"]
          (.file (CodeUnit.datum ⟨"b/x", [], []⟩).bytes)) := by
  have hchild : childPath "out" (treeName "a/x") = "out/x.ast" := by
    rw [sameNames_treeName (.inl rfl)]
    decide
  have hnames : FileTree.sameNamesReady.resolve (childPath "out" (treeName "a/x")) =
      .ok ["out", "x.ast"] := by
    rw [hchild, FileTree.resolve, sameNames_route ["out", "x.ast"] (by simp)]
    rfl
  have hnode : FileTree.sameNamesReady.node? ["out", "x.ast"] = none := rfl
  have hsame : treeName "b/x" = treeName "a/x" :=
    (sameNames_treeName (.inr rfl)).trans (sameNames_treeName (.inl rfl)).symm
  rw [sameNames_readUnits]
  refine tellFiles_sameName _ _ hsame hnames ?_
  rw [hnode]
  rintro ⟨⟩

/-- The second one of two files of one name keeps its tree. -/
theorem tree_kept_second :
    ∃ ready, FileTree.sameNames.makeDirs "out" = .ok ready ∧
      let run := (parseFiles ["a/x", "b/x"] 4 (some "out") false : StateM FileTree Outcome).run
        FileTree.sameNames
      ∃ content unit stored, ready.read "b/x" = .ok content ∧
        parseBytes "b/x" content 4 = .ok unit ∧
        run.2.read (childPath "out" (treeName "b/x")) = .ok stored ∧
        CodeUnit.decode.run stored.toList = some (unit, []) := by
  refine ⟨_, sameNames_makeDirs, ?_⟩
  intro run
  obtain ⟨hrun, -, hkept⟩ :=
    @tree_kept _ _ 4 false "out" ["a/x", "b/x"] sameNames_makeDirs
  have htold := congrArg Prod.fst sameNames_tellFiles
  obtain ⟨content, unit, hcontent, hparsed, -, hstored⟩ :=
    hkept [_] "b/x" _ [] htold rfl
  have hunit : parseBytes "b/x" #[] 4 = .ok ⟨"b/x", [], []⟩ := rfl
  obtain rfl : #[] = content := by
    rw [sameNames_read (.inr rfl)] at hcontent
    cases hcontent
    rfl
  rw [hunit] at hparsed
  cases hparsed
  obtain ⟨stored, hread, hdecode⟩ :=
    hstored (by decide) (fun other hmem => absurd hmem List.not_mem_nil)
  have hrun' : run = _ := hrun
  refine ⟨_, _, stored, hcontent, hunit, ?_, hdecode⟩
  rw [hrun']
  exact hread

/-- So a tree may be lost. Here both files are told to be fine, and the one file in the directory of
trees is the tree of `b/x`. -/
theorem trees_lost :
    let run := (parseFiles ["a/x", "b/x"] 4 (some "out") false : StateM FileTree Outcome).run
      FileTree.sameNames
    run.1.succeeds = true ∧
      run.1.stdout = "a/x: ok (0 includes, 0 namespaces, 0 declarations)\n" ++
        "b/x: ok (0 includes, 0 namespaces, 0 declarations)\n" ∧
      ∃ unit, parseBytes "a/x" #[] 4 = .ok unit ∧
        ∀ file ∈ run.2.filesIn "out", CodeUnit.decode.run file.2.toList ≠ some (unit, []) := by
  intro run
  have hrun : run = _ := parseFiles_run _ sameNames_makeDirs
  rw [sameNames_tellFiles] at hrun
  rw [hrun]
  refine ⟨rfl, rfl, ⟨"a/x", [], []⟩, rfl, fun file hfile => ?_⟩
  have hfiles : (FileTree.sameNamesReady.insert ["out", "x.ast"]
      (.file (CodeUnit.datum ⟨"b/x", [], []⟩).bytes)).filesIn "out" =
        [("x.ast", (CodeUnit.datum ⟨"b/x", [], []⟩).bytes)] := by
    rw [FileTree.filesIn, FileTree.resolve, sameNames_route ["out"] (by simp)]
    rfl
  rw [hfiles, List.mem_singleton] at hfile
  subst hfile
  rw [decode_bytes (by decide)]
  intro heq
  have hname := congrArg (fun read => read.map fun u => u.1.sourceName) heq
  exact absurd hname (by decide)

end ScriptFront
