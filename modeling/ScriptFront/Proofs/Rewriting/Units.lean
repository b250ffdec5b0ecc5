import ScriptFront.Proofs.Rewriting.Classes

/-!
# Units that are written anew

- `IncludeDecl.rewritten`: names that are included.
- `GeneralDecl.rewritten`: a declaration behind `export` and `abstract`.
- `NamespaceDecl.rewritten`: a namespace, whose members stand grouped by kind.
- `CodeUnit.rewritten`: a whole text.
-/

namespace ScriptFront

open ScriptFront.Parser

variable {V : Vocabulary} {inTrait : Bool}

/-! ## Includes -/

section Includes

variable {c : Setting} {rest : List Lexeme}

theorem Parses.includeItem (item : IncludeItem) :
    Parses c (.name item.name :: rest) Grammar.includeItem (Copies IncludeItem.unplaced item)
      rest := by
  refine check (ifFalse Bool.false_ne_true (position fun pos' => ?_))
  exact expectIdentifier (pure rfl)

/-- What is included is read back in front of the brace. -/
theorem IncludeItems.parses {items : IncludeItems} (hne : ∀ is, items = .named is → is ≠ []) :
    Parses c (items.lexemes ++ .mark .rBrace :: rest) Grammar.includeItems
      (fun out => out.unplaced = items.unplaced) (.mark .rBrace :: rest) := by
  cases items with
  | all => exact Parses.eat rfl (.pure rfl)
  | named items =>
    obtain ⟨item, items, rfl⟩ := List.exists_cons_of_ne_nil (hne items rfl)
    rw [IncludeItems.lexemes, commas_map_cons, List.append_assoc]
    refine Parses.eatNot nofun ((Parses.includeItem item).bind fun item' hitem' => ?_)
    have hmore : Parses c ((items.flatMap fun item => [.mark .comma, .name item.name]) ++
        .mark .rBrace :: rest)
        (Grammar.builtWhile (Parser.eat Symbol.comma) Grammar.includeItem)
        (fun out => out.map IncludeItem.unplaced = items.map IncludeItem.unplaced)
        (.mark .rBrace :: rest) :=
      Parses.builtBehindMarks (fun _ => True) (fun _ => trivial)
        (fun i _ us _ => Parses.includeItem i) trivial nofun
    refine hmore.bind fun out hout => .pure ?_
    have hitem' : item'.unplaced = item.unplaced := hitem'
    simp only [IncludeItems.unplaced, List.map_cons, hitem', hout]

theorem ScopedName.lexemes_cons (pos : Position) (root : Bool) (name : String)
    (names : List String) : ScopedName.lexemes ⟨pos, root, name :: names⟩ =
      (if root then [.mark .colonColon] else []) ++ .name name ::
        names.flatMap fun name => [.mark .colonColon, .name name] := by
  cases root <;> rfl

/-- A path is read back in front of a semicolon. -/
theorem ScopedName.parses {path : ScopedName} (hne : path.segments ≠ []) :
    Parses c (path.lexemes ++ .mark .semicolon :: rest) Grammar.scopedName
      (fun out => { out with pos := .start } = { path with pos := .start })
      (.mark .semicolon :: rest) := by
  obtain ⟨pos, root, segments⟩ := path
  obtain ⟨name, names, rfl⟩ := List.exists_cons_of_ne_nil hne
  rw [ScopedName.lexemes_cons]
  have hnames (pos' : Position) : Parses c (.name name ::
      ((names.flatMap fun name => [.mark .colonColon, .name name]) ++ .mark .semicolon :: rest))
      (Parser.expectIdentifier >>= fun first =>
        Grammar.builtWhile (Parser.eat Symbol.colonColon) Parser.expectIdentifier >>= fun more =>
          Pure.pure (⟨pos', root, first :: more⟩ : ScopedName))
      (fun out => { out with pos := .start } = ⟨.start, root, name :: names⟩)
      (.mark .semicolon :: rest) := by
    refine Parses.expectIdentifier ?_
    have hmore : Parses c ((names.flatMap fun name => [.mark .colonColon, .name name]) ++
        .mark .semicolon :: rest)
        (Grammar.builtWhile (Parser.eat Symbol.colonColon) Parser.expectIdentifier)
        (fun out => out.map id = names.map id) (.mark .semicolon :: rest) :=
      Parses.builtBehindMarks (fun _ => True) (fun _ => trivial)
        (fun name _ us _ => Parses.takeName) trivial nofun
    refine hmore.bind fun out hout => .pure ?_
    rw [List.map_id, List.map_id] at hout
    rw [hout]
  refine Parses.position fun pos' => ?_
  cases root with
  | true => exact Parses.eat rfl (hnames pos')
  | false => exact Parses.eatNot nofun (hnames pos')

/-- Names that are included are read back. -/
theorem IncludeDecl.rewritten (hV : V.Writable) {d : IncludeDecl}
    (here : (Node.include d).Writable V inTrait) : (Node.include d).Rewritten inTrait := by
  obtain ⟨pos, items, path⟩ := d
  obtain ⟨hitems, hsegments⟩ := here.wellFormed hV.firm
  have hwords : V.Include ⟨pos, items, path⟩ := here.spelled
  refine ⟨?_, ?_⟩
  · have hitemsLegible : Legible items.lexemes := by
      cases items with
      | all => simp [IncludeItems.lexemes]
      | named items =>
        simpa [IncludeItems.lexemes] using fun i hi =>
          Lexeme.WellFormed.name (hV.name (hwords.items items rfl i hi))
    have hpathLegible : Legible path.lexemes := by
      have hscope : Legible (scopeLexemes path.segments) := by
        simpa [scopeLexemes] using fun name hname =>
          Lexeme.WellFormed.name (hV.name (hwords.segments name hname))
      rw [ScopedName.lexemes]
      split
      · exact hscope
      · exact fun l hl => hscope l (List.mem_of_mem_drop hl)
    simpa [IncludeDecl.lexemes] using ⟨hitemsLegible, hpathLegible⟩
  rintro c rfl depth hdepth rest -
  have hrow : IncludeDecl.lexemes ⟨pos, items, path⟩ ++ rest = .word .includeKw :: .mark .lBrace ::
      (items.lexemes ++ .mark .rBrace :: .word .fromKw :: (path.lexemes ++
        .mark .semicolon :: rest)) := by
    simp [IncludeDecl.lexemes, inBraces]
  rw [hrow]
  refine Parses.position fun pos' => Parses.mark rfl (Parses.mark rfl ?_)
  refine (IncludeItems.parses hitems).bind fun items' hitems' => Parses.mark rfl ?_
  refine Parses.expectOneOf rfl fun token htoken => ?_
  refine (ScopedName.parses hsegments).bind fun path' hpath' => Parses.mark rfl (.pure ?_)
  simp only [Copies, IncludeDecl.unplaced, hitems', hpath']

end Includes

/-! ## Declarations -/

theorem GeneralDecl.begins (d : GeneralDecl) : Begins (d.lexemes parenthesized) fun k =>
    k ≠ Symbol.rBrace ∧ k ≠ Keyword.namespaceKw := by
  have hflag {e : Bool} {row : List Lexeme} (h : Begins row fun k => k ≠ Symbol.rBrace ∧
      k ≠ Keyword.namespaceKw) : Begins (flag .exportKw e ++ row) fun k => k ≠ Symbol.rBrace ∧
        k ≠ Keyword.namespaceKw := by
    cases e with
    | true => exact ⟨_, _, rfl, nofun, nofun⟩
    | false => exact h
  cases d with
  | «class» d =>
    rw [GeneralDecl.lexemes, List.append_assoc]
    refine hflag ?_
    cases d.isAbstract with
    | true => exact ⟨_, _, rfl, nofun, nofun⟩
    | false => exact ⟨_, _, rfl, nofun, nofun⟩
  | «variable» d =>
    exact hflag (d.begins.mono fun k hk => by rcases hk with rfl | rfl <;> exact ⟨nofun, nofun⟩)
  | interface d => exact hflag ⟨_, _, rfl, nofun, nofun⟩
  | struct d => exact hflag ⟨_, _, rfl, nofun, nofun⟩
  | enum d => exact hflag ⟨_, _, rfl, nofun, nofun⟩
  | trait d => exact hflag ⟨_, _, rfl, nofun, nofun⟩
  | function d => exact hflag ⟨_, _, rfl, nofun, nofun⟩

/-- A declaration is read behind `export` and `abstract`; only classes are abstract. -/
theorem Parses.generalDecl {c : Setting} {depth : Nat} {row rest : List Lexeme}
    {exported isAbstract : Bool} {W : GeneralDecl → Prop}
    (hexport : headKind (row ++ rest) ≠ Keyword.exportKw)
    (habstract : headKind (row ++ rest) ≠ Keyword.abstractKw)
    (hclass : isAbstract → headKind (row ++ rest) = Keyword.classKw)
    (h : Parses c (row ++ rest) ((Grammar.upTo depth).declaration exported isAbstract) W rest) :
    Parses c (flag .exportKw exported ++ (flag .abstractKw isAbstract ++ (row ++ rest)))
      (Grammar.upTo depth).generalDecl W rest := by
  refine eatFlag (fun _ => ?_) (eatFlag (fun _ => habstract) (checkedNot.bind fun b hb => ?_))
  · cases isAbstract with
    | true => exact nofun
    | false => exact hexport
  · refine ifFalse ?_ h
    cases isAbstract with
    | true => simp [hb, hclass rfl]
    | false => simp

/-- A declaration that is read back is read back behind `export`. -/
theorem Rereads.exported {α : Type} {row : List Lexeme} {exported : Bool}
    {x : Grammar Buffer → Parse Buffer α} {P : α → Prop}
    {W : GeneralDecl → Prop} (h : Rereads inTrait row x P fun _ => True)
    (hk : ∀ rest, headKind (row ++ rest) ≠ Keyword.exportKw ∧
      headKind (row ++ rest) ≠ Keyword.abstractKw)
    (hread : ∀ (c : Setting) depth rest, Parses c (row ++ rest) (x (Grammar.upTo depth)) P rest →
      Parses c (row ++ rest) ((Grammar.upTo depth).declaration exported false) W rest) :
    Rereads inTrait (flag .exportKw exported ++ row) (·.generalDecl) W fun _ => True := by
  refine ⟨by simpa using ⟨.flag _ _, h.legible⟩, fun c hc depth hdepth rest _ => ?_⟩
  rw [List.length_append] at hdepth
  rw [List.append_assoc]
  show Parses c (flag .exportKw exported ++ (flag .abstractKw false ++ (row ++ rest))) _ _ _
  exact Parses.generalDecl (hk rest).1 (hk rest).2 nofun
    (hread c depth rest (h.read c hc depth (by omega) rest trivial))

/-- A declaration whose tree is read back is read back. -/
theorem GeneralDecl.rewritten (hV : V.Writable) {d : GeneralDecl}
    (here : (Node.declaration d).Writable V inTrait) (part : d.node.Rewritten inTrait) :
    (Node.declaration d).Rewritten inTrait := by
  cases d with
  | «class» d =>
    have hclass : (Node.class d).Rewritten inTrait := part
    refine ⟨by simpa [GeneralDecl.lexemes] using ⟨.flag _ _, .flag _ _, hclass.legible⟩, ?_⟩
    rintro c rfl depth hdepth rest -
    simp only [GeneralDecl.lexemes, List.length_append] at hdepth
    rw [GeneralDecl.lexemes, List.append_assoc, List.append_assoc]
    refine Parses.generalDecl nofun nofun (fun _ => rfl) (Parses.kind ?_)
    exact (Parses.inContext .classes (hclass.read c rfl depth (by omega) rest trivial)).bind
      fun d' hd' => .pure (congrArg GeneralDecl.class hd')
  | interface d =>
    have hinterface : (Node.interface d).Rewritten inTrait := part
    refine hinterface.exported (fun _ => ⟨nofun, nofun⟩) fun c depth rest h => Parses.kind ?_
    exact (Parses.inContext .interfaces h).bind fun d' hd' =>
      .pure (congrArg GeneralDecl.interface hd')
  | struct d =>
    have hstruct : (Node.struct d).Rewritten inTrait := part
    refine hstruct.exported (fun _ => ⟨nofun, nofun⟩) fun c depth rest h => Parses.kind ?_
    exact (Parses.inContext .structs h).bind fun d' hd' => .pure (congrArg GeneralDecl.struct hd')
  | enum d =>
    have henum : (Node.enum d).Rewritten inTrait := part
    refine henum.exported (fun _ => ⟨nofun, nofun⟩) fun c depth rest h => Parses.kind ?_
    exact (Parses.inContext .enums h).bind fun d' hd' => .pure (congrArg GeneralDecl.enum hd')
  | trait d =>
    have htrait : (Node.trait d).Rewritten inTrait := part
    refine htrait.exported (fun _ => ⟨nofun, nofun⟩) fun c depth rest h => Parses.kind ?_
    exact (Parses.inContext .traits h).bind fun d' hd' => .pure (congrArg GeneralDecl.trait hd')
  | function d =>
    have hfunction : (Node.function d).Rewritten inTrait := part
    refine hfunction.exported (fun _ => ⟨nofun, nofun⟩) fun c depth rest h => Parses.kind ?_
    exact (Parses.inContext .functions h).bind fun d' hd' =>
      .pure (congrArg GeneralDecl.function hd')
  | «variable» d =>
    have hnamed : d.binding.IsNamed := here.wellFormed hV.firm
    have hvariable := (part : (Node.variable d).Rewritten inTrait) false fun _ => hnamed
    refine hvariable.exported (fun rest => ?_) fun c depth rest h => Parses.kind ?_
    · rcases d.begins.headKind rest with hk | hk <;> rw [hk] <;> exact ⟨nofun, nofun⟩
    · have hread : Parses c (d.lexemes parenthesized ++ rest)
          (Grammar.variableDecl (Grammar.upTo depth) .build d.exported false >>= fun d =>
            Pure.pure (GeneralDecl.variable d)) (Copies GeneralDecl.unplaced (.variable d)) rest :=
        h.bind fun d' hd' => .pure (congrArg GeneralDecl.variable hd')
      rcases d.begins.headKind rest with hk | hk <;> rw [hk] <;> exact hread

/-! ## Namespaces -/

theorem NamespaceDecl.row_eq_flatMap (decls : List NamespaceDecl) :
    NamespaceDecl.row parenthesized decls =
      decls.flatMap (NamespaceDecl.lexemes parenthesized) := by
  induction decls with
  | nil => rfl
  | cons d decls ih => rw [NamespaceDecl.row, ih, List.flatMap_cons]

theorem NamespaceDecl.begins (d : NamespaceDecl) :
    Begins (d.lexemes parenthesized) fun k => k = Keyword.namespaceKw := by
  obtain ⟨pos, name, namespaces, declarations⟩ := d
  rw [NamespaceDecl.lexemes]
  exact ⟨_, _, rfl, rfl⟩

/-- A member of a namespace. -/
def namespaceMemberLexemes : Grammar.NamespaceMember → List Lexeme
  | .inner decl => decl.lexemes parenthesized
  | .declaration decl => decl.lexemes parenthesized

/-- A namespace whose members are read back is read back. -/
theorem NamespaceDecl.rewritten (hV : V.Writable) {d : NamespaceDecl}
    (here : (Node.namespace d).Writable V inTrait)
    (parts : ∀ m ∈ (Node.namespace d).parts, m.Rewritten inTrait) :
    (Node.namespace d).Rewritten inTrait := by
  obtain ⟨pos, name, namespaces, declarations⟩ := d
  have hname : Lexeme.WellFormed (.name name) := .name (hV.name here.spelled)
  have hinner : ∀ d ∈ namespaces, (Node.namespace d).Rewritten inTrait := fun d hd =>
    parts (.namespace d) (by simp [Node.parts, hd])
  have hdeclarations : ∀ d ∈ declarations, (Node.declaration d).Rewritten inTrait := fun d hd =>
    parts (.declaration d) (by simp [Node.parts, hd])
  let members : List Grammar.NamespaceMember :=
    namespaces.map .inner ++ declarations.map .declaration
  have hrow : NamespaceDecl.lexemes parenthesized ⟨pos, name, namespaces, declarations⟩ =
      .word .namespaceKw :: .name name :: inBraces (members.flatMap namespaceMemberLexemes) := by
    rw [NamespaceDecl.lexemes, NamespaceDecl.row_eq_flatMap, List.flatMap_append, List.flatMap_map,
      List.flatMap_map]
    rfl
  have hpicked : members.filterMap Grammar.NamespaceMember.inner? = namespaces ∧
      members.filterMap Grammar.NamespaceMember.declaration? = declarations := by
    constructor <;>
      simp [members, List.filterMap_map, Function.comp_def, Grammar.NamespaceMember.inner?,
        Grammar.NamespaceMember.declaration?]
  intro n hn
  refine ⟨?_, ?_⟩
  · rw [hrow]
    simp only [Legible.cons_iff, Legible.inBraces_iff, Legible.flatMap_iff, members,
      List.forall_mem_append, List.forall_mem_map]
    exact ⟨.word _, hname, fun d hd => (hinner d hd _ (Nat.le_refl _)).legible,
      fun d hd => (hdeclarations d hd).legible⟩
  rintro c rfl depth hdepth rest -
  rw [hrow] at hdepth hn ⊢
  simp only [inBraces, List.length_cons, List.length_append] at hdepth hn
  obtain ⟨n, rfl⟩ : ∃ k, n = k + 1 := ⟨n - 1, by omega⟩
  rw [List.cons_append, List.cons_append, inBraces_append]
  have hbegins (m : Grammar.NamespaceMember) :
      Begins (namespaceMemberLexemes m) fun k => k ≠ Symbol.rBrace := by
    cases m with
    | inner d => exact d.begins.mono (by rintro k rfl ⟨⟩)
    | declaration d => exact d.begins.mono fun k hk => hk.1
  have hmembers (m : Grammar.NamespaceMember) (hm : m ∈ members) (us : List Lexeme) :
      Parses c (namespaceMemberLexemes m ++ us) (do
        if ← Parser.check Keyword.namespaceKw then
          return .inner (← (Grammar.upTo depth).namespaceDecl n)
        else return .declaration (← (Grammar.upTo depth).generalDecl))
        (Copies Grammar.NamespaceMember.unplaced m) us := by
    have hlength := length_le_flatMap (f := namespaceMemberLexemes) hm
    cases m with
    | inner d =>
      have hd : d ∈ namespaces := by simpa [members] using hm
      refine Parses.check (Parses.ifTrue (decide_eq_true (d.begins.headKind us)) ?_)
      exact ((hinner d hd n (by rw [namespaceMemberLexemes] at hlength; omega)).read c rfl depth
        (by rw [namespaceMemberLexemes] at hlength; omega) us trivial).bind fun d' hd' =>
          .pure (congrArg Grammar.NamespaceMember.inner hd')
    | declaration d =>
      have hd : d ∈ declarations := by simpa [members] using hm
      have hopen := (d.begins.headKind us).2
      refine Parses.check (Parses.ifFalse (fun h => hopen (of_decide_eq_true h)) ?_)
      exact ((hdeclarations d hd).read c rfl depth
        (by rw [namespaceMemberLexemes] at hlength; omega) us trivial).bind fun d' hd' =>
          .pure (congrArg Grammar.NamespaceMember.declaration hd')
  refine Parses.position fun pos' => Parses.mark rfl (Parses.expectIdentifier ?_)
  refine Parses.inContext .namespaces (Parses.mark rfl ?_)
  refine (Parses.builtMembers (u := Grammar.NamespaceMember.unplaced) (fun m _ => hbegins m)
    hmembers).bind fun out hout => Parses.drop (.pure ?_)
  have hnamespaces := Alike.filterMap (f := Grammar.NamespaceMember.inner?)
    (v := NamespaceDecl.unplaced) (fun m => by cases m <;> rfl) hout
  have hdecls := Alike.filterMap (f := Grammar.NamespaceMember.declaration?)
    (v := GeneralDecl.unplaced) (fun m => by cases m <;> rfl) hout
  rw [hpicked.1, Alike] at hnamespaces
  rw [hpicked.2, Alike] at hdecls
  simp only [Copies, NamespaceDecl.unplaced, NamespaceDecl.unplacedAll_eq_map, hnamespaces, hdecls]

/-! ## Units -/

/-- The name of the source is the one of the setting. -/
theorem Parses.get {α : Type} {c : Setting} {ts us : List Lexeme} {W : α → Prop}
    {f : Parser Buffer → Parse Buffer α}
    (h : ∀ p, p.sourceName = c.name → Parses c ts (f p) W us) :
    Parses c ts (MonadState.get >>= f) W us := fun p hp => h p hp.holds.name_eq hp

theorem IncludeDecl.begins (d : IncludeDecl) :
    Begins d.lexemes fun k => k = Keyword.includeKw := ⟨_, _, rfl, rfl⟩

/-- A unit whose parts are read back is read back. -/
theorem CodeUnit.rewritten {u : CodeUnit}
    (parts : ∀ m ∈ (Node.unit u).parts, m.Rewritten inTrait) :
    (Node.unit u).Rewritten inTrait := by
  obtain ⟨sourceName, includes, namespaces⟩ := u
  have hincludes : ∀ d ∈ includes, (Node.include d).Rewritten inTrait := fun d hd =>
    parts (.include d) (by simp [Node.parts, hd])
  have hnamespaces : ∀ d ∈ namespaces, (Node.namespace d).Rewritten inTrait := fun d hd =>
    parts (.namespace d) (by simp [Node.parts, hd])
  have hrow : CodeUnit.lexemes parenthesized ⟨sourceName, includes, namespaces⟩ =
      includes.flatMap IncludeDecl.lexemes ++
        (namespaces.flatMap (NamespaceDecl.lexemes parenthesized) ++ []) := by
    rw [CodeUnit.lexemes, NamespaceDecl.row_eq_flatMap, List.append_nil]
  refine ⟨?_, ?_⟩
  · rw [hrow]
    simpa using ⟨fun d hd => (hincludes d hd).legible,
      fun d hd => (hnamespaces d hd _ (Nat.le_refl _)).legible⟩
  rintro c rfl rfl depth hdepth
  rw [hrow] at hdepth ⊢
  simp only [List.length_append, List.length_nil] at hdepth
  have hgoInclude (d : IncludeDecl) (us : List Lexeme) : True ∧
      Parses c (d.lexemes ++ us) (Parser.check Keyword.includeKw) (fun b => b = true)
        (d.lexemes ++ us) :=
    ⟨trivial, Parses.checked.mono fun b hb => by rw [hb, decide_eq_true (d.begins.headKind us)]⟩
  have hinclude (d : IncludeDecl) (hd : d ∈ includes) (us : List Lexeme) (_ : True) :
      Parses c (d.lexemes ++ us) (Parser.inContext .includes Grammar.includeDecl)
        (Copies IncludeDecl.unplaced d) us := by
    have hlength := length_le_flatMap (f := IncludeDecl.lexemes) hd
    exact .inContext .includes ((hincludes d hd).read c rfl depth (by omega) us trivial)
  have hstopInclude : Parses c (namespaces.flatMap (NamespaceDecl.lexemes parenthesized) ++ [])
      (Parser.check Keyword.includeKw) (fun b => b = false)
      (namespaces.flatMap (NamespaceDecl.lexemes parenthesized) ++ []) := by
    refine Parses.checked.mono fun b hb => ?_
    rw [hb, decide_eq_false]
    cases namespaces with
    | nil => rintro ⟨⟩
    | cons d namespaces =>
      rw [List.flatMap_cons, List.append_assoc, d.begins.headKind]
      rintro ⟨⟩
  have hgoNamespace (d : NamespaceDecl) (us : List Lexeme) : True ∧
      Parses c (d.lexemes parenthesized ++ us) (Parser.checkNot .eof) (fun b => b = true)
        (d.lexemes parenthesized ++ us) := by
    refine ⟨trivial, Parses.checkedNot.mono fun b hb => ?_⟩
    rw [hb, d.begins.headKind]
    rfl
  have hnamespace (d : NamespaceDecl) (hd : d ∈ namespaces) (us : List Lexeme) (_ : True) :
      Parses c (d.lexemes parenthesized ++ us) (Grammar.upTo depth).topNamespace
        (Copies NamespaceDecl.unplaced d) us := by
    have hlength := length_le_flatMap (f := NamespaceDecl.lexemes parenthesized) hd
    refine Parses.check (Parses.ifTrue (decide_eq_true (d.begins.headKind us)) ?_)
    refine Parses.listBound fun n hn => ?_
    rw [List.length_append] at hn
    exact (hnamespaces d hd n (by omega)).read c rfl depth (by omega) us trivial
  have hstopNamespace : Parses c [] (Parser.checkNot .eof) (fun b => b = false) [] :=
    Parses.checkedNot.mono fun b hb => hb
  refine Parses.get fun p hp => ?_
  refine (Parses.builtWhile (fun _ => True) (fun d _ => d.begins.ne_nil)
    (fun d _ us => hgoInclude d us) hinclude trivial hstopInclude).bind fun is his => ?_
  refine (Parses.builtWhile (fun _ => True) (fun d _ => d.begins.ne_nil)
    (fun d _ us => hgoNamespace d us) hnamespace trivial hstopNamespace).bind fun ns hns =>
      .pure ?_
  simp only [Copies, CodeUnit.unplaced, NamespaceDecl.unplacedAll_eq_map, his, hns, hp]

end ScriptFront
