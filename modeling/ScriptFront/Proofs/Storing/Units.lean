import ScriptFront.Binary.Decl
import ScriptFront.Datum.Decl
import ScriptFront.Proofs.Storing.Trees

/-!
# Stored units

Units are stored without a loss, and so are the trees in them: what is stored is read again,
whatever is behind it, and no two units or trees share their bytes.

- `Decoder.Reads.codeUnit`: a unit, read with a decoder for its trees.
- `trees_lossless`: units, expressions, types, patterns, statements and blocks.
-/

namespace ScriptFront

open Decode (Recovers RecoversFields Lossless shortWidth)
open Decode.Reads (flag number text oneOf option list)

theorem NamespaceDecl.data_eq (decls : List NamespaceDecl) :
    NamespaceDecl.data decls = decls.map NamespaceDecl.datum := by
  induction decls with
  | nil => rfl
  | cons decl decls ih => rw [NamespaceDecl.data, ih, List.map_cons]

namespace Decoder

namespace Reads

variable {bound : Nat} {d : Decoder} (hd : d.Reads bound)

include hd

/-! ## Parts of declarations -/

omit hd in
theorem access : Decode.Reads bound Decoder.access Access.datum := oneOf Access.mem_all (by decide)

theorem parameterDecl : Decode.Reads bound (Decoder.parameterDecl d) ParameterDecl.datum := by
  rintro ⟨pos, held, binding, type, variadic⟩
  exact .record (.cons (position_reads _) (.cons (ownership _) (.cons (hd.binding _)
    (.cons (option hd.type _) (.cons (flag _) (.done _))))))

theorem genericItem : Decode.Reads bound (Decoder.genericItem d) GenericItem.datum := by
  rintro ⟨pos, name, constraints⟩
  exact .record (.cons (position_reads _) (.cons (text _) (.cons (list hd.type _) (.done _))))

theorem genericDecl : Decode.Reads bound (Decoder.genericDecl d) GenericDecl.datum := by
  rintro ⟨pos, items⟩
  exact .record (.cons (position_reads _) (.cons (list hd.genericItem _) (.done _)))

/-! ## Members -/

theorem classFunctionDecl :
    Decode.Reads bound (Decoder.classFunctionDecl d) ClassFunctionDecl.datum := by
  rintro ⟨pos, access', isStatic, isAbstract, isVirtual, isOverride, isFinal, sourceType, name,
    generics, params, result, body⟩
  exact .record (.cons (position_reads _) (.cons (access _) (.cons (flag _) (.cons (flag _)
    (.cons (flag _) (.cons (flag _) (.cons (flag _) (.cons (option hd.type _) (.cons (text _)
    (.cons (option hd.genericDecl _) (.cons (list hd.parameterDecl _) (.cons (hd.type _)
    (.cons (option hd.block _) (.done _))))))))))))))

theorem classVariableDecl :
    Decode.Reads bound (Decoder.classVariableDecl d) ClassVariableDecl.datum := by
  rintro ⟨access', isStatic, decl⟩
  exact .record (.cons (access _) (.cons (flag _) (.cons (hd.variableDecl _) (.done _))))

theorem fieldInit : Decode.Reads bound (Decoder.fieldInit d) FieldInit.datum := by
  rintro ⟨pos, name, value⟩
  exact .record (.cons (position_reads _) (.cons (text _) (.cons (hd.expr _) (.done _))))

theorem constructorDecl :
    Decode.Reads bound (Decoder.constructorDecl d) ConstructorDecl.datum := by
  rintro ⟨pos, access', params, superArgs, inits, body⟩
  exact .record (.cons (position_reads _) (.cons (access _) (.cons (list hd.parameterDecl _)
    (.cons (option (list hd.expr) _) (.cons (list hd.fieldInit _) (.cons (hd.block _)
    (.done _)))))))

theorem destructorDecl : Decode.Reads bound (Decoder.destructorDecl d) DestructorDecl.datum := by
  rintro ⟨pos, body⟩
  exact .record (.cons (position_reads _) (.cons (hd.block _) (.done _)))

theorem signatureDecl : Decode.Reads bound (Decoder.signatureDecl d) SignatureDecl.datum := by
  rintro ⟨pos, name, generics, params, result⟩
  exact .record (.cons (position_reads _) (.cons (text _) (.cons (option hd.genericDecl _)
    (.cons (list hd.parameterDecl _) (.cons (hd.type _) (.done _))))))

theorem traitFunctionDecl :
    Decode.Reads bound (Decoder.traitFunctionDecl d) TraitFunctionDecl.datum := by
  rintro ⟨pos, isStatic, name, generics, params, result, body⟩
  exact .record (.cons (position_reads _) (.cons (flag _) (.cons (text _)
    (.cons (option hd.genericDecl _) (.cons (list hd.parameterDecl _) (.cons (hd.type _)
    (.cons (option hd.block _) (.done _))))))))

theorem enumItemValue : Decode.Reads bound (Decoder.enumItemValue d) EnumItemValue.datum := by
  intro value
  cases value with
  | none => exact .choice (by decide) rfl
  | value value => exact .choiceOf (by decide) ((hd.expr value).map _)
  | data types => exact .choiceOf (by decide) ((list hd.type types).map _)

theorem enumItemDecl : Decode.Reads bound (Decoder.enumItemDecl d) EnumItemDecl.datum := by
  rintro ⟨pos, name, value⟩
  exact .record (.cons (position_reads _) (.cons (text _) (.cons (hd.enumItemValue _) (.done _))))

/-! ## Declarations of a namespace -/

theorem classDecl : Decode.Reads bound (Decoder.classDecl d) ClassDecl.datum := by
  rintro ⟨pos, exported, isAbstract, name, generics, base, interfaces, functions, fields,
    constructors, destructors⟩
  exact .record (.cons (position_reads _) (.cons (flag _) (.cons (flag _) (.cons (text _)
    (.cons (option hd.genericDecl _) (.cons (option hd.type _) (.cons (list hd.type _)
    (.cons (list hd.classFunctionDecl _) (.cons (list hd.classVariableDecl _)
    (.cons (list hd.constructorDecl _) (.cons (list hd.destructorDecl _) (.done _))))))))))))

theorem interfaceDecl : Decode.Reads bound (Decoder.interfaceDecl d) InterfaceDecl.datum := by
  rintro ⟨pos, exported, name, generics, functions⟩
  exact .record (.cons (position_reads _) (.cons (flag _) (.cons (text _)
    (.cons (option hd.genericDecl _) (.cons (list hd.signatureDecl _) (.done _))))))

theorem structDecl : Decode.Reads bound (Decoder.structDecl d) StructDecl.datum := by
  rintro ⟨pos, exported, name, generics, fields⟩
  exact .record (.cons (position_reads _) (.cons (flag _) (.cons (text _)
    (.cons (option hd.genericDecl _) (.cons (list hd.variableDecl _) (.done _))))))

theorem enumDecl : Decode.Reads bound (Decoder.enumDecl d) EnumDecl.datum := by
  rintro ⟨pos, exported, name, generics, items⟩
  exact .record (.cons (position_reads _) (.cons (flag _) (.cons (text _)
    (.cons (option hd.genericDecl _) (.cons (list hd.enumItemDecl _) (.done _))))))

theorem traitDecl : Decode.Reads bound (Decoder.traitDecl d) TraitDecl.datum := by
  rintro ⟨pos, exported, name, generics, forType, functions⟩
  exact .record (.cons (position_reads _) (.cons (flag _) (.cons (text _)
    (.cons (option hd.genericDecl _) (.cons (option hd.type _)
    (.cons (list hd.traitFunctionDecl _) (.done _)))))))

theorem functionDecl : Decode.Reads bound (Decoder.functionDecl d) FunctionDecl.datum := by
  rintro ⟨pos, exported, name, generics, params, result, body⟩
  exact .record (.cons (position_reads _) (.cons (flag _) (.cons (text _)
    (.cons (option hd.genericDecl _) (.cons (list hd.parameterDecl _) (.cons (hd.type _)
    (.cons (hd.block _) (.done _))))))))

theorem generalDecl : Decode.Reads bound (Decoder.generalDecl d) GeneralDecl.datum := by
  intro decl
  cases decl with
  | «class» decl => exact .choiceOf (by decide) ((hd.classDecl decl).map _)
  | interface decl => exact .choiceOf (by decide) ((hd.interfaceDecl decl).map _)
  | struct decl => exact .choiceOf (by decide) ((hd.structDecl decl).map _)
  | enum decl => exact .choiceOf (by decide) ((hd.enumDecl decl).map _)
  | trait decl => exact .choiceOf (by decide) ((hd.traitDecl decl).map _)
  | function decl => exact .choiceOf (by decide) ((hd.functionDecl decl).map _)
  | «variable» decl => exact .choiceOf (by decide) ((hd.variableDecl decl).map _)

/-- A namespace starts with its position, so those in it take fewer bytes. -/
theorem namespaceDecl (depth : Nat) :
    Decode.Reads (min bound depth) (Decoder.namespaceDecl d depth) NamespaceDecl.datum := by
  induction depth with
  | zero =>
    rintro ⟨pos, name, namespaces, declarations⟩ _ hsize
    rw [NamespaceDecl.datum, Datum.size, Datum.fieldsSize, Datum.size] at hsize
    have hwidth : shortWidth = 4 := rfl
    omega
  | succ depth ih =>
    rintro ⟨pos, name, namespaces, declarations⟩
    have hgeneral := hd.generalDecl.mono (Nat.min_le_left bound depth)
    have hrecord : Recovers (min bound depth + 1) (Decoder.namespaceDecl d (depth + 1))
        ⟨pos, name, namespaces, declarations⟩
        (NamespaceDecl.datum ⟨pos, name, namespaces, declarations⟩) := by
      rw [NamespaceDecl.datum, Decoder.namespaceDecl]
      exact .record (placed (.cons (text _) (.cons (ih.listOf NamespaceDecl.data_eq _)
        (.cons (list hgeneral _) (.done _)))))
    exact fun hfits hsize => hrecord hfits (by omega)

/-! ## Units -/

omit hd in
theorem includeItem : Decode.Reads bound Decoder.includeItem IncludeItem.datum := by
  rintro ⟨pos, name⟩
  exact .record (.cons (position_reads _) (.cons (text _) (.done _)))

omit hd in
theorem includeItems : Decode.Reads bound Decoder.includeItems IncludeItems.datum := by
  intro items
  cases items with
  | all => exact .choice (by decide) rfl
  | named items => exact .choiceOf (by decide) ((list includeItem items).map _)

omit hd in
theorem scopedName : Decode.Reads bound Decoder.scopedName ScopedName.datum := by
  rintro ⟨pos, root, segments⟩
  exact .record (.cons (position_reads _) (.cons (flag _) (.cons (list text _) (.done _))))

omit hd in
theorem includeDecl : Decode.Reads bound Decoder.includeDecl IncludeDecl.datum := by
  rintro ⟨pos, items, path⟩
  exact .record (.cons (position_reads _) (.cons (includeItems _) (.cons (scopedName _)
    (.done _))))

theorem codeUnit : Decode.Reads bound (Decoder.codeUnit d) CodeUnit.datum := by
  rintro ⟨sourceName, includes, namespaces⟩
  refine .ofBytes fun bytes hbytes hfits hsize => ?_
  have hnamespaces := hd.namespaceDecl (bytes.length + 1)
  have hrecord : Recovers (min bound (bytes.length + 1))
      (do
        let sourceName ← Decode.text
        let includes ← Decode.list Decoder.includeDecl
        return { sourceName, includes, namespaces := ←
          Decode.list (Decoder.namespaceDecl d (bytes.length + 1)) } : Decode CodeUnit)
      ⟨sourceName, includes, namespaces⟩ (CodeUnit.datum ⟨sourceName, includes, namespaces⟩) :=
    .record (.cons (text _) (.cons (list includeDecl _) (.cons (list hnamespaces _) (.done _))))
  exact hrecord hfits (by omega)

end Reads

end Decoder

/-- One decoder for each kind of trees reads what is stored of a unit, an expression, a type, a
pattern, a statement or a block, whatever is behind it, and leaves that: no two trees are stored in
the same bytes, and what is stored of one is never the beginning of what is stored of another. All
numbers and lengths have to fit into the bytes that they are stored in. -/
theorem trees_lossless :
    Lossless CodeUnit.decode CodeUnit.datum ∧ Lossless Expr.decode Expr.datum ∧
      Lossless TypeExpr.decode TypeExpr.datum ∧ Lossless Pattern.decode Pattern.datum ∧
      Lossless Stmt.decode Stmt.datum ∧ Lossless Block.decode Block.datum := by
  refine ⟨.of_recovers ?_, .of_recovers ?_, .of_recovers ?_, .of_recovers ?_, .of_recovers ?_,
    .of_recovers ?_⟩
  · exact Decoder.whole_recovers fun _ _ hd => hd.codeUnit
  · exact Decoder.whole_recovers fun _ _ hd => hd.expr
  · exact Decoder.whole_recovers fun _ _ hd => hd.type
  · exact Decoder.whole_recovers fun _ _ hd => hd.pattern
  · exact Decoder.whole_recovers fun _ _ hd => hd.statement
  · exact Decoder.whole_recovers fun _ _ hd => hd.block

/-- The type `a::b<i32>[3]`, and a byte behind it. -/
theorem trees_lossless_type :
    let type : TypeExpr := ⟨⟨1, 1⟩, false, .array ⟨⟨1, 1⟩, false, .named ⟨⟨⟨1, 1⟩, "a", false, []⟩,
      [⟨⟨1, 4⟩, "b", false, [⟨⟨1, 6⟩, false, .primitive .i32⟩]⟩]⟩⟩ [.sized 3]⟩
    type.datum.fits = true ∧
      TypeExpr.decode.run (type.datum.bytes.toList ++ [7]) = some (type, [7]) := by
  intro type
  have hfits : type.datum.fits = true := by decide +kernel
  exact ⟨hfits, trees_lossless.2.2.1.recovers type hfits [7]⟩

end ScriptFront
