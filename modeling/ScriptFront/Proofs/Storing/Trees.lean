import ScriptFront.Binary.Tree
import ScriptFront.Datum.Tree
import ScriptFront.Proofs.Storing.Formats

/-!
# Stored trees

Types, expressions, patterns and statements are read by a decoder that reads the trees in them with
another one. Each tree starts with its position, so the trees in it take fewer bytes: a decoder that
is iterated as often as there are bytes reads all of them.

- `Decoder.Reads`: a decoder for all trees of some size.
- `Decoder.Reads.step`: iterated once more, it reads larger ones.
- `Decoder.whole_recovers`: what is read with enough iterations is given back.
-/

namespace ScriptFront

open Decode (Recovers RecoversFields shortWidth longWidth)
open Decode.Reads (flag number text oneOf option list)

/-! ## Lists and optional parts -/

theorem TypeExpr.data_eq (types : List TypeExpr) :
    TypeExpr.data types = types.map TypeExpr.datum := by
  induction types with
  | nil => rfl
  | cons type types ih => rw [TypeExpr.data, ih, List.map_cons]

theorem Expr.data_eq (exprs : List Expr) : Expr.data exprs = exprs.map Expr.datum := by
  induction exprs with
  | nil => rfl
  | cons e exprs ih => rw [Expr.data, ih, List.map_cons]

theorem ExprArm.data_eq (arms : List ExprArm) : ExprArm.data arms = arms.map ExprArm.datum := by
  induction arms with
  | nil => rfl
  | cons arm arms ih => rw [ExprArm.data, ih, List.map_cons]

theorem NewItem.data_eq (items : List NewItem) : NewItem.data items = items.map NewItem.datum := by
  induction items with
  | nil => rfl
  | cons item items ih => rw [NewItem.data, ih, List.map_cons]

theorem FieldPattern.data_eq (items : List FieldPattern) :
    FieldPattern.data items = items.map FieldPattern.datum := by
  induction items with
  | nil => rfl
  | cons item items ih => rw [FieldPattern.data, ih, List.map_cons]

theorem Stmt.data_eq (statements : List Stmt) :
    Stmt.data statements = statements.map Stmt.datum := by
  induction statements with
  | nil => rfl
  | cons statement statements ih => rw [Stmt.data, ih, List.map_cons]

theorem StmtArm.data_eq (arms : List StmtArm) : StmtArm.data arms = arms.map StmtArm.datum := by
  induction arms with
  | nil => rfl
  | cons arm arms ih => rw [StmtArm.data, ih, List.map_cons]

theorem CatchClause.data_eq (handlers : List CatchClause) :
    CatchClause.data handlers = handlers.map CatchClause.datum := by
  induction handlers with
  | nil => rfl
  | cons handler handlers ih => rw [CatchClause.data, ih, List.map_cons]

namespace Decode.Reads

variable {α : Type} {bound : Nat}

/-- A list that has a function of its own for its data. -/
theorem listOf {item : Decode α} {datum : α → Datum} {data : List α → List Datum}
    (h : Reads bound item datum) (hdata : ∀ items, data items = items.map datum) :
    Reads bound (Decode.list item) fun items => .list (data items) := by
  intro items
  show Recovers bound (Decode.list item) items (.list (data items))
  rw [hdata]
  exact list h items

/-- An optional part that has a function of its own for its datum. -/
theorem optionOf {read : Decode α} {datum : α → Datum} {datum? : Option α → Datum}
    (h : Reads bound read datum) (hnone : datum? none = .absent)
    (hsome : ∀ a, datum? (some a) = .present (datum a)) :
    Reads bound (Decode.option read) datum? := by
  have hdatum : datum? = Datum.ofOption datum := by
    funext part
    cases part with
    | none => exact hnone
    | some a => exact hsome a
  rw [hdatum]
  exact option h

end Decode.Reads

/-! ## Decoders -/

/-- A tree of a family as data. -/
def Family.datum : (family : Family) → family.Tree → Datum
  | .type => TypeExpr.datum
  | .expr => Expr.datum
  | .pattern => Pattern.datum
  | .statement => Stmt.datum

namespace Decoder

/-- The decoder reads all trees that take at most `bound` bytes. -/
def Reads (bound : Nat) (d : Decoder) : Prop :=
  ∀ family : Family, Decode.Reads bound (d family) family.datum

theorem position_reads {bound : Nat} : Decode.Reads bound position .position := by
  intro pos _ _ rest
  rw [position, Datum.bytesOnto, shortOnto, shortOnto,
    Decode.run_bind_some (Decode.run_number pos.line.toNat_lt _),
    Decode.run_bind_some (Decode.run_number pos.column.toNat_lt _)]
  simp

/-- Behind a position, there are fewer bytes. -/
theorem placed {α : Type} {bound : Nat} {f : Position → Decode α} {a : α} {pos : Position}
    {name : String} {fields : List Field} (hfields : RecoversFields bound (f pos) a fields) :
    RecoversFields (bound + 1) (position >>= f) a (⟨name, .position pos⟩ :: fields) := by
  intro hfits hsize rest
  rw [Datum.fieldsFit, Bool.and_eq_true] at hfits
  rw [Datum.fieldsSize, Datum.size] at hsize
  have hwidth : shortWidth = 4 := rfl
  rw [Datum.fieldsOnto, Decode.run_bind_some (position_reads pos hfits.1 (Nat.le_refl _) _)]
  exact hfields hfits.2 (by omega) rest

namespace Reads

variable {bound : Nat} {d : Decoder} (hd : d.Reads bound)

include hd

theorem type : Decode.Reads bound (d .type) TypeExpr.datum := hd .type

theorem expr : Decode.Reads bound (d .expr) Expr.datum := hd .expr

theorem pattern : Decode.Reads bound (d .pattern) Pattern.datum := hd .pattern

theorem statement : Decode.Reads bound (d .statement) Stmt.datum := hd .statement

theorem types : Decode.Reads bound (Decode.list (d .type)) fun l => .list (TypeExpr.data l) :=
  hd.type.listOf TypeExpr.data_eq

theorem exprs : Decode.Reads bound (Decode.list (d .expr)) fun l => .list (Expr.data l) :=
  hd.expr.listOf Expr.data_eq

theorem expr? : Decode.Reads bound (Decode.option (d .expr)) Expr.datum? :=
  hd.expr.optionOf rfl fun _ => rfl

/-! ### Types -/

omit hd in
theorem arrayDim : Decode.Reads bound Decoder.arrayDim ArrayDim.datum := by
  intro dim
  cases dim with
  | unsized => exact .choice (by decide) rfl
  | sized length => exact .choiceOf (by decide) ((number length).map _)

/-- A name of a path, in front of the names behind it. -/
theorem pathSegment (segment : PathSegment) {α : Type} {f : PathSegment → Decode α} {a : α}
    {inner : Datum} (h : Recovers bound (f segment) a inner) :
    Recovers bound (Decoder.pathSegment d >>= f) a
      (PathSegment.record segment.pos segment.name segment.root (TypeExpr.data segment.generics)
        inner) := by
  obtain ⟨segmentPos, segmentName, segmentRoot, segmentGenerics⟩ := segment
  have hrun : Decoder.pathSegment d >>= f = (do
      let pos ← position
      let name ← Decode.text
      let root ← Decode.flag
      let generics ← Decode.list (d .type)
      f ⟨pos, name, root, generics⟩) := by
    simp only [Decoder.pathSegment, bind_assoc, pure_bind]
  rw [hrun, PathSegment.record]
  refine .record
    (.cons (position_reads _) (.cons (text _) (.cons (flag _) (.cons (hd.types _) ?_))))
  have hlast : RecoversFields bound
      (f ⟨segmentPos, segmentName, segmentRoot, segmentGenerics⟩ >>= pure) a
      [⟨"inner", inner⟩] :=
    .cons h (.done a)
  rw [bind_pure] at hlast
  exact hlast

theorem pathTail (bytes : List UInt8) (tail : List PathSegment)
    (hbytes : (PathSegment.chain tail).size ≤ bytes.length) :
    Recovers bound (Decoder.pathTail d bytes) tail (PathSegment.chain tail) := by
  induction bytes generalizing tail with
  | nil =>
    have hpos : 0 < (PathSegment.chain tail).size := by
      cases tail with
      | nil => exact Nat.zero_lt_one
      | cons segment tail =>
        obtain ⟨pos, name, root, generics⟩ := segment
        rw [PathSegment.chain, Datum.size]
        exact Nat.zero_lt_succ _
    exact absurd hbytes (Nat.not_le.2 hpos)
  | cons byte bytes ih =>
    intro hfits hsize rest
    cases tail with
    | nil =>
      have hflag : Decode.flag.run ((PathSegment.chain []).bytesOnto rest) = some (false, rest) :=
        Decode.run_flag false rest
      rw [Decoder.pathTail, Decode.run_bind_some hflag]
      rfl
    | cons segment tail =>
      obtain ⟨pos, name, root, generics⟩ := segment
      have hinner : (PathSegment.chain tail).size ≤ bytes.length := by
        rw [PathSegment.chain, PathSegment.record] at hbytes
        simp only [Datum.size, Datum.fieldsSize, List.length_cons] at hbytes
        omega
      rw [PathSegment.chain] at hfits hsize ⊢
      rw [Datum.size] at hsize
      have hle := Nat.le_of_succ_le hsize
      have hflag : Decode.flag.run (1 :: (PathSegment.record pos name root
          (TypeExpr.data generics) (PathSegment.chain tail)).bytesOnto rest) = some (true, _) :=
        Decode.run_flag true _
      rw [Decoder.pathTail, Datum.bytesOnto, Decode.run_bind_some hflag]
      exact hd.pathSegment ⟨pos, name, root, generics⟩ ((ih tail hinner).map _) hfits hle rest

theorem typePath : Decode.Reads bound (Decoder.typePath d) TypePath.datum := by
  rintro ⟨⟨pos, name, root, generics⟩, tail⟩
  refine .ofBytes fun bytes hbytes => hd.pathSegment ⟨pos, name, root, generics⟩ ?_
  have htail : (PathSegment.chain tail).size ≤ bytes.length := by
    rw [TypePath.datum, PathSegment.record] at hbytes
    simp only [Datum.size, Datum.fieldsSize] at hbytes
    omega
  exact (hd.pathTail bytes tail htail).map _

theorem typeForm : Decode.Reads bound (Decoder.typeForm d) TypeForm.datum := by
  intro form
  cases form with
  | primitive type =>
    exact .choiceOf (by decide) ((oneOf PrimitiveType.mem_all (by decide) type).map _)
  | selfType => exact .choice (by decide) rfl
  | array element dims =>
    exact .choiceOf (by decide) (.record (.cons (hd.type _) (.cons (list arrayDim _) (.done _))))
  | function params result =>
    exact .choiceOf (by decide) (.record (.cons (hd.types _) (.cons (hd.type _) (.done _))))
  | tuple members => exact .choiceOf (by decide) ((hd.types members).map _)
  | named path => exact .choiceOf (by decide) ((hd.typePath path).map _)

theorem typeExpr : Decode.Reads (bound + 1) (Decoder.typeExpr d) TypeExpr.datum := by
  rintro ⟨pos, nullable, form⟩
  exact .record (placed (.cons (flag _) (.cons (hd.typeForm _) (.done _))))

/-! ### Blocks and variables -/

theorem block : Decode.Reads bound (Decoder.block d) Block.datum := by
  rintro ⟨pos, statements⟩
  rw [Block.datum]
  exact .record (.cons (position_reads _) (.cons (hd.statement.listOf Stmt.data_eq _) (.done _)))

theorem block? : Decode.Reads bound (Decode.option (Decoder.block d)) Block.datum? :=
  hd.block.optionOf rfl fun _ => rfl

theorem binding : Decode.Reads bound (Decoder.binding d) Binding.datum := by
  intro binding
  cases binding with
  | named name => exact .choiceOf (by decide) ((text name).map _)
  | destructured pattern => exact .choiceOf (by decide) ((hd.pattern pattern).map _)

omit hd in
theorem ownership : Decode.Reads bound Decoder.ownership Ownership.datum :=
  oneOf Ownership.mem_all (by decide)

theorem variableDecl : Decode.Reads bound (Decoder.variableDecl d) VariableDecl.datum := by
  rintro ⟨pos, exported, constant, held, binding, type, init⟩
  rw [VariableDecl.datum]
  exact .record (.cons (position_reads _) (.cons (flag _) (.cons (flag _) (.cons (ownership _)
    (.cons (hd.binding _) (.cons (option hd.type _) (.cons (hd.expr? _) (.done _))))))))

/-! ### Expressions -/

omit hd in
theorem literal : Decode.Reads bound Decoder.literal Literal.datum := by
  intro value
  cases value with
  | bool value => exact .choiceOf (by decide) ((flag value).map _)
  | integer form digits =>
    exact .choiceOf (by decide)
      (.record (.cons (oneOf IntegerForm.mem_all (by decide) _) (.cons (text _) (.done _))))
  | real form digits =>
    exact .choiceOf (by decide)
      (.record (.cons (oneOf RealForm.mem_all (by decide) _) (.cons (text _) (.done _))))
  | string body => exact .choiceOf (by decide) ((text body).map _)
  | character body => exact .choiceOf (by decide) ((text body).map _)
  | null => exact .choice (by decide) rfl

theorem lambdaParam : Decode.Reads bound (Decoder.lambdaParam d) LambdaParam.datum := by
  rintro ⟨pos, name, type, variadic⟩
  exact .record (.cons (position_reads _) (.cons (text _) (.cons (option hd.type _)
    (.cons (flag _) (.done _)))))

theorem armBody : Decode.Reads bound (Decoder.armBody d) ArmBody.datum := by
  intro body
  cases body with
  | block body => exact .choiceOf (by decide) ((hd.block body).map _)
  | expr value => exact .choiceOf (by decide) ((hd.expr value).map _)

theorem exprArm : Decode.Reads bound (Decoder.exprArm d) ExprArm.datum := by
  rintro ⟨pos, pattern, body⟩
  rw [ExprArm.datum]
  exact .record (.cons (position_reads _) (.cons (hd.pattern _) (.cons (hd.armBody _) (.done _))))

theorem newItem : Decode.Reads bound (Decoder.newItem d) NewItem.datum := by
  rintro ⟨pos, name, value⟩
  rw [NewItem.datum]
  exact .record (.cons (position_reads _) (.cons (text _) (.cons (hd.expr? _) (.done _))))

theorem newItems? :
    Decode.Reads bound (Decode.option (Decode.list (Decoder.newItem d))) NewItem.data? :=
  (hd.newItem.listOf NewItem.data_eq).optionOf rfl fun _ => rfl

theorem exprForm : Decode.Reads bound (Decoder.exprForm d) ExprForm.datum := by
  intro form
  cases form with
  | ternary condition consequence alternative =>
    exact .choiceOf (by decide) (.record (.cons (hd.expr _) (.cons (hd.expr _) (.cons (hd.expr _)
      (.done _)))))
  | binary op left right =>
    exact .choiceOf (by decide) (.record (.cons (oneOf BinaryOp.mem_all (by decide) _)
      (.cons (hd.expr _) (.cons (hd.expr _) (.done _)))))
  | unary op fixity operand =>
    exact .choiceOf (by decide) (.record (.cons (oneOf UnaryOp.mem_all (by decide) _)
      (.cons (oneOf Fixity.mem_all (by decide) _) (.cons (hd.expr _) (.done _)))))
  | cast operand type =>
    exact .choiceOf (by decide) (.record (.cons (hd.expr _) (.cons (hd.type _) (.done _))))
  | typeTest operand type =>
    exact .choiceOf (by decide) (.record (.cons (hd.expr _) (.cons (hd.type _) (.done _))))
  | select subject arms =>
    exact .choiceOf (by decide) (.record (.cons (hd.expr _)
      (.cons (hd.exprArm.listOf ExprArm.data_eq _) (.done _))))
  | lambda params result inference body =>
    exact .choiceOf (by decide) (.record (.cons (list hd.lambdaParam _) (.cons (hd.type _)
      (.cons (oneOf Inference.mem_all (by decide) _) (.cons (hd.block _) (.done _))))))
  | call callee args =>
    exact .choiceOf (by decide) (.record (.cons (hd.expr _) (.cons (hd.exprs _) (.done _))))
  | genericCall callee generics args =>
    exact .choiceOf (by decide) (.record (.cons (hd.expr _) (.cons (hd.types _) (.cons (hd.exprs _)
      (.done _)))))
  | index target position =>
    exact .choiceOf (by decide) (.record (.cons (hd.expr _) (.cons (hd.expr _) (.done _))))
  | new type args init =>
    exact .choiceOf (by decide) (.record (.cons (hd.type _) (.cons (hd.exprs _)
      (.cons (hd.newItems? _) (.done _)))))
  | literal value => exact .choiceOf (by decide) ((literal value).map _)
  | this => exact .choice (by decide) rfl
  | super => exact .choice (by decide) rfl
  | primitive type => exact .choiceOf (by decide) ((hd.type type).map _)
  | identifier name root =>
    exact .choiceOf (by decide) (.record (.cons (text _) (.cons (flag _) (.done _))))
  | array items => exact .choiceOf (by decide) ((hd.exprs items).map _)

theorem exprTree : Decode.Reads (bound + 1) (Decoder.expr d) Expr.datum := by
  rintro ⟨pos, form⟩
  rw [Expr.datum]
  exact .record (placed (.cons (hd.exprForm _) (.done _)))

/-! ### Patterns -/

theorem fieldBinding : Decode.Reads bound (Decoder.fieldBinding d) FieldBinding.datum := by
  intro binding
  cases binding with
  | direct => exact .choice (by decide) rfl
  | indirect target => exact .choiceOf (by decide) ((hd.expr target).map _)
  | nested pattern => exact .choiceOf (by decide) ((hd.pattern pattern).map _)

theorem fieldPattern : Decode.Reads bound (Decoder.fieldPattern d) FieldPattern.datum := by
  rintro ⟨pos, field, binding⟩
  rw [FieldPattern.datum]
  exact .record (.cons (position_reads _) (.cons (text _) (.cons (hd.fieldBinding _) (.done _))))

theorem patternForm : Decode.Reads bound (Decoder.patternForm d) PatternForm.datum := by
  intro form
  cases form with
  | literal value => exact .choiceOf (by decide) ((hd.expr value).map _)
  | tuple items => exact .choiceOf (by decide) ((hd.exprs items).map _)
  | variant path items =>
    exact .choiceOf (by decide) (.record (.cons (hd.expr _) (.cons (hd.exprs _) (.done _))))
  | fields items =>
    exact .choiceOf (by decide) ((hd.fieldPattern.listOf FieldPattern.data_eq items).map _)

theorem patternTree : Decode.Reads (bound + 1) (Decoder.pattern d) Pattern.datum := by
  rintro ⟨pos, form⟩
  rw [Pattern.datum]
  exact .record (placed (.cons (hd.patternForm _) (.done _)))

/-! ### Statements -/

theorem forInit : Decode.Reads bound (Decoder.forInit d) ForInit.datum := by
  intro init
  cases init with
  | bind pos name value =>
    exact .choiceOf (by decide) (.record (.cons (position_reads _) (.cons (text _)
      (.cons (hd.expr _) (.done _)))))
  | expr value => exact .choiceOf (by decide) ((hd.expr value).map _)

theorem forInit? : Decode.Reads bound (Decode.option (Decoder.forInit d)) ForInit.datum? :=
  hd.forInit.optionOf rfl fun _ => rfl

theorem stmtArm : Decode.Reads bound (Decoder.stmtArm d) StmtArm.datum := by
  rintro ⟨pos, pattern, body⟩
  rw [StmtArm.datum]
  exact .record (.cons (position_reads _) (.cons (hd.pattern _) (.cons (hd.block _) (.done _))))

theorem catchClause : Decode.Reads bound (Decoder.catchClause d) CatchClause.datum := by
  rintro ⟨pos, type, name, body⟩
  rw [CatchClause.datum]
  exact .record (.cons (position_reads _) (.cons (hd.type _) (.cons (text _) (.cons (hd.block _)
    (.done _)))))

theorem stmtForm : Decode.Reads bound (Decoder.stmtForm d) StmtForm.datum := by
  intro form
  cases form with
  | branch condition consequence alternative =>
    exact .choiceOf (by decide) (.record (.cons (hd.expr _) (.cons (hd.block _)
      (.cons (hd.block? _) (.done _)))))
  | branchOn pattern value consequence alternative =>
    exact .choiceOf (by decide) (.record (.cons (hd.pattern _) (.cons (hd.expr _)
      (.cons (hd.block _) (.cons (hd.block? _) (.done _))))))
  | forLoop init condition update body =>
    exact .choiceOf (by decide) (.record (.cons (hd.forInit? _) (.cons (hd.expr? _)
      (.cons (hd.expr? _) (.cons (hd.block _) (.done _))))))
  | whileLoop condition body =>
    exact .choiceOf (by decide) (.record (.cons (hd.expr _) (.cons (hd.block _) (.done _))))
  | doWhile body condition =>
    exact .choiceOf (by decide) (.record (.cons (hd.block _) (.cons (hd.expr _) (.done _))))
  | select subject arms =>
    exact .choiceOf (by decide) (.record (.cons (hd.expr _)
      (.cons (hd.stmtArm.listOf StmtArm.data_eq _) (.done _))))
  | giveBack value => exact .choiceOf (by decide) ((hd.expr? value).map _)
  | next => exact .choice (by decide) rfl
  | leave => exact .choice (by decide) rfl
  | goto label => exact .choiceOf (by decide) ((text label).map _)
  | label name => exact .choiceOf (by decide) ((text name).map _)
  | attempt body handlers =>
    exact .choiceOf (by decide) (.record (.cons (hd.block _)
      (.cons (hd.catchClause.listOf CatchClause.data_eq _) (.done _))))
  | panic value => exact .choiceOf (by decide) ((hd.expr value).map _)
  | «variable» decl => exact .choiceOf (by decide) ((hd.variableDecl decl).map _)
  | expr value => exact .choiceOf (by decide) ((hd.expr value).map _)

theorem stmtTree : Decode.Reads (bound + 1) (Decoder.statement d) Stmt.datum := by
  rintro ⟨pos, form⟩
  rw [Stmt.datum]
  exact .record (placed (.cons (hd.stmtForm _) (.done _)))

/-! ### All families -/

/-- One more iteration reads trees that are larger by a byte. -/
theorem step : (Decoder.step d).Reads (bound + 1) := by
  intro family
  cases family with
  | type => exact hd.typeExpr
  | expr => exact hd.exprTree
  | pattern => exact hd.patternTree
  | statement => exact hd.stmtTree

end Reads

/-- A tree starts with its position. -/
theorem size_pos (family : Family) (tree : family.Tree) : 0 < (family.datum tree).size := by
  cases family with
  | type =>
    obtain ⟨pos, nullable, form⟩ := tree
    rw [Family.datum, TypeExpr.datum, Datum.size, Datum.fieldsSize, Datum.size]
    exact Nat.lt_of_lt_of_le (by decide) (Nat.le_add_right _ _)
  | expr =>
    obtain ⟨pos, form⟩ := tree
    rw [Family.datum, Expr.datum, Datum.size, Datum.fieldsSize, Datum.size]
    exact Nat.lt_of_lt_of_le (by decide) (Nat.le_add_right _ _)
  | pattern =>
    obtain ⟨pos, form⟩ := tree
    rw [Family.datum, Pattern.datum, Datum.size, Datum.fieldsSize, Datum.size]
    exact Nat.lt_of_lt_of_le (by decide) (Nat.le_add_right _ _)
  | statement =>
    obtain ⟨pos, form⟩ := tree
    rw [Family.datum, Stmt.datum, Datum.size, Datum.fieldsSize, Datum.size]
    exact Nat.lt_of_lt_of_le (by decide) (Nat.le_add_right _ _)

/-- As many iterations as there are bytes read every tree. -/
theorem upTo_reads (depth : Nat) : (upTo depth).Reads depth := by
  induction depth with
  | zero =>
    intro family tree _ hsize
    exact absurd hsize (Nat.not_le.2 (size_pos family tree))
  | succ depth ih =>
    intro family
    exact ih.step family

/-- What a decoder for large enough trees reads is given back, whatever is behind it. -/
theorem whole_recovers {α : Type} {read : Decoder → Decode α} {datum : α → Datum}
    (h : ∀ (bound : Nat) (d : Decoder), d.Reads bound → Decode.Reads bound (read d) datum) (a : α)
    (hfits : (datum a).fits = true) (rest : List UInt8) :
    (whole read).run ((datum a).bytes.toList ++ rest) = some (a, rest) := by
  rw [Datum.toList_bytes_append]
  have hsize : (datum a).size ≤ ((datum a).bytesOnto rest).length + 1 := by
    rw [Datum.length_bytesOnto]
    omega
  have hrun (bytes : List UInt8) :
      (whole read).run bytes = (read (upTo (bytes.length + 1))).run bytes := by
    have hget : (get : Decode (List UInt8)).run bytes = some (bytes, bytes) := rfl
    rw [whole, Decode.run_bind_some hget]
  rw [hrun]
  exact h _ _ (upTo_reads _) a hfits hsize rest

end Decoder

end ScriptFront
