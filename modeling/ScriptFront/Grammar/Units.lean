import ScriptFront.Grammar.Classes

/-!
# The grammar of units, and reading as a whole

- `Grammar.unit`: includes, then namespaces, up to the end of the text.
- `Parser.parseUnit`, `parseType`, `parseExpr`, …: read one tree from where the reading stands.
- `CodeUnit.parse`, `TypeExpr.parse`, `Expr.parse`: read a text that is one tree.
-/

namespace ScriptFront

namespace Grammar

open ScriptFront.Parser

variable {σ : Type} [ByteSource σ] (g : Grammar σ)

/-! ## Includes -/

/-- A name that is included. -/
def includeItem : Parse σ IncludeItem := do
  if ← check Symbol.star then unexpected
  let pos ← position
  let name ← expectIdentifier
  return { pos, name }

/-- The names that are included; a star stands for all. -/
def includeItems : Parse σ IncludeItems := do
  if ← eat Symbol.star then return .all
  else
    let first ← includeItem
    return .named (first :: (← builtWhile (eat Symbol.comma) includeItem))

/-- `::a::b::c` -/
def scopedName : Parse σ ScopedName := do
  let pos ← position
  let root ← eat Symbol.colonColon
  let first ← expectIdentifier
  let rest ← builtWhile (eat Symbol.colonColon) expectIdentifier
  return { pos, root, segments := first :: rest }

/-- `include { a, b } from path;`, or with `in` for `from`. -/
def includeDecl : Parse σ IncludeDecl := do
  let pos ← position
  mark Keyword.includeKw
  mark Symbol.lBrace
  let items ← includeItems
  mark Symbol.rBrace
  let _ ← expectOneOf [Keyword.fromKw, Keyword.inKw]
  let path ← scopedName
  mark Symbol.semicolon
  return { pos, items, path }

/-! ## Namespaces -/

/-- A declaration behind `export` and `abstract`. -/
def declaration (exported isAbstract : Bool) : Parse σ GeneralDecl := do
  match ← kind with
  | .keyword .classKw =>
    return .class (← inContext .classes (classDecl g exported isAbstract))
  | .keyword .interfaceKw => return .interface (← inContext .interfaces (interfaceDecl g exported))
  | .keyword .structKw => return .struct (← inContext .structs (structDecl g exported))
  | .keyword .enumKw => return .enum (← inContext .enums (enumDecl g exported))
  | .keyword .traitKw => return .trait (← inContext .traits (traitDecl g exported))
  | .keyword .fnKw => return .function (← inContext .functions (functionDecl g exported))
  | .keyword .letKw | .keyword .constKw =>
    return .variable (← variableDecl g .build exported false)
  | _ =>
    expectedOneOf [Keyword.classKw, Keyword.interfaceKw, Keyword.structKw, Keyword.enumKw,
      Keyword.traitKw, Keyword.letKw, Keyword.constKw, Keyword.fnKw]

/-- A declaration of a namespace. Only a class can be abstract. -/
def generalDecl : Parse σ GeneralDecl := do
  let exported ← eat Keyword.exportKw
  let isAbstract ← eat Keyword.abstractKw
  if isAbstract && (← checkNot Keyword.classKw) then unexpected
  else declaration g exported isAbstract

/-- What stands between the braces of a namespace. -/
inductive NamespaceMember where
  | inner (decl : NamespaceDecl)
  | declaration (decl : GeneralDecl)

/-- The namespace that a member is. -/
def NamespaceMember.inner? : NamespaceMember → Option NamespaceDecl
  | .inner decl => some decl
  | .declaration _ => none

/-- The declaration that a member is. -/
def NamespaceMember.declaration? : NamespaceMember → Option GeneralDecl
  | .inner _ => none
  | .declaration decl => some decl

/-- `namespace name { members }`, nested at most `depth` deep. -/
def namespaceDecl : (depth : Nat) → Parse σ NamespaceDecl
  | 0 => failAtStart .tooDeep
  | depth + 1 => do
    let pos ← position
    mark Keyword.namespaceKw
    let name ← expectIdentifier
    inContext .namespaces do
      mark Symbol.lBrace
      let members ← builtWhile (checkNot Symbol.rBrace) do
        if ← check Keyword.namespaceKw then return .inner (← namespaceDecl depth)
        else return .declaration (← generalDecl g)
      drop
      return { pos, name
               namespaces := members.filterMap NamespaceMember.inner?
               declarations := members.filterMap NamespaceMember.declaration? }

/-! ## Units -/

/-- A namespace at the top of a text. -/
def topNamespace : Parse σ NamespaceDecl := do
  if ← check Keyword.namespaceKw then namespaceDecl g (← listBound)
  else expectedOneOf [Keyword.namespaceKw]

/-- A whole text. -/
def unit : Parse σ CodeUnit := do
  let sourceName := (← get).sourceName
  let includes ← builtWhile (check Keyword.includeKw) (inContext .includes includeDecl)
  let namespaces ← builtWhile (checkNot .eof) (topNamespace g)
  return { sourceName, includes, namespaces }

end Grammar

/-! ## Reading -/

namespace Parser

variable {σ : Type} [ByteSource σ]

/-- The grammar below declarations, for any nesting that the text can have. -/
def grammar : Parse σ (Grammar σ) := return Grammar.upTo (← get).bound

/-- Read a whole text. -/
def parseUnit : Parse σ CodeUnit := do Grammar.unit (← grammar)

/-- Read a type. -/
def parseType : Parse σ TypeExpr := do (← grammar).type .build

/-- Read an expression, comma chains included. -/
def parseExpr : Parse σ Expr := do (← grammar).expr .build Level.chain

/-- Read a pattern. -/
def parsePattern : Parse σ Pattern := do (← grammar).pattern .build

/-- Read a statement. -/
def parseStatement : Parse σ Stmt := do (← grammar).statement .build

/-- Read a block. -/
def parseBlock : Parse σ Block := do Grammar.block (← grammar) .build

/-- Stop unless all tokens have been taken. -/
def expectEof : Parse σ Unit := mark .eof

/-- Read a source from its first token on. -/
def run {α : Type} (reading : Parse σ α) (source : σ) (tabWidth : UInt32 := defaultTabWidth) :
    Except SyntaxError α := do
  let p ← ofSource source tabWidth
  (reading.run p).1

end Parser

/-- Read a text as a unit. -/
def CodeUnit.parse (text : String) (name : String := anonymousName) :
    Except SyntaxError CodeUnit :=
  Parser.run (Parser.parseUnit : Parse Buffer CodeUnit) (Buffer.ofString text name)

/-- Read a text that is one type. -/
def TypeExpr.parse (text : String) : Except SyntaxError TypeExpr :=
  let reading : Parse Buffer TypeExpr := do
    let type ← Parser.parseType
    Parser.expectEof
    return type
  Parser.run reading (Buffer.ofString text)

/-- Read a text that is one expression. -/
def Expr.parse (text : String) : Except SyntaxError Expr :=
  let reading : Parse Buffer Expr := do
    let expr ← Parser.parseExpr
    Parser.expectEof
    return expr
  Parser.run reading (Buffer.ofString text)

end ScriptFront
