import ScriptFront.Syntax.Decl

/-!
# Counts of a unit
-/

namespace ScriptFront

/-- How much a unit holds; namespaces and declarations are counted at every depth. -/
structure Summary where
  includes : Nat
  namespaces : Nat
  declarations : Nat
deriving DecidableEq, Repr

mutual

/-- How many namespaces a namespace and those within it are, and what they declare. -/
def NamespaceDecl.counts : NamespaceDecl → Nat × Nat
  | ⟨_, _, namespaces, declarations⟩ =>
    let (inner, declared) := NamespaceDecl.totals namespaces
    (inner + 1, declared + declarations.length)

/-- How many namespaces there are in a list of them and below, and what they declare. -/
def NamespaceDecl.totals : List NamespaceDecl → Nat × Nat
  | [] => (0, 0)
  | decl :: rest =>
    let (inner, declared) := decl.counts
    let (others, declaredThere) := NamespaceDecl.totals rest
    (inner + others, declared + declaredThere)

end

/-- The counts of a unit. -/
def CodeUnit.summary (u : CodeUnit) : Summary :=
  let (namespaces, declarations) := NamespaceDecl.totals u.namespaces
  ⟨u.includes.length, namespaces, declarations⟩

end ScriptFront
