import ScriptFront.Outline.Kind
import ScriptFront.Syntax.Summary

/-!
# Outlines

An `Outline` shows of a tree which nodes it has, how they nest, and where they start.

- `Outline.entries`: the nodes in the order of the text, each with its depth.
-/

namespace ScriptFront

/-- The nodes of a tree. A node that has no position of its own shows none. -/
inductive Outline where
  | node (kind : NodeKind) (pos : Option Position) (note : String) (parts : List Outline)
  /-- Stands first among the parts of a trait: whether it is defined for a type. -/
  | definition (holds : Bool)

/-- A line of an outline. -/
inductive Outline.Entry where
  | node (depth : Nat) (kind : NodeKind) (pos : Option Position) (note : String)
  | definition (holds : Bool)
  | summary (counts : Summary)
deriving DecidableEq, Repr

namespace Outline

/-- A node at a position. -/
def placed (kind : NodeKind) (pos : Position) (note : String) (parts : List Outline) : Outline :=
  node kind (some pos) note parts

mutual

/-- The lines of an outline at a depth, before `rest`. -/
def entriesOnto (depth : Nat) : Outline → List Entry → List Entry
  | .node kind pos note parts, rest =>
    .node depth kind pos note :: partsOnto (depth + 1) parts rest
  | .definition holds, rest => .definition holds :: rest

/-- The lines of several outlines at a depth, before `rest`. -/
def partsOnto (depth : Nat) : List Outline → List Entry → List Entry
  | [], rest => rest
  | part :: parts, rest => entriesOnto depth part (partsOnto depth parts rest)

end

/-- The lines of an outline. -/
def entries (o : Outline) : List Entry := entriesOnto 0 o []

/-- The lines of several outlines. -/
def listEntries (parts : List Outline) : List Entry := partsOnto 0 parts []

end Outline

end ScriptFront
