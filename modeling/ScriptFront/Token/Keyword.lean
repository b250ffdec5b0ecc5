import ScriptFront.Token.Primitive

/-!
# Reserved words

- `Keyword.spelling`: the word itself.
- `Keyword.lookup?`: the keyword that a word is, if it is reserved, found by halving a sorted table.
- `Keyword.ofSpelling?`: the same, by going through all keywords.
-/

namespace ScriptFront

/-- A reserved word; the names of the primitive types are reserved too. -/
inductive Keyword where
  | abstractKw
  | asKw
  | breakKw
  | catchKw
  | classKw
  | constKw
  | constructorKw
  | continueKw
  | destructorKw
  | doKw
  | elseKw
  | enumKw
  | exportKw
  | extendsKw
  | falseKw
  | finalKw
  | finallyKw
  | fnKw
  | forKw
  | fromKw
  | gotoKw
  | ifKw
  | implementsKw
  | inKw
  | includeKw
  | interfaceKw
  | isKw
  | letKw
  | matchKw
  | namespaceKw
  | newKw
  | nullKw
  | overrideKw
  | panicKw
  | privateKw
  | protectedKw
  | publicKw
  | refKw
  | returnKw
  | selfKw
  | sharedKw
  | staticKw
  | structKw
  | superKw
  | thisKw
  | traitKw
  | trueKw
  | tryKw
  | uniqueKw
  | virtualKw
  | whenKw
  | whereKw
  | whileKw
  | primitive (type : PrimitiveType)
deriving DecidableEq, Repr

namespace Keyword

/-- The word. -/
def spelling : Keyword → String
  | .abstractKw => "abstract"
  | .asKw => "as"
  | .breakKw => "break"
  | .catchKw => "catch"
  | .classKw => "class"
  | .constKw => "const"
  | .constructorKw => "constructor"
  | .continueKw => "continue"
  | .destructorKw => "destructor"
  | .doKw => "do"
  | .elseKw => "else"
  | .enumKw => "enum"
  | .exportKw => "export"
  | .extendsKw => "extends"
  | .falseKw => "false"
  | .finalKw => "final"
  | .finallyKw => "finally"
  | .fnKw => "fn"
  | .forKw => "for"
  | .fromKw => "from"
  | .gotoKw => "goto"
  | .ifKw => "if"
  | .implementsKw => "implements"
  | .inKw => "in"
  | .includeKw => "include"
  | .interfaceKw => "interface"
  | .isKw => "is"
  | .letKw => "let"
  | .matchKw => "match"
  | .namespaceKw => "namespace"
  | .newKw => "new"
  | .nullKw => "null"
  | .overrideKw => "override"
  | .panicKw => "panic"
  | .privateKw => "private"
  | .protectedKw => "protected"
  | .publicKw => "public"
  | .refKw => "ref"
  | .returnKw => "return"
  | .selfKw => "self"
  | .sharedKw => "shared"
  | .staticKw => "static"
  | .structKw => "struct"
  | .superKw => "super"
  | .thisKw => "this"
  | .traitKw => "trait"
  | .trueKw => "true"
  | .tryKw => "try"
  | .uniqueKw => "unique"
  | .virtualKw => "virtual"
  | .whenKw => "when"
  | .whereKw => "where"
  | .whileKw => "while"
  | .primitive type => type.spelling

/-- The keywords that name no primitive type. -/
def plain : List Keyword :=
  [.abstractKw, .asKw, .breakKw, .catchKw, .classKw, .constKw, .constructorKw, .continueKw,
    .destructorKw, .doKw, .elseKw, .enumKw, .exportKw, .extendsKw, .falseKw, .finalKw,
    .finallyKw, .fnKw, .forKw, .fromKw, .gotoKw, .ifKw, .implementsKw, .inKw, .includeKw,
    .interfaceKw, .isKw, .letKw, .matchKw, .namespaceKw, .newKw, .nullKw, .overrideKw, .panicKw,
    .privateKw, .protectedKw, .publicKw, .refKw, .returnKw, .selfKw, .sharedKw, .staticKw,
    .structKw, .superKw, .thisKw, .traitKw, .trueKw, .tryKw, .uniqueKw, .virtualKw, .whenKw,
    .whereKw, .whileKw]

/-- All keywords. -/
def all : List Keyword := plain ++ PrimitiveType.all.map primitive

/-- The reserved words with their keywords, sorted by spelling. -/
def table : Array (String × Keyword) :=
  #[("abstract", .abstractKw), ("as", .asKw), ("bool", .primitive .bool), ("break", .breakKw),
    ("catch", .catchKw), ("class", .classKw), ("const", .constKw),
    ("constructor", .constructorKw), ("continue", .continueKw), ("destructor", .destructorKw),
    ("do", .doKw), ("else", .elseKw), ("enum", .enumKw), ("export", .exportKw),
    ("extends", .extendsKw), ("false", .falseKw), ("final", .finalKw), ("finally", .finallyKw),
    ("fn", .fnKw), ("for", .forKw), ("fp32", .primitive .fp32), ("fp64", .primitive .fp64),
    ("from", .fromKw), ("goto", .gotoKw), ("i16", .primitive .i16), ("i32", .primitive .i32),
    ("i64", .primitive .i64), ("i8", .primitive .i8), ("if", .ifKw),
    ("implements", .implementsKw), ("in", .inKw), ("include", .includeKw),
    ("interface", .interfaceKw), ("is", .isKw), ("let", .letKw), ("match", .matchKw),
    ("namespace", .namespaceKw), ("new", .newKw), ("null", .nullKw),
    ("object", .primitive .object), ("override", .overrideKw), ("panic", .panicKw),
    ("private", .privateKw), ("protected", .protectedKw), ("public", .publicKw), ("ref", .refKw),
    ("return", .returnKw), ("self", .selfKw), ("shared", .sharedKw), ("static", .staticKw),
    ("string", .primitive .string), ("struct", .structKw), ("super", .superKw),
    ("this", .thisKw), ("trait", .traitKw), ("true", .trueKw), ("try", .tryKw),
    ("u16", .primitive .u16), ("u32", .primitive .u32), ("u64", .primitive .u64),
    ("u8", .primitive .u8), ("unique", .uniqueKw), ("virtual", .virtualKw),
    ("void", .primitive .void), ("when", .whenKw), ("where", .whereKw), ("while", .whileKw)]

/-- Words are compared byte by byte. -/
def precedes (a b : String) : Bool := a.toUTF8.data.toList < b.toUTF8.data.toList

/-- Where `word` stands in the table if it stands among `size` entries from `base` on. The entries
are halved until one is left, at most `steps` times. -/
def seek (word : String) : (steps base size : Nat) → Nat
  | 0, base, _ => base
  | steps + 1, base, size =>
    if size ≤ 1 then base
    else
      let half := size / 2
      match table[base + half]? with
      | some (spelling, _) =>
        if precedes word spelling then seek word steps base (size - half)
        else seek word steps (base + half) (size - half)
      | none => base

/-- The keyword that the table has for a word. -/
def lookup? (word : String) : Option Keyword :=
  match table[seek word table.size 0 table.size]? with
  | some (spelling, keyword) => if spelling = word then some keyword else none
  | none => none

/-- The keyword with this spelling. -/
def ofSpelling? (word : String) : Option Keyword :=
  all.find? fun keyword => keyword.spelling == word

/-- The name of the keyword in listings. `self` is named for the type that it denotes. -/
def name : Keyword → String
  | .selfKw => "SelfType"
  | keyword => keyword.spelling.capitalize

theorem mem_all (keyword : Keyword) : keyword ∈ all := by
  cases keyword with
  | primitive type =>
    exact List.mem_append_right _ (List.mem_map_of_mem (PrimitiveType.mem_all type))
  | _ => exact List.mem_append_left _ (by decide)

end Keyword

end ScriptFront
