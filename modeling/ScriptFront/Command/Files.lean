import ScriptFront.Source.Buffer

/-!
# Files

What commands need of a file system, and a `FileTree` that provides it without one.

- `FileAccess m`: read and write files and make directories in `m`.
- `Route.ofPath`: the steps of a path.
- `FileTree`: files and directories, one of which is where relative paths start.
- `FileTree.follow`: where steps lead, or the first obstacle on the way.
-/

namespace ScriptFront

/-- Why a file system refuses something. -/
structure FileFault where
  code : Nat
  reason : String
deriving DecidableEq, Repr

namespace FileFault

/-- There is nothing at the path. -/
def notFound : FileFault := ⟨2, "No such file or directory"⟩

/-- There is something at the path already. -/
def occupied : FileFault := ⟨17, "File exists"⟩

/-- The path goes through something that is no directory. -/
def notADirectory : FileFault := ⟨20, "Not a directory"⟩

/-- A directory stands where a file is needed. -/
def isADirectory : FileFault := ⟨21, "Is a directory"⟩

/-- A name, or a whole path, is longer than the system allows. -/
def nameTooLong : FileFault := ⟨36, "File name too long"⟩

/-- The refusal in words. -/
def describe (f : FileFault) : String := f.reason ++ " (os error " ++ toString f.code ++ ")"

end FileFault

/-- Access to files. -/
class FileAccess (m : Type → Type) where
  /-- The bytes of a file. -/
  read (path : String) : m (Except FileFault Bytes)
  /-- Make a directory and those on the way to it, as far as they are missing. -/
  makeDirs (path : String) : m (Except FileFault Unit)
  /-- Give a file new content; make the file if it is missing. -/
  write (path : String) (content : Bytes) : m (Except FileFault Unit)

/-! ## Paths -/

/-- The steps of a path. A step is a name, `.` or `..`. -/
structure Route where
  /-- Whether the path starts at the root of all directories. -/
  absolute : Bool
  steps : List String
  /-- A slash at the end, which asks for a directory. -/
  endsInSlash : Bool
deriving DecidableEq, Repr

namespace Route

/-- Paths of so many bytes or more are too long. -/
def pathLimit : Nat := 4096

/-- The longest names have so many bytes. -/
def nameLimit : Nat := 255

/-- The steps of a path. -/
def ofPath (path : String) : Except FileFault Route :=
  if path.isEmpty then .error .notFound
  else if pathLimit ≤ path.utf8ByteSize then .error .nameTooLong
  else
    let parts := path.splitOn "/"
    .ok ⟨parts.head? = some "", parts.filter (· ≠ ""), parts.getLast? = some ""⟩

/-- The steps with the one that a slash at the end stands for. -/
def allSteps (r : Route) : List String := if r.endsInSlash then r.steps ++ ["."] else r.steps

/-- The routes to the directories on the way, the nearest one first. -/
def parents (r : Route) : List Route :=
  let names := r.steps.filter (· ≠ ".")
  (List.range names.length).reverse.map fun count => ⟨r.absolute, names.take count, false⟩

end Route

/-! ## Trees of files -/

/-- What a path leads to. -/
inductive FileNode where
  | directory
  | file (content : Bytes)
deriving DecidableEq, Repr

/-- Files and directories, each with the names on the way to it from the root. -/
structure FileTree where
  nodes : List (List String × FileNode)
  /-- The directory where relative paths start. -/
  home : List String
deriving DecidableEq, Repr

namespace FileTree

/-- The tree that holds nothing but the way to the directory where relative paths start. -/
def empty (home : List String := []) : FileTree := ⟨[], home⟩

/-- What names lead to. -/
def node? (t : FileTree) (names : List String) : Option FileNode :=
  if names.isPrefixOf t.home then some .directory else t.nodes.lookup names

/-- The tree with a node at some names. -/
def insert (t : FileTree) (names : List String) (node : FileNode) : FileTree :=
  { t with nodes := (names, node) :: t.nodes.filter fun entry => entry.1 ≠ names }

/-- Follow steps from the directory `here`. All that they go through has to be a directory; the
last name may be missing. -/
def follow (t : FileTree) (here : List String) : List String → Except FileFault (List String)
  | [] => .ok here
  | step :: rest =>
    match t.node? here with
    | none => .error .notFound
    | some (.file _) => .error .notADirectory
    | some .directory =>
      if step = "." then t.follow here rest
      else if step = ".." then t.follow here.dropLast rest
      else if Route.nameLimit < step.utf8ByteSize then .error .nameTooLong
      else t.follow (here ++ [step]) rest

/-- Where a route starts. -/
def origin (t : FileTree) (r : Route) : List String := if r.absolute then [] else t.home

/-- The names that a path leads to. -/
def resolve (t : FileTree) (path : String) : Except FileFault (List String) := do
  let r ← Route.ofPath path
  t.follow (t.origin r) r.allSteps

/-- The bytes of a file. -/
def read (t : FileTree) (path : String) : Except FileFault Bytes := do
  match t.node? (← t.resolve path) with
  | none => throw .notFound
  | some .directory => throw .isADirectory
  | some (.file content) => return content

/-- The tree with new content in a file. -/
def write (t : FileTree) (path : String) (content : Bytes) : Except FileFault FileTree := do
  let names ← t.resolve path
  match t.node? names with
  | some .directory => throw .isADirectory
  | _ => return t.insert names (.file content)

/-- The tree with one directory more. -/
def makeDir (t : FileTree) (r : Route) : Except FileFault FileTree := do
  let names ← t.follow (t.origin r) r.steps
  if (t.node? names).isSome then throw .occupied else return t.insert names .directory

/-- Whether a route leads to a directory. -/
def isDirectory (t : FileTree) (r : Route) : Bool :=
  match t.follow (t.origin r) r.allSteps with
  | .ok names => t.node? names = some .directory
  | .error _ => false

/-- The tree with a directory, if it is not there yet. -/
def haveDir (t : FileTree) (r : Route) : Except FileFault FileTree :=
  if t.isDirectory r then .ok t else t.makeDir r

/-- The tree with a directory. If the way to it is missing, the nearest of `parents` that can be
made is made first. -/
def haveDirBelow (t : FileTree) (r : Route) : (parents : List Route) → Except FileFault FileTree
  | [] => t.haveDir r
  | parent :: older =>
    match t.haveDir r with
    | .ok t => .ok t
    | .error fault =>
      if fault = .notFound then do (← t.haveDirBelow parent older).haveDir r else .error fault

/-- The tree with a directory, and those on the way to it. -/
def makeDirs (t : FileTree) (path : String) : Except FileFault FileTree := do
  let r ← Route.ofPath path
  t.haveDirBelow r r.parents

/-- The tree with a file and the directories on the way to it. -/
def add (t : FileTree) (path : String) (content : Bytes) : Except FileFault FileTree := do
  let parent := "/".intercalate ((path.splitOn "/").dropLast)
  let t ← if parent.isEmpty then pure t else t.makeDirs parent
  t.write path content

/-- The files of a directory with their content. -/
def filesIn (t : FileTree) (path : String) : List (String × Bytes) :=
  match t.resolve path with
  | .error _ => []
  | .ok names => t.nodes.filterMap fun (entry, node) =>
    match node with
    | .file content =>
      if entry.dropLast = names then entry.getLast?.map fun name => (name, content) else none
    | .directory => none

/-- Change the tree unless that is refused. -/
def update (change : FileTree → Except FileFault FileTree) :
    StateM FileTree (Except FileFault Unit) := fun t =>
  match change t with
  | .ok next => (.ok (), next)
  | .error fault => (.error fault, t)

instance : FileAccess (StateM FileTree) where
  read path := return (← get).read path
  makeDirs path := update (·.makeDirs path)
  write path content := update (·.write path content)

end FileTree

end ScriptFront
