import ScriptFront.Binary.Write
import ScriptFront.Command.Load
import ScriptFront.Datum.Decl
import ScriptFront.Grammar.Units
import ScriptFront.Syntax.Summary

/-!
# Reading units

All files are read first, each path once. Then one file after the other is told about: how much
its unit holds, or what is wrong. Where trees are kept, the tree of a unit is stored under the name
of its file; of two files of one name the later one prevails.
-/

namespace ScriptFront

/-- A file that was read. -/
inductive UnitResult where
  | unit (unit : CodeUnit)
  | faulty (content : Bytes) (error : SyntaxError)
  | missing (fault : LoadFault)

/-- The unit that bytes are. -/
def parseBytes (path : String) (content : Bytes) (tabWidth : UInt32) :
    Except SyntaxError CodeUnit :=
  Parser.run (Parser.parseUnit : Parse Buffer CodeUnit) (Buffer.ofBytes content path) tabWidth

/-- The name of the file that keeps the tree of a file: what is behind the last slash. -/
def treeName (path : String) : String := (path.splitOn "/").getLastD "" ++ ".ast"

/-- The path of a file in a directory. -/
def childPath (dir name : String) : String :=
  if dir.toList.getLast? == some '/' then dir ++ name else dir ++ "/" ++ name

/-- The line about a unit. -/
def CodeUnit.report (path : String) (u : CodeUnit) : String :=
  let counts := u.summary
  path ++ ": ok (" ++ toString counts.includes ++ " includes, " ++ toString counts.namespaces ++
    " namespaces, " ++ toString counts.declarations ++ " declarations)\n"

section

variable {m : Type → Type} [Monad m] [FileAccess m]

/-- Read the unit of a file. -/
def parseFile (tabWidth : UInt32) (path : String) : m (String × UnitResult) := do
  match ← load path with
  | .error fault => return (path, .missing fault)
  | .ok content =>
    match parseBytes path content tabWidth with
    | .ok unit => return (path, .unit unit)
    | .error e => return (path, .faulty content e)

/-- Store the tree of a unit. -/
def storeTree (dir path : String) (u : CodeUnit) : m (Except LoadFault Unit) := do
  let target := childPath dir (treeName path)
  match ← FileAccess.write target u.datum.bytes with
  | .ok () => return .ok ()
  | .error cause => return .error ⟨target, cause⟩

/-- Tell about a file, and store its tree where trees are kept. -/
def finishFile (emitDir : Option String) (colored : Bool) (file : String × UnitResult) :
    m Outcome := do
  let (path, result) := file
  match result with
  | .missing fault => return fault.outcome
  | .faulty content e => return reportOutcome path content e.toDiagnostic colored
  | .unit unit =>
    let stored ← match emitDir with
      | some dir => storeTree dir path unit
      | none => pure (.ok ())
    match stored with
    | .ok () => return .print (unit.report path)
    | .error fault =>
      return .fail ("error: cannot write '" ++ fault.path ++ "': " ++ fault.cause.describe ++ "\n")

/-- Read the units of files. -/
def parseFiles (files : List String) (tabWidth : UInt32) (emitDir : Option String)
    (colored : Bool) : m Outcome := do
  let ready ← match emitDir with
    | some dir => FileAccess.makeDirs dir
    | none => pure (.ok ())
  match ready with
  | .error cause =>
    return .fail ("error: cannot create '" ++ emitDir.getD "" ++ "': " ++ cause.describe ++ "\n")
  | .ok () =>
    let read ← files.eraseDups.mapM (parseFile tabWidth)
    return .all (← read.mapM (finishFile emitDir colored))

end

end ScriptFront
