import ScriptFront.Source.Place
import ScriptFront.Text.Digits

/-!
# Command-line options

The first argument is the command. Options, written `--name=value`, and files follow in any order;
of an option given twice the last value counts. Options are read before the command is looked at.

- `Options.ofArgs`: what the arguments ask for.
- `OptionFault.message`: what is wrong with them, in words.
-/

namespace ScriptFront

/-- What is asked for. -/
inductive Command where
  /-- Read each file and say what it holds or what is wrong with it. -/
  | parse (files : List String)
  /-- List the tokens of a file. -/
  | lex (file : String)
  | help
deriving DecidableEq, Repr

/-- A command and how to carry it out. -/
structure Options where
  command : Command
  tabWidth : UInt32
  /-- The directory that gets a file for the tree of each unit. -/
  emitDir : Option String
  /-- How many files may be read at the same time. -/
  jobs : Option Nat
deriving DecidableEq, Repr

/-- What is wrong with the arguments. -/
inductive OptionFault where
  | missingCommand
  | unknownCommand (command : String)
  | unknownFlag (flag : String)
  | missingFiles (command : String)
  /-- More than the one file that can be listed. -/
  | tooManyFiles (count : Nat)
  | badValue (flag value : String)
deriving DecidableEq, Repr

/-- The fault in words. -/
def OptionFault.message : OptionFault → String
  | .missingCommand => "missing command"
  | .unknownCommand command => "unknown command '" ++ command ++ "'"
  | .unknownFlag flag => "unknown option '" ++ flag ++ "'"
  | .missingFiles command => "'" ++ command ++ "' needs a file"
  | .tooManyFiles count => "'lex' takes exactly one file, got " ++ toString count
  | .badValue flag value => "invalid value '" ++ value ++ "' for " ++ flag

/-- The command that a word and files make. -/
def Command.ofWord (word : String) (files : List String) : Except OptionFault Command :=
  if word = "parse" then
    if files.isEmpty then throw (.missingFiles word) else return .parse files
  else if word = "lex" then
    match files with
    | [] => throw (.missingFiles word)
    | [file] => return .lex file
    | files => throw (.tooManyFiles files.length)
  else if word = "help" || word = "--help" || word = "-h" then return .help
  else throw (.unknownCommand word)

namespace Options

/-- The numbers that options can hold are smaller than this. -/
def numberLimit : Nat := UInt64.size

/-- A positive number, perhaps with a plus sign. -/
def readPositive? (value : String) : Option Nat :=
  let digits := match value.toList with
    | '+' :: rest => String.ofList rest
    | _ => value
  (Digits.read? 10 digits).filter fun n => 0 < n && n < numberLimit

/-- The value that an argument gives to a flag, if it is about that flag. -/
def valueOf? (flag arg : String) : Option String :=
  ((flag ++ "=").toList.isPrefixOf? arg.toList).map String.ofList

/-- The flag for the width of a tab. -/
def tabWidthFlag : String := "--tab-width"

/-- The flag for the directory of trees. -/
def emitFlag : String := "--emit-ast"

/-- The flag for the number of jobs. -/
def jobsFlag : String := "--jobs"

/-- What the arguments behind the command say. -/
structure Settings where
  tabWidth : UInt32 := defaultTabWidth
  emitDir : Option String := none
  jobs : Option Nat := none
  files : List String := []
deriving DecidableEq, Repr

/-- Take one argument into account. -/
def Settings.add (s : Settings) (arg : String) : Except OptionFault Settings :=
  if let some value := valueOf? tabWidthFlag arg then
    match (readPositive? value).filter (· ≤ counterLimit) with
    | some width => return { s with tabWidth := .ofNat width }
    | none => throw (.badValue tabWidthFlag value)
  else if let some dir := valueOf? emitFlag arg then
    if dir.isEmpty then throw (.badValue emitFlag dir) else return { s with emitDir := some dir }
  else if let some value := valueOf? jobsFlag arg then
    match readPositive? value with
    | some jobs => return { s with jobs := some jobs }
    | none => throw (.badValue jobsFlag value)
  else if arg.toList.head? == some '-' then throw (.unknownFlag arg)
  else return { s with files := s.files ++ [arg] }

/-- What arguments ask for. -/
def ofArgs : List String → Except OptionFault Options
  | [] => throw .missingCommand
  | word :: args => do
    let s ← args.foldlM Settings.add {}
    return { command := ← Command.ofWord word s.files, tabWidth := s.tabWidth, emitDir := s.emitDir
             jobs := s.jobs }

end Options

/-- How to call the program. -/
def usageLines : List String :=
  ["Usage: fluffyc <command> [options] <files>",
    "",
    "Commands:",
    "  parse <files...>    Parse each file and report its outline or first error",
    "  lex <file>          Print the token stream of a file",
    "  help                Show this message",
    "",
    "Options:",
    "  --tab-width=<n>     Columns a tab advances by (default: 4)",
    "  --emit-ast=<dir>    Write each parsed unit to <dir>/<file>.ast (bincode)",
    "  --jobs=<n>          Number of parser threads (default: one per core)",
    "",
    "Environment:",
    "  RUST_LOG            Enable tracing, e.g. RUST_LOG=fluffy_parse=debug",
    "  FLUFFY_LOG_TREE=1   Print traces as an indented span tree"]

/-- How to call the program, every line ended. -/
def usage : String := String.join (usageLines.map (· ++ "\n"))

end ScriptFront
