import ScriptFront.Command.Lex
import ScriptFront.Command.Options
import ScriptFront.Command.Parse

/-!
# Running the program
-/

namespace ScriptFront

/-- Carry out what arguments ask for. `colored` tells whether reports are printed in colours. -/
def runCommand {m : Type → Type} [Monad m] [FileAccess m] (args : List String)
    (colored : Bool := false) : m Outcome :=
  match Options.ofArgs args with
  | .error fault => return .fail ("error: " ++ fault.message ++ "\n\n" ++ usage)
  | .ok options =>
    match options.command with
    | .help => return { stderr := usage }
    | .parse files => parseFiles files options.tabWidth options.emitDir colored
    | .lex file => lexFile file options.tabWidth colored

end ScriptFront
