import ScriptFront.Binary.Decl
import ScriptFront.Command.Run
import ScriptFront.Main
import ScriptFront.Outline.Decl
import ScriptFront.Source.Chunked
import ScriptFront.Proofs.Coupling.Basic
import ScriptFront.Proofs.Coupling.Parser
import ScriptFront.Proofs.Coupling.Types
import ScriptFront.Proofs.Coupling.Exprs
import ScriptFront.Proofs.Coupling.Stmts
import ScriptFront.Proofs.Coupling.Decls
import ScriptFront.Proofs.Coupling.Units
import ScriptFront.Proofs.Coupling.Modes
import ScriptFront.Proofs.Sources.Faithful
import ScriptFront.Proofs.Sources.Chunks
import ScriptFront.Proofs.Sources.Walks
import ScriptFront.Proofs.Sources.Lexing
import ScriptFront.Proofs.Sources.Calls
import ScriptFront.Proofs.Sources.Interchange
import ScriptFront.Proofs.Sources.Ends
import ScriptFront.Proofs.Sources.Addresses
import ScriptFront.Proofs.Writing.Lexemes
import ScriptFront.Proofs.Writing.Scanning
import ScriptFront.Proofs.Writing.Relexing
import ScriptFront.Proofs.Writing.Decls
import ScriptFront.Proofs.Writing.Unplaced
import ScriptFront.Proofs.Writing.Reading
import ScriptFront.Proofs.Writing.Lookahead
import ScriptFront.Proofs.Writing.Climbing
import ScriptFront.Proofs.Writing.Operands
import ScriptFront.Proofs.Writing.Minimal
import ScriptFront.Proofs.Lexing.Passing
import ScriptFront.Proofs.Lexing.Scanners
import ScriptFront.Proofs.Lexing.Accounts
import ScriptFront.Proofs.Lexing.Failing
import ScriptFront.Proofs.Lexing.Sessions
import ScriptFront.Proofs.Lexing.Literals
import ScriptFront.Proofs.Lexing.Separation
import ScriptFront.Proofs.Lockstep.Lists
import ScriptFront.Proofs.Shapes.Texts
import ScriptFront.Proofs.Speculation.Failing
import ScriptFront.Proofs.Lockstep.Types
import ScriptFront.Proofs.Lockstep.Exprs
import ScriptFront.Proofs.Lockstep.Stmts
import ScriptFront.Proofs.Lockstep.Decls
import ScriptFront.Proofs.Lockstep.Units
import ScriptFront.Proofs.Lockstep.Ways
import ScriptFront.Proofs.Lockstep.Reached
import ScriptFront.Proofs.Lockstep.Sizes
import ScriptFront.Proofs.Lockstep.Layouts
import ScriptFront.Proofs.Lockstep.TraitMode
import ScriptFront.Proofs.Lexing.Starts
import ScriptFront.Proofs.Reports.Ranges
import ScriptFront.Proofs.Speculation.Peeking
import ScriptFront.Proofs.Speculation.Restoring
import ScriptFront.Proofs.Storing.Units
import ScriptFront.Proofs.Storing.Runs
import ScriptFront.Proofs.Unspaced.Tokens
import ScriptFront.Proofs.Unspaced.Texts
import ScriptFront.Proofs.Lockstep.Rows
import ScriptFront.Proofs.Writing.TypeOperators
import ScriptFront.Proofs.Rewriting.Texts
import ScriptFront.Proofs.Extending.Basic
import ScriptFront.Proofs.Extending.Conditions
import ScriptFront.Proofs.Extending.Members
import ScriptFront.Proofs.Shapes.Maximal
import ScriptFront.Proofs.Shapes.Commas
