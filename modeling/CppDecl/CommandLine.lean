import CppDecl.Command
import CppDecl.Suite
import CppDecl.Text.Quoted
import CppDecl.Tree.Json
import CppDecl.Tree.Outline

/-!
# The command line

Carries out commands.  Results go to the output and diagnostics to the error output.  A command
that reports an error, or meets a file that it cannot use, ends with a complaint and the exit code
1.  Words that are no command end with the exit code 2.

Everything here is a function of the words and the files.  What is shown is collected in a
transcript, which stays as it is when a complaint ends the work.
-/

namespace CppDecl

/-- What was shown so far. -/
structure Transcript where
  /-- The output. -/
  out : String := ""
  /-- The error output. -/
  err : String := ""
  deriving Repr, DecidableEq

/-- How a command line ended. -/
structure Outcome where
  /-- The exit code. -/
  exitCode : Nat
  /-- The output. -/
  out : String
  /-- The error output. -/
  err : String
  deriving Repr, DecidableEq

/-- Work that shows things and may end with a complaint. -/
abbrev Work (m : Type → Type) := ExceptT String (StateT Transcript m)

namespace CommandLine

section

variable {m : Type → Type} [Monad m]

/-- Shows a text as output. -/
def put (text : String) : Work m Unit :=
  modify fun t => { t with out := t.out ++ text }

/-- Shows a text as error output. -/
def putError (text : String) : Work m Unit :=
  modify fun t => { t with err := t.err ++ text }

/-- Work whose failure is a complaint. -/
def complaining {α : Type} (work : ExceptT Failure (StateT Transcript m) α) : Work m α :=
  work.adapt Failure.message

/-- Complains about errors if there were any. -/
def complainOf (errors : Nat) : Work m Unit :=
  if errors = 0 then pure () else throw (toString errors ++ " error(s)")

/-! ## Commands -/

/-- The diagnostics of a parse and the tree in the form asked for, as error output and output. -/
def shown (form : TreeForm) (parsed : Parsed) : Except Halt (String × String) := do
  let diagnostics ← parsed.diagnostics.mapM fun d => d.render parsed.visited
  let tree ← match form with
    | .hidden => pure ""
    | .outline => parsed.unit.outline.render (some parsed.visited) 0
    | .data => pure (Json.render parsed.unit.data ++ "\n")
  return (String.join diagnostics, tree)

/-- The line for a token. -/
def tokenLine (visited : Visited) (t : Token) : Except Halt String := do
  let place := match ← visited.expand? t.loc with
    | some position => position.display
    | none => toString t.loc
  return place ++ ": " ++ t.kind.name ++ " " ++ Text.quoted t.text ++ "\n"

/-- The lines for the tokens of a source and its diagnostics. -/
def listed (tokens : Tokens) : Except Halt (String × String) := do
  let lines ← tokens.tokens.mapM (tokenLine tokens.visited)
  let errors ← tokens.errors.mapM fun e => (Diagnostic.lexical e).render tokens.visited
  return (String.join lines, String.join errors)

/-- The lines of a report. -/
def reported (folder : String) (r : Report) : String :=
  toString r.passed ++ " passed, " ++ toString r.blessed ++ " updated, " ++
    toString r.failed.length ++ " failed\n" ++
    String.join (r.failed.map fun name => "FAILED: " ++ Text.inFolder folder name ++ "\n")

variable [MonadFiles m]

/-- Parses a file, shows its diagnostics and its tree, and gives the number of errors. -/
def parseOne (form : TreeForm) (config : Configuration) (path : String) : Work m Nat := do
  let parsed ← complaining (parseFile config path)
  let (diagnostics, tree) ← complaining (answered (shown form parsed))
  putError diagnostics
  put tree
  return parsed.errorCount

/-- Shows the tokens of a file. -/
def listTokens (config : Configuration) (path : String) : Work m Unit := do
  match ← ExceptT.lift (textOf path) with
  | .error fault => throw fault.message
  | .ok source =>
    let tokens ← complaining (answered (tokenize config path source))
    let (lines, diagnostics) ← complaining (answered (listed tokens))
    put lines
    putError diagnostics
    complainOf tokens.errors.length

/-- Runs the cases of a folder and shows the report. -/
def runSuite (folder : String) (bless : Bool) : Work m Unit := do
  let report ← complaining (Suite.run folder bless)
  put (reported folder report)
  if !report.isSuccess then
    throw "test suite failed"

/-- Carries out a command. -/
def carryOut : Command → Work m Unit
  | .parse files form predefined => do
    let counts ← files.mapM (parseOne form ⟨predefined, true⟩)
    complainOf (counts.foldl (· + ·) 0 % countRange)
  | .tokens file predefined => listTokens ⟨predefined, true⟩ file
  | .suite folder bless => runSuite folder bless

/-! ## Outcomes -/

/-- How to call the program. -/
def usage : String :=
  "Usage: cppdecl [-v] parse FILES.. [--dump | --json] [DEFINITIONS]\n" ++
  "       cppdecl [-v] tokens FILE [DEFINITIONS]\n" ++
  "       cppdecl [-v] suite DIR [--bless]\n" ++
  "Definitions: -D NAME[=VALUE], -F NAME[=VALUE], --builtins, --debug-pp\n"

/-- What the program is and which version. -/
def version : String := "cppdecl 0.1.0\n"

/-- The outcome for words that are no command. -/
def refused : Refusal → Outcome
  | .misuse => ⟨2, "", usage⟩
  | .help => ⟨0, usage, ""⟩
  | .version => ⟨0, version, ""⟩

/-- The outcome of work. -/
def finished (ending : Except String Unit) (t : Transcript) : Outcome :=
  match ending with
  | .ok () => ⟨0, t.out, t.err⟩
  | .error complaint => ⟨1, t.out, t.err ++ "Error: " ++ complaint ++ "\n"⟩

/-- Runs a command line. -/
def run (words : List String) : m Outcome := do
  match Command.ofWords words with
  | .error refusal => return refused refusal
  | .ok command =>
    let (ending, transcript) ← (carryOut command).run.run {}
    return finished ending transcript

end

end CommandLine

end CppDecl
