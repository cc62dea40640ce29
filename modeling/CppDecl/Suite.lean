import CppDecl.Case
import CppDecl.Files

/-!
# Work on files

Parsing a file, running one snapshot case and running all cases of a folder.

A case is in order when its file already has the text that `Case.render` writes.  Otherwise it has
failed, or, if that is wished for, its file gets that text.  The cases of a folder are the files
directly in it with the extension `txt`, and they are run by name.  The first one that cannot be
read ends the run, and what was written before stays written.
-/

namespace CppDecl

/-- Why work on files has no result. -/
inductive Failure where
  /-- Parsing gave no answer. -/
  | halted (reason : Halt)
  /-- A file or folder could not be used. -/
  | file (path : String) (fault : FileFault)
  deriving Repr, DecidableEq

/-- The message for a failure. -/
def Failure.message : Failure → String
  | .halted .outOfRange => "a place outside of the text was asked for"
  | .halted .exhausted => "the budget of steps was used up"
  | .file path fault => (Diagnostic.file path fault.message).display

section

variable {m : Type → Type} [Monad m] [MonadFiles m]

/-- A result that may be a halt. -/
def answered {α : Type} (result : Except Halt α) : ExceptT Failure m α :=
  match result with
  | .ok a => pure a
  | .error reason => throw (.halted reason)

/-- A result of access to the file or folder named by `path`. -/
def accessed {α : Type} (path : String) (access : m (Except FileFault α)) :
    ExceptT Failure m α := do
  match ← ExceptT.lift access with
  | .ok a => return a
  | .error fault => throw (.file path fault)

/-- Parses a file. -/
def parseFile (config : Configuration) (path : String) : ExceptT Failure m Parsed := do
  let source ← accessed path (textOf path)
  answered (parse config path source)

/-! ## Cases -/

/-- How a case turned out. -/
inductive Verdict where
  /-- The file has the text it should have. -/
  | passed
  /-- The file has another text. -/
  | failed (expected actual : String)
  /-- The file had another text and now has the right one. -/
  | blessed
  deriving Repr, DecidableEq

/-- Runs the case in a file. -/
def Case.run (path : String) (bless : Bool) : ExceptT Failure m Verdict := do
  let contents ← accessed path (textOf path)
  let actual ← answered (render (Text.fileName path) (split contents).source)
  if actual = contents then
    return .passed
  else if bless then
    accessed path (MonadFiles.replace path actual)
    return .blessed
  else
    return .failed contents actual

/-! ## Suites -/

/-- How the cases of a folder turned out. -/
structure Report where
  /-- How many passed. -/
  passed : Nat := 0
  /-- How many were given the right text. -/
  blessed : Nat := 0
  /-- The names of those that failed. -/
  failed : List String := []
  deriving Repr, DecidableEq

namespace Report

/-- Whether no case failed. -/
def isSuccess (r : Report) : Bool := r.failed.isEmpty

/-- The report with one more case. -/
def add (r : Report) (name : String) : Verdict → Report
  | .passed => { r with passed := r.passed + 1 }
  | .blessed => { r with blessed := r.blessed + 1 }
  | .failed _ _ => { r with failed := r.failed ++ [name] }

end Report

namespace Suite

/-- Whether a file of this name holds a case.  The name `.txt` has no extension. -/
def isCaseName (name : String) : Bool := name.endsWith ".txt" && name != ".txt"

/-- The names of the cases among the files of a folder, in the order in which they are run. -/
def caseNames (names : List String) : List String :=
  (names.filter isCaseName).mergeSort fun a b => !decide (b < a)

/-- Runs all cases of a folder. -/
def run (folder : String) (bless : Bool) : ExceptT Failure m Report := do
  let names ← accessed folder (MonadFiles.namesIn folder)
  (caseNames names).foldlM
    (fun report name => do
      return report.add name (← Case.run (Text.inFolder folder name) bless))
    {}

end Suite

end

end CppDecl
