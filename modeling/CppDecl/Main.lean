import CppDecl.CommandLine

/-!
# The program

The command line on the files of the machine.
-/

namespace CppDecl

/-- The fault that an error of the system stands for.  Some calls give the number of the error
negated. -/
def FileFault.ofSystem (e : IO.Error) : FileFault :=
  match e with
  | .noFileOrDirectory .. => .missing
  | .inappropriateType _ code _ =>
    if code = 20 || code = -20 then .notFolder
    else if code = 21 || code = -21 then .isFolder
    else .other (toString e)
  | _ => .other (toString e)

/-- The result of an access to the files of the machine. -/
def ofSystem {α : Type} (access : IO α) : IO (Except FileFault α) := do
  match ← access.toBaseIO with
  | .ok a => return .ok a
  | .error e => return .error (.ofSystem e)

/-- The names of the files in a folder of the machine. -/
def systemNames (folder : String) : IO (List String) := do
  let entries ← ((← IO.currentDir) / folder).readDir
  let files ← entries.toList.filterM fun entry => do
    match ← entry.path.metadata.toBaseIO with
    | .ok data => return data.type == .file
    | .error _ => return false
  return files.map fun entry => entry.fileName

instance : MonadFiles IO where
  bytesOf path := ofSystem do return (← IO.FS.readBinFile path).data.toList
  namesIn folder := ofSystem (systemNames folder)
  replace path contents := ofSystem (IO.FS.writeFile path contents)

end CppDecl

/-- Runs the command line with the given words. -/
def main (words : List String) : IO UInt32 := do
  let outcome ← CppDecl.CommandLine.run words
  (← IO.getStdout).putStr outcome.out
  (← IO.getStderr).putStr outcome.err
  return outcome.exitCode.toUInt32
