import CppDecl.Parsing

/-!
# Snapshot cases

A case is the text of a file with two parts: a source, and the diagnostics that parsing it is
expected to give.  Between them stands a line that begins with five dashes.  What else that line
holds does not matter, and the first such line counts.  A text without one is all source.

`split` takes a text apart and `render` writes the text as it should be.  Writing ends the last
line of the source, so the parts of a written case are its source with that line ended, and the
diagnostics of the source as it was given.
-/

namespace CppDecl

/-- The parts of a case. -/
structure Case where
  /-- The program text. -/
  source : String
  /-- What follows the line of dashes, if there is such a line. -/
  expected? : Option String
  deriving Repr, DecidableEq

namespace Case

/-- What the line between the parts begins with. -/
def dashes : List Char := ['-', '-', '-', '-', '-']

/-- What follows the first line of a text. -/
def afterLine (cs : List Char) : List Char := (cs.dropWhile fun c => c != '\n').drop 1

/-- The characters in front of the first line that begins with dashes, and those after that line.
The flag tells whether a line begins here. -/
def cut : (lineBegins : Bool) → List Char → List Char × Option (List Char)
  | _, [] => ([], none)
  | lineBegins, c :: cs =>
    if lineBegins && dashes.isPrefixOf (c :: cs) then
      ([], some (afterLine (c :: cs)))
    else
      let (source, expected?) := cut (c == '\n') cs
      (c :: source, expected?)

/-- Takes the text of a case apart. -/
def split (contents : String) : Case :=
  let (source, expected?) := cut true contents.toList
  ⟨String.ofList source, expected?.map String.ofList⟩

/-- The source with its last line ended. -/
def ended (source : String) : String :=
  match source.toList.getLast? with
  | none => source
  | some '\n' => source
  | some _ => source ++ "\n"

/-- The diagnostics of a source, one after the other. -/
def diagnostics (name source : String) : Except Halt String := do
  let parsed ← parse {} name source
  return String.join (← parsed.diagnostics.mapM fun d => d.render parsed.visited)

/-- The text that a case with this source should have. -/
def render (name source : String) : Except Halt String := do
  return ended source ++ String.ofList dashes ++ "\n" ++ (← diagnostics name source)

example : split "a\n------ more\nb" = ⟨"a\n", some "b"⟩ := by decide +kernel
example : split "a -----\nb" = ⟨"a -----\nb", none⟩ := by decide +kernel

end Case

end CppDecl
