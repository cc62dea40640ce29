import CppDecl.Text.Byte
import CppDecl.Text.Path

/-!
# Source files

A source file is a path and a text.  `SourceFile.position` turns a byte offset into a line and a
column, both counted from one, the column in bytes.  It searches the table of line starts, which
is computed once when the file is made.

A registry numbers the files it is given.  One file has one number however its path is spelled,
and registering it again replaces its path and its text under the old number.
-/

namespace CppDecl

/-- A line and a column, both counted from one. -/
structure Position where
  /-- The line. -/
  line : Nat
  /-- The column, in bytes. -/
  column : Nat
  deriving Repr, DecidableEq

/-- The offsets just after each newline of a text whose first byte stands at `offset`. -/
def lineStartsFrom (offset : Nat) : Bytes → List Nat
  | [] => []
  | b :: bs =>
    if b = Byte.newline then (offset + 1) :: lineStartsFrom (offset + 1) bs
    else lineStartsFrom (offset + 1) bs

/-- The first index from `lo` on at which a property fails, or `hi` if there is none below it.  It is
found by halving, so the property must not hold again behind an index at which it fails. -/
def partitionPoint (p : Nat → Bool) (lo hi : Nat) : Nat :=
  if lo < hi then
    let mid := lo + (hi - lo) / 2
    if p mid then partitionPoint p (mid + 1) hi else partitionPoint p lo mid
  else
    lo
termination_by hi - lo

/-- A text with the path it was given under. -/
structure SourceFile where
  /-- The path as it was spelled. -/
  path : String
  /-- The text. -/
  contents : String
  /-- The offsets at which lines start, in order, the first one being zero. -/
  lineStarts : Array Nat
  deriving Repr, DecidableEq

namespace SourceFile

/-- The file with a given path and text. -/
def ofText (path contents : String) : SourceFile :=
  ⟨path, contents, (0 :: lineStartsFrom 0 (Text.bytes contents)).toArray⟩

/-- How many lines the file has.  The text after the last newline counts, even if empty. -/
def lineCount (file : SourceFile) : Nat := file.lineStarts.size

/-- How many lines start at or before a byte offset. -/
def linesUpTo (file : SourceFile) (offset : Nat) : Nat :=
  partitionPoint (fun i => file.lineStarts.getD i 0 ≤ offset) 0 file.lineStarts.size

/-- The line and column of a byte offset: the last line that starts at or before it. -/
def position (file : SourceFile) (offset : Nat) : Position :=
  let index := file.linesUpTo offset - 1
  ⟨index + 1, offset - file.lineStarts.getD index 0 + 1⟩

end SourceFile

/-- The files that have been read, by number. -/
structure Registry where
  /-- The files; a file's number is its index. -/
  files : Array SourceFile
  deriving Repr

namespace Registry

/-- A registry without files. -/
def empty : Registry := ⟨#[]⟩

/-- How many files are registered. -/
def size (r : Registry) : Nat := r.files.size

/-- The number of the file that a path names. -/
def find? (r : Registry) (path : String) : Option Nat :=
  r.files.findIdx? fun file => Text.samePath file.path path

/-- The file with a given number. -/
def get? (r : Registry) (id : Nat) : Option SourceFile := r.files[id]?

/-- Registers a text under a path and gives its number, which has 32 bits unless there are that many
other files. -/
def register (r : Registry) (path contents : String) : Nat × Registry :=
  let file := SourceFile.ofText path contents
  match r.find? path with
  | some id => (id, ⟨r.files.setIfInBounds id file⟩)
  | none => (r.files.size, ⟨r.files.push file⟩)

end Registry

end CppDecl
