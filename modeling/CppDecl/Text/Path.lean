/-!
# Names of files

Two spellings name the same file when their components agree.  Repeated separators, a separator
at the end and the component `.` do not count, except for a `.` at the very start.  The component
`..` counts, since nothing is known about links.  Whether a name starts at the root counts too.

The name proper of a file is its last component, and a name in a folder is the two spellings with
a separator between them, unless the first one ends in a separator already.
-/

namespace CppDecl.Text

/-- What a spelling of a file name comes down to. -/
structure PathKey where
  /-- Whether the name starts at the root. -/
  rooted : Bool
  /-- The components that count. -/
  components : List (List Char)
  deriving DecidableEq, Repr

/-- The pieces of a name between its separators, empty pieces included. -/
def pathPieces (path : String) : List (List Char) := path.toList.splitOn '/'

/-- The key of a spelling. -/
def pathKey (path : String) : PathKey :=
  let counts (piece : List Char) : Bool := piece != [] && piece != ['.']
  match pathPieces path with
  | [] => ⟨false, []⟩
  | first :: rest =>
    let start := if first = ['.'] then [first] else [first].filter counts
    ⟨first = [] && rest != [], start ++ rest.filter counts⟩

/-- Whether two spellings name the same file. -/
def samePath (a b : String) : Bool := pathKey a == pathKey b

/-- The name proper: the last component, unless that leads to a folder by its spelling. -/
def fileName (path : String) : String :=
  match (pathKey path).components.getLast? with
  | some ['.'] => ""
  | some ['.', '.'] => ""
  | some name => String.ofList name
  | none => ""

/-- The spelling of a name in a folder. -/
def inFolder (folder name : String) : String :=
  match folder.toList.getLast? with
  | none => name
  | some '/' => folder ++ name
  | some _ => folder ++ "/" ++ name

example : samePath "a//b/./c/" "a/b/c" = true := by decide
example : samePath "./a" "a" = false := by decide
example : samePath "/a" "a" = false := by decide

end CppDecl.Text
