import CppDecl.Text.Byte
import CppDecl.Text.Path

/-!
# Files

The little that is asked of a file system: the bytes of a file, the names of the files in a
folder, and a new text for a file.  `MonadFiles` is access to these.  Work on files is written
over any monad that has it.

`FileTree` is a file system of its own, a list of files below a working folder.  A folder is
there when a file is below it, and the working folder is always there.  A name is followed one
component at a time, and everything that is passed has to be a folder, so `a.h/` and `a.h/..` name
nothing when `a.h` is a file.  Nothing outside of the working folder exists.
-/

namespace CppDecl

/-! ## Access -/

/-- Why a file or a folder cannot be used. -/
inductive FileFault where
  /-- Nothing has that name. -/
  | missing
  /-- A file stands where a folder is needed. -/
  | notFolder
  /-- A folder stands where a file is needed. -/
  | isFolder
  /-- The bytes of the file are not UTF-8. -/
  | notText
  /-- Anything else, in the words of the system. -/
  | other (words : String)
  deriving Repr, DecidableEq

/-- The message for a fault. -/
def FileFault.message : FileFault → String
  | .missing => "No such file or directory (os error 2)"
  | .notFolder => "Not a directory (os error 20)"
  | .isFolder => "Is a directory (os error 21)"
  | .notText => "stream did not contain valid UTF-8"
  | .other words => words

/-- Monads with access to files. -/
class MonadFiles (m : Type → Type) where
  /-- The bytes of a file. -/
  bytesOf : (path : String) → m (Except FileFault Bytes)
  /-- The names of the files in a folder, in no particular order. -/
  namesIn : (folder : String) → m (Except FileFault (List String))
  /-- Gives a file a new text. -/
  replace : (path contents : String) → m (Except FileFault Unit)

instance {m : Type → Type} {σ : Type} [Monad m] [MonadFiles m] : MonadFiles (StateT σ m) where
  bytesOf path := StateT.lift (MonadFiles.bytesOf path)
  namesIn folder := StateT.lift (MonadFiles.namesIn folder)
  replace path contents := StateT.lift (MonadFiles.replace path contents)

/-- The text of a file. -/
def textOf {m : Type → Type} [Monad m] [MonadFiles m] (path : String) :
    m (Except FileFault String) := do
  match ← MonadFiles.bytesOf path with
  | .error fault => return .error fault
  | .ok bytes =>
    match Text.ofBytes? bytes with
    | some text => return .ok text
    | none => return .error .notText

/-! ## A tree of files -/

/-- Where something is in a tree: the folders on the way and its own name. -/
abbrev Place := List String

/-- The files below a working folder. -/
structure FileTree where
  /-- The files with their places, each place once. -/
  files : List (Place × Bytes)
  deriving Repr, DecidableEq

/-- What is at a place. -/
inductive Node where
  /-- A file with these bytes. -/
  | file (bytes : Bytes)
  /-- A folder. -/
  | folder
  /-- Nothing. -/
  | nothing
  deriving Repr, DecidableEq

namespace FileTree

/-- The working folder without any files. -/
def empty : FileTree := ⟨[]⟩

/-- What the tree has at a place. -/
def node (t : FileTree) (place : Place) : Node :=
  match t.files.lookup place with
  | some bytes => .file bytes
  | none =>
    if place = [] || t.files.any (fun (p, _) => place.isPrefixOf p) then .folder else .nothing

/-- Follows the pieces of a name from a place. -/
def follow (t : FileTree) : Place → List String → Except FileFault Place
  | place, [] => .ok place
  | place, piece :: pieces =>
    match t.node place with
    | .nothing => .error .missing
    | .file _ => .error .notFolder
    | .folder =>
      if piece = "" || piece = "." then
        follow t place pieces
      else if piece = ".." then
        if place = [] then .error .missing else follow t place.dropLast pieces
      else
        follow t (place ++ [piece]) pieces

/-- The place that a spelling names. -/
def locate (t : FileTree) (path : String) : Except FileFault Place :=
  if (Text.pathKey path).rooted then
    .error .missing
  else
    t.follow [] ((Text.pathPieces path).map String.ofList)

/-- The bytes of a file. -/
def bytesOf (t : FileTree) (path : String) : Except FileFault Bytes := do
  match t.node (← t.locate path) with
  | .file bytes => .ok bytes
  | .folder => .error .isFolder
  | .nothing => .error .missing

/-- The names of the files in a folder. -/
def namesIn (t : FileTree) (folder : String) : Except FileFault (List String) := do
  let place ← t.locate folder
  match t.node place with
  | .file _ => .error .notFolder
  | .nothing => .error .missing
  | .folder =>
    .ok (t.files.filterMap fun (p, _) => if p.dropLast = place then p.getLast? else none)

/-- Puts a file at a place. -/
def put (t : FileTree) (place : Place) (bytes : Bytes) : FileTree :=
  if (t.files.lookup place).isSome then
    ⟨t.files.map fun (p, b) => if p = place then (p, bytes) else (p, b)⟩
  else
    ⟨t.files ++ [(place, bytes)]⟩

/-- The tree with the given files, named by spellings that start at the working folder.  Of two
files with one name the later counts. -/
def ofFiles (files : List (String × Bytes)) : FileTree :=
  files.foldl
    (fun t (path, bytes) => t.put ((Text.pathKey path).components.map String.ofList) bytes) empty

/-- Gives a file a new text. -/
def replace (t : FileTree) (path contents : String) : Except FileFault FileTree := do
  let place ← t.locate path
  match t.node place with
  | .folder => .error .isFolder
  | _ => .ok (t.put place (Text.bytes contents))

end FileTree

instance : MonadFiles (StateM FileTree) where
  bytesOf path := do return (← get).bytesOf path
  namesIn folder := do return (← get).namesIn folder
  replace path contents := do
    match (← get).replace path contents with
    | .ok tree =>
      set tree
      return .ok ()
    | .error fault => return .error fault

end CppDecl
