import CppDecl.Halt
import CppDecl.Source
import CppDecl.Token

/-!
# What has been visited

Reading lays files and macro expansions out on one line of text.  This module remembers enough
to go back from a place on that line to a line and column of a file.

* A *visit* is made to a file, or to the replacement text of a macro.  A visit to a macro
  remembers the visit it was made from and the offset of the macro's name in it.  When the macro
  has parameters, the visit also has a text of its own, with the arguments in place.
* A *macro body* is a definition.  Its text either stands by itself or is a stretch of a file.
* An *entry* says that from a linear location on, text comes from a visit, starting at an offset
  into it.  Entries are made in the order of their locations, so the entry that governs a
  location is the last one made at or before it.

Files, visits and definitions are known by their numbers, and the stretch of a file by its offsets.
Thirty-two bits are kept of each of these.  They are not cut off here: as long as there are not more of
them than 32 bits can count, and no file is longer, there is nothing to be cut off.

To resolve a location inside an expansion, the walk climbs from visit to calling visit until it
reaches a file; the position is that of the name that started the outermost expansion.
-/

namespace CppDecl

/-- Where the replacement text of a macro is kept. -/
inductive BodyText where
  /-- A text of its own. -/
  | literal (text : String)
  /-- The bytes of a registered file between two offsets. -/
  | fileRange (file start stop : Nat)
  deriving Repr, DecidableEq

/-- A macro definition. -/
structure MacroBody where
  /-- The name that is replaced. -/
  name : String
  /-- The replacement text. -/
  text : BodyText
  /-- Whether the name has to be followed by arguments in parentheses. -/
  takesArgs : Bool
  /-- The names of the parameters.  Only a definition in program text has any. -/
  params : List String
  deriving Repr, DecidableEq

/-- One visit to a text. -/
inductive Visit where
  /-- A file, by number. -/
  | file (file : Nat)
  /-- A macro body, by number; the visit and the offset of the name that was replaced; and the
  text with arguments in place, if the macro has parameters. -/
  | expansion (body parent callSite : Nat) (filled : Option String)
  deriving Repr, DecidableEq

/-- From this location on, text comes from `visit`, starting `offset` bytes into it. -/
structure MapEntry where
  /-- The first linear location the entry governs. -/
  loc : LinearLoc
  /-- The visit the text comes from. -/
  visit : Nat
  /-- The offset into the visit's text. -/
  offset : Nat
  deriving Repr, DecidableEq

/-- A position in a file that is known by path. -/
structure FilePosition where
  /-- The path as it was spelled. -/
  path : String
  /-- The position. -/
  position : Position
  deriving Repr, DecidableEq

/-- A file position the way messages show it. -/
def FilePosition.display (p : FilePosition) : String :=
  p.path ++ "(" ++ Nat.repr p.position.line ++ ", " ++ Nat.repr p.position.column ++ ")"

/-- Offsets into a text have 32 bits, and longer ones wrap around. -/
def offsetRange : Nat := 0x100000000

/-- Counts have 32 bits, and larger ones wrap around. -/
def countRange : Nat := 0x100000000

/-- All that was visited. -/
structure Visited where
  /-- The files. -/
  files : Registry
  /-- The visits; a visit's number is its index. -/
  visits : Array Visit
  /-- The definitions; a body's number is its index. -/
  bodies : Array MacroBody
  /-- The entries of the location map, newest first. -/
  entries : List MapEntry
  deriving Repr

/-- A text buffer and the window of it that is to be read. -/
structure Window where
  /-- The buffer. -/
  buffer : String
  /-- The offset of the first byte of the window. -/
  start : Nat
  /-- The offset just after the last byte of the window. -/
  stop : Nat
  deriving Repr, DecidableEq

/-- The text inside a window. -/
def Window.text (w : Window) : Except Halt String :=
  Halt.require (Text.slice? w.buffer w.start w.stop)

namespace Visited

/-- Nothing visited yet. -/
def empty : Visited := ⟨.empty, #[], #[], []⟩

/-- Registers a file and makes a visit to it. -/
def addFile (v : Visited) (path contents : String) : Nat × Visited :=
  let (file, files) := v.files.register path contents
  (v.visits.size, { v with files, visits := v.visits.push (.file file) })

/-- Adds a macro definition.  Its number has 32 bits unless there are `countRange` others. -/
def addBody (v : Visited) (body : MacroBody) : Nat × Visited :=
  (v.bodies.size, { v with bodies := v.bodies.push body })

/-- Makes a visit.  Its number has 32 bits unless there are `countRange` others. -/
def addVisit (v : Visited) (visit : Visit) : Nat × Visited :=
  (v.visits.size, { v with visits := v.visits.push visit })

/-- Makes an entry of the location map. -/
def addEntry (v : Visited) (entry : MapEntry) : Visited :=
  { v with entries := entry :: v.entries }

/-- The location map, oldest entry first. -/
def locationMap (v : Visited) : List MapEntry := v.entries.reverse

/-- The window that holds a body's text. -/
def bodyWindow (v : Visited) (body : MacroBody) : Except Halt Window :=
  match body.text with
  | .literal text => .ok ⟨text, 0, text.utf8ByteSize⟩
  | .fileRange file start stop => do
    let file ← Halt.require (v.files.get? file)
    return ⟨file.contents, start, stop⟩

/-- The window that holds a visit's text. -/
def window (v : Visited) (visit : Nat) : Except Halt Window := do
  match ← Halt.require v.visits[visit]? with
  | .file file =>
    let file ← Halt.require (v.files.get? file)
    return ⟨file.contents, 0, file.contents.utf8ByteSize⟩
  | .expansion _ _ _ (some text) => return ⟨text, 0, text.utf8ByteSize⟩
  | .expansion body _ _ none =>
    let body ← Halt.require v.bodies[body]?
    v.bodyWindow body

/-- The replacement text of a macro body. -/
def bodyText (v : Visited) (body : Nat) : Except Halt String := do
  let body ← Halt.require v.bodies[body]?
  let w ← v.bodyWindow body
  w.text

/-- The entry that governs a location: the last one made at or before it. -/
def findEntry? (v : Visited) (loc : LinearLoc) : Option MapEntry :=
  v.entries.find? fun entry => entry.loc ≤ loc

/-- Climbs from a visit at an offset to a file, giving the file's number and the offset of the
name that started the outermost expansion.  A well-formed climb makes no more steps than there
are visits. -/
def climb (v : Visited) : (steps visit offset : Nat) → Except Halt (Nat × Nat)
  | 0, _, _ => .error .exhausted
  | steps + 1, visit, offset => do
    match ← Halt.require v.visits[visit]? with
    | .file file => return (file, offset)
    | .expansion _ parent callSite _ => v.climb steps parent callSite

/-- The file position of a location, if any entry governs it. -/
def expand? (v : Visited) (loc : LinearLoc) : Except Halt (Option FilePosition) :=
  if loc < 0 then
    .ok none
  else
    match v.findEntry? loc with
    | none => .ok none
    | some entry => do
      let offset := ((loc - entry.loc).toNat + entry.offset) % offsetRange
      let (file, offset) ← v.climb (v.visits.size + 1) entry.visit offset
      let file ← Halt.require (v.files.get? file)
      return some ⟨file.path, file.position offset⟩

/-- The names of the macros around a visit, innermost first. -/
def namesAround (v : Visited) : (steps visit : Nat) → Except Halt (List String)
  | 0, _ => .error .exhausted
  | steps + 1, visit => do
    match ← Halt.require v.visits[visit]? with
    | .file _ => return []
    | .expansion body parent _ _ =>
      let body ← Halt.require v.bodies[body]?
      let outer ← v.namesAround steps parent
      return body.name :: outer

/-- The names of the macros whose expansions surround a location, innermost first. -/
def trace (v : Visited) (loc : LinearLoc) : Except Halt (List String) :=
  match v.findEntry? loc with
  | none => .ok []
  | some entry => v.namesAround (v.visits.size + 1) entry.visit

/-- The file position of a location as messages show it. -/
def displayLocation (v : Visited) (loc : LinearLoc) : Except Halt String := do
  match ← v.expand? loc with
  | some position => return position.display
  | none => return "<unknown>"

end Visited

end CppDecl
