import CppDecl.Macro.Arguments
import CppDecl.Macro.Definition
import CppDecl.Macro.Substitution

/-!
# The reader

The reader turns text into tokens.  It holds a stack of *frames*, each a window onto a text that
is still to be read: files at the bottom, expansions of macros above.  Tokens come from the top
frame, and a frame that has been read to its end is taken off.  A use of a macro gives a token
for the use itself and puts the replacement text on top as a new frame.  A macro that is being
expanded is not expanded again inside its own frame.

All frames together lie on one line of text, on which `Reader.endLoc` is the place where the top
frame ends.  When a frame is put on top, its text takes the place that follows; when it is taken
off, the frame below goes on from there.  Each such change makes an entry in the location map.

`Reader.step` does one thing: it takes off a frame, skips a lexeme, or gives a token.
`Reader.readToken` repeats it until there is a token.  Each step leaves less to be read, so this
always ends.  After the last frame, every further token is the end of the file.

Reading all tokens is a different matter, since an expansion may add text.  `Reader.readAll`
takes a budget.
-/

namespace CppDecl

/-! ## Configuration -/

/-- A macro that is defined before anything is read.  If it takes arguments they are dropped. -/
structure Predefined where
  /-- The name. -/
  name : String
  /-- The replacement text. -/
  text : String := ""
  /-- Whether arguments have to follow the name. -/
  takesArgs : Bool := false
  deriving Repr, DecidableEq

/-- How a reader is set up. -/
structure Configuration where
  /-- The macros to start with, later ones replacing earlier ones of the same name. -/
  predefined : List Predefined := []
  /-- Whether definitions in the text that is read take effect. -/
  registerDefines : Bool := true
  deriving Repr, DecidableEq

/-! ## The table of macros -/

/-- Which body a name stands for. -/
abbrev MacroTable := List (String × Nat)

namespace MacroTable

/-- The table without a name. -/
def erase (t : MacroTable) (name : String) : MacroTable := t.filter fun (n, _) => n != name

/-- The table with a name standing for a body. -/
def insert (t : MacroTable) (name : String) (body : Nat) : MacroTable :=
  (name, body) :: t.erase name

/-- The body that a name stands for. -/
def find? (t : MacroTable) (name : String) : Option Nat := t.lookup name

end MacroTable

/-! ## Frames -/

/-- A window onto a text that is being read. -/
structure Frame where
  /-- The visit that the frame belongs to. -/
  visit : Nat
  /-- The offset at which the window starts. -/
  start : Nat
  /-- The offset of the next byte to be read. -/
  pos : Nat
  /-- The offset at which the window ends. -/
  stop : Nat
  /-- The bytes still to be read, as far as the text has them. -/
  rest : Bytes
  /-- How many bytes of the window lie past the end of the text. -/
  missing : Nat
  /-- The macro that is being expanded, if the frame is not a file. -/
  body? : Option Nat
  deriving Repr, DecidableEq

namespace Frame

/-- A frame at the start of a window. -/
def ofWindow (visit : Nat) (body? : Option Nat) (w : Window) : Frame :=
  let rest := ((Text.bytes w.buffer).drop w.start).take (w.stop - w.start)
  ⟨visit, w.start, w.start, w.stop, rest, w.stop - w.start - rest.length, body?⟩

/-- How many bytes of the window are still to be read. -/
def remaining (f : Frame) : Nat := f.stop - f.pos

/-- The frame after its next `n` bytes. -/
def advance (f : Frame) (n : Nat) : Frame :=
  { f with
    pos := f.pos + n
    rest := f.rest.drop n
    missing := f.missing - (n - f.rest.length) }

/-- The frame after all of its bytes. -/
def finish (f : Frame) : Frame := { f with pos := f.stop, rest := [], missing := 0 }

/-- Whether looking at the next `n` bytes goes past the end of the text, though not of the
window. -/
def lacks (f : Frame) (n : Nat) : Bool := f.missing != 0 && f.rest.length < n

end Frame

/-! ## The state of a reader -/

/-- A reader: what was visited, what is to be read, and what has come up on the way. -/
structure Reader where
  /-- All that was visited. -/
  visited : Visited
  /-- The frames, topmost first. -/
  frames : List Frame
  /-- The place on the line of text where the top frame ends. -/
  endLoc : LinearLoc
  /-- The macros that are defined. -/
  macros : MacroTable
  /-- Whether a `>` is always a token of its own. -/
  closeAnglesOnly : Bool
  /-- Whether the next lexeme stands at the start of a line. -/
  lineStart : Bool
  /-- The arguments of the last macro use, in order. -/
  args : List Token
  /-- Whether definitions in the text take effect. -/
  registerDefines : Bool
  /-- Faults that have not been collected yet, in order. -/
  errors : List LexError
  /-- Requests for other files that have not been collected yet, in order. -/
  inclusions : List String
  deriving Repr

namespace Reader

/-- Defines a macro, replacing one of the same name. -/
def define (r : Reader) (d : Predefined) : Reader :=
  let (body, visited) := r.visited.addBody ⟨d.name, .literal d.text, d.takesArgs, []⟩
  { r with visited, macros := r.macros.insert d.name body }

/-- A reader with nothing to read. -/
def new (visited : Visited) (config : Configuration) : Reader :=
  config.predefined.foldl define
    { visited, frames := [], endLoc := 0, macros := [], closeAnglesOnly := false,
      lineStart := true, args := [], registerDefines := config.registerDefines, errors := [],
      inclusions := [] }

/-- Whether a name is a macro. -/
def isDefined (r : Reader) (name : String) : Bool := (r.macros.find? name).isSome

/-- The location of the next byte of a frame, if it is the top one. -/
def locOf (r : Reader) (f : Frame) : LinearLoc := r.endLoc - f.remaining

/-- Puts a frame on top, with its first byte at the given location. -/
def enter (r : Reader) (f : Frame) (loc : LinearLoc) : Reader :=
  { r with
    visited := r.visited.addEntry ⟨loc, f.visit, 0⟩
    frames := f :: r.frames
    endLoc := loc + f.remaining }

/-- Starts to read a file whose first byte is at the given location.  Gives the number of the
visit. -/
def pushAt (r : Reader) (path contents : String) (loc : LinearLoc) : Nat × Reader :=
  let (visit, visited) := r.visited.addFile path contents
  let frame := Frame.ofWindow visit none ⟨contents, 0, contents.utf8ByteSize⟩
  (visit, { { r with visited }.enter frame loc with lineStart := true })

/-- Starts to read a file at the location that is next to be read. -/
def push (r : Reader) (path contents : String) : Nat × Reader :=
  let loc :=
    match r.frames with
    | [] => max r.endLoc 0
    | top :: _ => r.locOf top
  r.pushAt path contents loc

/-- Takes off the top frame, above the frames `below`. -/
def leave (r : Reader) (below : List Frame) : Reader :=
  match below with
  | [] => { r with frames := [] }
  | parent :: _ =>
    { r with
      visited :=
        r.visited.addEntry ⟨r.endLoc, parent.visit, (parent.pos - parent.start) % offsetRange⟩
      frames := below
      endLoc := r.endLoc + parent.remaining }

/-! ## Directives -/

/-- The file that a frame reads directly. -/
def fileOf? (r : Reader) (f : Frame) : Option Nat :=
  match r.visited.visits[f.visit]? with
  | some (.file file) => some file
  | _ => none

/-- Registers a definition that was read from the bytes at offset `base` of a frame.  The
replacement text is remembered as a stretch of the file if it can be.  Its offsets have 32 bits if the
file is shorter than `offsetRange`. -/
def register (r : Reader) (f : Frame) (base : Nat) (d : Definition) : Except Halt Reader := do
  let name ← Halt.require (Text.ofBytes? d.name)
  let params ← Halt.require ((d.params?.getD []).mapM Text.ofBytes?)
  let text ←
    match r.fileOf? f, d.body.contains Byte.backslash with
    | some file, false => pure (.fileRange file (base + d.start) (base + d.start + d.body.length))
    | _, _ => do
      let text ← Halt.require (Text.ofBytes? (Definition.joinLines d.body))
      pure (.literal text)
  let (body, visited) := r.visited.addBody ⟨name, text, d.params?.isSome, params⟩
  return { r with visited, macros := r.macros.insert name body }

/-- Does what a directive says.  The directive has the text `text` with the bytes `bs`, which
start at the next byte of the frame. -/
def perform (r : Reader) (f : Frame) (text : String) (bs : Bytes) : Effect → Except Halt Reader
  | .nothing => .ok r
  | .inclusion => .ok { r with inclusions := r.inclusions ++ [Text.trimEnd text] }
  | .undefine offset =>
    if r.registerDefines then do
      let rest ← Halt.require (Text.ofBytes? (bs.drop offset))
      match Text.firstWord? rest with
      | some name => return { r with macros := r.macros.erase name }
      | none => return r
    else
      .ok r
  | .define offset =>
    if r.registerDefines then
      match Definition.parse? (bs.drop offset) with
      | some d => r.register f (f.pos + offset) d
      | none => .ok r
    else
      .ok r

/-! ## Expansion -/

/-- Puts the replacement text of a macro on top.  The name stands at `loc`, and at the offset
`callSite` of the text of `parent`. -/
def expand (r : Reader) (body : Nat) (name : String) (loc : LinearLoc) (parent : Frame)
    (callSite : Nat) : Except Halt (Token × Reader) := do
  let definition ← Halt.require r.visited.bodies[body]?
  let filled ←
    if definition.params = [] then
      pure none
    else do
      let text ← r.visited.bodyText body
      let filled ← Substitution.substitute definition.params (r.args.map Token.text) text
      pure (some filled)
  let (visit, visited) :=
    r.visited.addVisit (.expansion body parent.visit (callSite % offsetRange) filled)
  let w ← visited.window visit
  return (⟨loc, .macroUse, name⟩,
    { r with visited }.enter (Frame.ofWindow visit (some body) w) loc)

/-- The macro that a name stands for here: one that is not being expanded already. -/
def activeMacro? (r : Reader) (name : String) : Option Nat :=
  match r.macros.find? name with
  | some body => if r.frames.any fun f => f.body? == some body then none else some body
  | none => none

/-- Gives the token for a name that was read at `loc`, at the offset `start` of the top frame's
text.  The frame has been advanced past the name already and stands above `below`. -/
def readName (r : Reader) (top : Frame) (below : List Frame) (start : Nat) (loc : LinearLoc)
    (name : String) : Except Halt (Token × Reader) :=
  let plain : Token := ⟨loc, .identifier, name⟩
  match r.activeMacro? name with
  | none => .ok (plain, r)
  | some body => do
    let definition ← Halt.require r.visited.bodies[body]?
    let r := { r with args := [] }
    if definition.takesArgs then
      let base := r.locOf top
      match Arguments.read top.missing top.rest with
      | .missing looked =>
        if top.lacks looked then throw .outOfRange else return (plain, r)
      | .unfinished fault looked =>
        if top.lacks looked then throw .outOfRange
        else
          return (plain,
            { r with frames := top.finish :: below, errors := r.errors ++ [fault.locate base] })
      | .found arguments stop =>
        let args ← arguments.mapM fun (offset, bs) => do
          let text ← Halt.require (Text.ofBytes? bs)
          return ⟨base + offset, .macroArgument, text⟩
        let r := { r with args, frames := top.advance stop :: below }
        r.expand body name loc top (start - top.start)
    else
      r.expand body name loc top (start - top.start)

/-! ## Reading -/

/-- Takes the first lexeme of the top frame, which starts with `b`. -/
def take (r : Reader) (top : Frame) (below : List Frame) (b : UInt8) (bs : Bytes) :
    Except Halt (Option Token × Reader) := do
  let scan := Lexeme.scanFrom r.closeAnglesOnly r.lineStart top.missing b bs
  if top.lacks scan.seen then
    throw .outOfRange
  let loc := r.locOf top
  let after := { top.advance scan.len with rest := bs.drop (scan.len - 1) }
  let r :=
    { r with
      frames := after :: below
      lineStart := scan.lineStart
      errors := r.errors ++ scan.faults.map (Fault.locate loc) }
  match scan.kind? with
  | none => return (none, r)
  | some kind =>
    let taken := b :: bs.take (scan.len - 1)
    let text ← Halt.require (Text.ofBytes? taken)
    let r ← r.perform top text taken scan.effect
    if kind = .identifier then
      let (token, r) ← r.readName after below top.pos loc text
      return (some token, r)
    else
      return (some ⟨loc, kind, text⟩, r)

/-- Takes off a frame, skips a lexeme, or gives a token. -/
def step (r : Reader) : Except Halt (Option Token × Reader) :=
  match r.frames with
  | [] => .ok (some ⟨r.endLoc, .endOfFile, ""⟩, r)
  | top :: below =>
    match top.rest with
    | [] => if top.missing = 0 then .ok (none, r.leave below) else .error .outOfRange
    | b :: bs => r.take top below b bs

/-- How much is left to be read: the bytes of all frames, and the frames themselves. -/
def unread (r : Reader) : Nat := r.frames.foldr (fun f n => f.rest.length + 1 + n) 0

theorem frames_leave (r : Reader) (below : List Frame) : (r.leave below).frames = below := by
  cases below <;> rfl

/-- A step that gives no token leaves less to be read. -/
theorem unread_lt_of_step {r r' : Reader} (h : r.step = .ok (none, r')) :
    r'.unread < r.unread := by
  unfold step at h
  split at h
  · cases h
  · next top below hframes =>
    split at h
    · next hrest =>
      split at h
      · cases h
        simp only [unread, frames_leave, hframes, List.foldr_cons]
        omega
      · cases h
    · next b bs hrest =>
      unfold take at h
      simp only [bind, Except.bind, throw, throwThe, MonadExceptOf.throw, pure, Except.pure] at h
      split at h
      · cases h
      · split at h
        · cases h
          simp only [unread, hframes, hrest, List.foldr_cons, List.length_cons,
            List.length_drop]
          omega
        · split at h
          · cases h
          · split at h
            · cases h
            · split at h
              · split at h <;> cases h
              · cases h

/-- The next token. -/
def readToken (r : Reader) : Except Halt (Token × Reader) :=
  match _h : r.step with
  | .error e => .error e
  | .ok (some token, r') => .ok (token, r')
  | .ok (none, r') => r'.readToken
termination_by r.unread
decreasing_by exact unread_lt_of_step _h

/-- All tokens up to and with the end of the file, at most `budget` of them. -/
def readAll : (budget : Nat) → Reader → Except Halt (List Token × Reader)
  | 0, _ => .error .exhausted
  | budget + 1, r => do
    let (token, r) ← r.readToken
    if token.kind = .endOfFile then
      return ([token], r)
    else
      let (tokens, r) ← readAll budget r
      return (token :: tokens, r)

/-- The next `count` tokens.  At the end of the file the same token comes again and again. -/
def readMany : (count : Nat) → Reader → Except Halt (List Token × Reader)
  | 0, r => .ok ([], r)
  | count + 1, r => do
    let (token, r) ← r.readToken
    let (tokens, r) ← readMany count r
    return (token :: tokens, r)

/-- Hands over the faults that have come up. -/
def takeErrors (r : Reader) : List LexError × Reader := (r.errors, { r with errors := [] })

/-- Hands over the requests for other files that have come up. -/
def takeInclusions (r : Reader) : List String × Reader :=
  (r.inclusions, { r with inclusions := [] })

end Reader

end CppDecl
