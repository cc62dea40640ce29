import CppDecl.Lexeme

/-!
# Arguments of a macro use

The arguments of a macro are the stretches of text between the parenthesis after its name and
the one that matches it, cut at the commas that stand in no inner parentheses.  Parentheses and
commas inside comments and literals do not count.

`Arguments.read` works on the bytes right after the name.  All places are offsets into those
bytes.  If there is no parenthesis, the name is not a use of the macro.  If the text ends too
early that is a fault, and all of the text is used up.  As with lexemes, `beyond` is how many
bytes the window onto the text has past its end.
-/

namespace CppDecl

/-- What follows the name of a macro that takes arguments. -/
inductive Arguments where
  /-- No parenthesis follows, as could be seen from so many bytes. -/
  | missing (looked : Nat)
  /-- The text ends before the arguments do, as could be seen from so many bytes. -/
  | unfinished (fault : Fault) (looked : Nat)
  /-- The arguments, each with the offset of its first byte, and the offset just after the
  closing parenthesis. -/
  | found (arguments : List (Nat × Bytes)) (stop : Nat)
  deriving Repr, DecidableEq

namespace Arguments

open Byte

/-- One piece of the text between the parentheses. -/
inductive Piece where
  /-- So many bytes without any meaning here: text, a comment or a literal. -/
  | plain (len : Nat)
  /-- An opening parenthesis. -/
  | opening
  /-- A closing parenthesis. -/
  | closing
  /-- A comma. -/
  | separator
  /-- The text ends inside a comment or a literal, or right after a slash.  So many bytes are
  passed over, and so many are looked at. -/
  | cut (cause : LexCause) (len seen : Nat)
  deriving Repr, DecidableEq

/-- The first piece of a text that starts with `b`. -/
def piece (beyond : Nat) (b : UInt8) (bs : Bytes) : Piece :=
  if b = slash then
    match bs with
    | [] => .cut .endInArguments 1 2
    | c :: rest =>
      if c = slash then .plain (2 + (Lexeme.line rest).1)
      else if c = star then
        match Lexeme.commentEnd? rest with
        | some n => .plain (2 + n)
        | none => .cut .endInComment (2 + rest.length) (3 + rest.length)
      else .plain 1
  else if b = quote || b = apostrophe then
    match Lexeme.literalEnd? b bs with
    | some n => .plain (1 + n)
    | none =>
      let (n, seen) := Lexeme.unclosed beyond bs
      .cut .endInLiteral (1 + n) (1 + seen)
  else if b = openParen then .opening
  else if b = closeParen then .closing
  else if b = comma then .separator
  else .plain 1

/-- The depth of inner parentheses as it is kept, in 32 bits with a sign. -/
def level (depth : Nat) : Int := (depth : Int).bmod countRange

/-- Reads on at `offset`, inside an argument that starts at `start` and has the text `arg` so
far, newest byte first, at a depth of `depth` inner parentheses. -/
def readFrom (beyond opened offset start depth : Nat) (arg : Bytes) (bs : Bytes) : Arguments :=
  match bs with
  | [] => .unfinished ⟨.endInArguments, offset, some opened⟩ (offset + 1)
  | b :: rest =>
    match piece beyond b rest with
    | .cut cause len seen =>
      let began := if cause = .endInLiteral then offset else opened
      .unfinished ⟨cause, offset + len, some began⟩ (offset + seen)
    | .plain n =>
      readFrom beyond opened (offset + 1 + (n - 1)) start depth
        ((rest.take (n - 1)).reverse ++ b :: arg) (rest.drop (n - 1))
    | .opening => readFrom beyond opened (offset + 1) start (depth + 1) (b :: arg) rest
    | .closing =>
      if level depth ≤ 0 then .found [(start, arg.reverse)] (offset + 1)
      else readFrom beyond opened (offset + 1) start (depth - 1) (b :: arg) rest
    | .separator =>
      if level depth = 0 then
        match readFrom beyond opened (offset + 1) (offset + 1) 0 [] rest with
        | .found arguments stop => .found ((start, arg.reverse) :: arguments) stop
        | other => other
      else
        readFrom beyond opened (offset + 1) start depth (b :: arg) rest
termination_by bs.length
decreasing_by all_goals simp only [List.length_cons, List.length_drop]; omega

/-- Reads what follows the name of a macro that takes arguments. -/
def read (beyond : Nat) (bs : Bytes) : Arguments :=
  let gap := (bs.takeWhile isBlank).length
  match bs.drop gap with
  | [] => .missing (gap + 1)
  | b :: rest =>
    if b = openParen then readFrom beyond gap (gap + 1) (gap + 1) 0 [] rest
    else .missing (gap + 1)

end Arguments

end CppDecl
