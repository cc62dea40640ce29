import CppDecl.Halt
import CppDecl.Lexeme
import CppDecl.Text.WhiteSpace

/-!
# Putting arguments into a replacement text

A replacement text is first cut into pieces, without regard to the parameters: literals, names,
the pasting mark `##` with the blanks after it, a `#` with the name behind it, and everything
else.  Then each piece is written out.

* A name that is a parameter is replaced by its argument, trimmed.  The name `__VA_ARGS__`
  stands for all remaining arguments if the last parameter is `...`.
* A `#` before a parameter writes the argument as a string literal.
* Pasting removes the blanks at the end of what has been written so far.
* All other pieces are written as they are.

Text that was put in is never cut again, so arguments are replaced all at once.

The text is cut byte by byte.  A piece that is not made of whole characters has no text, and then
there is no answer.
-/

namespace CppDecl

/-- A piece of a replacement text, by its bytes or by its text. -/
inductive BodyPiece (α : Type) where
  /-- Text that is written as it is. -/
  | verbatim (text : α)
  /-- A name, which may be a parameter. -/
  | name (text : α)
  /-- The mark `#`, blanks, and the name behind them, if any. -/
  | stringize (gap name : α)
  /-- The mark `##` with the blanks behind it. -/
  | paste
  deriving Repr, DecidableEq

/-- The text of a piece. -/
def BodyPiece.decode : BodyPiece Bytes → Except Halt (BodyPiece String)
  | .verbatim text => return .verbatim (← Halt.require (Text.ofBytes? text))
  | .name text => return .name (← Halt.require (Text.ofBytes? text))
  | .stringize gap word =>
    return .stringize (← Halt.require (Text.ofBytes? gap)) (← Halt.require (Text.ofBytes? word))
  | .paste => return .paste

namespace Substitution

open Byte

/-- Space and tab. -/
def isGap (c : Char) : Bool := c == ' ' || c == '\t'

/-- How many bytes a literal has behind its opening quote.  A literal without a closing quote goes
to the end. -/
def literalLength (mark : UInt8) (bs : Bytes) : Nat :=
  (Lexeme.literalEnd? mark bs).getD bs.length

/-- The first piece of a text that starts with `b`, and how many bytes it has beyond `b`. -/
def firstPiece (b : UInt8) (bs : Bytes) : BodyPiece Bytes × Nat :=
  if b = quote || b = apostrophe then
    let n := literalLength b bs
    (.verbatim (b :: bs.take n), n)
  else if b = hash then
    if bs.head? = some hash then
      (.paste, 1 + (bs.tail.takeWhile isSpace).length)
    else
      let gap := bs.takeWhile isSpace
      let name := (bs.drop gap.length).takeWhile isIdentifierByte
      (.stringize gap name, gap.length + name.length)
  else if isIdentifierByte b then
    let run := bs.takeWhile isIdentifierByte
    (if isDigit b then .verbatim (b :: run) else .name (b :: run), run.length)
  else
    let rest := bs.takeWhile isContinuation
    (.verbatim (b :: rest), rest.length)

/-- A replacement text in pieces. -/
def pieces (bs : Bytes) : List (BodyPiece Bytes) :=
  match bs with
  | [] => []
  | b :: rest =>
    let (piece, n) := firstPiece b rest
    piece :: pieces (rest.drop n)
termination_by bs.length
decreasing_by simp only [List.length_cons, List.length_drop]; omega

/-- The text for a name, if it is a parameter.  A parameter without an argument has no text. -/
def argument? (params : List String) (args : List String) (name : String) : Option String :=
  if name = "__VA_ARGS__" && params.getLast? = some "..." then
    some (String.intercalate ", " ((args.drop (params.length - 1)).map Text.trim))
  else
    (params.findIdx? fun p => p == name && p != "...").map fun i =>
      (args[i]?.map Text.trim).getD ""

/-- A character inside a string literal. -/
def escaped : Char → List Char
  | '\\' => ['\\', '\\']
  | '"' => ['\\', '"']
  | c => [c]

/-- Writes one piece after what has been written so far, which is given newest character first. -/
def write (lookup : String → Option String) (out : List Char) : BodyPiece String → List Char
  | .verbatim text => text.toList.reverse ++ out
  | .name text => ((lookup text).getD text).toList.reverse ++ out
  | .stringize gap name =>
    match lookup name with
    | some arg => ('"' :: arg.toList.flatMap escaped ++ ['"']).reverse ++ out
    | none => ('#' :: gap.toList ++ name.toList).reverse ++ out
  | .paste => out.dropWhile isGap

/-- A replacement text with the arguments in place of the parameters. -/
def substitute (params args : List String) (body : String) : Except Halt String := do
  let pieces ← (pieces (Text.bytes body)).mapM BodyPiece.decode
  return String.ofList (pieces.foldl (write (argument? params args)) []).reverse

end Substitution

end CppDecl
