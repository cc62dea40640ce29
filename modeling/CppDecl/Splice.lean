/-!
# Insertions into a text

A splice puts a text in front of the byte at an offset.  Offsets past the end mean the end, and
a splice whose place is inside a character is dropped.  Splices at the same place come in the
order of the offsets they were given, and in the order given where those agree.

`Splice.apply` goes through the splices in the order of their offsets and keeps the position up to
which the source has been copied.  A position of a text (`String.Pos`) is between two of its
characters, so what is copied is a text as well.
-/

namespace CppDecl

/-- A text to be inserted at a byte offset. -/
structure Splice where
  /-- The offset, which may lie past the end. -/
  offset : Nat
  /-- The text. -/
  text : String
  deriving Repr, DecidableEq

namespace Splice

/-- Where a splice goes in a text, which may be inside a character. -/
def place (source : String) (s : Splice) : String.Pos.Raw := ⟨min s.offset source.utf8ByteSize⟩

/-- Splices in the order of their offsets, those with the same offset in the order given. -/
def byOffset (splices : List Splice) : List Splice :=
  splices.mergeSort fun a b => a.offset ≤ b.offset

/-- The text behind a position with splices applied one after the other.  A splice that is not at a
position, or is before what has been copied, is passed over. -/
def applyFrom (source : String) (copied : source.Pos) : List Splice → String
  | [] => source.extract copied source.endPos
  | s :: rest =>
    if h : copied.offset ≤ s.place source ∧ (s.place source).IsValid source then
      let next := source.pos (s.place source) h.2
      source.extract copied next ++ s.text ++ applyFrom source next rest
    else
      applyFrom source copied rest

/-- A text with splices applied. -/
def apply (source : String) (splices : List Splice) : String :=
  applyFrom source source.startPos (byOffset splices)

end Splice

end CppDecl
