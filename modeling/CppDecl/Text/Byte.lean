/-!
# Bytes of text

Program text is read byte by byte, and every offset counts bytes.  This module has the classes
of bytes that the rules of the language name, the passage between text and its UTF-8 bytes, and
slices of a text between two byte offsets.

A slice exists only when both ends lie inside the text and on the border between two characters.
That is what `slice?` checks, and no text is cut by offset without such a check.
-/

namespace CppDecl

/-- A run of raw bytes. -/
abbrev Bytes := List UInt8

namespace Byte

/-- The line feed, which ends a line. -/
def newline : UInt8 := 10

/-- The carriage return. -/
def carriageReturn : UInt8 := 13

/-- The mark `"`. -/
def quote : UInt8 := 34

/-- The mark `#`. -/
def hash : UInt8 := 35

/-- The mark `'`. -/
def apostrophe : UInt8 := 39

/-- The mark `(`. -/
def openParen : UInt8 := 40

/-- The mark `)`. -/
def closeParen : UInt8 := 41

/-- The mark `*`. -/
def star : UInt8 := 42

/-- The mark `,`. -/
def comma : UInt8 := 44

/-- The mark `.`. -/
def dot : UInt8 := 46

/-- The mark `/`. -/
def slash : UInt8 := 47

/-- The mark `\`. -/
def backslash : UInt8 := 92

/-- Space, tab, carriage return and line feed. -/
def isBlank (b : UInt8) : Bool := b == 32 || b == 9 || b == carriageReturn || b == newline

/-- Space and tab, the blanks that stay on a line. -/
def isSpace (b : UInt8) : Bool := b == 32 || b == 9

/-- The digits 0 to 9. -/
def isDigit (b : UInt8) : Bool := 48 ≤ b && b ≤ 57

/-- The digits 0 to 9 and the letters a to f in either case. -/
def isHexDigit (b : UInt8) : Bool := isDigit b || (97 ≤ b && b ≤ 102) || (65 ≤ b && b ≤ 70)

/-- The letters a to z in either case. -/
def isLetter (b : UInt8) : Bool := (97 ≤ b && b ≤ 122) || (65 ≤ b && b ≤ 90)

/-- Letters, digits, the underscore and the dollar sign: the bytes of a directive's name. -/
def isWordByte (b : UInt8) : Bool := isLetter b || isDigit b || b == 95 || b == 36

/-- The bytes of an identifier: word bytes and every byte of a character beyond ASCII. -/
def isIdentifierByte (b : UInt8) : Bool := isWordByte b || 128 ≤ b

/-- Bytes that continue a character begun by an earlier byte. -/
def isContinuation (b : UInt8) : Bool := 128 ≤ b && b < 192

end Byte

namespace Text

/-- The UTF-8 bytes of a text. -/
def bytes (s : String) : Bytes := s.toUTF8.data.toList

/-- The text with the given UTF-8 bytes, if there is one. -/
def ofBytes? (bs : Bytes) : Option String := String.fromUTF8? ⟨bs.toArray⟩

/-- Whether a byte offset lies in the text and between two characters. -/
def isBoundary (bs : Bytes) (offset : Nat) : Bool :=
  match bs.drop offset with
  | b :: _ => !Byte.isContinuation b
  | [] => offset == bs.length

/-- The text between two byte offsets, if both are boundaries and in order. -/
def slice? (s : String) (start stop : Nat) : Option String :=
  let bs := bytes s
  if start ≤ stop && isBoundary bs start && isBoundary bs stop then
    ofBytes? ((bs.drop start).take (stop - start))
  else
    none

/-- The bytes of an ASCII spelling, for comparison with program text. -/
def spelled (cs : List Char) : Bytes := cs.map Char.toUInt8

end Text

end CppDecl
