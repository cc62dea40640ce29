/-!
# White space beyond ASCII

Arguments of a macro and the names in directives are trimmed of every character that Unicode
calls White_Space, not only of the blanks that separate tokens.  This module has that property
as a table and the three operations that use it: trimming both ends, trimming the end, and
taking the first word.
-/

namespace CppDecl.Text

/-- The code points with the property White_Space, as closed intervals. -/
def whiteSpaceRanges : List (Nat × Nat) :=
  [(0x9, 0xD), (0x20, 0x20), (0x85, 0x85), (0xA0, 0xA0), (0x1680, 0x1680), (0x2000, 0x200A),
   (0x2028, 0x2029), (0x202F, 0x202F), (0x205F, 0x205F), (0x3000, 0x3000)]

/-- Whether a character is white space. -/
def isWhiteSpace (c : Char) : Bool :=
  whiteSpaceRanges.any fun (lo, hi) => lo ≤ c.toNat && c.toNat ≤ hi

/-- Characters without the white space at their end. -/
def dropTrailing (cs : List Char) : List Char := (cs.reverse.dropWhile isWhiteSpace).reverse

/-- Characters without the white space at either end. -/
def trimmed (cs : List Char) : List Char := dropTrailing (cs.dropWhile isWhiteSpace)

/-- A text without the white space at either end. -/
def trim (s : String) : String := String.ofList (trimmed s.toList)

/-- A text without the white space at its end. -/
def trimEnd (s : String) : String := String.ofList (dropTrailing s.toList)

/-- The first maximal run of characters that are not white space. -/
def firstWord? (s : String) : Option String :=
  match s.toList.dropWhile isWhiteSpace with
  | [] => none
  | cs => some (String.ofList (cs.takeWhile fun c => !isWhiteSpace c))

example : trimmed " a b\t".toList = "a b".toList := by decide
example : trimmed "\u3000x\u00A0".toList = ['x'] := by decide

end CppDecl.Text
