import CppDecl.Text.Hidden

/-!
# Quoted text

Listings show the text of a token between double quotes.  The quote and the backslash are
written after a backslash, four control characters have a letter of their own, and any other
hidden character is written as its code point in hexadecimal between braces.  An apostrophe
stays as it is.
-/

namespace CppDecl.Text

/-- How one character is written inside quotes. -/
def quotedChar (c : Char) : List Char :=
  match c with
  | '"' => ['\\', '"']
  | '\\' => ['\\', '\\']
  | '\t' => ['\\', 't']
  | '\n' => ['\\', 'n']
  | '\r' => ['\\', 'r']
  | '\x00' => ['\\', '0']
  | c =>
    if isHidden c then
      ['\\', 'u', '\x7b'] ++ Nat.toDigits 16 c.toNat ++ ['\x7d']
    else
      [c]

/-- A text between double quotes, with escapes. -/
def quoted (s : String) : String :=
  String.ofList ('"' :: s.toList.flatMap quotedChar ++ ['"'])

end CppDecl.Text
