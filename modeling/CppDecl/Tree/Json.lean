import CppDecl.Tree.Data

/-!
# Data as JSON text

JSON text is laid out over lines, with two spaces for each level.  An empty list stays on its
line.  Within strings, the quote, the backslash and control characters are escaped and nothing
else.
-/

namespace CppDecl.Json

/-- A hexadecimal digit. -/
def hexDigit (n : Nat) : Char := (Nat.toDigits 16 n).headD '0'

/-- How a character is written in a string. -/
def escapedChar (c : Char) : List Char :=
  match c with
  | '"' => ['\\', '"']
  | '\\' => ['\\', '\\']
  | '\x08' => ['\\', 'b']
  | '\t' => ['\\', 't']
  | '\n' => ['\\', 'n']
  | '\x0c' => ['\\', 'f']
  | '\r' => ['\\', 'r']
  | c =>
    if c.toNat < 32 then ['\\', 'u', '0', '0', hexDigit (c.toNat / 16), hexDigit (c.toNat % 16)]
    else [c]

/-- A string between quotes. -/
def string (s : String) : String := String.ofList ('"' :: s.toList.flatMap escapedChar ++ ['"'])

/-- The start of a line at a level. -/
def newline (level : Nat) : String := "\n" ++ String.ofList (List.replicate (2 * level) ' ')

/-- Items between brackets, each on a line of its own one level further in. -/
def block (level : Nat) (opener closer : String) (items : List String) : String :=
  if items.isEmpty then opener ++ closer
  else
    opener ++ newline (level + 1) ++ String.intercalate ("," ++ newline (level + 1)) items ++
      newline level ++ closer

/-- A field of a record. -/
def field (name value : String) : String := string name ++ ": " ++ value

/-- A token, which is a record of its own. -/
def token (level : Nat) (t : Token) : String :=
  block level "\x7b" "\x7d"
    [field "linear_loc" (Int.repr t.loc), field "text" (string t.text),
     field "kind" (string t.kind.name)]

mutual

/-- Data that starts on a line at the given level. -/
def text (level : Nat) : Data → String
  | .null => "null"
  | .bool value => if value then "true" else "false"
  | .text value => string value
  | .token value => token level value
  | .list items => block level "[" "]" (texts (level + 1) items)
  | .record fields => block level "\x7b" "\x7d" (fieldTexts (level + 1) fields)

/-- The items of a list. -/
def texts (level : Nat) : List Data → List String
  | [] => []
  | item :: rest => text level item :: texts level rest

/-- The fields of a record. -/
def fieldTexts (level : Nat) : List (String × Data) → List String
  | [] => []
  | (name, value) :: rest => field name (text level value) :: fieldTexts level rest

end

/-- The JSON text of data. -/
def render (d : Data) : String := text 0 d

end CppDecl.Json
