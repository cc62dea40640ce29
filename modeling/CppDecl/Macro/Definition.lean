import CppDecl.Text.Byte

/-!
# Definitions of macros in program text

A definition is a name, optionally a list of parameters in parentheses right behind it, and the
replacement text, which is the rest of the directive without the blanks at either end.
`Definition.parse?` reads one from the bytes that follow the word `define`.  A definition with a
malformed name or parameter list is no definition, and nothing is registered for it.

The list of parameters is read generously: commas between parameters may be missing, and one may
follow the last parameter.
-/

namespace CppDecl

/-- A definition as it stands in a directive. -/
structure Definition where
  /-- The name of the macro. -/
  name : Bytes
  /-- The parameters, if there is a list of them. -/
  params? : Option (List Bytes)
  /-- The offset of the replacement text from the start of the bytes that were read. -/
  start : Nat
  /-- The replacement text. -/
  body : Bytes
  deriving Repr, DecidableEq

namespace Definition

open Byte

/-- The parameter that stands for all remaining arguments. -/
def variadic : Bytes := [dot, dot, dot]

/-- The length of the parameter that `bs` starts with, zero if it starts with none. -/
def parameterLength (bs : Bytes) : Nat :=
  if variadic.isPrefixOf bs then 3 else (bs.takeWhile isIdentifierByte).length

/-- What follows a parameter, its comma included in what is skipped. -/
def afterParameter (bs : Bytes) : Bytes :=
  match bs.dropWhile isSpace with
  | [] => []
  | b :: rest => if b = comma then rest else b :: rest

theorem length_dropWhile_le (p : UInt8 → Bool) (bs : Bytes) :
    (bs.dropWhile p).length ≤ bs.length :=
  (List.dropWhile_suffix p).length_le

theorem length_afterParameter_le (bs : Bytes) : (afterParameter bs).length ≤ bs.length := by
  have h := length_dropWhile_le isSpace bs
  unfold afterParameter
  split
  · simp
  · next b rest heq =>
    rw [heq] at h
    simp only [List.length_cons] at h
    split
    · omega
    · simpa using h

/-- The parameters up to the closing parenthesis, and what follows it. -/
def parameters? (bs : Bytes) : Option (List Bytes × Bytes) :=
  match _heq : bs.dropWhile isSpace with
  | [] => none
  | b :: rest =>
    if b = closeParen then some ([], rest)
    else
      match parameterLength (b :: rest) with
      | 0 => none
      | n + 1 =>
        match parameters? (afterParameter (rest.drop n)) with
        | none => none
        | some (params, after) => some ((b :: rest.take n) :: params, after)
termination_by bs.length
decreasing_by
  have h₁ := length_dropWhile_le isSpace bs
  have h₂ := length_afterParameter_le (rest.drop n)
  rw [_heq] at h₁
  simp only [List.length_cons, List.length_drop] at h₁ h₂
  omega

/-- Bytes without the blanks at their end. -/
def dropTrailingBlanks (bs : Bytes) : Bytes := (bs.reverse.dropWhile isBlank).reverse

/-- The definition that follows the word `define`. -/
def parse? (bs : Bytes) : Option Definition :=
  let fromName := bs.dropWhile isSpace
  let name := fromName.takeWhile isIdentifierByte
  let afterName := fromName.drop name.length
  let finish (params? : Option (List Bytes)) (rest : Bytes) : Definition :=
    let body := rest.dropWhile isBlank
    ⟨name, params?, bs.length - body.length, dropTrailingBlanks body⟩
  if name = [] then none
  else if afterName.head? = some openParen then
    (parameters? afterName.tail).map fun (params, rest) => finish (some params) rest
  else
    some (finish none afterName)

/-- A replacement text with each escaped line end replaced by a space. -/
def joinLines : Bytes → Bytes
  | [] => []
  | b :: bs =>
    if b = backslash then
      match bs with
      | c :: d :: rest =>
        if c = newline then 32 :: joinLines (d :: rest)
        else if c = carriageReturn && d = newline then 32 :: joinLines rest
        else b :: joinLines (c :: d :: rest)
      | [c] => if c = newline then [32] else [b, c]
      | [] => [b]
    else
      b :: joinLines bs

end Definition

end CppDecl
