import CppDecl.Grammar.Rule

/-!
# Skipping over brackets

Some brackets are not looked into: bodies of functions, arguments of a static assertion, and
everything that is passed over to recover from an error.  Skipping keeps track of brackets inside
of brackets.  It stops early at a closing bracket that belongs to something further out, and
reports the bracket that was left open.

A `<` counts as a bracket only where a `>` is read as a token of its own.  Elsewhere it may be an
operator.
-/

namespace CppDecl.Grammar

open Parse

/-- Skips from behind an opening bracket to its closing bracket, which it gives. -/
def skipScope (call : Call) (opener : Token) : Parse (Option Token) :=
  match opener.kind.closer? with
  | none => return none
  | some closer => inside opener.kind (call (.skipTo opener closer))

/-- If a token opens a bracket, skips to the closing bracket. -/
def skipNested (call : Call) (token : Token) : Parse (Option Token) := do
  match token.kind with
  | .openAngle =>
    if (← get).reader.closeAnglesOnly then skipScope call token else return none
  | .openCurly | .openParen | .openSquare => skipScope call token
  | _ => return none

/-- Skips to the closer of a bracket. -/
def skipTo (call : Call) (opener : Token) (closer : TokenKind) : Parse (Option Token) := do
  let token ← read
  if token.kind = closer then
    return some token
  if !(← mayStay token) then
    fault true (.unclosed token opener)
    return none
  let _ ← skipNested call token
  call (.skipTo opener closer)

/-- Steps over a token that makes no sense, and over the bracket that it opens, if any.  Gives
the last token stepped over, or nothing if the token is left to a rule further out. -/
def stepOver (call : Call) (token : Token) : Parse (Option Token) := do
  if !(← mayStay token) then
    return none
  let closer ← skipNested call token
  return some (closer.getD token)

/-- Reads the closer of a parenthesis or a square bracket.  If something else comes, reports it
and skips to the closer. -/
def closeScope (call : Call) (opener : Token) : Parse (Option Token) := do
  let token ← read
  if some token.kind = opener.kind.closer? then
    return some token
  faultExpected (if opener.kind = .openSquare then .closeSquare else .closeParen) token
  pushBack token
  match ← skipScope call opener with
  | none => return none
  | some closer =>
    unmute
    return some closer

end CppDecl.Grammar
