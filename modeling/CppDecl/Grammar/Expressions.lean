import CppDecl.Grammar.Parameters

/-!
# Expressions

An expression is neither evaluated nor kept as a tree.  All that matters is where it ends, so
operators have no precedence: an operand is followed by the end of the expression, or by an
operator and another expression.

The body of a lambda expression is skipped.  Its list of captures has to be empty.
-/

namespace CppDecl.Grammar

open Parse

/-- Template arguments and further names behind a name. -/
def nameTail (call : Call) : Parse Unit := do
  let first ← read
  let token ←
    if first.kind = .openAngle then do
      let _ ← withCloseAngles (skipScope call first)
      read
    else
      pure first
  if token.kind ≠ .doubleColon then
    pushBack token
    return
  let name ← read
  if name.kind ≠ .identifier then
    faultExpected .identifier name
    pushBack name
  else
    call .nameTail

/-- The rest of string literals that stand side by side.  Gives the last one. -/
def literals (call : Call) (last : Token) : Parse Token := do
  let token ← read
  if token.kind = .stringLiteral then
    call (.literals token)
  else
    pushBack token
    return last

/-- The rest of a list of expressions.  Gives the bracket that closes it, or, if the list is left
to a rule further out, the last token that made no sense before. -/
def expressions (call : Call) (opener : TokenKind) (last : Token) : Parse Token := do
  let (closeKind, missing) :=
    if opener = .openParen then (TokenKind.closeParen, Expected.commaOrCloseParen)
    else (.closeCurly, .commaOrCloseCurly)
  let token ← read
  if token.kind = closeKind then
    return token
  pushBack token
  let _ ← call (.expression false)
  let sep ← read
  if sep.kind = .comma then
    call (.expressions opener last)
  else if sep.kind = closeKind then
    return sep
  else
    faultExpected missing sep
    match ← stepOver call sep with
    | none => return last
    | some _ => call (.expressions opener sep)

/-- A lambda expression, behind the bracket that opens its captures.  Gives the brace that closes
its body. -/
def lambda (call : Call) : Parse Token := do
  let captures ← read
  if captures.kind ≠ .closeSquare then
    faultExpected .closeSquare captures
  let opener ← peek
  if opener.kind = .openParen then
    let _ ← parameterList call false
  else
    faultExpected .openParen opener
  let arrow ← read
  let token ←
    if arrow.kind = .arrow then do
      let _ ← specified call .typeId
      read
    else
      pure arrow
  if token.kind ≠ .openCurly then
    faultExpected .openCurly token
    pushBack token
    return .absent
  return (← skipScope call token).getD .absent

/-- An operand that starts with the given token.  Gives its last token, or nothing if no operand
starts so. -/
def operand (call : Call) (start : Token) : Parse (Option Token) := do
  match start.kind with
  | .identifier =>
    call .nameTail
    let next ← read
    match next.kind with
    | .openParen => return some (← inside .openParen (call (.expressions .openParen .absent)))
    | .openCurly => return some (← inside .openCurly (call (.expressions .openCurly .absent)))
    | _ =>
      pushBack next
      return some start
  | .numericLiteral => return some start
  | .stringLiteral => return some (← call (.literals start))
  | .openParen =>
    inside .openParen do
      let _ ← call (.expression false)
      let closer ← read
      if closer.kind = .closeParen then
        -- what follows may be the operand of a cast
        let (castStart, castStop) ← call (.expression true)
        return some (if castStart.isPresent then castStop else closer)
      else
        pushBack closer
        return some ((← closeScope call start).getD .absent)
  | .openCurly => return some (← call (.expressions .openCurly .absent))
  | .bang | .singleAmpersand | .singleMinus => return some (← call (.expression false)).2
  | .openSquare => return some (← lambda call)
  | _ => return none

/-- Operators between two operands. -/
def binaryOperators : List TokenKind :=
  [.closeAngle, .singleVerticalBar, .doubleVerticalBar, .singleAmpersand, .doubleAmpersand,
   .doubleEqual, .notEqual, .openAngle, .lessThanOrEqual, .greaterThanOrEqual, .leftShift,
   .rightShift, .singlePlus, .singleMinus, .percent, .caret, .arrow, .star, .dot, .forwardSlash]

/-- Reads on behind an operand that ends with the given token.  Gives the last token of the whole
expression. -/
def continuation (call : Call) (stop : Token) : Parse Token := do
  let token ← read
  if token.kind = .closeAngle && (← get).reader.closeAnglesOnly then
    pushBack token
    return stop
  else if binaryOperators.contains token.kind then
    let (nextStart, nextStop) ← call (.expression false)
    return if nextStart.isPresent then nextStop else stop
  else if token.kind = .questionMark then
    let _ ← call (.expression false)
    let colon ← read
    if colon.kind ≠ .singleColon then
      faultExpected .colon colon
      pushBack colon
      return stop
    let (nextStart, nextStop) ← call (.expression false)
    return if nextStart.isPresent then nextStop else stop
  else
    pushBack token
    return stop

/-- An expression, as its first and last token.  If there is none, both are absent, and that is
an error unless the expression is optional. -/
def expression (call : Call) (optional : Bool) : Parse (Token × Token) := do
  let start ← read
  match ← operand call start with
  | some stop => return (start, ← continuation call stop)
  | none =>
    if !optional then
      faultExpected .expression start
    pushBack start
    return (.absent, .absent)

end CppDecl.Grammar
