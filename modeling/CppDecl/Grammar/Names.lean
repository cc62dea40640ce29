import CppDecl.Grammar.Skipping

/-!
# Names

A qualified name is a sequence of components with `::` behind each of them, and a last part.
It is not known whether a name is that of a template, so on the first pass a `<` behind a name
always opens template arguments.

Each template argument is first tried as a type.  If that fails, the argument is passed over, and
only its first and last token are kept.
-/

namespace CppDecl.Grammar

open Parse

/-- Identifiers that are never part of a nested name. -/
def notNames : List String := ["operator", "const", "volatile", "inline", "static", "friend"]

/-- Kinds of tokens that can be the name of an operator. -/
def operatorKinds : List TokenKind :=
  [.leftShift, .rightShift, .singlePlus, .doublePlus, .singleMinus, .doubleMinus, .star, .arrow,
   .forwardSlash, .singleEqual, .doubleEqual, .notEqual, .plusEqual, .minusEqual, .starEqual,
   .slashEqual, .openAngle, .closeAngle, .lessThanOrEqual, .greaterThanOrEqual, .openParen,
   .openSquare]

/-- Reads on behind a component: with another one if `::` follows. -/
def nestedSeparator (call : Call) (soFar : List NestedName) (component : NestedName) :
    Parse (List NestedName) := do
  let sep ← read
  if sep.kind = .doubleColon then
    call (.nestedNames (soFar ++ [component.withSep sep]))
  else
    pushBack sep
    return soFar ++ [component]

/-- The rest of a nested name.  A token that cannot be part of it is left alone. -/
def nestedNames (call : Call) (soFar : List NestedName) : Parse (List NestedName) := do
  let token ← read
  if token.kind ≠ .identifier || notNames.contains token.text then
    pushBack token
    return soFar
  let punc ← read
  if token.text = "decltype" then
    if punc.kind = .openParen then
      let closer ← skipScope call punc
      nestedSeparator call soFar (.decltype token punc (closer.getD .absent) .absent)
    else
      fault true ((ParseError.expected .openParen punc).after token)
      pushBack punc
      nestedSeparator call soFar (.decltype token .absent .absent .absent)
  else if punc.kind = .openAngle && (← get).passNumber ≤ 1 then
    let (args, closer) ← inside .openAngle (call (.templateArguments []))
    let component := NestedName.named token punc closer args .absent
    if closer.isPresent then
      nestedSeparator call soFar component
    else
      return soFar ++ [component]
  else
    pushBack punc
    nestedSeparator call soFar (.named token .absent .absent [] .absent)

/-- The same template argument with a comma behind it. -/
def withComma (comma : Token) : TemplateArgument → TemplateArgument
  | .unknown start stop _ => .unknown start stop comma
  | .typeId specifiers chain _ => .typeId specifiers chain comma

/-- What follows a template argument up to a comma or the closing bracket.  Anything else makes
the argument one that is not a type.  Without comma and bracket, the token given is absent. -/
def templateSeparator (call : Call) (start : Token) (argument : TemplateArgument) :
    Parse (TemplateArgument × Token) := do
  let sep ← read
  if sep.kind = .closeAngle || sep.kind = .comma then
    unmute
    return (argument, sep)
  match ← stepOver call sep with
  | none => return (.unknown start sep .absent, .absent)
  | some last => call (.templateSeparator start (.unknown start last .absent))

/-- The rest of a list of template arguments.  The bracket given is absent if the list was left
to a rule further out. -/
def templateArguments (call : Call) (soFar : List TemplateArgument) :
    Parse (List TemplateArgument × Token) := do
  let start ← peek
  let trial ← beginTrial
  let simple ← specified call .typeId
  let failed ← failedSince trial.rawErrors
  let argument ←
    if failed then do
      abandon trial
      pure (TemplateArgument.unknown start .absent .absent)
    else do
      endTrial trial
      pure (TemplateArgument.typeId simple.specifiers (typeChain simple) .absent)
  let (argument, sep) ← call (.templateSeparator start argument)
  if sep.kind = .comma then
    call (.templateArguments (soFar ++ [withComma sep argument]))
  else
    return (soFar ++ [argument], sep)

/-- The name of an operator, behind the keyword. -/
def operatorName (keyword : Token) : Parse Unqualified := do
  let op ← read
  if !operatorKinds.contains op.kind then
    fault true ((ParseError.expected .operatorToken op).after keyword)
    pushBack op
    return .operator keyword .absent .absent
  if op.kind = .openParen || op.kind = .openSquare then
    let next ← read
    if some next.kind = op.kind.closer? then
      return .operator keyword op next
    let missing := if op.kind = .openParen then Expected.closeParen else .closeSquare
    fault true ((ParseError.expected missing next).after op)
    pushBack next
  return .operator keyword op .absent

/-- The last part of a name that begins with a token of its own kind: that of a destructor or of
an operator. -/
def specialName : Parse Unqualified := do
  let token ← read
  if token.kind = .tilde then
    let name ← read
    if name.kind = .identifier then
      return .destructor token name
    fault true ((ParseError.expected .destructorClassName name).after token)
    pushBack name
    return .empty
  else if token.isWord "operator" then
    operatorName token
  else
    pushBack token
    return .empty

/-- A nested name whose last component has no separator is a name with a last part. -/
def splitLast (components : List NestedName) : QualifiedId :=
  match components.getLast? with
  | some last =>
    if last.sep.isPresent then ⟨components, .empty⟩
    else ⟨components.dropLast, last.toUnqualified⟩
  | none => .empty

/-- Whether a name lacks what is needed. -/
def lacks (need : Completeness) (qid : QualifiedId) : Bool :=
  match need with
  | .allowIncomplete => false
  | .requireComplete => !qid.isComplete
  | .requireCompleteOrEmpty => qid.isNestedOnly

/-- A name, as far as there is one.  It is an error if it lacks what is needed. -/
def qualifiedId (call : Call) (need : Completeness) : Parse QualifiedId := do
  let qid := splitLast (← call (.nestedNames []))
  let qid ←
    if qid.unqual.isEmpty then do
      let unqual ← specialName
      pure { qid with unqual }
    else
      pure qid
  if lacks need qid then
    let token ← read
    faultExpected .qualifiedId token
    pushBack token
  return qid

end CppDecl.Grammar
