import CppDecl.Grammar.Skipping

/-!
# Parameters

Parameters of functions stand in parentheses, those of templates in angle brackets.  Both are
specifiers and a declarator each.  After a parameter that stopped in the middle, the token that
stopped it is read again as the start of another one.

A parameter of a template that is a template itself is read and checked, but not kept.
-/

namespace CppDecl.Grammar

open Parse

/-- The brackets around parameters. -/
def parameterBrackets (forTemplate : Bool) : TokenKind × TokenKind :=
  if forTemplate then (.openAngle, .closeAngle) else (.openParen, .closeParen)

/-- Reads parameters, from the opening bracket on, which is known to come next. -/
def parameterList (call : Call) (forTemplate : Bool) : Parse ParameterList := do
  let (openKind, closeKind) := parameterBrackets forTemplate
  let opener ← read
  unmute
  let token ← read
  if token.kind = closeKind then
    return ⟨opener, token, []⟩
  pushBack token
  inside openKind (call (.parameters forTemplate ⟨opener, .absent, []⟩))

/-- A parameter of a template that is a template itself, behind the keyword. -/
def templateParameter (call : Call) : Parse Unit := do
  let opener ← peek
  if opener.kind ≠ .openAngle then
    faultExpected .openAngle opener
    return
  let activity ← beginActivity
  let _ ← withCloseAngles (parameterList call true)
  if ← failedSince activity.rawErrors then
    return
  let word ← read
  if !word.isWord "class" && !word.isWord "typename" then
    faultExpected .classKeyword word
    pushBack word
    return
  let _ ← specified call .typeId
  unmuteUnlessFailed activity

/-- A parameter, if there is one to keep, and whether any token was consumed. -/
def parameter (call : Call) (forTemplate : Bool) : Parse (Option Parameter × Bool) := do
  let first ← read
  if first.kind = .ellipsis && !forTemplate then
    return (some ⟨[.ellipsis first], .empty, .none, .absent⟩, true)
  if forTemplate && first.isWord "template" then
    templateParameter call
    return (none, true)
  pushBack first
  let activity ← beginActivity
  let simple ← specified call (if forTemplate then .templateParam else .param)
  unmuteUnlessFailed activity
  let consumed ← consumedSince activity
  let kept :=
    match simple.declarators with
    | d :: _ => some ⟨simple.specifiers, d.declarator, d.init, .absent⟩
    | [] => none
  return (kept, consumed)

/-- A list of parameters with one more behind the others. -/
def addParameter (list : ParameterList) (parameter? : Option Parameter) (comma : Token) :
    ParameterList :=
  match parameter? with
  | some p => { list with params := list.params ++ [{ p with comma }] }
  | none => list

/-- The rest of a list of parameters. -/
def parameters (call : Call) (forTemplate : Bool) (soFar : ParameterList) :
    Parse ParameterList := do
  let (kept, consumed) ← parameter call forTemplate
  let token ← read
  if token.kind = (parameterBrackets forTemplate).2 then
    return { addParameter soFar kept .absent with closePunc := token }
  if token.kind = .comma then
    call (.parameters forTemplate (addParameter soFar kept token))
  else
    let soFar := addParameter soFar kept .absent
    faultExpected (if forTemplate then .commaOrCloseAngle else .commaOrCloseParen) token
    if consumed then
      if ← mayStay token then
        pushBack token
        call (.parameters forTemplate soFar)
      else
        return soFar
    else
      match ← stepOver call token with
      | none => return soFar
      | some _ => call (.parameters forTemplate soFar)

/-- Whether a token qualifies the function whose parameters stand before it. -/
def isFunctionQualifier (token : Token) : Bool :=
  match token.kind with
  | .identifier => ["const", "override", "noexcept", "final"].contains token.text
  | .singleAmpersand | .doubleAmpersand => true
  | _ => false

/-- The rest of the qualifiers of a function. -/
def functionQualifiers (call : Call) (soFar : List Token) : Parse (List Token) := do
  let token ← read
  if isFunctionQualifier token then
    call (.functionQualifiers (soFar ++ [token]))
  else
    pushBack token
    return soFar

/-- Parameters and qualifiers of a function, if a parenthesis comes next.  Anything else is an
error. -/
def functionDeclarator (call : Call) : Parse (Option FunctionDeclarator) := do
  let opener ← peek
  if opener.kind ≠ .openParen then
    faultExpected .openParen opener
    return none
  unmute
  let params ← parameterList call false
  let qualifiers ← call (.functionQualifiers [])
  return some ⟨params, qualifiers, .absent, .empty⟩

end CppDecl.Grammar
