import CppDecl.Grammar.Specifiers

/-!
# Declarations

What kind of declaration it is shows in its first word.  Anything that is not introduced by a
word of its own is made of specifiers and declarators.

A complete declaration is collected in the innermost scope.  A list of declarations ends at its
closing brace, or at the end of the file at the outermost level.  There, a closing brace too many
is reported and passed over.
-/

namespace CppDecl.Grammar

open Parse

/-- The semicolon at the end of a declaration.  If it is missing, that is an error. -/
def requiredSemicolon : Parse Token := do
  let token ← read
  if token.kind = .semicolon then
    unmute
    return token
  faultExpected .semicolon token
  pushBack token
  return .absent

/-- A declaration made of specifiers and declarators.  Behind the body of a function there is no
semicolon. -/
def simpleDeclaration (call : Call) (className : String) : Parse Unit := do
  let start ← peek
  let activity ← beginActivity
  let simple ← specified call (.globalOrMember className)
  if !(← failedSince activity.rawErrors) then
    unmute
    if simple.declarators.isEmpty && !simple.declaresType then
      fault false (.noticed .missingDeclaration start)
  let hasBody :=
    match simple.declarators.getLast? with
    | some d => d.init.isFunctionBody
    | none => false
  if hasBody then
    declare (.simple simple)
  else
    let semicolon ← requiredSemicolon
    declare (.simple { simple with semicolon })

/-- A declaration that starts with `extern`, which may be a block with a language linkage. -/
def externDeclaration (call : Call) (first : Token) (className : String) : Parse Unit := do
  pushBack first
  let trial ← beginTrial
  let giveUp : Parse Unit := do
    abandon trial
    simpleDeclaration call className
  let externToken ← read
  let literal ← read
  if literal.kind = .stringLiteral then
    let opener ← read
    if opener.kind = .openCurly then
      endTrial trial
      enterScope .linkage
      let closer ← declarationList call true ""
      let inner ← members
      leaveScope .linkage inner.length
      declare (.linkageBlock externToken literal opener closer inner)
    else
      giveUp
  else
    giveUp

/-- A namespace, behind its keyword. -/
def namespaceDeclaration (call : Call) (keyword : Token) : Parse Unit := do
  let first ← read
  let (qid, token) ←
    if first.kind = .identifier then do
      pushBack first
      let qid ← qualifiedId call .requireComplete
      pure (qid, ← read)
    else
      pure (.empty, first)
  if token.kind = .openCurly then
    enterScope (.namespaceScope qid.className)
    let closer ← declarationList call true ""
    let inner ← members
    leaveScope (.namespaceScope qid.className) inner.length
    declare (.namespaceBlock keyword qid token closer inner)
  else
    faultExpected .openCurly token
    pushBack token
    declare (.namespaceBlock keyword qid .absent .absent [])

/-- A template, behind its keyword. -/
def templateDeclaration (call : Call) (keyword : Token) (className : String) : Parse Unit := do
  let opener ← peek
  let params ←
    if opener.kind = .openAngle then withCloseAngles (parameterList call true)
    else pure .empty
  enterScope .template
  let _ ← call (.declaration className)
  let declared := (← members).head?
  leaveScope .template declared.toList.length
  declare (.templated keyword params declared)

/-- A declaration that starts with `using`: of a namespace to look into, or of another name for
a type. -/
def usingDeclaration (call : Call) (usingToken : Token) : Parse Unit := do
  let second ← read
  if second.isWord "namespace" then
    let qid ← qualifiedId call .requireComplete
    let semicolon ← requiredSemicolon
    declare (.usingNamespace usingToken second qid semicolon)
  else
    let equals ← read
    if equals.kind ≠ .singleEqual then
      fault true ((ParseError.expected .equal equals).after second)
      pushBack equals
    else
      let simple ← specified call .typeId
      let d :=
        match simple.declarators with
        | d :: _ => d.declarator
        | [] => .empty
      let semicolon ← requiredSemicolon
      declare (.typeAlias usingToken second equals simple.specifiers d semicolon)

/-- A label that says who may see what follows. -/
def accessLabel (keyword : Token) : Parse Unit := do
  let colon ← read
  if colon.kind = .singleColon then
    declare (.accessLabel keyword colon)
  else
    fault true ((ParseError.expected .colon colon).after keyword)
    pushBack colon

/-- A static assertion, behind its keyword.  Its arguments are skipped. -/
def staticAssert (call : Call) (keyword : Token) : Parse Unit := do
  let opener ← read
  if opener.kind ≠ .openParen then
    fault true ((ParseError.expected .openParen opener).after keyword)
    pushBack opener
  else
    match ← skipScope call opener with
    | none => return
    | some closer =>
      let semicolon ← requiredSemicolon
      declare (.staticAssert keyword opener closer [] semicolon)

/-- A declaration, if one begins here. -/
def declaration (call : Call) (className : String) : Parse Bool := do
  let token ← read
  match token.kind with
  | .identifier =>
    if token.text = "extern" then
      unmute
      externDeclaration call token className
    else if accessWords.contains token.text then
      unmute
      accessLabel token
    else if token.text = "static_assert" then
      unmute
      staticAssert call token
    else if token.text = "namespace" then
      unmute
      namespaceDeclaration call token
    else if token.text = "template" then
      unmute
      templateDeclaration call token className
    else if token.text = "using" then
      unmute
      usingDeclaration call token
    else
      pushBack token
      simpleDeclaration call className
    return true
  | .semicolon =>
    declare (.empty token)
    return true
  | .tilde =>
    pushBack token
    simpleDeclaration call className
    return true
  | _ =>
    pushBack token
    return false

/-- The rest of the declarations in a scope, with the brace that closes it. -/
def declarations (call : Call) (closeExpected : Bool) (className : String) : Parse Token := do
  let token ← read
  if token.kind = (if closeExpected then TokenKind.closeCurly else .endOfFile) then
    if closeExpected then
      return token
    pushBack token
    return .absent
  pushBack token
  if ← call (.declaration className) then
    call (.declarations closeExpected className)
  else
    let token ← read
    faultExpected .declaration token
    if token.kind = .closeCurly then
      call (.declarations closeExpected className)
    else
      match ← stepOver call token with
      | none => return .absent
      | some _ => call (.declarations closeExpected className)

end CppDecl.Grammar
