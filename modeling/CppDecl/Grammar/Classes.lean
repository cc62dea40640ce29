import CppDecl.Grammar.Initializers

/-!
# Classes and enumerations

A class is a name, bases and a body of declarations, an enumeration a name, an underlying type
and a body of enumerators.  Each of the parts may be missing.  The body is a scope of its own.
-/

namespace CppDecl.Grammar

open Parse

/-- Declarations up to the closing brace or the end of the file. -/
def declarationList (call : Call) (closeExpected : Bool) (className : String) : Parse Token :=
  inside .openCurly (call (.declarations closeExpected className))

/-- Words that say who may see something. -/
def accessWords : List String := ["public", "private", "protected"]

/-- Whether a token says who may see something. -/
def isAccessWord (token : Token) : Bool :=
  token.kind == .identifier && accessWords.contains token.text

/-- The rest of the bases of a class. -/
def bases (call : Call) (soFar : List BaseSpecifier) : Parse (List BaseSpecifier) := do
  let token ← read
  let access ←
    if isAccessWord token then do
      unmute
      pure token
    else do
      pushBack token
      pure .absent
  let qid ← qualifiedId call .requireComplete
  if qid.unqual.isEmpty then
    return soFar
  unmute
  let punc ← read
  match punc.kind with
  | .openCurly =>
    pushBack punc
    return soFar ++ [⟨access, qid, .absent⟩]
  | .comma => call (.bases (soFar ++ [⟨access, qid, punc⟩]))
  | _ =>
    faultExpected .commaOrOpenCurly punc
    pushBack punc
    return soFar ++ [⟨access, qid, .absent⟩]

/-- The rest of the words behind the name of a class, and the token behind them.  Only one is
allowed. -/
def virtSpecifiers (call : Call) (soFar : List Token) : Parse (List Token × Token) := do
  let token ← read
  if token.isWord "final" then
    if soFar.isEmpty then
      call (.virtSpecifiers [token])
    else
      fault true (.noticed .duplicateVirtSpecifier token)
      call (.virtSpecifiers soFar)
  else
    return (soFar, token)

/-- A class, behind its keyword. -/
def record (call : Call) (classKey : Token) : Parse Record := do
  let qid ← qualifiedId call .requireCompleteOrEmpty
  let (words, first) ← call (.virtSpecifiers [])
  let (colon, baseList, token) ←
    if first.kind = .singleColon then do
      let baseList ← call (.bases [])
      pure (first, baseList, ← read)
    else
      pure (.absent, [], first)
  if token.kind = .openCurly then
    enterScope (.record qid.className)
    let closer ← declarationList call true qid.className
    let inner ← members
    leaveScope (.record qid.className) inner.length
    return ⟨classKey, qid, words, colon, baseList, token, closer, inner⟩
  else
    pushBack token
    return ⟨classKey, qid, words, colon, baseList, .absent, .absent, []⟩

/-- The rest of the enumerators, with the brace that closes them. -/
def enumerators (call : Call) (soFar : List Enumerator) : Parse (List Enumerator × Token) := do
  let token ← read
  match token.kind with
  | .closeCurly =>
    unmute
    return (soFar, token)
  | .identifier =>
    unmute
    let init ← variableInitializer call false
    let next ← read
    match next.kind with
    | .comma =>
      unmute
      tell (.enumerated ⟨token, init, next⟩)
      call (.enumerators (soFar ++ [⟨token, init, next⟩]))
    | .closeCurly =>
      unmute
      tell (.enumerated ⟨token, init, .absent⟩)
      return (soFar ++ [⟨token, init, .absent⟩], next)
    | _ =>
      -- anything but a name is an error on the next round
      if next.kind = .identifier then
        fault true ((ParseError.noticed .missingCommaAfterEnumerator next).after token)
      pushBack next
      tell (.enumerated ⟨token, init, .absent⟩)
      call (.enumerators (soFar ++ [⟨token, init, .absent⟩]))
  | _ =>
    faultExpected .enumeratorOrCloseCurly token
    match ← stepOver call token with
    | none => return (soFar, .absent)
    | some _ => call (.enumerators soFar)

/-- An enumeration, behind its keyword. -/
def enumeration (call : Call) (enumKey : Token) : Parse Enumeration := do
  let word ← read
  let classKey ←
    if word.isWord "class" || word.isWord "struct" then
      pure word
    else do
      pushBack word
      pure .absent
  let qid ← qualifiedId call .requireCompleteOrEmpty
  let sep ← read
  let (basePunc, base) ←
    if sep.kind = .singleColon then do
      if qid.isEmpty then
        fault false (.noticed .scopedEnumNeedsName sep)
      pure (sep, ← qualifiedId call .requireComplete)
    else do
      pushBack sep
      pure (.absent, .empty)
  let opener ← read
  if opener.kind = .openCurly then
    enterScope (.enumeration qid.className)
    unmute
    let (items, closer) ← inside .openCurly (call (.enumerators []))
    leaveScope (.enumeration qid.className) items.length
    return ⟨enumKey, classKey, qid, basePunc, base, opener, closer, items⟩
  else
    pushBack opener
    return ⟨enumKey, classKey, qid, basePunc, base, .absent, .absent, []⟩

end CppDecl.Grammar
