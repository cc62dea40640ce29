import CppDecl.Grammar.Expressions
import CppDecl.Grammar.Names

/-!
# Initializers

What can follow a declarator: a value, the width of a bit field, or the body of a function with
the initializers of a constructor in front of it.
-/

namespace CppDecl.Grammar

open Parse

/-- The rest of the initializers of a constructor. -/
def memberInitializers (call : Call) (soFar : List MemberInitializer) :
    Parse (List MemberInitializer) := do
  let qid ← qualifiedId call .allowIncomplete
  if !qid.isComplete then
    let token ← read
    faultExpected .baseOrMember token
    if !qid.isEmpty then
      pushBack token
      call (.memberInitializers soFar)
    else
      match ← stepOver call token with
      | none => return soFar
      | some _ => call (.memberInitializers soFar)
  else
    let opener ← read
    if opener.kind ≠ .openParen && opener.kind ≠ .openCurly then
      faultExpected .openCurlyOrParen opener
      pushBack opener
      call (.memberInitializers soFar)
    else
      let closer ← skipScope call opener
      let item (comma : Token) : MemberInitializer := ⟨qid, opener, closer.getD .absent, comma⟩
      let next ← read
      match next.kind with
      | .openCurly =>
        unmute
        pushBack next
        return soFar ++ [item .absent]
      | .comma =>
        unmute
        call (.memberInitializers (soFar ++ [item next]))
      | _ =>
        fault true (.noticed .missingFunctionBody next)
        pushBack next
        return soFar ++ [item .absent]

/-- What follows the declarator of a function: its body, or `= 0` and the like.  The declaration
has so many declarators by now. -/
def functionBody (call : Call) (declared : Nat) : Parse Initializer := do
  let first ← read
  if first.kind = .singleEqual then
    let (start, stop) ← call (.expression false)
    return .expression start stop first
  let (colon, inits, token) ←
    if first.kind = .singleColon then do
      let inits ← leavingOpenCurly (call (.memberInitializers []))
      pure (first, inits, ← read)
    else
      pure (.absent, [], first)
  if token.kind = .openCurly then
    enterScope .functionBody
    let closer ← skipScope call token
    leaveScope .functionBody declared
    return .functionBody colon inits token (closer.getD .absent)
  pushBack token
  if colon.isPresent then
    return .functionBody colon inits .absent .absent
  else
    return .none

/-- The default of a type parameter of a template. -/
def typeInitializer (call : Call) : Parse Initializer := do
  let equalSign ← read
  if equalSign.kind ≠ .singleEqual then
    pushBack equalSign
    return .none
  let token ← peek
  if token.kind = .numericLiteral then
    let _ ← read
    return .expression token token equalSign
  let activity ← beginActivity
  let simple ← specified call .typeId
  if ← failedSince activity.rawErrors then
    return .expression .absent .absent equalSign
  else
    return .typeId simple.specifiers (typeChain simple) equalSign

/-- What follows the declarator of a variable. -/
def variableInitializer (call : Call) (allowBraces : Bool) : Parse Initializer := do
  let token ← read
  if token.kind = .openCurly && allowBraces then
    pushBack token
    let (start, stop) ← call (.expression false)
    return .expression start stop .absent
  else if token.kind = .singleEqual then
    let (start, stop) ← call (.expression false)
    return .expression start stop token
  else if token.kind = .singleColon then
    let (start, stop) ← call (.expression false)
    return .bitField token start stop
  else
    pushBack token
    return .none

end CppDecl.Grammar
