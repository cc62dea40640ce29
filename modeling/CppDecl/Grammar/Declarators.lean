import CppDecl.Grammar.Names
import CppDecl.Grammar.Parameters

/-!
# Declarators

A declarator is read in two parts.  The first goes from left to right up to the declared name or
a parenthesis, and puts pointers, references and qualifiers at the front of the chain.  The
second reads arrays and functions behind the name and puts them into the chain behind everything
that is closer to the name.  With parentheses around an inner declarator, that is everything the
inner declarator has added.

Where no name is needed, a parenthesis may open the parameters of a function or an inner
declarator.  Parameters are tried first.
-/

namespace CppDecl.Grammar

open Parse

/-- Tokens that make a pointer or a reference. -/
def isPointerKind (kind : TokenKind) : Bool :=
  kind == .star || kind == .singleAmpersand || kind == .doubleAmpersand

/-- Reads the type behind an arrow, if there is an arrow. -/
def trailingReturn (call : Call) (f : FunctionDeclarator) : Parse FunctionDeclarator := do
  let arrow ← read
  if arrow.kind ≠ .arrow then
    pushBack arrow
    return f
  let start ← peek
  let trailing ← qualifiedId call .allowIncomplete
  if trailing.isEmpty then
    fault true ((ParseError.expected .trailingReturnType start).after arrow)
  return { f with arrow, trailing }

/-- Notes that a declared name is missing in front of an array or a function. -/
def checkName (nameMissing : Bool) (token : Token) : Parse Unit := do
  unmute
  if nameMissing then
    faultExpected .qualifiedId token

/-- The rest of the arrays and functions behind a declared name, which are put into the chain at
the given depth. -/
def suffixes (call : Call) (d : Declarator) (depth : Nat) (nameMissing : Bool) :
    Parse Declarator := do
  let token ← read
  match token.kind with
  | .openSquare =>
    checkName nameMissing token
    let (start, stop) ← call (.expression true)
    let closer ← closeScope call token
    let array := Production.arrayOf token (closer.getD .absent) (.between start stop)
    let d := { d with chain := Chain.insertAt d.chain depth array }
    if closer.isSome then call (.suffixes d (depth + 1) false) else return d
  | .openParen =>
    checkName nameMissing token
    pushBack token
    match ← functionDeclarator call with
    | some f =>
      let f ← trailingReturn call f
      let d := { d with chain := Chain.insertAt d.chain depth (.function f) }
      call (.suffixes d (depth + 1) false)
    | none => call (.suffixes d depth false)
  | _ =>
    pushBack token
    return d

/-- An inner declarator, behind its opening parenthesis. -/
def innerDeclarator (call : Call) (outer : Chain) (form : DeclaratorForm) (opener : Token) :
    Parse Declarator := do
  let inner ← call (.declarator outer form false)
  let closer ← closeScope call opener
  let d := { inner with chain := .parenthesized opener (closer.getD .absent) :: inner.chain }
  if closer.isSome then
    call (.suffixes d (1 + (inner.chain.length - outer.length)) false)
  else
    return d

/-- A declarator from a parenthesis on that may open the parameters of a function. -/
def functionOrInner (call : Call) (outer : Chain) (form : DeclaratorForm) (opener : Token) :
    Parse Declarator := do
  pushBack opener
  let trial ← beginTrial
  let f? ← functionDeclarator call
  if ← failedSince trial.rawErrors then
    abandon trial
    let opener ← read
    innerDeclarator call outer form opener
  else
    endTrial trial
    match f? with
    | some f =>
      let f ← trailingReturn call f
      call (.suffixes ⟨.function f :: outer, .empty⟩ 1 false)
    | none => call (.suffixes ⟨outer, .empty⟩ 0 false)

/-- A declarator around the productions `chain`.  Qualifiers are allowed behind a pointer only. -/
def declarator (call : Call) (chain : Chain) (form : DeclaratorForm) (allowQualifier : Bool) :
    Parse Declarator := do
  let qid ← qualifiedId call .allowIncomplete
  if qid.isComplete then
    if !form.named then
      fault false (.noticed .typeIdHasName qid.firstToken)
    call (.suffixes ⟨chain, qid⟩ 0 false)
  else
    let token ← read
    let stray := (ParseError.noticed .nestedNameNotAllowed token).after qid.firstToken
    if token.kind = .openParen then
      if !qid.nested.isEmpty then
        fault false stray
      unmute
      if form.anonymous then functionOrInner call chain form token
      else innerDeclarator call chain form token
    else
      if !qid.nested.isEmpty && token.kind ≠ .star then
        fault false stray
      if isPointerKind token.kind then
        unmute
        call (.declarator (.pointerTo qid.nested token :: chain) form (token.kind == .star))
      else if token.kind = .ellipsis then
        unmute
        call (.declarator chain form allowQualifier)
      else if token.kind = .identifier then
        if !allowQualifier then
          fault false (.noticed .qualifierNotAllowed token)
        unmute
        call (.declarator (.qualifier token :: chain) form allowQualifier)
      else
        -- a declaration may declare nothing, but not a pointer to nothing
        if !form.anonymous && !chain.isEmpty then
          faultExpected .qualifiedId token
        pushBack token
        call (.suffixes ⟨chain, .empty⟩ 0 (!form.anonymous && chain.isEmpty))

end CppDecl.Grammar
