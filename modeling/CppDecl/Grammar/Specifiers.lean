import CppDecl.Grammar.Classes
import CppDecl.Grammar.Declarators

/-!
# Specifiers and declarators

A declaration starts with specifiers: keywords, and one type.  Once there is a type, the next
name is the one that is declared.  There is no implicit `int`, so without a type the first name
is the type, unless it can be that of a constructor.  Whether it is one shows only in what
follows, so the parameters of a constructor are tried first.
-/

namespace CppDecl.Grammar

open Parse

/-- Keywords that are specifiers by themselves. -/
def keywordSpecifiers : List String :=
  ["inline", "const", "volatile", "static", "friend", "virtual", "constexpr", "thread_local",
   "mutable", "explicit"]

/-- Words for sign and length.  They make a type and can be combined. -/
def typeModifiers : List String := ["signed", "unsigned", "short", "long"]

/-- Types that can follow words for sign and length. -/
def modifiedTypes : List String := ["int", "char", "double"]

/-- A type that is one name. -/
def plainType (name : Token) : Specifier := .typeName .absent (.ofIdentifier name) false

/-- A declaration with one more specifier. -/
def addSpecifier (s : SimpleDeclaration) (spec : Specifier) : SimpleDeclaration :=
  { s with specifiers := s.specifiers ++ [spec] }

/-- A declaration with one more declarator. -/
def addDeclarator (s : SimpleDeclaration) (d : Declarator) (init : Initializer) (comma : Token) :
    SimpleDeclaration :=
  { s with declarators := s.declarators ++ [⟨d, init, comma⟩] }

/-- Reads what follows the declarator of a function, and adds both to a declaration. -/
def addFunction (call : Call) (simple : SimpleDeclaration) (d : Declarator) :
    Parse SimpleDeclaration := do
  let init ← functionBody call (simple.declarators.length + 1)
  return addDeclarator simple d init .absent

/-! ## Declarators of a declaration -/

/-- Reads on behind a declarator and its initializer: with another one if a comma follows. -/
def declaratorSeparator (call : Call) (simple : SimpleDeclaration) (d : Declarator)
    (init : Initializer) : Parse SimpleDeclaration := do
  let sep ← read
  if sep.kind = .comma then
    call (.initDeclarators (addDeclarator simple d init sep))
  else
    pushBack sep
    return addDeclarator simple d init .absent

/-- The rest of the declarators of a declaration.  Behind the body of a function there are no
more. -/
def initDeclarators (call : Call) (simple : SimpleDeclaration) : Parse SimpleDeclaration := do
  let d ← call (.declarator [] ⟨true, false⟩ false)
  if d.qid.isEmpty then
    return simple
  if d.isFunction then
    let init ← functionBody call (simple.declarators.length + 1)
    if init.isFunctionBody then
      if !simple.declarators.isEmpty then
        let opener := (Chain.functionAt? d.chain 0).map fun f => f.params.openPunc
        fault false (.noticed .mixedFunctionAndDeclaration (opener.getD .absent))
      return addDeclarator simple d init .absent
    else
      declaratorSeparator call simple d init
  else
    let init ← variableInitializer call true
    declaratorSeparator call simple d init

/-- The declarators behind the specifiers.  A parameter or a type has exactly one. -/
def declarators (call : Call) (mode : Mode) (simple : SimpleDeclaration) :
    Parse SimpleDeclaration := do
  if mode.isGlobalOrMember then
    call (.initDeclarators simple)
  else
    let d ← call (.declarator [] ⟨mode.isParam, true⟩ false)
    let init ← if mode.isParam then variableInitializer call false else pure .none
    return addDeclarator simple d init .absent

/-! ## Conversion functions -/

/-- The rest of the specifiers of a conversion function's type. -/
def conversionSpecifiers (call : Call) (soFar : List Specifier) (hasType : Bool) :
    Parse (List Specifier) := do
  let token ← read
  if token.kind ≠ .identifier then
    pushBack token
    return soFar
  else if token.text = "const" || token.text = "volatile" then
    call (.conversionSpecifiers (soFar ++ [.keyword token]) hasType)
  else if typeModifiers.contains token.text then
    call (.conversionSpecifiers (soFar ++ [.keyword token]) true)
  else if hasType && modifiedTypes.contains token.text then
    call (.conversionSpecifiers (soFar ++ [plainType token]) hasType)
  else
    pushBack token
    let qid ← qualifiedId call .requireComplete
    if qid.isEmpty then
      return soFar
    else if hasType then
      fault false (.noticed .tooManyTypeSpecifiers qid.firstToken)
      call (.conversionSpecifiers soFar hasType)
    else
      call (.conversionSpecifiers (soFar ++ [.typeName .absent qid false]) true)

/-- The rest of the pointers of a conversion function's type. -/
def conversionPointers (call : Call) (soFar : Chain) (allowQualifier : Bool) : Parse Chain := do
  let token ← read
  if isPointerKind token.kind then
    call (.conversionPointers (.pointerTo [] token :: soFar) (token.kind == .star))
  else if token.kind = .ellipsis then
    call (.conversionPointers soFar allowQualifier)
  else if token.isWord "const" || token.isWord "volatile" then
    if !allowQualifier then
      fault false (.noticed .qualifierNotAllowed token)
    call (.conversionPointers (.qualifier token :: soFar) allowQualifier)
  else
    pushBack token
    return soFar

/-- A conversion function, behind its keyword. -/
def conversionFunction (call : Call) (simple : SimpleDeclaration) (keyword : Token) :
    Parse SimpleDeclaration := do
  let types ← call (.conversionSpecifiers [] false)
  let chain ← call (.conversionPointers [] false)
  let qid : QualifiedId := ⟨[], .conversion keyword types chain⟩
  let opener ← peek
  if opener.kind ≠ .openParen then
    faultExpected .openParen opener
    return addDeclarator simple ⟨[], qid⟩ .none .absent
  let params ← parameterList call false
  let qualifiers ← call (.functionQualifiers [])
  addFunction call simple ⟨[.function ⟨params, qualifiers, .absent, .empty⟩], qid⟩

/-! ## Types by name -/

/-- A type parameter of a template, behind its name. -/
def typeParameter (call : Call) (simple : SimpleDeclaration) (keyword ellipsis : Token)
    (name : QualifiedId) : Parse SimpleDeclaration := do
  let finish (identifier : Token) : Parse SimpleDeclaration := do
    let init ← typeInitializer call
    let simple := addSpecifier simple (.typeParam keyword ellipsis identifier)
    return addDeclarator simple ⟨[], name⟩ init .absent
  match name.unqual with
  | .identifier name => finish name
  | .empty => finish .absent
  | other =>
    faultExpected .identifier other.firstToken
    return simple

/-- Adds a type by its name to the specifiers, unless the name is that of a constructor.  Then
the whole declaration is read.  The flag says whether it was. -/
def typeOrConstructor (call : Call) (mode : Mode) (simple : SimpleDeclaration)
    (typename : Token) (qid : QualifiedId) : Parse (Bool × SimpleDeclaration) := do
  let asType : Parse (Bool × SimpleDeclaration) := do
    if typename.isPresent && qid.nested.isEmpty then
      faultExpected .nestedName qid.firstToken
    return (false, addSpecifier simple (.typeName typename qid false))
  match mode with
  | .globalOrMember className =>
    if !typename.isPresent && qid.isStructor className then
      let trial ← beginTrial
      let f? ← functionDeclarator call
      if ← failedSince trial.rawErrors then
        abandon trial
        asType
      else
        endTrial trial
        let chain := match f? with | some f => [Production.function f] | none => []
        return (true, ← addFunction call simple ⟨chain, qid⟩)
    else
      asType
  | _ => asType

/-- A type that starts with the given token.  The flag says whether the whole declaration was
read. -/
def typeSpecifier (call : Call) (mode : Mode) (simple : SimpleDeclaration) (token : Token) :
    Parse (Bool × SimpleDeclaration) := do
  if token.text = "typename" || (mode = .templateParam && token.text = "class") then
    let next ← read
    let ellipsis ←
      if next.kind = .ellipsis then
        pure next
      else do
        pushBack next
        pure .absent
    let name ← qualifiedId call .requireCompleteOrEmpty
    if mode = .templateParam && simple.specifiers.isEmpty && name.nested.isEmpty then
      return (true, ← typeParameter call simple token ellipsis name)
    if ellipsis.isPresent then
      faultExpected .qualifiedId ellipsis
    typeOrConstructor call mode simple token name
  else
    pushBack token
    let qid ← qualifiedId call .requireComplete
    typeOrConstructor call mode simple .absent qid

/-! ## Specifiers -/

/-- The rest of the specifiers of a declaration, and its declarators. -/
def specifiers (call : Call) (mode : Mode) (soFar : SpecifierState) :
    Parse SimpleDeclaration := do
  let simple := soFar.simple
  let goOn (spec : Specifier) : Parse SimpleDeclaration :=
    call (.specifiers mode { soFar with simple := addSpecifier simple spec })
  let token ← read
  let word := token.text
  if token.kind ≠ .identifier then
    if !soFar.hasType then
      match mode.missing? with
      | some what => faultExpected what token
      | none => pure ()
    pushBack token
    declarators call mode simple
  else if word = "extern" then
    unmute
    let literal ← read
    if literal.kind = .stringLiteral then
      goOn (.linkage token literal)
    else
      pushBack literal
      goOn (.keyword token)
  else if keywordSpecifiers.contains word then
    unmute
    goOn (.keyword token)
  else if typeModifiers.contains word then
    unmute
    let simple := addSpecifier simple (.keyword token)
    if soFar.hasType then
      call (.specifiers mode { soFar with simple })
    else
      call (.specifiers mode ⟨simple, true, true⟩)
  else if word = "alignas" && mode.isGlobalOrMember then
    unmute
    let opener ← read
    if opener.kind ≠ .openParen then
      fault true ((ParseError.expected .openParen opener).after token)
      pushBack opener
      call (.specifiers mode soFar)
    else
      -- the alignment is read but not kept
      let _ ← inside .openParen (call (.expression false))
      match ← closeScope call opener with
      | none => return simple
      | some _ => call (.specifiers mode soFar)
  else if word = "typedef" && mode.isGlobalOrMember then
    unmute
    goOn (.keyword token)
  else if ["struct", "class", "union"].contains word && mode ≠ .templateParam then
    unmute
    if soFar.hasType then
      fault true (.noticed .tooManyTypeSpecifiers token)
    let r ← record call token
    call (.specifiers mode
      { soFar with simple := addSpecifier simple (.record r), hasType := true })
  else if word = "enum" && mode ≠ .templateParam then
    unmute
    if soFar.hasType then
      fault true (.noticed .tooManyTypeSpecifiers token)
    let e ← enumeration call token
    call (.specifiers mode
      { soFar with simple := addSpecifier simple (.enumeration e), hasType := true })
  else if word = "operator" && mode.isGlobalOrMember && !soFar.hasType then
    unmute
    conversionFunction call simple token
  else
    unmute
    if soFar.modifiersOnly && modifiedTypes.contains word then
      let simple := addSpecifier simple (plainType token)
      call (.specifiers mode { soFar with simple, modifiersOnly := false })
    else if soFar.hasType then
      pushBack token
      declarators call mode simple
    else
      let (complete, simple) ← typeSpecifier call mode simple token
      if complete then return simple
      else call (.specifiers mode { soFar with simple, hasType := true })

end CppDecl.Grammar
