import CppDecl.Visited

/-!
# Diagnostics

A diagnostic is a cause together with the place it concerns.  Causes are values, and all wording
is in this module: `Diagnostic.display` gives the short form that names a bare linear location,
and `Diagnostic.render` gives the long form, with file positions, one note for each macro
expansion around the place, and a note that points at the other end of a pair.
-/

namespace CppDecl

/-! ## Faults of the text -/

/-- What can be wrong with text before it is a sequence of tokens. -/
inductive LexCause where
  | invalidDirective
  | endInArguments
  | endInComment
  | endInLiteral
  | endInRawDelimiter
  | badCharInRawDelimiter
  | badLiteralLead
  | directiveNotAtLineStart
  | garbage
  deriving Repr, DecidableEq

namespace LexCause

/-- The message for a cause. -/
def message : LexCause → String
  | .invalidDirective => "invalid preprocessing directive"
  | .endInArguments => "unexpected end-of-file in preprocessor macro parameter list"
  | .endInComment => "unexpected end-of-file in C-style comment"
  | .endInLiteral => "unexpected end-of-file in string literal"
  | .endInRawDelimiter => "unexpected end-of-file in raw string delimiter"
  | .badCharInRawDelimiter => "invalid character in raw string delimiter"
  | .badLiteralLead => "invalid string literal prefix"
  | .directiveNotAtLineStart => "preprocessing directives must begin at start of line"
  | .garbage => "garbage characters encountered"

/-- What the note about the other place says, for causes that concern a pair of places. -/
def note? : LexCause → Option String
  | .endInArguments => some "parameter list started here"
  | .endInComment => some "comment started here"
  | .endInLiteral => some "string literal started here"
  | .endInRawDelimiter | .badCharInRawDelimiter => some "delimiter started here"
  | _ => none

end LexCause

/-- A fault of the text at a place. -/
structure LexError where
  /-- What is wrong. -/
  cause : LexCause
  /-- Where it was noticed. -/
  loc : LinearLoc
  /-- Where the unfinished thing began, negative if there is no such place. -/
  other : LinearLoc
  deriving Repr, DecidableEq

/-! ## Faults of the grammar -/

/-- What the grammar was looking for. -/
inductive Expected where
  | nothing
  | identifier
  | nestedName
  | openParen
  | openCurly
  | openAngle
  | openCurlyOrParen
  | closeParen
  | closeSquare
  | destructorClassName
  | operatorToken
  | colon
  | equal
  | qualifiedId
  | unqualifiedId
  | semicolon
  | comma
  | commaOrCloseParen
  | commaOrCloseCurly
  | commaOrOpenCurly
  | declaration
  | enumeratorOrCloseCurly
  | commaOrCloseAngle
  | trailingReturnType
  | baseOrMember
  | parameterType
  | templateParameter
  | typeSpecifier
  | classKeyword
  | expression
  deriving Repr, DecidableEq

/-- What messages call the thing looked for. -/
def Expected.description : Expected → String
  | .nothing => "(none)"
  | .identifier => "identifier"
  | .nestedName => "nested name prefix"
  | .openParen => "'('"
  | .openCurly => "'\x7b'"
  | .openAngle => "'<'"
  | .openCurlyOrParen => "'\x7b' or '('"
  | .closeParen => "')'"
  | .closeSquare => "']'"
  | .destructorClassName => "destructor name"
  | .operatorToken => "operator token"
  | .colon => "':'"
  | .equal => "'='"
  | .qualifiedId => "qualified-id"
  | .unqualifiedId => "unqualified-id"
  | .semicolon => "';'"
  | .comma => "','"
  | .commaOrCloseParen => "',' or ')'"
  | .commaOrCloseCurly => "',' or '\x7d'"
  | .commaOrOpenCurly => "',' or '\x7b'"
  | .declaration => "declaration"
  | .enumeratorOrCloseCurly => "enumerator or '\x7d'"
  | .commaOrCloseAngle => "',' or '>'"
  | .trailingReturnType => "trailing return type"
  | .baseOrMember => "class member or base class name"
  | .parameterType => "parameter type"
  | .templateParameter => "template parameter"
  | .typeSpecifier => "type specifier"
  | .classKeyword => "class keyword"
  | .expression => "expression"

/-- What can be wrong with a sequence of tokens. -/
inductive ParseCause where
  | expected (what : Expected)
  | unexpectedEnd
  | unclosed
  | missingCommaAfterEnumerator
  | unmatchedCloser
  | qualifierNotAllowed
  | typeIdHasName
  | nestedNameNotAllowed
  | tooManyTypeSpecifiers
  | missingFunctionBody
  | mixedFunctionAndDeclaration
  | scopedEnumNeedsName
  | missingDeclaration
  | duplicateVirtSpecifier
  deriving Repr, DecidableEq

/-- A fault of the grammar at a token. -/
structure ParseError where
  /-- What is wrong. -/
  cause : ParseCause
  /-- The token at which it was noticed. -/
  token : Token
  /-- The token before, where one is told; for an unclosed bracket, the bracket. -/
  preceding : Token
  deriving Repr, DecidableEq

namespace ParseError

/-- A fault noticed at a token. -/
def noticed (cause : ParseCause) (token : Token) : ParseError := ⟨cause, token, .absent⟩

/-- Something else was looked for where `token` stands. -/
def expected (what : Expected) (token : Token) : ParseError := ⟨.expected what, token, .absent⟩

/-- The bracket `opener` is still open where `token` stands. -/
def unclosed (token opener : Token) : ParseError := ⟨.unclosed, token, opener⟩

/-- The same fault, told with the token before. -/
def after (e : ParseError) (preceding : Token) : ParseError := { e with preceding }

/-- The message for a fault. -/
def message (e : ParseError) : String :=
  let shown := e.token.display
  match e.cause with
  | .unexpectedEnd => "unexpected end-of-file"
  | .expected what => "expected " ++ what.description ++ " before '" ++ shown ++ "'"
  | .unclosed =>
    "expected '" ++ (e.preceding.kind.closer?.getD .invalid).spelling ++ "'"
  | .missingCommaAfterEnumerator => "missing ',' between enumerators"
  | .unmatchedCloser => "unmatched '" ++ shown ++ "'"
  | .qualifierNotAllowed => "'" ++ shown ++ "' qualifier not allowed here"
  | .typeIdHasName => "type-id cannot have a name"
  | .nestedNameNotAllowed => "'" ++ shown ++ "' cannot have a nested name prefix"
  | .tooManyTypeSpecifiers => "too many type specifiers"
  | .missingFunctionBody => "expected function body after member initializer list"
  | .mixedFunctionAndDeclaration => "can't mix function definitions with other declarations"
  | .scopedEnumNeedsName => "scoped enum requires a name"
  | .missingDeclaration => "declaration does not declare anything"
  | .duplicateVirtSpecifier => "'" ++ shown ++ "' used more than once"

end ParseError

/-! ## All diagnostics -/

/-- Anything that is reported. -/
inductive Diagnostic where
  /-- A fault of the text. -/
  | lexical (error : LexError)
  /-- A fault of the grammar. -/
  | grammatical (error : ParseError)
  /-- A file that cannot be used, with the reason. -/
  | file (path message : String)
  deriving Repr, DecidableEq

namespace Diagnostic

/-- The place a diagnostic concerns. -/
def loc : Diagnostic → LinearLoc
  | .lexical e => e.loc
  | .grammatical e => e.token.loc
  | .file _ _ => -1

/-- The message without a place. -/
def message : Diagnostic → String
  | .lexical e => e.cause.message
  | .grammatical e => e.message
  | .file _ message => message

/-- The short form: a bare location, or the path of the file, and the message. -/
def display (d : Diagnostic) : String :=
  let place :=
    match d with
    | .file path _ => path
    | d => Int.repr d.loc
  place ++ ": error: " ++ d.message

/-- One line for each macro expansion around a place. -/
def expansionNotes (visited : Visited) (loc : LinearLoc) : Except Halt String :=
  if loc < 0 then
    .ok ""
  else do
    let place ← visited.displayLocation loc
    let names ← visited.trace loc
    return String.join (names.map fun name =>
      place ++ ": note: in expansion of macro '" ++ name ++ "'\n")

/-- The line that points at the other end of a pair, for diagnostics that concern one. -/
def pairNote (visited : Visited) : Diagnostic → Except Halt String
  | .lexical e =>
    match e.cause.note? with
    | none => .ok ""
    | some note => do
      let place ← visited.displayLocation e.other
      return place ++ ": note: " ++ note ++ "\n"
  | .grammatical e =>
    if e.cause = .unclosed then do
      let place ← visited.displayLocation e.preceding.loc
      return place ++ ": note: to match this '" ++ e.preceding.display ++ "'\n"
    else
      .ok ""
  | .file _ _ => .ok ""

/-- The long form, with file positions and notes. -/
def render (visited : Visited) (d : Diagnostic) : Except Halt String := do
  match d with
  | .file _ _ => return d.display ++ "\n"
  | d =>
    let place ← visited.displayLocation d.loc
    let notes ← expansionNotes visited d.loc
    let pair ← pairNote visited d
    return place ++ ": error: " ++ d.message ++ "\n" ++ notes ++ pair

end Diagnostic

end CppDecl
