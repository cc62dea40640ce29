import CppDecl.Grammar.Declarations

/-!
# Running the grammar

`Grammar.body` gives each rule its body, and `Grammar.run` carries calls out, down to a given
depth.  A loop is a rule that calls itself at its end, so the depth bounds the number of rounds
as well.

`Grammar.unit` parses a whole source.  `Grammar.single` parses specifiers and declarators only
and ignores what follows them.
-/

namespace CppDecl.Grammar

open Parse

/-- What a rule does, given a way to call rules. -/
def body (call : Call) {α : Type} : Rule α → Parse α
  | .skipTo opener closer => skipTo call opener closer
  | .nameTail => nameTail call
  | .literals last => literals call last
  | .expressions opener last => expressions call opener last
  | .expression optional => expression call optional
  | .nestedNames soFar => nestedNames call soFar
  | .templateArguments soFar => templateArguments call soFar
  | .templateSeparator start argument => templateSeparator call start argument
  | .parameters forTemplate soFar => parameters call forTemplate soFar
  | .functionQualifiers soFar => functionQualifiers call soFar
  | .conversionSpecifiers soFar hasType => conversionSpecifiers call soFar hasType
  | .conversionPointers soFar allowQualifier => conversionPointers call soFar allowQualifier
  | .declarator outer form allowQualifier => declarator call outer form allowQualifier
  | .suffixes soFar depth nameMissing => suffixes call soFar depth nameMissing
  | .memberInitializers soFar => memberInitializers call soFar
  | .initDeclarators soFar => initDeclarators call soFar
  | .bases soFar => bases call soFar
  | .virtSpecifiers soFar => virtSpecifiers call soFar
  | .enumerators soFar => enumerators call soFar
  | .specifiers mode soFar => specifiers call mode soFar
  | .declaration className => declaration call className
  | .declarations closeExpected className => declarations call closeExpected className

/-- Carries out a rule with calls at most `depth` deep. -/
def run : (depth : Nat) → {α : Type} → Rule α → Parse α
  | 0, _, _ => throw .exhausted
  | depth + 1, _, rule => body (fun r => run depth r) rule

/-- Parses a whole source. -/
def unit (call : Call) : Parse TranslationUnit := do
  enterScope .unit
  let _ ← declarationList call false ""
  let _ ← read
  let inner ← members
  leaveScope .unit inner.length
  return ⟨inner⟩

/-- Parses specifiers and declarators. -/
def single (call : Call) : Parse SimpleDeclaration := do
  enterScope .unit
  let simple ← specified call (.globalOrMember "")
  leaveScope .unit 0
  return simple

end CppDecl.Grammar
