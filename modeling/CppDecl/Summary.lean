import CppDecl.Scope

/-!
# Summary of a parse

A summary gathers from the events of a parse what is asked for most often.
-/

namespace CppDecl

/-- What is asked for most often. -/
structure Summary where
  /-- The diagnostics. -/
  errors : List Diagnostic
  /-- The requests for other files. -/
  inclusions : List String
  /-- The comments. -/
  comments : List Token
  /-- The uses of macros, with the texts of their arguments. -/
  macros : List (String × List String)
  /-- The names of the enumerators. -/
  enumerators : List String
  /-- The full names of the classes and enumerations that were entered. -/
  classes : List String
  /-- How many declarations were complete. -/
  declarations : Nat
  deriving Repr, DecidableEq

namespace Event

/-- The token of a comment. -/
def comment? : Event → Option Token
  | .aside token _ =>
    if token.kind = .lineComment || token.kind = .blockComment then some token else none
  | _ => none

/-- The name of a macro that is used, with the texts of its arguments. -/
def use? : Event → Option (String × List String)
  | .aside token args =>
    if token.kind = .macroUse then some (token.text, args.map Token.text) else none
  | _ => none

/-- The name of an enumerator. -/
def enumerator? : Event → Option String
  | .enumerated e => some e.identifier.text
  | _ => none

/-- The full name of a class or an enumeration that is entered. -/
def class? : Event → Option String
  | .entered path =>
    match path with
    | .record _ :: _ | .enumeration _ :: _ => some (ScopePath.className path "::" true)
    | _ => none
  | _ => none

/-- Whether a declaration is complete. -/
def isDeclared : Event → Bool
  | .declared _ _ => true
  | _ => false

end Event

/-- The summary of events. -/
def Summary.ofEvents (events : List Event) : Summary where
  errors := events.filterMap Event.diagnostic?
  inclusions := events.filterMap Event.directive?
  comments := events.filterMap Event.comment?
  macros := events.filterMap Event.use?
  enumerators := events.filterMap Event.enumerator?
  classes := events.filterMap Event.class?
  declarations := events.countP Event.isDeclared

end CppDecl
