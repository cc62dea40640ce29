import CppDecl.Diagnostic
import CppDecl.Tree.Name

/-!
# Scopes and events

While a program is parsed, the scopes that are open form a stack.  Declarations are collected in
the innermost one.  A template holds one declaration only, and neither an enumeration nor the
body of a function holds any.

Everything that a watcher of the parse could want to know is an *event*.  Events are kept in the
order in which they happen.  Parsing that is given up and started over is watched too, so scopes
and enumerators can show up more than once.
-/

namespace CppDecl

/-- A scope, with its name where it has one. -/
inductive Scope where
  /-- A whole source. -/
  | unit
  /-- A namespace. -/
  | namespaceScope (name : String)
  /-- A class. -/
  | record (name : String)
  /-- An enumeration. -/
  | enumeration (name : String)
  /-- A block with a language linkage. -/
  | linkage
  /-- A template. -/
  | template
  /-- The body of a function. -/
  | functionBody
  deriving Repr, DecidableEq

namespace Scope

/-- The name of a scope, empty if it has none. -/
def name : Scope → String
  | .namespaceScope name | .record name | .enumeration name => name
  | _ => ""

/-- The part that a scope has in the name of a class. -/
def classPart? (withNamespaces : Bool) : Scope → Option String
  | .namespaceScope name => if withNamespaces then some name else none
  | .record name | .enumeration name => some name
  | _ => none

/-- The name of a namespace. -/
def namespaceName? : Scope → Option String
  | .namespaceScope name => some name
  | _ => none

end Scope

/-- The open scopes, innermost first. -/
abbrev ScopePath := List Scope

namespace ScopePath

/-- The open scopes but the outermost, outermost first. -/
def inside (path : ScopePath) : List Scope := path.reverse.drop 1

/-- The names of the classes around this place, and of the namespaces if they are wanted. -/
def className (path : ScopePath) (separator : String) (withNamespaces : Bool) : String :=
  String.intercalate separator (path.inside.filterMap (Scope.classPart? withNamespaces))

/-- The namespaces that lie around all else, each followed by two colons. -/
def namespaceLead (path : ScopePath) : String :=
  String.join ((path.inside.takeWhile fun s => s.namespaceName?.isSome).map fun s => s.name ++ "::")

end ScopePath

/-- An open scope with the declarations found in it so far. -/
structure OpenScope where
  /-- The scope. -/
  scope : Scope
  /-- The declarations, in order. -/
  members : List Declaration

/-- Collects a declaration. -/
def OpenScope.collect (s : OpenScope) (d : Declaration) : OpenScope :=
  match s.scope with
  | .template => { s with members := [d] }
  | .enumeration _ | .functionBody => s
  | _ => { s with members := s.members ++ [d] }

/-- Something that happens during a parse. -/
inductive Event where
  /-- A scope was opened.  It is the innermost of the path. -/
  | entered (path : ScopePath)
  /-- A scope is about to be closed, with so many parts in it.  It is the innermost of the path. -/
  | left (path : ScopePath) (count : Nat)
  /-- A declaration is complete. -/
  | declared (declaration : Declaration) (path : ScopePath)
  /-- An enumerator is complete. -/
  | enumerated (enumerator : Enumerator)
  /-- A comment, a directive, or the use of a macro with its arguments. -/
  | aside (token : Token) (args : List Token)
  /-- Another file is asked for by a directive with this text. -/
  | included (directive : String)
  /-- A diagnostic is reported. -/
  | diagnosed (diagnostic : Diagnostic)

namespace Event

/-- The diagnostic that is reported, if the event is a report. -/
def diagnostic? : Event → Option Diagnostic
  | .diagnosed d => some d
  | _ => none

/-- The directive, if the event asks for another file. -/
def directive? : Event → Option String
  | .included directive => some directive
  | _ => none

end Event

end CppDecl
