import CppDecl.Tree

/-!
# Names

What can be asked of a name: whether it is complete, what class it names, which token it starts
with, and how it is written.  A name is written without its template arguments.
-/

namespace CppDecl

/-- The token that a component of a nested name starts with. -/
def NestedName.firstToken : NestedName → Token
  | .named name _ _ _ _ => name
  | .decltype keyword _ _ _ => keyword

/-- The separator behind a component. -/
def NestedName.sep : NestedName → Token
  | .named _ _ _ _ sep => sep
  | .decltype _ _ _ sep => sep

/-- The same component with another separator behind it. -/
def NestedName.withSep (sep : Token) : NestedName → NestedName
  | .named name openAngle closeAngle args _ => .named name openAngle closeAngle args sep
  | .decltype keyword openParen closeParen _ => .decltype keyword openParen closeParen sep

/-- A component without separator is the last part of a name. -/
def NestedName.toUnqualified : NestedName → Unqualified
  | .named name openAngle closeAngle args _ =>
    if openAngle.isPresent then .templateId name openAngle closeAngle args else .identifier name
  | .decltype keyword openParen closeParen _ => .decltype keyword openParen closeParen

/-- How a component is written. -/
def NestedName.display : NestedName → String
  | .named name openAngle _ _ _ =>
    name.text ++ (if openAngle.isPresent then "<>" else "") ++ "::"
  | .decltype _ _ _ _ => "decltype()::"

namespace Unqualified

/-- Whether there is no last part. -/
def isEmpty : Unqualified → Bool
  | .empty => true
  | _ => false

/-- The class that a name belongs to, if it is the name of a constructor or a destructor. -/
def structorName : Unqualified → String
  | .identifier name | .destructor _ name | .templateId name _ _ _ => name.text
  | _ => ""

/-- The token that the last part of a name starts with. -/
def firstToken : Unqualified → Token
  | .empty => .absent
  | .identifier name => name
  | .templateId name _ _ _ => name
  | .decltype keyword _ _ => keyword
  | .destructor tilde _ => tilde
  | .operator keyword _ _ => keyword
  | .conversion keyword _ _ => keyword

/-- How the last part of a name is written. -/
def display : Unqualified → String
  | .empty => "(empty)"
  | .identifier name => name.text
  | .templateId name openAngle closeAngle _ => name.text ++ openAngle.text ++ closeAngle.text
  | .decltype _ _ _ => "decltype()"
  | .destructor tilde name => tilde.text ++ name.text
  | .operator keyword punc punc2 => keyword.text ++ punc.text ++ punc2.text
  | .conversion _ _ _ => "(conversion)"

end Unqualified

namespace QualifiedId

/-- A name that is one identifier. -/
def ofIdentifier (name : Token) : QualifiedId := ⟨[], .identifier name⟩

/-- Whether there is no name at all. -/
def isEmpty (q : QualifiedId) : Bool := q.nested.isEmpty && q.unqual.isEmpty

/-- Whether there are nested names but no last part. -/
def isNestedOnly (q : QualifiedId) : Bool := !q.nested.isEmpty && q.unqual.isEmpty

/-- Whether there is a last part. -/
def isComplete (q : QualifiedId) : Bool := !q.unqual.isEmpty

/-- The name of the class or namespace that a name stands for. -/
def className (q : QualifiedId) : String :=
  match q.unqual with
  | .identifier name | .templateId name _ _ _ => name.text
  | _ => ""

/-- The token that a name starts with. -/
def firstToken (q : QualifiedId) : Token :=
  match q.nested with
  | component :: _ => component.firstToken
  | [] => q.unqual.firstToken

/-- How a name is written. -/
def display (q : QualifiedId) : String :=
  String.join (q.nested.map NestedName.display) ++ q.unqual.display

/-- Whether a name can be that of a constructor or a destructor: inside of a class, a name equal
to that of the class, and elsewhere one that repeats the component in front of it. -/
def isStructor (enclosingClass : String) (q : QualifiedId) : Bool :=
  let name := q.unqual.structorName
  if name = "" then false
  else if enclosingClass = "" then
    match q.nested.getLast? with
    | some (.named component _ _ _ _) => component.text == name
    | _ => false
  else
    q.nested.isEmpty && name == enclosingClass

end QualifiedId

end CppDecl
