import CppDecl.Tree

/-!
# Chains of declarators

A chain is built from both ends.  Pointers, references and qualifiers stand left of the name and
are put at the front of the chain, each in front of the one before.  Arrays and functions stand
right of the name and are put behind the productions that are closer to the name than they are.
-/

namespace CppDecl

/-- What a declared name is, from the name outwards. -/
abbrev Chain := List Production

namespace Chain

/-- The chain with a production put in at a depth, or at the end if it is not that long. -/
def insertAt (chain : Chain) (depth : Nat) (production : Production) : Chain :=
  chain.take depth ++ production :: chain.drop depth

/-- The function at a depth. -/
def functionAt? (chain : Chain) (depth : Nat) : Option FunctionDeclarator :=
  match chain[depth]? with
  | some (.function f) => some f
  | _ => none

end Chain

/-- Whether a production is a function. -/
def Production.isFunction : Production → Bool
  | .function _ => true
  | _ => false

/-- How a production is told in words.  Parentheses are not told. -/
def Production.describe? : Production → Option String
  | .parenthesized _ _ => none
  | .pointerTo nested punc =>
    match punc.kind with
    | .singleAmpersand => some "reference to"
    | .doubleAmpersand => some "rvalue reference to"
    | _ => some (if nested.isEmpty then "pointer to" else "pointer to member of")
  | .arrayOf _ _ _ => some "array of"
  | .function _ => some "function returning"
  | .qualifier keyword => some keyword.text

/-- What a declared name is, in words. -/
def Chain.describe (chain : Chain) : String :=
  String.intercalate " " (chain.filterMap Production.describe?)

/-- Whether the declared name is a function. -/
def Declarator.isFunction (d : Declarator) : Bool :=
  match d.chain with
  | p :: _ => p.isFunction
  | [] => false

/-- Whether an initializer is the body of a function. -/
def Initializer.isFunctionBody : Initializer → Bool
  | .functionBody _ _ _ _ => true
  | _ => false

/-- Whether a declaration declares a class or an enumeration. -/
def SimpleDeclaration.declaresType (s : SimpleDeclaration) : Bool :=
  s.specifiers.any fun
    | .record _ | .enumeration _ => true
    | _ => false

end CppDecl
