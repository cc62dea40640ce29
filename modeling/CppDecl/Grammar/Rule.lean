import CppDecl.Session

/-!
# The rules of the grammar

The grammar calls itself in many ways: an expression holds expressions, a class holds
declarations, and every list goes on with the rest of the list.  All of these calls go through
one type.  `Rule α` names the rules that are called from elsewhere, with what they are given,
and `α` is what they result in.  A rule that reads a list is given what has been read so far.

The body of a rule is an action that is given a way to call rules.  It does not matter to the
body how calls are carried out.  In particular a body is not recursive, and each group of rules
stands in a module of its own.  `Grammar.run` ties the knot with a bound on the depth of calls.
-/

namespace CppDecl

/-- Where specifiers and declarators stand. -/
inductive Mode where
  /-- In a namespace, or in the class of the given name, which is empty outside of classes. -/
  | globalOrMember (className : String)
  /-- Among the parameters of a function. -/
  | param
  /-- Among the parameters of a template. -/
  | templateParam
  /-- Where a type is wanted. -/
  | typeId
  deriving Repr, DecidableEq

namespace Mode

/-- Whether this is a place for declarations. -/
def isGlobalOrMember : Mode → Bool
  | .globalOrMember _ => true
  | _ => false

/-- Whether this is a place for parameters. -/
def isParam : Mode → Bool
  | .param | .templateParam => true
  | _ => false

/-- What is missing if there is no type.  A declaration may do without, since it may be that of
a destructor. -/
def missing? : Mode → Option Expected
  | .globalOrMember _ => none
  | .param => some .parameterType
  | .templateParam => some .templateParameter
  | .typeId => some .typeSpecifier

end Mode

/-- How much of a name is needed. -/
inductive Completeness where
  /-- Anything will do. -/
  | allowIncomplete
  /-- A last part is needed. -/
  | requireComplete
  /-- Either no name at all, or one with a last part. -/
  | requireCompleteOrEmpty
  deriving Repr, DecidableEq

/-- Which declarators are allowed. -/
structure DeclaratorForm where
  /-- Whether a name may be declared. -/
  named : Bool
  /-- Whether the name may be missing. -/
  anonymous : Bool
  deriving Repr, DecidableEq

/-- What has been read of a declaration while its specifiers are read. -/
structure SpecifierState where
  /-- The declaration so far. -/
  simple : SimpleDeclaration
  /-- Whether there is a type among the specifiers. -/
  hasType : Bool
  /-- Whether the type is so far made of words like `unsigned` only. -/
  modifiersOnly : Bool

/-- The rules that are called from elsewhere. -/
inductive Rule : Type → Type 1 where
  /-- Skips to the closer of a bracket. -/
  | skipTo (opener : Token) (closer : TokenKind) : Rule (Option Token)
  /-- Template arguments and further names behind a name in an expression. -/
  | nameTail : Rule Unit
  /-- String literals behind a string literal, the last one being given. -/
  | literals (last : Token) : Rule Token
  /-- The rest of a list of expressions in a bracket. -/
  | expressions (opener : TokenKind) (last : Token) : Rule Token
  /-- An expression, as its first and last token. -/
  | expression (optional : Bool) : Rule (Token × Token)
  /-- The rest of a nested name. -/
  | nestedNames (soFar : List NestedName) : Rule (List NestedName)
  /-- The rest of a list of template arguments, with the bracket that closes it. -/
  | templateArguments (soFar : List TemplateArgument) : Rule (List TemplateArgument × Token)
  /-- What follows a template argument up to a comma or the closing bracket. -/
  | templateSeparator (start : Token) (argument : TemplateArgument) :
      Rule (TemplateArgument × Token)
  /-- The rest of a list of parameters. -/
  | parameters (forTemplate : Bool) (soFar : ParameterList) : Rule ParameterList
  /-- The rest of the qualifiers behind the parameters of a function. -/
  | functionQualifiers (soFar : List Token) : Rule (List Token)
  /-- The rest of the specifiers of a conversion function's type. -/
  | conversionSpecifiers (soFar : List Specifier) (hasType : Bool) : Rule (List Specifier)
  /-- The rest of the pointers of a conversion function's type. -/
  | conversionPointers (soFar : Chain) (allowQualifier : Bool) : Rule Chain
  /-- A declarator around the productions that are closer to the type. -/
  | declarator (outer : Chain) (form : DeclaratorForm) (allowQualifier : Bool) : Rule Declarator
  /-- The rest of the arrays and functions behind a declared name. -/
  | suffixes (soFar : Declarator) (depth : Nat) (nameMissing : Bool) : Rule Declarator
  /-- The rest of the initializers of a constructor. -/
  | memberInitializers (soFar : List MemberInitializer) : Rule (List MemberInitializer)
  /-- The rest of the declarators of a declaration. -/
  | initDeclarators (soFar : SimpleDeclaration) : Rule SimpleDeclaration
  /-- The rest of the bases of a class. -/
  | bases (soFar : List BaseSpecifier) : Rule (List BaseSpecifier)
  /-- The rest of the words behind the name of a class, and the token behind them. -/
  | virtSpecifiers (soFar : List Token) : Rule (List Token × Token)
  /-- The rest of the enumerators, with the brace that closes them. -/
  | enumerators (soFar : List Enumerator) : Rule (List Enumerator × Token)
  /-- The rest of the specifiers of a declaration, and its declarators. -/
  | specifiers (mode : Mode) (soFar : SpecifierState) : Rule SimpleDeclaration
  /-- A declaration, if one begins here. -/
  | declaration (className : String) : Rule Bool
  /-- The rest of the declarations in a scope, with the brace that closes it. -/
  | declarations (closeExpected : Bool) (className : String) : Rule Token

/-- A way to call rules. -/
abbrev Call := {α : Type} → Rule α → Parse α

namespace Grammar

/-- Reads specifiers and declarators from their start. -/
def specified (call : Call) (mode : Mode) : Parse SimpleDeclaration :=
  call (.specifiers mode ⟨.empty, false, false⟩)

/-- What a declaration that was read as a type says beside its specifiers. -/
def typeChain (simple : SimpleDeclaration) : Chain :=
  match simple.declarators with
  | d :: _ => d.declarator.chain
  | [] => []

end Grammar

end CppDecl
