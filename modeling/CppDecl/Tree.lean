import CppDecl.Token

/-!
# The tree of declarations

The tree follows the program closely.  Each node keeps the tokens it was made of, brackets and
separators included, so that a place in the program can be told for all of its parts.  A token
that the program lacks is the absent token.  Expressions are not analysed: a node remembers the
first and the last token of an expression and nothing in between.

An item of a list keeps the comma behind it.

A declarator is read inside out.  Its *chain* lists what the declared name is, from the name
outwards: for `int (*x)[3]` it says parenthesized, pointer, array.

The types depend on each other all around.  A declaration has specifiers, a specifier may be a
class with declarations in it, names have template arguments, and those are types with
specifiers again.
-/

namespace CppDecl

/-- An expression, as far as it is looked at. -/
inductive Expression where
  /-- No expression. -/
  | empty
  /-- The first and the last token. -/
  | range (start stop : Token)
  /-- Arguments in parentheses, each with its comma. -/
  | call (openParen closeParen : Token) (arguments : List (Expression × Token))
  deriving Inhabited

mutual

/-- One component of a nested name, such as `Foo::` or `Bar<int>::`. -/
inductive NestedName where
  /-- A name, with template arguments if the angle brackets are there. -/
  | named (name openAngle closeAngle : Token) (args : List TemplateArgument) (sep : Token)
  /-- The type of an expression. -/
  | decltype (keyword openParen closeParen sep : Token)

/-- An argument of a template. -/
inductive TemplateArgument where
  /-- Tokens that could not be read as a type. -/
  | unknown (start stop comma : Token)
  /-- A type. -/
  | typeId (specifiers : List Specifier) (chain : List Production) (comma : Token)

/-- The last part of a name. -/
inductive Unqualified where
  /-- Nothing. -/
  | empty
  /-- A plain name. -/
  | identifier (name : Token)
  /-- A name with template arguments. -/
  | templateId (name openAngle closeAngle : Token) (args : List TemplateArgument)
  /-- The type of an expression. -/
  | decltype (keyword openParen closeParen : Token)
  /-- The name of a destructor. -/
  | destructor (tilde name : Token)
  /-- The name of an operator.  The call and the index operator have two tokens. -/
  | operator (keyword punc punc2 : Token)
  /-- The name of a conversion function, which is a type. -/
  | conversion (keyword : Token) (specifiers : List Specifier) (chain : List Production)

/-- A name with the nested names in front of it. -/
structure QualifiedId where
  /-- The components in front. -/
  nested : List NestedName
  /-- The last part. -/
  unqual : Unqualified

/-- What can stand in front of the declarators. -/
inductive Specifier where
  /-- A keyword. -/
  | keyword (token : Token)
  /-- A language linkage in front of a single declaration. -/
  | linkage (externToken literal : Token)
  /-- A class. -/
  | record (record : Record)
  /-- An enumeration. -/
  | enumeration (enumeration : Enumeration)
  /-- A type by its name. -/
  | typeName (typename : Token) (qid : QualifiedId) (wasAssumed : Bool)
  /-- A type parameter of a template. -/
  | typeParam (keyword ellipsis identifier : Token)
  /-- The three dots that stand for any further arguments. -/
  | ellipsis (token : Token)

/-- A class, struct or union. -/
structure Record where
  /-- The keyword. -/
  classKey : Token
  /-- The name. -/
  qid : QualifiedId
  /-- The words after the name. -/
  virtSpecifiers : List Token
  /-- The colon in front of the bases. -/
  colon : Token
  /-- The bases. -/
  bases : List BaseSpecifier
  /-- The brace that opens the body. -/
  openCurly : Token
  /-- The brace that closes the body. -/
  closeCurly : Token
  /-- The declarations in the body. -/
  members : List Declaration

/-- A base of a class. -/
structure BaseSpecifier where
  /-- The word that says who may see it. -/
  access : Token
  /-- The name of the base. -/
  qid : QualifiedId
  /-- The comma behind. -/
  comma : Token

/-- An enumeration. -/
structure Enumeration where
  /-- The keyword. -/
  enumKey : Token
  /-- The second keyword of a scoped enumeration. -/
  classKey : Token
  /-- The name. -/
  qid : QualifiedId
  /-- The colon in front of the underlying type. -/
  basePunc : Token
  /-- The underlying type. -/
  base : QualifiedId
  /-- The brace that opens the body. -/
  openCurly : Token
  /-- The brace that closes the body. -/
  closeCurly : Token
  /-- The enumerators. -/
  enumerators : List Enumerator

/-- An enumerator. -/
structure Enumerator where
  /-- The name. -/
  identifier : Token
  /-- The value. -/
  init : Initializer
  /-- The comma behind. -/
  comma : Token

/-- One step of a declarator. -/
inductive Production where
  /-- Parentheses around an inner declarator. -/
  | parenthesized (openParen closeParen : Token)
  /-- A pointer or reference; to a member, if there are nested names. -/
  | pointerTo (nested : List NestedName) (punc : Token)
  /-- An array. -/
  | arrayOf (openSquare closeSquare : Token) (size : Expression)
  /-- A function. -/
  | function (function : FunctionDeclarator)
  /-- A qualifier of what stands further out. -/
  | qualifier (keyword : Token)

/-- Parameters of a function and what follows them. -/
structure FunctionDeclarator where
  /-- The parameters. -/
  params : ParameterList
  /-- The qualifiers behind the parameters. -/
  qualifiers : List Token
  /-- The arrow in front of a trailing return type. -/
  arrow : Token
  /-- The trailing return type. -/
  trailing : QualifiedId

/-- A list of parameters between brackets. -/
structure ParameterList where
  /-- The opening bracket. -/
  openPunc : Token
  /-- The closing bracket. -/
  closePunc : Token
  /-- The parameters. -/
  params : List Parameter

/-- A parameter of a function or of a template. -/
structure Parameter where
  /-- The specifiers. -/
  specifiers : List Specifier
  /-- The declarator, which need not have a name. -/
  declarator : Declarator
  /-- The default. -/
  init : Initializer
  /-- The comma behind. -/
  comma : Token

/-- A declared name with what it is. -/
structure Declarator where
  /-- What the name is, from the name outwards. -/
  chain : List Production
  /-- The name. -/
  qid : QualifiedId

/-- An entry of the list of initializers in front of a constructor's body. -/
structure MemberInitializer where
  /-- The member or base. -/
  qid : QualifiedId
  /-- The opening bracket. -/
  openPunc : Token
  /-- The closing bracket. -/
  closePunc : Token
  /-- The comma behind. -/
  comma : Token

/-- What can follow a declarator. -/
inductive Initializer where
  /-- Nothing. -/
  | none
  /-- An expression, from its first to its last token. -/
  | expression (start stop equalSign : Token)
  /-- A type. -/
  | typeId (specifiers : List Specifier) (chain : List Production) (equalSign : Token)
  /-- The body of a function. -/
  | functionBody (colon : Token) (inits : List MemberInitializer) (openCurly closeCurly : Token)
  /-- The width of a bit field, from its first to its last token. -/
  | bitField (colon start stop : Token)

/-- A declarator with its initializer. -/
structure InitDeclarator where
  /-- The declarator. -/
  declarator : Declarator
  /-- The initializer. -/
  init : Initializer
  /-- The comma behind. -/
  comma : Token

/-- Specifiers with the declarators they belong to. -/
structure SimpleDeclaration where
  /-- The specifiers. -/
  specifiers : List Specifier
  /-- The declarators. -/
  declarators : List InitDeclarator
  /-- The semicolon at the end. -/
  semicolon : Token

/-- A declaration. -/
inductive Declaration where
  /-- Declarations in a namespace. -/
  | namespaceBlock (keyword : Token) (qid : QualifiedId) (openCurly closeCurly : Token)
      (members : List Declaration)
  /-- A declaration with template parameters. -/
  | templated (keyword : Token) (params : ParameterList) (declared : Option Declaration)
  /-- Specifiers and declarators. -/
  | simple (simple : SimpleDeclaration)
  /-- A label that says who may see what follows. -/
  | accessLabel (keyword colon : Token)
  /-- A static assertion. -/
  | staticAssert (keyword openParen closeParen : Token) (arguments : List (Expression × Token))
      (semicolon : Token)
  /-- A request to look names up in a namespace. -/
  | usingNamespace (usingToken namespaceToken : Token) (qid : QualifiedId) (semicolon : Token)
  /-- Another name for a type. -/
  | typeAlias (usingToken name equals : Token) (specifiers : List Specifier)
      (declarator : Declarator) (semicolon : Token)
  /-- Declarations with a language linkage. -/
  | linkageBlock (externToken literal openCurly closeCurly : Token) (members : List Declaration)
  /-- A semicolon by itself. -/
  | empty (semicolon : Token)

end

/-- The declarations of a whole source. -/
structure TranslationUnit where
  /-- The declarations. -/
  members : List Declaration

/-! ## Parts that are not there -/

/-- No name. -/
def QualifiedId.empty : QualifiedId := ⟨[], .empty⟩

instance : Inhabited QualifiedId := ⟨.empty⟩

/-- No declarator. -/
def Declarator.empty : Declarator := ⟨[], .empty⟩

/-- No parameters and no brackets. -/
def ParameterList.empty : ParameterList := ⟨.absent, .absent, []⟩

/-- A declaration of which nothing has been read. -/
def SimpleDeclaration.empty : SimpleDeclaration := ⟨[], [], .absent⟩

/-- An expression between two tokens, or none if the first of them is absent. -/
def Expression.between (start stop : Token) : Expression :=
  if start.isPresent then .range start stop else .empty

end CppDecl
