import CppDecl.Tree

/-!
# The tree as plain data

Other programs take the tree as data made of lists and records.  `Data` is that kind of data,
with tokens as its leaves, and each type of the tree has a view of that kind.  A node is a record
of its parts in a fixed order.  Where a type has several forms, the name of the form is wrapped
around the parts, and a form without parts is just its name.

A chain of declarators is written as nested records, each with the rest of the chain as its
target.
-/

namespace CppDecl

/-- Plain data. -/
inductive Data where
  /-- Nothing. -/
  | null
  /-- A truth value. -/
  | bool (value : Bool)
  /-- A text. -/
  | text (value : String)
  /-- A token. -/
  | token (value : Token)
  /-- A list. -/
  | list (items : List Data)
  /-- A record, with its fields in order. -/
  | record (fields : List (String × Data))
  deriving Inhabited

namespace Data

/-- A form with its parts. -/
def form (name : String) (parts : Data) : Data := .record [(name, parts)]

/-- A list of tokens. -/
def tokens (ts : List Token) : Data := .list (ts.map .token)

end Data

open Data (form)

mutual

/-- The data of an expression. -/
def Expression.data : Expression → Data
  | .empty => .text "Empty"
  | .range start stop => form "Range" (.record [("start", .token start), ("end", .token stop)])
  | .call openParen closeParen arguments =>
    form "Call" (.record
      [("open_paren", .token openParen), ("close_paren", .token closeParen),
       ("arguments", .list (argumentsData arguments))])

/-- The data of arguments with their commas. -/
def argumentsData : List (Expression × Token) → List Data
  | [] => []
  | (expression, comma) :: rest =>
    .record [("expr", expression.data), ("comma", .token comma)] :: argumentsData rest

end

mutual

/-- The data of a component of a nested name. -/
def NestedName.data : NestedName → Data
  | .named name openAngle closeAngle args sep =>
    .record
      [("kind", form "IdentifierOrTemplated" (.record
          [("name", .token name), ("open_angled", .token openAngle),
           ("close_angled", .token closeAngle), ("args", .list (templateArgumentsData args))])),
       ("sep", .token sep)]
  | .decltype keyword openParen closeParen sep =>
    .record
      [("kind", form "DeclType" (.record
          [("keyword", .token keyword), ("open_paren", .token openParen),
           ("close_paren", .token closeParen)])),
       ("sep", .token sep)]

/-- The data of a nested name. -/
def nestedNamesData : List NestedName → List Data
  | [] => []
  | component :: rest => component.data :: nestedNamesData rest

/-- The data of a template argument. -/
def TemplateArgument.data : TemplateArgument → Data
  | .unknown start stop comma =>
    .record
      [("kind", form "Unknown" (.record
          [("start_token", .token start), ("end_token", .token stop)])),
       ("comma", .token comma)]
  | .typeId specifiers chain comma =>
    .record
      [("kind", form "TypeID" (.record
          [("decl_specifier_seq", .list (specifiersData specifiers)),
           ("abstract_dcor", chainData chain)])),
       ("comma", .token comma)]

/-- The data of template arguments. -/
def templateArgumentsData : List TemplateArgument → List Data
  | [] => []
  | argument :: rest => argument.data :: templateArgumentsData rest

/-- The data of the last part of a name. -/
def Unqualified.data : Unqualified → Data
  | .empty => .text "Empty"
  | .identifier name => form "Identifier" (.record [("name", .token name)])
  | .templateId name openAngle closeAngle args =>
    form "TemplateID" (.record
      [("name", .token name), ("open_angled", .token openAngle),
       ("close_angled", .token closeAngle), ("args", .list (templateArgumentsData args))])
  | .decltype keyword openParen closeParen =>
    form "DeclType" (.record
      [("keyword", .token keyword), ("open_paren", .token openParen),
       ("close_paren", .token closeParen)])
  | .destructor tilde name =>
    form "Destructor" (.record [("tilde", .token tilde), ("name", .token name)])
  | .operator keyword punc punc2 =>
    form "OperatorFunc" (.record
      [("keyword", .token keyword), ("punc", .token punc), ("punc2", .token punc2)])
  | .conversion keyword specifiers chain =>
    form "ConversionFunc" (.record
      [("keyword", .token keyword), ("decl_specifier_seq", .list (specifiersData specifiers)),
       ("abstract_dcor", chainData chain)])

/-- The data of a name. -/
def QualifiedId.data : QualifiedId → Data
  | ⟨nested, unqual⟩ =>
    .record [("nested_name", .list (nestedNamesData nested)), ("unqual", unqual.data)]

/-- The data of a specifier. -/
def Specifier.data : Specifier → Data
  | .keyword token => form "Keyword" (.token token)
  | .linkage externToken literal =>
    form "LangLinkage" (.record [("extern_token", .token externToken), ("literal", .token literal)])
  | .record record => form "Record" record.data
  | .enumeration enumeration => form "Enum" enumeration.data
  | .typeName typename qid wasAssumed =>
    form "TypeID" (.record
      [("typename", .token typename), ("qid", qid.data), ("was_assumed", .bool wasAssumed)])
  | .typeParam keyword ellipsis identifier =>
    form "TypeParam" (.record
      [("keyword", .token keyword), ("ellipsis", .token ellipsis),
       ("identifier", .token identifier)])
  | .ellipsis token => form "Ellipsis" (.token token)

/-- The data of specifiers. -/
def specifiersData : List Specifier → List Data
  | [] => []
  | specifier :: rest => specifier.data :: specifiersData rest

/-- The data of a class. -/
def Record.data : Record → Data
  | ⟨classKey, qid, virtSpecifiers, colon, bases, openCurly, closeCurly, members⟩ =>
    .record
      [("class_key", .token classKey), ("qid", qid.data),
       ("virt_specifiers", .tokens virtSpecifiers), ("colon", .token colon),
       ("base_specifier_list", .list (basesData bases)), ("open_curly", .token openCurly),
       ("close_curly", .token closeCurly), ("visor_decls", .list (declarationsData members))]

/-- The data of a base. -/
def BaseSpecifier.data : BaseSpecifier → Data
  | ⟨access, qid, comma⟩ =>
    .record [("access_spec", .token access), ("base_qid", qid.data), ("comma", .token comma)]

/-- The data of bases. -/
def basesData : List BaseSpecifier → List Data
  | [] => []
  | base :: rest => base.data :: basesData rest

/-- The data of an enumeration. -/
def Enumeration.data : Enumeration → Data
  | ⟨enumKey, classKey, qid, basePunc, base, openCurly, closeCurly, enumerators⟩ =>
    .record
      [("enum_key", .token enumKey), ("class_key", .token classKey), ("qid", qid.data),
       ("base_punc", .token basePunc), ("base", base.data), ("open_curly", .token openCurly),
       ("close_curly", .token closeCurly), ("enumerators", .list (enumeratorsData enumerators))]

/-- The data of an enumerator. -/
def Enumerator.data : Enumerator → Data
  | ⟨identifier, init, comma⟩ =>
    .record [("identifier", .token identifier), ("init", init.data), ("comma", .token comma)]

/-- The data of enumerators. -/
def enumeratorsData : List Enumerator → List Data
  | [] => []
  | enumerator :: rest => enumerator.data :: enumeratorsData rest

/-- The data of a production by itself. -/
def Production.data : Production → Data
  | .parenthesized openParen closeParen =>
    form "Parenthesized" (.record
      [("open_paren", .token openParen), ("close_paren", .token closeParen)])
  | .pointerTo nested punc =>
    form "PointerTo" (.record
      [("nested_name", .list (nestedNamesData nested)), ("punc", .token punc)])
  | .arrayOf openSquare closeSquare size =>
    form "ArrayOf" (.record
      [("open_square", .token openSquare), ("close_square", .token closeSquare),
       ("size", size.data)])
  | .function function => form "Function" function.data
  | .qualifier keyword => form "Qualifier" (.record [("keyword", .token keyword)])

/-- The data of a chain. -/
def chainData : List Production → Data
  | [] => .null
  | production :: rest => .record [("kind", production.data), ("target", chainData rest)]

/-- The data of a function's declarator. -/
def FunctionDeclarator.data : FunctionDeclarator → Data
  | ⟨params, qualifiers, arrow, trailing⟩ =>
    .record
      [("params", params.data), ("qualifiers", .record [("tokens", .tokens qualifiers)]),
       ("arrow", .token arrow), ("trailing_ret_type", trailing.data)]

/-- The data of a list of parameters. -/
def ParameterList.data : ParameterList → Data
  | ⟨openPunc, closePunc, params⟩ =>
    .record
      [("open_punc", .token openPunc), ("close_punc", .token closePunc),
       ("params", .list (parametersData params))]

/-- The data of a parameter. -/
def Parameter.data : Parameter → Data
  | ⟨specifiers, declarator, init, comma⟩ =>
    .record
      [("decl_specifier_seq", .list (specifiersData specifiers)), ("dcor", declarator.data),
       ("init", init.data), ("comma", .token comma)]

/-- The data of parameters. -/
def parametersData : List Parameter → List Data
  | [] => []
  | parameter :: rest => parameter.data :: parametersData rest

/-- The data of a declarator. -/
def Declarator.data : Declarator → Data
  | ⟨chain, qid⟩ => .record [("prod", chainData chain), ("qid", qid.data)]

/-- The data of an initializer of a constructor. -/
def MemberInitializer.data : MemberInitializer → Data
  | ⟨qid, openPunc, closePunc, comma⟩ =>
    .record
      [("qid", qid.data), ("open_punc", .token openPunc), ("close_punc", .token closePunc),
       ("comma", .token comma)]

/-- The data of initializers of a constructor. -/
def memberInitializersData : List MemberInitializer → List Data
  | [] => []
  | init :: rest => init.data :: memberInitializersData rest

/-- The data of an initializer. -/
def Initializer.data : Initializer → Data
  | .none => .text "None"
  | .expression start stop equalSign =>
    form "Assignment" (.record
      [("kind", form "Expression" (.record [("start", .token start), ("end", .token stop)])),
       ("equal_sign", .token equalSign)])
  | .typeId specifiers chain equalSign =>
    form "Assignment" (.record
      [("kind", form "TypeID" (.record
          [("decl_specifier_seq", .list (specifiersData specifiers)),
           ("abstract_dcor", chainData chain)])),
       ("equal_sign", .token equalSign)])
  | .functionBody colon inits openCurly closeCurly =>
    form "FunctionBody" (.record
      [("colon", .token colon), ("member_inits", .list (memberInitializersData inits)),
       ("open_curly", .token openCurly), ("close_curly", .token closeCurly)])
  | .bitField colon start stop =>
    form "BitField" (.record
      [("colon", .token colon), ("expression_start", .token start),
       ("expression_end", .token stop)])

/-- The data of a declarator with its initializer. -/
def InitDeclarator.data : InitDeclarator → Data
  | ⟨declarator, init, comma⟩ =>
    .record [("dcor", declarator.data), ("init", init.data), ("comma", .token comma)]

/-- The data of declarators with their initializers. -/
def initDeclaratorsData : List InitDeclarator → List Data
  | [] => []
  | declarator :: rest => declarator.data :: initDeclaratorsData rest

/-- The data of specifiers and declarators. -/
def SimpleDeclaration.data : SimpleDeclaration → Data
  | ⟨specifiers, declarators, semicolon⟩ =>
    .record
      [("decl_specifier_seq", .list (specifiersData specifiers)),
       ("init_declarators", .list (initDeclaratorsData declarators)),
       ("semicolon", .token semicolon)]

/-- The data of a declaration. -/
def Declaration.data : Declaration → Data
  | .namespaceBlock keyword qid openCurly closeCurly members =>
    form "Namespace" (.record
      [("keyword", .token keyword), ("qid", qid.data), ("open_curly", .token openCurly),
       ("close_curly", .token closeCurly), ("visor_decls", .list (declarationsData members))])
  | .templated keyword params declared =>
    form "Template" (.record
      [("keyword", .token keyword), ("params", params.data),
       ("visor_decl", declaredData declared)])
  | .simple simple => form "Simple" simple.data
  | .accessLabel keyword colon =>
    form "AccessSpecifier" (.record [("keyword", .token keyword), ("colon", .token colon)])
  | .staticAssert keyword openParen closeParen arguments semicolon =>
    form "StaticAssert" (.record
      [("keyword", .token keyword),
       ("arg_list", .record
         [("open_paren", .token openParen), ("close_paren", .token closeParen),
          ("arguments", .list (argumentsData arguments))]),
       ("semicolon", .token semicolon)])
  | .usingNamespace usingToken namespaceToken qid semicolon =>
    form "UsingDirective" (.record
      [("using", .token usingToken), ("namespace", .token namespaceToken), ("qid", qid.data),
       ("semicolon", .token semicolon)])
  | .typeAlias usingToken name equals specifiers declarator semicolon =>
    form "Alias" (.record
      [("using", .token usingToken), ("name", .token name), ("equals", .token equals),
       ("decl_specifier_seq", .list (specifiersData specifiers)), ("dcor", declarator.data),
       ("semicolon", .token semicolon)])
  | .linkageBlock externToken literal openCurly closeCurly members =>
    form "Linkage" (.record
      [("extern_token", .token externToken), ("literal", .token literal),
       ("open_curly", .token openCurly), ("close_curly", .token closeCurly),
       ("visor_decls", .list (declarationsData members))])
  | .empty semicolon => form "Empty" (.record [("semicolon", .token semicolon)])

/-- The data of a declaration that may be missing. -/
def declaredData : Option Declaration → Data
  | none => .null
  | some declaration => declaration.data

/-- The data of declarations. -/
def declarationsData : List Declaration → List Data
  | [] => []
  | declaration :: rest => declaration.data :: declarationsData rest

end

/-- The data of a whole source. -/
def TranslationUnit.data (unit : TranslationUnit) : Data :=
  .record [("visor_decls", .list (declarationsData unit.members))]

end CppDecl
