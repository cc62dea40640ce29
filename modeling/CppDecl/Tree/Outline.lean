import CppDecl.Text.Quoted
import CppDecl.Tree.Name
import CppDecl.Visited

/-!
# The outline of a tree

An outline shows the tree to a person: one line for each part, indented by its depth.  A token
shows its place, if it can be told, and its text between quotes.  A name is shown as it is
written, without the template arguments in it.
-/

namespace CppDecl

/-- A part of an outline. -/
inductive Outline where
  /-- A token. -/
  | token (value : Token)
  /-- Some text that stays on its line. -/
  | line (text : String)
  /-- A list, whose items are numbered. -/
  | list (items : List Outline)
  /-- A node with a title and named parts. -/
  | node (title : String) (fields : List (String × Outline))
  deriving Inhabited

namespace Outline

/-- A part that is missing. -/
def null : Outline := .line "(null)"

/-- A name. -/
def name (qid : QualifiedId) : Outline := .line ("\"" ++ qid.display ++ "\"")

/-- A list of tokens. -/
def tokens (ts : List Token) : Outline := .list (ts.map .token)

/-- The spaces in front of a line. -/
def indent (level : Nat) : String := String.ofList (List.replicate (2 * level) ' ')

/-- A token on its line.  Without files, no place is shown. -/
def tokenLine (visited? : Option Visited) (t : Token) : Except Halt String := do
  let place? ←
    match visited? with
    | some visited => visited.expand? t.loc
    | none => pure none
  let place :=
    match place? with
    | some p => p.display ++ ": "
    | none => ""
  return place ++ Text.quoted t.text ++ "\n"

mutual

/-- The lines of a part, from behind the name of the part on. -/
def render (visited? : Option Visited) (level : Nat) : Outline → Except Halt String
  | .token value => tokenLine visited? value
  | .line text => .ok (text ++ "\n")
  | .list items => do
    let lines ← renderItems visited? (level + 1) 0 items
    return "[]\n" ++ lines
  | .node title fields => do
    let lines ← renderFields visited? (level + 1) fields
    return title ++ "\n" ++ lines

/-- The lines of the items of a list, the first of which has the given number. -/
def renderItems (visited? : Option Visited) (level number : Nat) :
    List Outline → Except Halt String
  | [] => .ok ""
  | item :: rest => do
    let lines ← render visited? level item
    let more ← renderItems visited? level (number + 1) rest
    return indent level ++ "[" ++ Nat.repr number ++ "] " ++ lines ++ more

/-- The lines of the parts of a node. -/
def renderFields (visited? : Option Visited) (level : Nat) :
    List (String × Outline) → Except Halt String
  | [] => .ok ""
  | (fieldName, value) :: rest => do
    let lines ← render visited? level value
    let more ← renderFields visited? level rest
    return indent level ++ fieldName ++ ": " ++ lines ++ more

end

end Outline

open Outline (name tokens)

mutual

/-- The outline of an expression. -/
def Expression.outline : Expression → Outline
  | .empty => .node "Expression::Empty" []
  | .range start stop => .node "Expression::Range" [("start", .token start), ("end", .token stop)]
  | .call openParen closeParen arguments =>
    .node "ExpressionCall"
      [("open_paren", .token openParen), ("arguments", .list (argumentsOutline arguments)),
       ("close_paren", .token closeParen)]

/-- The outline of arguments with their commas. -/
def argumentsOutline : List (Expression × Token) → List Outline
  | [] => []
  | (expression, comma) :: rest =>
    .node "ExpressionWithComma" [("expr", expression.outline), ("comma", .token comma)] ::
      argumentsOutline rest

end

mutual

/-- The outline of a specifier. -/
def Specifier.outline : Specifier → Outline
  | .keyword token => .node "DeclSpecifier::Keyword" [("token", .token token)]
  | .linkage externToken literal =>
    .node "DeclSpecifier::LangLinkage"
      [("extern_token", .token externToken), ("literal", .token literal)]
  | .record record => record.outline
  | .enumeration enumeration => enumeration.outline
  | .typeName typename qid wasAssumed =>
    .node "DeclSpecifier::TypeID"
      [("typename", .token typename), ("qid", name qid),
       ("was_assumed", .line (if wasAssumed then "true" else "false"))]
  | .typeParam keyword ellipsis identifier =>
    .node "DeclSpecifier::TypeParam"
      [("keyword", .token keyword), ("ellipsis", .token ellipsis),
       ("identifier", .token identifier)]
  | .ellipsis token => .node "DeclSpecifier::Ellipsis" [("token", .token token)]

/-- The outline of specifiers. -/
def specifiersOutline : List Specifier → List Outline
  | [] => []
  | specifier :: rest => specifier.outline :: specifiersOutline rest

/-- The outline of a class. -/
def Record.outline : Record → Outline
  | ⟨classKey, qid, virtSpecifiers, colon, bases, openCurly, closeCurly, members⟩ =>
    .node "DeclSpecifier::Record"
      [("class_key", .token classKey), ("qid", name qid),
       ("virt_specifiers", tokens virtSpecifiers), ("colon", .token colon),
       ("base_specifier_list", .list (basesOutline bases)), ("open_curly", .token openCurly),
       ("close_curly", .token closeCurly), ("visor_decls", .list (declarationsOutline members))]

/-- The outline of bases. -/
def basesOutline : List BaseSpecifier → List Outline
  | [] => []
  | ⟨access, qid, comma⟩ :: rest =>
    .node "BaseSpecifierWithComma"
      [("access_spec", .token access), ("base_qid", name qid), ("comma", .token comma)] ::
      basesOutline rest

/-- The outline of an enumeration. -/
def Enumeration.outline : Enumeration → Outline
  | ⟨enumKey, classKey, qid, basePunc, base, openCurly, closeCurly, enumerators⟩ =>
    .node "DeclSpecifier::Enum"
      [("enum_key", .token enumKey), ("class_key", .token classKey), ("qid", name qid),
       ("base_punc", .token basePunc), ("base", name base), ("open_curly", .token openCurly),
       ("close_curly", .token closeCurly),
       ("enumerators", .list (enumeratorsOutline enumerators))]

/-- The outline of an enumerator. -/
def Enumerator.outline : Enumerator → Outline
  | ⟨identifier, init, comma⟩ =>
    .node "InitEnumeratorWithComma"
      [("identifier", .token identifier), ("init", init.outline), ("comma", .token comma)]

/-- The outline of enumerators. -/
def enumeratorsOutline : List Enumerator → List Outline
  | [] => []
  | enumerator :: rest => enumerator.outline :: enumeratorsOutline rest

/-- The title of a production and its parts but the rest of the chain. -/
def Production.outline : Production → String × List (String × Outline)
  | .parenthesized openParen closeParen =>
    ("DeclaratorProduction::Parenthesized",
      [("open_paren", .token openParen), ("close_paren", .token closeParen)])
  | .pointerTo nested punc =>
    ("DeclaratorProduction::PointerTo",
      (if nested.isEmpty then [] else [("nested_name", name ⟨nested, .empty⟩)]) ++
        [("punc", .token punc)])
  | .arrayOf openSquare closeSquare size =>
    ("DeclaratorProduction::ArrayOf",
      [("open_square", .token openSquare), ("close_square", .token closeSquare),
       ("size", size.outline)])
  | .function function => ("DeclaratorProduction::Function", function.outline)
  | .qualifier keyword => ("DeclaratorProduction::Qualifier", [("keyword", .token keyword)])

/-- The outline of a chain. -/
def chainOutline : List Production → Outline
  | [] => .null
  | production :: rest =>
    let (title, fields) := production.outline
    .node title (fields ++ [("target", chainOutline rest)])

/-- The parts of a function's declarator. -/
def FunctionDeclarator.outline : FunctionDeclarator → List (String × Outline)
  | ⟨params, qualifiers, arrow, trailing⟩ =>
    [("params", params.outline), ("qualifiers", tokens qualifiers), ("arrow", .token arrow),
     ("trailing_ret_type", name trailing)]

/-- The outline of a list of parameters. -/
def ParameterList.outline : ParameterList → Outline
  | ⟨openPunc, closePunc, params⟩ =>
    .node "ParamDeclarationList"
      [("open_punc", .token openPunc), ("params", .list (parametersOutline params)),
       ("close_punc", .token closePunc)]

/-- The outline of a parameter. -/
def Parameter.outline : Parameter → Outline
  | ⟨specifiers, declarator, init, comma⟩ =>
    .node "ParamDeclarationWithComma"
      [("decl_specifier_seq", .list (specifiersOutline specifiers)),
       ("dcor", declarator.outline), ("init", init.outline), ("comma", .token comma)]

/-- The outline of parameters. -/
def parametersOutline : List Parameter → List Outline
  | [] => []
  | parameter :: rest => parameter.outline :: parametersOutline rest

/-- The outline of a declarator. -/
def Declarator.outline : Declarator → Outline
  | ⟨chain, qid⟩ => .node "Declarator" [("prod", chainOutline chain), ("qid", name qid)]

/-- The outline of initializers of a constructor. -/
def memberInitializersOutline : List MemberInitializer → List Outline
  | [] => []
  | ⟨qid, openPunc, closePunc, comma⟩ :: rest =>
    .node "MemberInitializerWithComma"
      [("qid", name qid), ("open_punc", .token openPunc), ("close_punc", .token closePunc),
       ("comma", .token comma)] ::
      memberInitializersOutline rest

/-- The outline of an initializer. -/
def Initializer.outline : Initializer → Outline
  | .none => .node "Initializer::None" []
  | .expression start stop equalSign =>
    .node "Initializer::Assignment"
      [("equal_sign", .token equalSign), ("start", .token start), ("end", .token stop)]
  | .typeId specifiers chain equalSign =>
    .node "Initializer::Assignment"
      [("equal_sign", .token equalSign),
       ("decl_specifier_seq", .list (specifiersOutline specifiers)),
       ("abstract_dcor", chainOutline chain)]
  | .functionBody colon inits openCurly closeCurly =>
    .node "Initializer::FunctionBody"
      [("colon", .token colon), ("member_inits", .list (memberInitializersOutline inits)),
       ("open_curly", .token openCurly), ("close_curly", .token closeCurly)]
  | .bitField colon start stop =>
    .node "Initializer::BitField"
      [("colon", .token colon), ("expression_start", .token start),
       ("expression_end", .token stop)]

/-- The outline of a declarator with its initializer. -/
def InitDeclarator.outline : InitDeclarator → Outline
  | ⟨declarator, init, comma⟩ =>
    .node "InitDeclaratorWithComma"
      [("dcor", declarator.outline), ("init", init.outline), ("comma", .token comma)]

/-- The outline of declarators with their initializers. -/
def initDeclaratorsOutline : List InitDeclarator → List Outline
  | [] => []
  | declarator :: rest => declarator.outline :: initDeclaratorsOutline rest

/-- The outline of specifiers and declarators under a title. -/
def SimpleDeclaration.outline (title : String) : SimpleDeclaration → Outline
  | ⟨specifiers, declarators, semicolon⟩ =>
    .node title
      [("decl_specifier_seq", .list (specifiersOutline specifiers)),
       ("init_declarators", .list (initDeclaratorsOutline declarators)),
       ("semicolon", .token semicolon)]

/-- The outline of a declaration. -/
def Declaration.outline : Declaration → Outline
  | .namespaceBlock keyword qid openCurly closeCurly members =>
    .node "Declaration::Namespace"
      [("keyword", .token keyword), ("qid", name qid), ("open_curly", .token openCurly),
       ("close_curly", .token closeCurly), ("visor_decls", .list (declarationsOutline members))]
  | .templated keyword params declared =>
    .node "Declaration::Template"
      [("keyword", .token keyword), ("params", params.outline),
       ("visor_decl", declaredOutline declared)]
  | .simple simple => simple.outline "Declaration::Simple"
  | .accessLabel keyword colon =>
    .node "Declaration::AccessSpecifier" [("keyword", .token keyword), ("colon", .token colon)]
  | .staticAssert keyword openParen closeParen arguments semicolon =>
    .node "Declaration::StaticAssert"
      [("keyword", .token keyword),
       ("arg_list", (Expression.call openParen closeParen arguments).outline),
       ("semicolon", .token semicolon)]
  | .usingNamespace usingToken namespaceToken qid semicolon =>
    .node "Declaration::UsingDirective"
      [("using", .token usingToken), ("namespace", .token namespaceToken), ("qid", name qid),
       ("semicolon", .token semicolon)]
  | .typeAlias usingToken newName equals specifiers declarator semicolon =>
    .node "Declaration::Alias"
      [("using", .token usingToken), ("name", .token newName), ("equals", .token equals),
       ("decl_specifier_seq", .list (specifiersOutline specifiers)),
       ("dcor", declarator.outline), ("semicolon", .token semicolon)]
  | .linkageBlock externToken literal openCurly closeCurly members =>
    .node "Declaration::Linkage"
      [("extern_token", .token externToken), ("literal", .token literal),
       ("open_curly", .token openCurly), ("close_curly", .token closeCurly),
       ("visor_decls", .list (declarationsOutline members))]
  | .empty semicolon => .node "Declaration::Empty" [("semicolon", .token semicolon)]

/-- The outline of a declaration that may be missing. -/
def declaredOutline : Option Declaration → Outline
  | none => .null
  | some declaration => declaration.outline

/-- The outline of declarations. -/
def declarationsOutline : List Declaration → List Outline
  | [] => []
  | declaration :: rest => declaration.outline :: declarationsOutline rest

end

/-- The outline of a whole source. -/
def TranslationUnit.outline (unit : TranslationUnit) : Outline :=
  .node "TranslationUnit" [("visor_decls", .list (declarationsOutline unit.members))]

end CppDecl
