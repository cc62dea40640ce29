import CppDecl.Grammar
import CppDecl.Proofs.Parts

/-!
# Trees at another place

A token that is there can be shifted along the line of text.  A token that is not there has no
place and stays as it is.  A tree is shifted token by token, and so is all that a parse is about:
what has been read of a declaration, scopes, events and diagnostics.

The shape of a tree and the words in it do not change.  So whatever the grammar asks of a tree has
the same answer for the shifted tree, and what it builds from shifted parts is the shifted tree.
-/

namespace CppDecl

/-- The token at a place that is further along. -/
def Token.shift (k : LinearLoc) (t : Token) : Token :=
  { t with loc := if t.isPresent then t.loc + k else t.loc }

mutual

/-- The expression at a place that is further along. -/
def Expression.shift (k : LinearLoc) : Expression → Expression
  | .empty => .empty
  | .range start stop => .range (start.shift k) (stop.shift k)
  | .call openParen closeParen arguments =>
    .call (openParen.shift k) (closeParen.shift k) (argumentsShift k arguments)

/-- The arguments, with their commas, at a place that is further along. -/
def argumentsShift (k : LinearLoc) : List (Expression × Token) → List (Expression × Token)
  | [] => []
  | (expression, comma) :: rest => (expression.shift k, comma.shift k) :: argumentsShift k rest

end

mutual

/-- The component of a nested name at a place that is further along. -/
def NestedName.shift (k : LinearLoc) : NestedName → NestedName
  | .named name openAngle closeAngle args sep =>
    .named (name.shift k) (openAngle.shift k) (closeAngle.shift k) (templateArgumentsShift k args)
      (sep.shift k)
  | .decltype keyword openParen closeParen sep =>
    .decltype (keyword.shift k) (openParen.shift k) (closeParen.shift k) (sep.shift k)

/-- The nested name at a place that is further along. -/
def nestedNamesShift (k : LinearLoc) : List NestedName → List NestedName
  | [] => []
  | component :: rest => component.shift k :: nestedNamesShift k rest

/-- The template argument at a place that is further along. -/
def TemplateArgument.shift (k : LinearLoc) : TemplateArgument → TemplateArgument
  | .unknown start stop comma => .unknown (start.shift k) (stop.shift k) (comma.shift k)
  | .typeId specifiers chain comma =>
    .typeId (specifiersShift k specifiers) (chainShift k chain) (comma.shift k)

/-- The template arguments at a place that is further along. -/
def templateArgumentsShift (k : LinearLoc) : List TemplateArgument → List TemplateArgument
  | [] => []
  | argument :: rest => argument.shift k :: templateArgumentsShift k rest

/-- The last part of a name at a place that is further along. -/
def Unqualified.shift (k : LinearLoc) : Unqualified → Unqualified
  | .empty => .empty
  | .identifier name => .identifier (name.shift k)
  | .templateId name openAngle closeAngle args =>
    .templateId (name.shift k) (openAngle.shift k) (closeAngle.shift k)
      (templateArgumentsShift k args)
  | .decltype keyword openParen closeParen =>
    .decltype (keyword.shift k) (openParen.shift k) (closeParen.shift k)
  | .destructor tilde name => .destructor (tilde.shift k) (name.shift k)
  | .operator keyword punc punc2 => .operator (keyword.shift k) (punc.shift k) (punc2.shift k)
  | .conversion keyword specifiers chain =>
    .conversion (keyword.shift k) (specifiersShift k specifiers) (chainShift k chain)

/-- The name at a place that is further along. -/
def QualifiedId.shift (k : LinearLoc) : QualifiedId → QualifiedId
  | ⟨nested, unqual⟩ => ⟨nestedNamesShift k nested, unqual.shift k⟩

/-- The specifier at a place that is further along. -/
def Specifier.shift (k : LinearLoc) : Specifier → Specifier
  | .keyword token => .keyword (token.shift k)
  | .linkage externToken literal => .linkage (externToken.shift k) (literal.shift k)
  | .record record => .record (record.shift k)
  | .enumeration enumeration => .enumeration (enumeration.shift k)
  | .typeName typename qid wasAssumed => .typeName (typename.shift k) (qid.shift k) wasAssumed
  | .typeParam keyword ellipsis identifier =>
    .typeParam (keyword.shift k) (ellipsis.shift k) (identifier.shift k)
  | .ellipsis token => .ellipsis (token.shift k)

/-- The specifiers at a place that is further along. -/
def specifiersShift (k : LinearLoc) : List Specifier → List Specifier
  | [] => []
  | specifier :: rest => specifier.shift k :: specifiersShift k rest

/-- The class at a place that is further along. -/
def Record.shift (k : LinearLoc) : Record → Record
  | ⟨classKey, qid, virtSpecifiers, colon, bases, openCurly, closeCurly, members⟩ =>
    ⟨classKey.shift k, qid.shift k, virtSpecifiers.map (Token.shift k), colon.shift k,
      basesShift k bases, openCurly.shift k, closeCurly.shift k, declarationsShift k members⟩

/-- The base at a place that is further along. -/
def BaseSpecifier.shift (k : LinearLoc) : BaseSpecifier → BaseSpecifier
  | ⟨access, qid, comma⟩ => ⟨access.shift k, qid.shift k, comma.shift k⟩

/-- The bases at a place that is further along. -/
def basesShift (k : LinearLoc) : List BaseSpecifier → List BaseSpecifier
  | [] => []
  | base :: rest => base.shift k :: basesShift k rest

/-- The enumeration at a place that is further along. -/
def Enumeration.shift (k : LinearLoc) : Enumeration → Enumeration
  | ⟨enumKey, classKey, qid, basePunc, base, openCurly, closeCurly, enumerators⟩ =>
    ⟨enumKey.shift k, classKey.shift k, qid.shift k, basePunc.shift k, base.shift k,
      openCurly.shift k, closeCurly.shift k, enumeratorsShift k enumerators⟩

/-- The enumerator at a place that is further along. -/
def Enumerator.shift (k : LinearLoc) : Enumerator → Enumerator
  | ⟨identifier, init, comma⟩ => ⟨identifier.shift k, init.shift k, comma.shift k⟩

/-- The enumerators at a place that is further along. -/
def enumeratorsShift (k : LinearLoc) : List Enumerator → List Enumerator
  | [] => []
  | enumerator :: rest => enumerator.shift k :: enumeratorsShift k rest

/-- The production at a place that is further along. -/
def Production.shift (k : LinearLoc) : Production → Production
  | .parenthesized openParen closeParen => .parenthesized (openParen.shift k) (closeParen.shift k)
  | .pointerTo nested punc => .pointerTo (nestedNamesShift k nested) (punc.shift k)
  | .arrayOf openSquare closeSquare size =>
    .arrayOf (openSquare.shift k) (closeSquare.shift k) (size.shift k)
  | .function function => .function (function.shift k)
  | .qualifier keyword => .qualifier (keyword.shift k)

/-- The chain at a place that is further along. -/
def chainShift (k : LinearLoc) : List Production → List Production
  | [] => []
  | production :: rest => production.shift k :: chainShift k rest

/-- The function's declarator at a place that is further along. -/
def FunctionDeclarator.shift (k : LinearLoc) : FunctionDeclarator → FunctionDeclarator
  | ⟨params, qualifiers, arrow, trailing⟩ =>
    ⟨params.shift k, qualifiers.map (Token.shift k), arrow.shift k, trailing.shift k⟩

/-- The list of parameters at a place that is further along. -/
def ParameterList.shift (k : LinearLoc) : ParameterList → ParameterList
  | ⟨openPunc, closePunc, params⟩ =>
    ⟨openPunc.shift k, closePunc.shift k, parametersShift k params⟩

/-- The parameter at a place that is further along. -/
def Parameter.shift (k : LinearLoc) : Parameter → Parameter
  | ⟨specifiers, declarator, init, comma⟩ =>
    ⟨specifiersShift k specifiers, declarator.shift k, init.shift k, comma.shift k⟩

/-- The parameters at a place that is further along. -/
def parametersShift (k : LinearLoc) : List Parameter → List Parameter
  | [] => []
  | parameter :: rest => parameter.shift k :: parametersShift k rest

/-- The declarator at a place that is further along. -/
def Declarator.shift (k : LinearLoc) : Declarator → Declarator
  | ⟨chain, qid⟩ => ⟨chainShift k chain, qid.shift k⟩

/-- The initializer of a constructor at a place that is further along. -/
def MemberInitializer.shift (k : LinearLoc) : MemberInitializer → MemberInitializer
  | ⟨qid, openPunc, closePunc, comma⟩ =>
    ⟨qid.shift k, openPunc.shift k, closePunc.shift k, comma.shift k⟩

/-- The initializers of a constructor at a place that is further along. -/
def memberInitializersShift (k : LinearLoc) : List MemberInitializer → List MemberInitializer
  | [] => []
  | init :: rest => init.shift k :: memberInitializersShift k rest

/-- The initializer at a place that is further along. -/
def Initializer.shift (k : LinearLoc) : Initializer → Initializer
  | .none => .none
  | .expression start stop equalSign =>
    .expression (start.shift k) (stop.shift k) (equalSign.shift k)
  | .typeId specifiers chain equalSign =>
    .typeId (specifiersShift k specifiers) (chainShift k chain) (equalSign.shift k)
  | .functionBody colon inits openCurly closeCurly =>
    .functionBody (colon.shift k) (memberInitializersShift k inits) (openCurly.shift k)
      (closeCurly.shift k)
  | .bitField colon start stop => .bitField (colon.shift k) (start.shift k) (stop.shift k)

/-- The declarator, with its initializer, at a place that is further along. -/
def InitDeclarator.shift (k : LinearLoc) : InitDeclarator → InitDeclarator
  | ⟨declarator, init, comma⟩ => ⟨declarator.shift k, init.shift k, comma.shift k⟩

/-- The declarators, with their initializers, at a place that is further along. -/
def initDeclaratorsShift (k : LinearLoc) : List InitDeclarator → List InitDeclarator
  | [] => []
  | declarator :: rest => declarator.shift k :: initDeclaratorsShift k rest

/-- Specifiers and declarators at a place that is further along. -/
def SimpleDeclaration.shift (k : LinearLoc) : SimpleDeclaration → SimpleDeclaration
  | ⟨specifiers, declarators, semicolon⟩ =>
    ⟨specifiersShift k specifiers, initDeclaratorsShift k declarators, semicolon.shift k⟩

/-- The declaration at a place that is further along. -/
def Declaration.shift (k : LinearLoc) : Declaration → Declaration
  | .namespaceBlock keyword qid openCurly closeCurly members =>
    .namespaceBlock (keyword.shift k) (qid.shift k) (openCurly.shift k) (closeCurly.shift k)
      (declarationsShift k members)
  | .templated keyword params declared =>
    .templated (keyword.shift k) (params.shift k) (declaredShift k declared)
  | .simple simple => .simple (simple.shift k)
  | .accessLabel keyword colon => .accessLabel (keyword.shift k) (colon.shift k)
  | .staticAssert keyword openParen closeParen arguments semicolon =>
    .staticAssert (keyword.shift k) (openParen.shift k) (closeParen.shift k)
      (argumentsShift k arguments) (semicolon.shift k)
  | .usingNamespace usingToken namespaceToken qid semicolon =>
    .usingNamespace (usingToken.shift k) (namespaceToken.shift k) (qid.shift k) (semicolon.shift k)
  | .typeAlias usingToken name equals specifiers declarator semicolon =>
    .typeAlias (usingToken.shift k) (name.shift k) (equals.shift k) (specifiersShift k specifiers)
      (declarator.shift k) (semicolon.shift k)
  | .linkageBlock externToken literal openCurly closeCurly members =>
    .linkageBlock (externToken.shift k) (literal.shift k) (openCurly.shift k) (closeCurly.shift k)
      (declarationsShift k members)
  | .empty semicolon => .empty (semicolon.shift k)

/-- The declaration that may be missing at a place that is further along. -/
def declaredShift (k : LinearLoc) : Option Declaration → Option Declaration
  | none => none
  | some declaration => some (declaration.shift k)

/-- The declarations at a place that is further along. -/
def declarationsShift (k : LinearLoc) : List Declaration → List Declaration
  | [] => []
  | declaration :: rest => declaration.shift k :: declarationsShift k rest

end

/-! ## Beside the tree -/

/-- The fault of the text at a place that is further along. -/
def LexError.shift (k : LinearLoc) (e : LexError) : LexError :=
  { e with loc := e.loc + k, other := if e.other < 0 then e.other else e.other + k }

/-- The fault of the grammar at a place that is further along. -/
def ParseError.shift (k : LinearLoc) (e : ParseError) : ParseError :=
  { e with token := e.token.shift k, preceding := e.preceding.shift k }

/-- The diagnostic at a place that is further along. -/
def Diagnostic.shift (k : LinearLoc) : Diagnostic → Diagnostic
  | .lexical e => .lexical (e.shift k)
  | .grammatical e => .grammatical (e.shift k)
  | .file path message => .file path message

/-- The event at a place that is further along. -/
def Event.shift (k : LinearLoc) : Event → Event
  | .entered path => .entered path
  | .left path count => .left path count
  | .declared declaration path => .declared (declaration.shift k) path
  | .enumerated enumerator => .enumerated (enumerator.shift k)
  | .aside token args => .aside (token.shift k) (args.map (Token.shift k))
  | .included directive => .included directive
  | .diagnosed diagnostic => .diagnosed (diagnostic.shift k)

/-- The open scope at a place that is further along. -/
def OpenScope.shift (k : LinearLoc) (s : OpenScope) : OpenScope :=
  { s with members := s.members.map (Declaration.shift k) }

variable {k : LinearLoc}

/-! ## Tokens -/

namespace Token

@[simp] theorem shift_kind (t : Token) : (t.shift k).kind = t.kind := rfl

@[simp] theorem shift_text (t : Token) : (t.shift k).text = t.text := rfl

@[simp] theorem shift_isPresent (t : Token) : (t.shift k).isPresent = t.isPresent := rfl

@[simp] theorem shift_absent : absent.shift k = absent := rfl

theorem shift_loc {t : Token} (h : t.isPresent = true) : (t.shift k).loc = t.loc + k :=
  if_pos h

theorem shift_mk {kind : TokenKind} (h : kind ≠ .invalid) (loc : LinearLoc) (text : String) :
    (⟨loc, kind, text⟩ : Token).shift k = ⟨loc + k, kind, text⟩ := by
  simp [shift, isPresent, h]

@[simp] theorem shift_getD (t? : Option Token) :
    (t?.map (shift k)).getD absent = (t?.getD absent).shift k := by
  cases t? <;> rfl

end Token

/-! ## Lists of parts -/

@[simp] theorem nestedNamesShift_eq (components : List NestedName) :
    nestedNamesShift k components = components.map (NestedName.shift k) := by
  induction components <;> simp_all [nestedNamesShift]

@[simp] theorem templateArgumentsShift_eq (args : List TemplateArgument) :
    templateArgumentsShift k args = args.map (TemplateArgument.shift k) := by
  induction args <;> simp_all [templateArgumentsShift]

@[simp] theorem specifiersShift_eq (specifiers : List Specifier) :
    specifiersShift k specifiers = specifiers.map (Specifier.shift k) := by
  induction specifiers <;> simp_all [specifiersShift]

@[simp] theorem basesShift_eq (bases : List BaseSpecifier) :
    basesShift k bases = bases.map (BaseSpecifier.shift k) := by
  induction bases <;> simp_all [basesShift]

@[simp] theorem enumeratorsShift_eq (enumerators : List Enumerator) :
    enumeratorsShift k enumerators = enumerators.map (Enumerator.shift k) := by
  induction enumerators <;> simp_all [enumeratorsShift]

@[simp] theorem chainShift_eq (chain : Chain) :
    chainShift k chain = chain.map (Production.shift k) := by
  induction chain <;> simp_all [chainShift]

@[simp] theorem parametersShift_eq (params : List Parameter) :
    parametersShift k params = params.map (Parameter.shift k) := by
  induction params <;> simp_all [parametersShift]

@[simp] theorem memberInitializersShift_eq (inits : List MemberInitializer) :
    memberInitializersShift k inits = inits.map (MemberInitializer.shift k) := by
  induction inits <;> simp_all [memberInitializersShift]

@[simp] theorem initDeclaratorsShift_eq (declarators : List InitDeclarator) :
    initDeclaratorsShift k declarators = declarators.map (InitDeclarator.shift k) := by
  induction declarators <;> simp_all [initDeclaratorsShift]

@[simp] theorem declarationsShift_eq (declarations : List Declaration) :
    declarationsShift k declarations = declarations.map (Declaration.shift k) := by
  induction declarations <;> simp_all [declarationsShift]

@[simp] theorem declaredShift_eq (declared : Option Declaration) :
    declaredShift k declared = declared.map (Declaration.shift k) := by
  cases declared <;> simp [declaredShift]

attribute [simp] Expression.shift argumentsShift NestedName.shift TemplateArgument.shift
  Unqualified.shift QualifiedId.shift Specifier.shift Record.shift BaseSpecifier.shift
  Enumeration.shift Enumerator.shift Production.shift FunctionDeclarator.shift ParameterList.shift
  Parameter.shift Declarator.shift MemberInitializer.shift Initializer.shift InitDeclarator.shift
  SimpleDeclaration.shift Declaration.shift Diagnostic.shift Event.shift

/-! ## Fields -/

section

variable (q : QualifiedId) (d : Declarator) (i : InitDeclarator) (s : SimpleDeclaration)
  (f : FunctionDeclarator) (l : ParameterList) (p : Parameter)

@[simp] theorem QualifiedId.shift_nested :
    (q.shift k).nested = q.nested.map (NestedName.shift k) := by
  cases q
  simp

@[simp] theorem QualifiedId.shift_unqual : (q.shift k).unqual = q.unqual.shift k := by
  cases q
  simp

@[simp] theorem Declarator.shift_chain : (d.shift k).chain = d.chain.map (Production.shift k) := by
  cases d
  simp

@[simp] theorem Declarator.shift_qid : (d.shift k).qid = d.qid.shift k := by
  cases d
  simp

@[simp] theorem InitDeclarator.shift_declarator :
    (i.shift k).declarator = i.declarator.shift k := by
  cases i
  simp

@[simp] theorem InitDeclarator.shift_init : (i.shift k).init = i.init.shift k := by
  cases i
  simp

@[simp] theorem SimpleDeclaration.shift_specifiers :
    (s.shift k).specifiers = s.specifiers.map (Specifier.shift k) := by
  cases s
  simp

@[simp] theorem SimpleDeclaration.shift_declarators :
    (s.shift k).declarators = s.declarators.map (InitDeclarator.shift k) := by
  cases s
  simp

@[simp] theorem SimpleDeclaration.shift_semicolon :
    (s.shift k).semicolon = s.semicolon.shift k := by
  cases s
  simp

@[simp] theorem FunctionDeclarator.shift_params : (f.shift k).params = f.params.shift k := by
  cases f
  simp

@[simp] theorem ParameterList.shift_openPunc : (l.shift k).openPunc = l.openPunc.shift k := by
  cases l
  simp

@[simp] theorem ParameterList.shift_closePunc : (l.shift k).closePunc = l.closePunc.shift k := by
  cases l
  simp

@[simp] theorem ParameterList.shift_params :
    (l.shift k).params = l.params.map (Parameter.shift k) := by
  cases l
  simp

@[simp] theorem Parameter.shift_specifiers :
    (p.shift k).specifiers = p.specifiers.map (Specifier.shift k) := by
  cases p
  simp

@[simp] theorem Parameter.shift_declarator : (p.shift k).declarator = p.declarator.shift k := by
  cases p
  simp

@[simp] theorem Parameter.shift_init : (p.shift k).init = p.init.shift k := by
  cases p
  simp

end

/-! ## Names -/

namespace NestedName

@[simp] theorem firstToken_shift (c : NestedName) :
    (c.shift k).firstToken = c.firstToken.shift k := by
  cases c <;> simp [firstToken]

@[simp] theorem sep_shift (c : NestedName) : (c.shift k).sep = c.sep.shift k := by
  cases c <;> simp [sep]

@[simp] theorem shift_withSep (c : NestedName) (sep : Token) :
    (c.withSep sep).shift k = (c.shift k).withSep (sep.shift k) := by
  cases c <;> simp [withSep]

@[simp] theorem toUnqualified_shift (c : NestedName) :
    (c.shift k).toUnqualified = c.toUnqualified.shift k := by
  cases c with
  | named name openAngle closeAngle args sep =>
    cases h : openAngle.isPresent <;> simp [toUnqualified, h]
  | decltype keyword openParen closeParen sep => simp [toUnqualified]

end NestedName

namespace Unqualified

@[simp] theorem isEmpty_shift (u : Unqualified) : (u.shift k).isEmpty = u.isEmpty := by
  cases u <;> simp [isEmpty]

@[simp] theorem structorName_shift (u : Unqualified) :
    (u.shift k).structorName = u.structorName := by
  cases u <;> simp [structorName]

@[simp] theorem firstToken_shift (u : Unqualified) :
    (u.shift k).firstToken = u.firstToken.shift k := by
  cases u <;> simp [firstToken]

end Unqualified

namespace QualifiedId

@[simp] theorem empty_shift : empty.shift k = empty := by simp [empty]

@[simp] theorem shift_ofIdentifier (name : Token) :
    (ofIdentifier name).shift k = ofIdentifier (name.shift k) := by
  simp [ofIdentifier]

@[simp] theorem isEmpty_shift (q : QualifiedId) : (q.shift k).isEmpty = q.isEmpty := by
  simp [isEmpty]

@[simp] theorem isNestedOnly_shift (q : QualifiedId) :
    (q.shift k).isNestedOnly = q.isNestedOnly := by
  simp [isNestedOnly]

@[simp] theorem isComplete_shift (q : QualifiedId) : (q.shift k).isComplete = q.isComplete := by
  simp [isComplete]

@[simp] theorem className_shift (q : QualifiedId) : (q.shift k).className = q.className := by
  obtain ⟨nested, unqual⟩ := q
  cases unqual <;> simp [className]

@[simp] theorem firstToken_shift (q : QualifiedId) :
    (q.shift k).firstToken = q.firstToken.shift k := by
  obtain ⟨_ | ⟨c, nested⟩, unqual⟩ := q <;> simp [firstToken]

@[simp] theorem isStructor_shift (enclosingClass : String) (q : QualifiedId) :
    (q.shift k).isStructor enclosingClass = q.isStructor enclosingClass := by
  simp only [isStructor, shift_nested, shift_unqual, Unqualified.structorName_shift,
    List.getLast?_map, List.isEmpty_map]
  rcases q.nested.getLast? with _ | _ | _ <;> simp

end QualifiedId

/-! ## Declarators and declarations -/

@[simp] theorem Expression.shift_between (start stop : Token) :
    (between start stop).shift k = between (start.shift k) (stop.shift k) := by
  cases h : start.isPresent <;> simp [between, h]

@[simp] theorem Chain.shift_insertAt (chain : Chain) (depth : Nat) (production : Production) :
    (chain.insertAt depth production).map (Production.shift k) =
      Chain.insertAt (chain.map (Production.shift k)) depth (production.shift k) := by
  simp [insertAt]

@[simp] theorem Chain.functionAt?_shift (chain : Chain) (depth : Nat) :
    Chain.functionAt? (chain.map (Production.shift k)) depth =
      (chain.functionAt? depth).map (FunctionDeclarator.shift k) := by
  rw [functionAt?, functionAt?, List.getElem?_map]
  rcases chain[depth]? with _ | _ | _ <;> simp

@[simp] theorem Production.isFunction_shift (p : Production) :
    (p.shift k).isFunction = p.isFunction := by
  cases p <;> simp [isFunction]

@[simp] theorem Declarator.empty_shift : Declarator.empty.shift k = .empty := by
  simp [Declarator.empty]

@[simp] theorem Declarator.isFunction_shift (d : Declarator) :
    (d.shift k).isFunction = d.isFunction := by
  obtain ⟨_ | ⟨p, chain⟩, qid⟩ := d <;> simp [isFunction]

@[simp] theorem Initializer.isFunctionBody_shift (i : Initializer) :
    (i.shift k).isFunctionBody = i.isFunctionBody := by
  cases i <;> simp [isFunctionBody]

@[simp] theorem ParameterList.empty_shift : ParameterList.empty.shift k = .empty := by
  simp [ParameterList.empty]

namespace SimpleDeclaration

@[simp] theorem empty_shift : empty.shift k = empty := by simp [empty]

@[simp] theorem declaresType_shift (s : SimpleDeclaration) :
    (s.shift k).declaresType = s.declaresType := by
  rw [declaresType, declaresType, shift_specifiers, List.any_map]
  congr 1
  funext specifier
  cases specifier <;> simp

@[simp] theorem isBodied_shift (s : SimpleDeclaration) : (s.shift k).isBodied = s.isBodied := by
  rw [isBodied, isBodied, shift_declarators, List.getLast?_map]
  cases s.declarators.getLast? <;> simp

end SimpleDeclaration

/-! ## What the grammar builds -/

namespace Grammar

@[simp] theorem splitLast_shift (components : List NestedName) :
    splitLast (components.map (NestedName.shift k)) = (splitLast components).shift k := by
  simp only [splitLast, List.getLast?_map]
  cases components.getLast? with
  | none => simp
  | some last =>
    simp only [Option.map_some, NestedName.sep_shift, Token.shift_isPresent]
    split <;> simp [List.map_dropLast]

@[simp] theorem lacks_shift (need : Completeness) (q : QualifiedId) :
    lacks need (q.shift k) = lacks need q := by
  cases need <;> simp [lacks]

@[simp] theorem shift_withComma (comma : Token) (argument : TemplateArgument) :
    (withComma comma argument).shift k = withComma (comma.shift k) (argument.shift k) := by
  cases argument <;> simp [withComma]

@[simp] theorem typeChain_shift (s : SimpleDeclaration) :
    typeChain (s.shift k) = (typeChain s).map (Production.shift k) := by
  rw [typeChain, typeChain, SimpleDeclaration.shift_declarators]
  cases s.declarators <;> simp

@[simp] theorem shift_plainType (name : Token) :
    (plainType name).shift k = plainType (name.shift k) := by
  simp [plainType]

@[simp] theorem shift_addSpecifier (s : SimpleDeclaration) (spec : Specifier) :
    (addSpecifier s spec).shift k = addSpecifier (s.shift k) (spec.shift k) := by
  simp [addSpecifier]

@[simp] theorem shift_addDeclarator (s : SimpleDeclaration) (d : Declarator) (init : Initializer)
    (comma : Token) : (addDeclarator s d init comma).shift k =
      addDeclarator (s.shift k) (d.shift k) (init.shift k) (comma.shift k) := by
  simp [addDeclarator]

@[simp] theorem shift_addParameter (l : ParameterList) (parameter? : Option Parameter)
    (comma : Token) : (addParameter l parameter? comma).shift k =
      addParameter (l.shift k) (parameter?.map (Parameter.shift k)) (comma.shift k) := by
  cases parameter? <;> simp [addParameter]

end Grammar

end CppDecl
