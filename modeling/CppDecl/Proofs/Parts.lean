import CppDecl.Grammar
import Mathlib

/-!
# What has to be closed in a tree

A node of the tree may keep a pair of brackets, and a declaration made of specifiers and declarators
has to end with a semicolon unless it ends with the body of a function.  The *parts* of a tree are
all of these, wherever they stand in it.

A part is *closed* if it has what it needs: with its opening bracket also the closing one.  There is
one way in which a list of template arguments lacks its closing bracket and that is not reported: it
is *cut off* at a token that is left to a rule further out.  That token is the last one of the last
argument.
-/

namespace CppDecl

/-- A part of a tree that has to be closed. -/
inductive Part where
  /-- A pair of brackets, other than braces around a block. -/
  | bracket (opener closer : Token)
  /-- The braces around declarations, enumerators, or the body of a function. -/
  | block (opener closer : Token)
  /-- The brackets around template arguments. -/
  | arguments (opener closer : Token) (args : List TemplateArgument)
  /-- The end of a declaration, which may be the body of a function or else needs a semicolon. -/
  | declaration (bodied : Bool) (semicolon : Token)

/-- Whether a declaration ends with the body of a function. -/
def SimpleDeclaration.isBodied (s : SimpleDeclaration) : Bool :=
  match s.declarators.getLast? with
  | some d => d.init.isFunctionBody
  | none => false

mutual

/-- The parts of an expression. -/
def Expression.parts : Expression → List Part
  | .empty => []
  | .range _ _ => []
  | .call openParen closeParen arguments =>
    .bracket openParen closeParen :: callArgumentsParts arguments

/-- The parts of arguments with their commas. -/
def callArgumentsParts : List (Expression × Token) → List Part
  | [] => []
  | (expression, _) :: rest => expression.parts ++ callArgumentsParts rest

end

mutual

/-- The parts of a component of a nested name. -/
def NestedName.parts : NestedName → List Part
  | .named _ openAngle closeAngle args _ =>
    .arguments openAngle closeAngle args :: templateArgumentsParts args
  | .decltype _ openParen closeParen _ => [.bracket openParen closeParen]

/-- The parts of a nested name. -/
def nestedNamesParts : List NestedName → List Part
  | [] => []
  | component :: rest => component.parts ++ nestedNamesParts rest

/-- The parts of a template argument. -/
def TemplateArgument.parts : TemplateArgument → List Part
  | .unknown _ _ _ => []
  | .typeId specifiers chain _ => specifiersParts specifiers ++ chainParts chain

/-- The parts of template arguments. -/
def templateArgumentsParts : List TemplateArgument → List Part
  | [] => []
  | argument :: rest => argument.parts ++ templateArgumentsParts rest

/-- The parts of the last part of a name. -/
def Unqualified.parts : Unqualified → List Part
  | .empty | .identifier _ | .destructor _ _ | .operator _ _ _ => []
  | .templateId _ openAngle closeAngle args =>
    .arguments openAngle closeAngle args :: templateArgumentsParts args
  | .decltype _ openParen closeParen => [.bracket openParen closeParen]
  | .conversion _ specifiers chain => specifiersParts specifiers ++ chainParts chain

/-- The parts of a name. -/
def QualifiedId.parts : QualifiedId → List Part
  | ⟨nested, unqual⟩ => nestedNamesParts nested ++ unqual.parts

/-- The parts of a specifier. -/
def Specifier.parts : Specifier → List Part
  | .keyword _ | .linkage _ _ | .typeParam _ _ _ | .ellipsis _ => []
  | .record record => record.parts
  | .enumeration enumeration => enumeration.parts
  | .typeName _ qid _ => qid.parts

/-- The parts of specifiers. -/
def specifiersParts : List Specifier → List Part
  | [] => []
  | specifier :: rest => specifier.parts ++ specifiersParts rest

/-- The parts of a class. -/
def Record.parts : Record → List Part
  | ⟨_, qid, _, _, bases, openCurly, closeCurly, members⟩ =>
    .block openCurly closeCurly :: (qid.parts ++ basesParts bases ++ declarationsParts members)

/-- The parts of a base. -/
def BaseSpecifier.parts : BaseSpecifier → List Part
  | ⟨_, qid, _⟩ => qid.parts

/-- The parts of bases. -/
def basesParts : List BaseSpecifier → List Part
  | [] => []
  | base :: rest => base.parts ++ basesParts rest

/-- The parts of an enumeration. -/
def Enumeration.parts : Enumeration → List Part
  | ⟨_, _, qid, _, base, openCurly, closeCurly, enumerators⟩ =>
    .block openCurly closeCurly :: (qid.parts ++ base.parts ++ enumeratorsParts enumerators)

/-- The parts of an enumerator. -/
def Enumerator.parts : Enumerator → List Part
  | ⟨_, init, _⟩ => init.parts

/-- The parts of enumerators. -/
def enumeratorsParts : List Enumerator → List Part
  | [] => []
  | enumerator :: rest => enumerator.parts ++ enumeratorsParts rest

/-- The parts of a production. -/
def Production.parts : Production → List Part
  | .parenthesized openParen closeParen => [.bracket openParen closeParen]
  | .pointerTo nested _ => nestedNamesParts nested
  | .arrayOf openSquare closeSquare size => .bracket openSquare closeSquare :: size.parts
  | .function function => function.parts
  | .qualifier _ => []

/-- The parts of a chain. -/
def chainParts : List Production → List Part
  | [] => []
  | production :: rest => production.parts ++ chainParts rest

/-- The parts of a function's declarator. -/
def FunctionDeclarator.parts : FunctionDeclarator → List Part
  | ⟨params, _, _, trailing⟩ => params.parts ++ trailing.parts

/-- The parts of a list of parameters. -/
def ParameterList.parts : ParameterList → List Part
  | ⟨openPunc, closePunc, params⟩ => .bracket openPunc closePunc :: parametersParts params

/-- The parts of a parameter. -/
def Parameter.parts : Parameter → List Part
  | ⟨specifiers, declarator, init, _⟩ =>
    specifiersParts specifiers ++ declarator.parts ++ init.parts

/-- The parts of parameters. -/
def parametersParts : List Parameter → List Part
  | [] => []
  | parameter :: rest => parameter.parts ++ parametersParts rest

/-- The parts of a declarator. -/
def Declarator.parts : Declarator → List Part
  | ⟨chain, qid⟩ => chainParts chain ++ qid.parts

/-- The parts of an initializer of a constructor. -/
def MemberInitializer.parts : MemberInitializer → List Part
  | ⟨qid, openPunc, closePunc, _⟩ => .bracket openPunc closePunc :: qid.parts

/-- The parts of initializers of a constructor. -/
def memberInitializersParts : List MemberInitializer → List Part
  | [] => []
  | init :: rest => init.parts ++ memberInitializersParts rest

/-- The parts of an initializer. -/
def Initializer.parts : Initializer → List Part
  | .none | .expression _ _ _ | .bitField _ _ _ => []
  | .typeId specifiers chain _ => specifiersParts specifiers ++ chainParts chain
  | .functionBody _ inits openCurly closeCurly =>
    .block openCurly closeCurly :: memberInitializersParts inits

/-- The parts of a declarator with its initializer. -/
def InitDeclarator.parts : InitDeclarator → List Part
  | ⟨declarator, init, _⟩ => declarator.parts ++ init.parts

/-- The parts of declarators with their initializers. -/
def initDeclaratorsParts : List InitDeclarator → List Part
  | [] => []
  | declarator :: rest => declarator.parts ++ initDeclaratorsParts rest

/-- The parts of specifiers and declarators.  The end of the declaration is not among them. -/
def SimpleDeclaration.parts : SimpleDeclaration → List Part
  | ⟨specifiers, declarators, _⟩ => specifiersParts specifiers ++ initDeclaratorsParts declarators

/-- The parts of a declaration. -/
def Declaration.parts : Declaration → List Part
  | .namespaceBlock _ qid openCurly closeCurly members =>
    .block openCurly closeCurly :: (qid.parts ++ declarationsParts members)
  | .templated _ params declared => params.parts ++ declaredParts declared
  | .simple simple => .declaration simple.isBodied simple.semicolon :: simple.parts
  | .accessLabel _ _ => []
  | .staticAssert _ openParen closeParen arguments _ =>
    .bracket openParen closeParen :: callArgumentsParts arguments
  | .usingNamespace _ _ qid _ => qid.parts
  | .typeAlias _ _ _ specifiers declarator _ => specifiersParts specifiers ++ declarator.parts
  | .linkageBlock _ _ openCurly closeCurly members =>
    .block openCurly closeCurly :: declarationsParts members
  | .empty _ => []

/-- The parts of a declaration that may be missing. -/
def declaredParts : Option Declaration → List Part
  | none => []
  | some declaration => declaration.parts

/-- The parts of declarations. -/
def declarationsParts : List Declaration → List Part
  | [] => []
  | declaration :: rest => declaration.parts ++ declarationsParts rest

end

/-- The parts of the tree of a whole source. -/
def TranslationUnit.parts (unit : TranslationUnit) : List Part := declarationsParts unit.members

/-! ## Parts that are closed -/

/-- The kinds of tokens that end a list of template arguments without closing it.  They are left to a
rule further out, or nothing follows them. -/
def cutOffKinds : List TokenKind := [.openCurly, .closeCurly, .closeParen, .closeSquare, .endOfFile]

/-- Whether a template argument stops at a token that cuts the list of arguments off. -/
def TemplateArgument.isCutOff : TemplateArgument → Bool
  | .unknown _ stop _ => cutOffKinds.contains stop.kind
  | .typeId _ _ _ => false

namespace Part

/-- Whether a part has its closing bracket if it has the opening one, and its semicolon if it needs
one. -/
def isClosed : Part → Bool
  | .bracket opener closer | .block opener closer | .arguments opener closer _ =>
    !opener.isPresent || closer.isPresent
  | .declaration bodied semicolon => bodied || semicolon.isPresent

/-- Whether a part is a list of template arguments that is cut off. -/
def isCutOff : Part → Bool
  | .arguments _ _ args => args.getLast?.any TemplateArgument.isCutOff
  | _ => false

/-- A part is closed, or it is cut off. -/
def Ended (p : Part) : Prop := p.isClosed = true ∨ p.isCutOff = true

instance (p : Part) : Decidable p.Ended := inferInstanceAs (Decidable (_ ∨ _))

end Part

theorem Token.isPresent_of_kind {t : Token} {kind : TokenKind} (h : t.kind = kind)
    (hkind : kind ≠ .invalid) : t.isPresent = true := by
  simp [Token.isPresent, h, hkind]

/-! ## Parts of lists -/

@[simp] theorem nestedNamesParts_eq (components : List NestedName) :
    nestedNamesParts components = components.flatMap NestedName.parts := by
  induction components <;> simp_all [nestedNamesParts]

@[simp] theorem templateArgumentsParts_eq (args : List TemplateArgument) :
    templateArgumentsParts args = args.flatMap TemplateArgument.parts := by
  induction args <;> simp_all [templateArgumentsParts]

@[simp] theorem specifiersParts_eq (specifiers : List Specifier) :
    specifiersParts specifiers = specifiers.flatMap Specifier.parts := by
  induction specifiers <;> simp_all [specifiersParts]

@[simp] theorem basesParts_eq (bases : List BaseSpecifier) :
    basesParts bases = bases.flatMap BaseSpecifier.parts := by
  induction bases <;> simp_all [basesParts]

@[simp] theorem enumeratorsParts_eq (enumerators : List Enumerator) :
    enumeratorsParts enumerators = enumerators.flatMap Enumerator.parts := by
  induction enumerators <;> simp_all [enumeratorsParts]

@[simp] theorem chainParts_eq (chain : Chain) :
    chainParts chain = chain.flatMap Production.parts := by
  induction chain <;> simp_all [chainParts]

@[simp] theorem parametersParts_eq (params : List Parameter) :
    parametersParts params = params.flatMap Parameter.parts := by
  induction params <;> simp_all [parametersParts]

@[simp] theorem memberInitializersParts_eq (inits : List MemberInitializer) :
    memberInitializersParts inits = inits.flatMap MemberInitializer.parts := by
  induction inits <;> simp_all [memberInitializersParts]

@[simp] theorem initDeclaratorsParts_eq (declarators : List InitDeclarator) :
    initDeclaratorsParts declarators = declarators.flatMap InitDeclarator.parts := by
  induction declarators <;> simp_all [initDeclaratorsParts]

@[simp] theorem declarationsParts_eq (declarations : List Declaration) :
    declarationsParts declarations = declarations.flatMap Declaration.parts := by
  induction declarations <;> simp_all [declarationsParts]

/-! ## Parts of records -/

theorem QualifiedId.parts_eq (q : QualifiedId) :
    q.parts = q.nested.flatMap NestedName.parts ++ q.unqual.parts := by
  cases q
  simp [parts]

theorem Declarator.parts_eq (d : Declarator) :
    d.parts = d.chain.flatMap Production.parts ++ d.qid.parts := by
  cases d
  simp [parts]

theorem Parameter.parts_eq (p : Parameter) :
    p.parts = p.specifiers.flatMap Specifier.parts ++ p.declarator.parts ++ p.init.parts := by
  cases p
  simp [parts]

theorem ParameterList.parts_eq (list : ParameterList) : list.parts =
    .bracket list.openPunc list.closePunc :: list.params.flatMap Parameter.parts := by
  cases list
  simp [parts]

theorem FunctionDeclarator.parts_eq (f : FunctionDeclarator) :
    f.parts = f.params.parts ++ f.trailing.parts := by
  cases f
  simp [parts]

theorem InitDeclarator.parts_eq (d : InitDeclarator) :
    d.parts = d.declarator.parts ++ d.init.parts := by
  cases d
  simp [parts]

theorem SimpleDeclaration.parts_eq (s : SimpleDeclaration) : s.parts =
    s.specifiers.flatMap Specifier.parts ++ s.declarators.flatMap InitDeclarator.parts := by
  cases s
  simp [parts]

theorem Declaration.parts_simple (s : SimpleDeclaration) :
    (simple s).parts = .declaration s.isBodied s.semicolon :: s.parts := by
  rw [parts]

@[simp] theorem QualifiedId.parts_empty : QualifiedId.empty.parts = [] := by
  simp [empty, parts_eq, Unqualified.parts]

/-! ## Parts of what the grammar builds -/

theorem NestedName.parts_withSep (sep : Token) (component : NestedName) :
    (component.withSep sep).parts = component.parts := by
  cases component <;> simp [withSep, parts]

theorem NestedName.parts_toUnqualified (component : NestedName) :
    component.toUnqualified.parts ⊆ component.parts := by
  cases component with
  | named name openAngle closeAngle args sep =>
    rw [toUnqualified]
    split
    · simp [parts, Unqualified.parts]
    · simp [Unqualified.parts]
  | decltype keyword openParen closeParen sep => simp [toUnqualified, parts, Unqualified.parts]

/-- The size of an array is not looked into. -/
theorem Production.parts_arrayOf_between (opener closer start stop : Token) :
    (arrayOf opener closer (.between start stop)).parts = [.bracket opener closer] := by
  rw [parts, Expression.between]
  split <;> simp [Expression.parts]

theorem Grammar.parts_withComma (comma : Token) (argument : TemplateArgument) :
    (withComma comma argument).parts = argument.parts := by
  cases argument <;> simp [withComma, TemplateArgument.parts]

theorem Grammar.parts_splitLast (components : List NestedName) :
    (splitLast components).parts ⊆ components.flatMap NestedName.parts := by
  rw [splitLast]
  cases hlast : components.getLast? with
  | none => simp [QualifiedId.empty, QualifiedId.parts, Unqualified.parts]
  | some last =>
    simp only
    split
    · simp [QualifiedId.parts, Unqualified.parts]
    · have hsplit : components.dropLast ++ [last] = components := by
        simpa using List.dropLast_append_getLast? last hlast
      have hname := last.parts_toUnqualified
      rw [QualifiedId.parts, nestedNamesParts_eq]
      conv => rhs; rw [← hsplit, List.flatMap_append, List.flatMap_singleton]
      grind

theorem Chain.parts_insertAt (chain : Chain) (depth : Nat) (production : Production) :
    (Chain.insertAt chain depth production).flatMap Production.parts ⊆
      chain.flatMap Production.parts ++ production.parts := by
  conv => rhs; rw [← List.take_append_drop depth chain]
  rw [Chain.insertAt]
  simp only [List.flatMap_append, List.flatMap_cons]
  grind

end CppDecl
