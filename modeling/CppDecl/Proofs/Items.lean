import CppDecl.Grammar

/-!
# What a tree is made of

The *items* of a tree are the tokens that stand anywhere in it, the lists of declarations in its
blocks, and its lists of template arguments with their brackets.  A value is *among* given items if
it is made of nothing else.  Tokens that are not there, empty lists of declarations and template
arguments that are not closed do not count.

What the grammar builds is among the items of what it is built from.  These facts are instances, so
that they are inferred for a value from the way in which it is built.
-/

namespace CppDecl

/-- An item of a tree. -/
inductive Item where
  /-- A token. -/
  | token (t : Token)
  /-- The declarations in a block. -/
  | block (members : List Declaration)
  /-- Template arguments with the brackets around them. -/
  | arguments (openAngle closeAngle : Token) (args : List TemplateArgument)

/-- Whether the token is there, or there are declarations in the block, or the template arguments are
closed. -/
def Item.counts : Item → Bool
  | .token t => t.isPresent
  | .block members => !members.isEmpty
  | .arguments _ closeAngle _ => closeAngle.isPresent

mutual

/-- The items of an expression. -/
def Expression.items : Expression → List Item
  | .empty => []
  | .range start stop => [.token start, .token stop]
  | .call openParen closeParen arguments =>
    .token openParen :: .token closeParen :: callArgumentsItems arguments

/-- The items of arguments with their commas. -/
def callArgumentsItems : List (Expression × Token) → List Item
  | [] => []
  | (expression, comma) :: rest =>
    expression.items ++ .token comma :: callArgumentsItems rest

end

mutual

/-- The items of a component of a nested name. -/
def NestedName.items : NestedName → List Item
  | .named name openAngle closeAngle args sep =>
    .token name :: .token openAngle :: .token closeAngle :: .token sep ::
      .arguments openAngle closeAngle args :: templateArgumentsItems args
  | .decltype keyword openParen closeParen sep =>
    [.token keyword, .token openParen, .token closeParen, .token sep]

/-- The items of a nested name. -/
def nestedNamesItems : List NestedName → List Item
  | [] => []
  | component :: rest => component.items ++ nestedNamesItems rest

/-- The items of a template argument. -/
def TemplateArgument.items : TemplateArgument → List Item
  | .unknown start stop comma => [.token start, .token stop, .token comma]
  | .typeId specifiers chain comma =>
    .token comma :: (specifiersItems specifiers ++ chainItems chain)

/-- The items of template arguments. -/
def templateArgumentsItems : List TemplateArgument → List Item
  | [] => []
  | argument :: rest => argument.items ++ templateArgumentsItems rest

/-- The items of the last part of a name. -/
def Unqualified.items : Unqualified → List Item
  | .empty => []
  | .identifier name => [.token name]
  | .templateId name openAngle closeAngle args =>
    .token name :: .token openAngle :: .token closeAngle ::
      .arguments openAngle closeAngle args :: templateArgumentsItems args
  | .decltype keyword openParen closeParen =>
    [.token keyword, .token openParen, .token closeParen]
  | .destructor tilde name => [.token tilde, .token name]
  | .operator keyword punc punc2 => [.token keyword, .token punc, .token punc2]
  | .conversion keyword specifiers chain =>
    .token keyword :: (specifiersItems specifiers ++ chainItems chain)

/-- The items of a name. -/
def QualifiedId.items : QualifiedId → List Item
  | ⟨nested, unqual⟩ => nestedNamesItems nested ++ unqual.items

/-- The items of a specifier. -/
def Specifier.items : Specifier → List Item
  | .keyword token | .ellipsis token => [.token token]
  | .linkage externToken literal => [.token externToken, .token literal]
  | .record record => record.items
  | .enumeration enumeration => enumeration.items
  | .typeName typename qid _ => .token typename :: qid.items
  | .typeParam keyword ellipsis identifier => [.token keyword, .token ellipsis, .token identifier]

/-- The items of specifiers. -/
def specifiersItems : List Specifier → List Item
  | [] => []
  | specifier :: rest => specifier.items ++ specifiersItems rest

/-- The items of a class. -/
def Record.items : Record → List Item
  | ⟨classKey, qid, virtSpecifiers, colon, bases, openCurly, closeCurly, members⟩ =>
    .token classKey :: .token colon :: .token openCurly :: .token closeCurly :: .block members ::
      (qid.items ++ virtSpecifiers.map .token ++ basesItems bases ++ declarationsItems members)

/-- The items of a base. -/
def BaseSpecifier.items : BaseSpecifier → List Item
  | ⟨access, qid, comma⟩ => .token access :: .token comma :: qid.items

/-- The items of bases. -/
def basesItems : List BaseSpecifier → List Item
  | [] => []
  | base :: rest => base.items ++ basesItems rest

/-- The items of an enumeration. -/
def Enumeration.items : Enumeration → List Item
  | ⟨enumKey, classKey, qid, basePunc, base, openCurly, closeCurly, enumerators⟩ =>
    .token enumKey :: .token classKey :: .token basePunc :: .token openCurly :: .token closeCurly ::
      (qid.items ++ base.items ++ enumeratorsItems enumerators)

/-- The items of an enumerator. -/
def Enumerator.items : Enumerator → List Item
  | ⟨identifier, init, comma⟩ => .token identifier :: .token comma :: init.items

/-- The items of enumerators. -/
def enumeratorsItems : List Enumerator → List Item
  | [] => []
  | enumerator :: rest => enumerator.items ++ enumeratorsItems rest

/-- The items of a production. -/
def Production.items : Production → List Item
  | .parenthesized openParen closeParen => [.token openParen, .token closeParen]
  | .pointerTo nested punc => .token punc :: nestedNamesItems nested
  | .arrayOf openSquare closeSquare size => .token openSquare :: .token closeSquare :: size.items
  | .function function => function.items
  | .qualifier keyword => [.token keyword]

/-- The items of a chain. -/
def chainItems : List Production → List Item
  | [] => []
  | production :: rest => production.items ++ chainItems rest

/-- The items of a function's declarator. -/
def FunctionDeclarator.items : FunctionDeclarator → List Item
  | ⟨params, qualifiers, arrow, trailing⟩ =>
    .token arrow :: (params.items ++ qualifiers.map .token ++ trailing.items)

/-- The items of a list of parameters. -/
def ParameterList.items : ParameterList → List Item
  | ⟨openPunc, closePunc, params⟩ =>
    .token openPunc :: .token closePunc :: parametersItems params

/-- The items of a parameter. -/
def Parameter.items : Parameter → List Item
  | ⟨specifiers, declarator, init, comma⟩ =>
    .token comma :: (specifiersItems specifiers ++ declarator.items ++ init.items)

/-- The items of parameters. -/
def parametersItems : List Parameter → List Item
  | [] => []
  | parameter :: rest => parameter.items ++ parametersItems rest

/-- The items of a declarator. -/
def Declarator.items : Declarator → List Item
  | ⟨chain, qid⟩ => chainItems chain ++ qid.items

/-- The items of an initializer of a constructor. -/
def MemberInitializer.items : MemberInitializer → List Item
  | ⟨qid, openPunc, closePunc, comma⟩ =>
    .token openPunc :: .token closePunc :: .token comma :: qid.items

/-- The items of initializers of a constructor. -/
def memberInitializersItems : List MemberInitializer → List Item
  | [] => []
  | init :: rest => init.items ++ memberInitializersItems rest

/-- The items of an initializer. -/
def Initializer.items : Initializer → List Item
  | .none => []
  | .expression start stop equalSign => [.token start, .token stop, .token equalSign]
  | .bitField colon start stop => [.token colon, .token start, .token stop]
  | .typeId specifiers chain equalSign =>
    .token equalSign :: (specifiersItems specifiers ++ chainItems chain)
  | .functionBody colon inits openCurly closeCurly =>
    .token colon :: .token openCurly :: .token closeCurly :: memberInitializersItems inits

/-- The items of a declarator with its initializer. -/
def InitDeclarator.items : InitDeclarator → List Item
  | ⟨declarator, init, comma⟩ => .token comma :: (declarator.items ++ init.items)

/-- The items of declarators with their initializers. -/
def initDeclaratorsItems : List InitDeclarator → List Item
  | [] => []
  | declarator :: rest => declarator.items ++ initDeclaratorsItems rest

/-- The items of specifiers and declarators. -/
def SimpleDeclaration.items : SimpleDeclaration → List Item
  | ⟨specifiers, declarators, semicolon⟩ =>
    .token semicolon :: (specifiersItems specifiers ++ initDeclaratorsItems declarators)

/-- The items of a declaration. -/
def Declaration.items : Declaration → List Item
  | .namespaceBlock keyword qid openCurly closeCurly members =>
    .token keyword :: .token openCurly :: .token closeCurly :: .block members ::
      (qid.items ++ declarationsItems members)
  | .templated keyword params declared => .token keyword :: (params.items ++ declaredItems declared)
  | .simple simple => simple.items
  | .accessLabel keyword colon => [.token keyword, .token colon]
  | .staticAssert keyword openParen closeParen arguments semicolon =>
    .token keyword :: .token openParen :: .token closeParen :: .token semicolon ::
      callArgumentsItems arguments
  | .usingNamespace usingToken namespaceToken qid semicolon =>
    .token usingToken :: .token namespaceToken :: .token semicolon :: qid.items
  | .typeAlias usingToken name equals specifiers declarator semicolon =>
    .token usingToken :: .token name :: .token equals :: .token semicolon ::
      (specifiersItems specifiers ++ declarator.items)
  | .linkageBlock externToken literal openCurly closeCurly members =>
    .token externToken :: .token literal :: .token openCurly :: .token closeCurly ::
      .block members :: declarationsItems members
  | .empty semicolon => [.token semicolon]

/-- The items of a declaration that may be missing. -/
def declaredItems : Option Declaration → List Item
  | none => []
  | some declaration => declaration.items

/-- The items of declarations. -/
def declarationsItems : List Declaration → List Item
  | [] => []
  | declaration :: rest => declaration.items ++ declarationsItems rest

end

/-- The items of the tree of a whole source. -/
def TranslationUnit.items (unit : TranslationUnit) : List Item :=
  .block unit.members :: declarationsItems unit.members

/-! ## Items of any value -/

/-- Values of the type are made of items. -/
class Itemed (α : Type) where
  /-- The items of a value. -/
  items : α → List Item

export Itemed (items)

section

variable {α β : Type} [Itemed α] [Itemed β]

instance : Itemed Token := ⟨fun t => [.token t]⟩
instance : Itemed (List α) := ⟨List.flatMap items⟩
instance : Itemed (Option α) := ⟨fun a? => a?.toList.flatMap items⟩
instance : Itemed (α × β) := ⟨fun x => items x.1 ++ items x.2⟩
instance : Itemed Unit := ⟨fun _ => []⟩
instance : Itemed Bool := ⟨fun _ => []⟩
instance : Itemed Parse.Activity := ⟨fun _ => []⟩
instance : Itemed Expression := ⟨Expression.items⟩
instance : Itemed NestedName := ⟨NestedName.items⟩
instance : Itemed TemplateArgument := ⟨TemplateArgument.items⟩
instance : Itemed Unqualified := ⟨Unqualified.items⟩
instance : Itemed QualifiedId := ⟨QualifiedId.items⟩
instance : Itemed Specifier := ⟨Specifier.items⟩
instance : Itemed Record := ⟨Record.items⟩
instance : Itemed BaseSpecifier := ⟨BaseSpecifier.items⟩
instance : Itemed Enumeration := ⟨Enumeration.items⟩
instance : Itemed Enumerator := ⟨Enumerator.items⟩
instance : Itemed Production := ⟨Production.items⟩
instance : Itemed FunctionDeclarator := ⟨FunctionDeclarator.items⟩
instance : Itemed ParameterList := ⟨ParameterList.items⟩
instance : Itemed Parameter := ⟨Parameter.items⟩
instance : Itemed Declarator := ⟨Declarator.items⟩
instance : Itemed MemberInitializer := ⟨MemberInitializer.items⟩
instance : Itemed Initializer := ⟨Initializer.items⟩
instance : Itemed InitDeclarator := ⟨InitDeclarator.items⟩
instance : Itemed SimpleDeclaration := ⟨SimpleDeclaration.items⟩
instance : Itemed Declaration := ⟨Declaration.items⟩

end

theorem nestedNamesItems_eq (l : List NestedName) : nestedNamesItems l = items l := by
  induction l <;> simp_all [nestedNamesItems, items]

theorem templateArgumentsItems_eq (l : List TemplateArgument) : templateArgumentsItems l = items l := by
  induction l <;> simp_all [templateArgumentsItems, items]

theorem specifiersItems_eq (l : List Specifier) : specifiersItems l = items l := by
  induction l <;> simp_all [specifiersItems, items]

theorem basesItems_eq (l : List BaseSpecifier) : basesItems l = items l := by
  induction l <;> simp_all [basesItems, items]

theorem enumeratorsItems_eq (l : List Enumerator) : enumeratorsItems l = items l := by
  induction l <;> simp_all [enumeratorsItems, items]

theorem chainItems_eq (l : List Production) : chainItems l = items l := by
  induction l <;> simp_all [chainItems, items]

theorem parametersItems_eq (l : List Parameter) : parametersItems l = items l := by
  induction l <;> simp_all [parametersItems, items]

theorem memberInitializersItems_eq (l : List MemberInitializer) : memberInitializersItems l = items l := by
  induction l <;> simp_all [memberInitializersItems, items]

theorem initDeclaratorsItems_eq (l : List InitDeclarator) : initDeclaratorsItems l = items l := by
  induction l <;> simp_all [initDeclaratorsItems, items]

theorem declarationsItems_eq (l : List Declaration) : declarationsItems l = items l := by
  induction l <;> simp_all [declarationsItems, items]

/-! ## Values that are among given items -/

/-- All items that count are among the given ones. -/
def Made (l G : List Item) : Prop := ∀ i ∈ l, i.counts = true → i ∈ G

section

variable {l l' G H : List Item} {i : Item}

theorem made_nil : Made [] G := List.forall_mem_nil _

theorem made_cons : Made (i :: l) G ↔ (i.counts = true → i ∈ G) ∧ Made l G := List.forall_mem_cons

theorem made_append : Made (l ++ l') G ↔ Made l G ∧ Made l' G := List.forall_mem_append

theorem Made.mono (h : Made l G) (hsub : G ⊆ H) : Made l H := fun i hi hcounts => hsub (h i hi hcounts)

end

/-- A value is made of the given items. -/
class Among {α : Type} [Itemed α] (a : α) (G : List Item) : Prop where
  /-- Its items are among them. -/
  made : Made (items a) G

section

variable {α β : Type} [Itemed α] [Itemed β] {G H : List Item}

/-! ### Tokens, lists, options and pairs -/

instance : Among Token.absent G := ⟨made_cons.2 ⟨nofun, made_nil⟩⟩

instance : Among () G := ⟨made_nil⟩

instance {b : Bool} : Among b G := ⟨made_nil⟩

instance {a : Parse.Activity} : Among a G := ⟨made_nil⟩

instance : Among ([] : List α) G := ⟨made_nil⟩

instance {a : α} {as : List α} [h : Among a G] [h' : Among as G] : Among (a :: as) G :=
  ⟨made_append.2 ⟨h.made, h'.made⟩⟩

instance {as bs : List α} [h : Among as G] [h' : Among bs G] : Among (as ++ bs) G :=
  ⟨by simpa [items] using made_append.2 ⟨h.made, h'.made⟩⟩

instance : Among (none : Option α) G := ⟨made_nil⟩

instance {a : α} [h : Among a G] : Among (some a) G := ⟨by simpa [items] using h.made⟩

instance {a : α} {b : β} [h : Among a G] [h' : Among b G] : Among (a, b) G :=
  ⟨made_append.2 ⟨h.made, h'.made⟩⟩

instance {a? : Option Token} [h : Among a? G] : Among (a?.getD .absent) G := by
  cases a? with
  | none => exact (inferInstance : Among Token.absent G)
  | some t => exact ⟨by simpa [items] using h.made⟩

instance {a b : α} {c : Prop} [Decidable c] [Among a G] [Among b G] :
    Among (if c then a else b) G := by
  split <;> infer_instance

/-- What a value is made of is among its own items and others. -/
instance (priority := high) {a : α} : Among a (G ++ items a) :=
  ⟨fun _ hi _ => List.mem_append_right G hi⟩

instance {a : α} [h : Among a G] : Among a (G ++ H) := ⟨h.made.mono (List.subset_append_left G H)⟩

instance (priority := high) {a : α} {b : β} : Among a (G ++ items (a, b)) :=
  ⟨fun _ hi _ => List.mem_append_right G (List.mem_append_left _ hi)⟩

instance (priority := high) {a : α} {b : β} : Among b (G ++ items (a, b)) :=
  ⟨fun _ hi _ => List.mem_append_right G (List.mem_append_right _ hi)⟩

instance (priority := low) {γ : Type} [Itemed γ] {a : α} {b : β} {c : γ}
    [h : Among c (G ++ items b)] : Among c (G ++ items (a, b)) := by
  refine ⟨h.made.mono (List.append_subset.2 ⟨List.subset_append_left G _, ?_⟩)⟩
  exact fun _ hi => List.mem_append_right G (List.mem_append_right _ hi)

instance (priority := high) {x : α × β} : Among x.1 (G ++ items x) :=
  ⟨fun _ hi _ => List.mem_append_right G (List.mem_append_left _ hi)⟩

instance (priority := high) {x : α × β} : Among x.2 (G ++ items x) :=
  ⟨fun _ hi _ => List.mem_append_right G (List.mem_append_right _ hi)⟩

instance (priority := high) {a : α} : Among a (G ++ items (some a)) :=
  ⟨fun _ hi _ => List.mem_append_right G (by simpa [items] using hi)⟩

end

/-! ### Nodes of a tree -/

/-- A block, with its declarations. -/
structure Block where
  /-- The declarations. -/
  members : List Declaration

instance : Itemed Block := ⟨fun b => .block b.members :: items b.members⟩

/-- Template arguments with the brackets around them. -/
structure ArgumentList where
  /-- The opening bracket. -/
  openAngle : Token
  /-- The closing bracket. -/
  closeAngle : Token
  /-- The arguments. -/
  args : List TemplateArgument

instance : Itemed ArgumentList :=
  ⟨fun l => .arguments l.openAngle l.closeAngle l.args :: items l.args⟩

section

variable {l l' G : List Item} {a b c d e f : Token}

theorem made_token (t : Token) [h : Among t G] (hl : Made l G) : Made (.token t :: l) G :=
  made_cons.2 ⟨(made_cons.1 h.made).1, hl⟩

theorem Made.append (hl : Made l G) (hl' : Made l' G) : Made (l ++ l') G := made_append.2 ⟨hl, hl'⟩

theorem made_tokens (ts : List Token) [h : Among ts G] : Made (ts.map .token) G := by
  have hmap : ts.map .token = items ts := by
    induction ts <;> simp_all [items]
  exact hmap ▸ h.made

theorem made_nestedNames (l : List NestedName) [h : Among l G] : Made (nestedNamesItems l) G :=
  nestedNamesItems_eq l ▸ h.made

theorem made_specifiers (l : List Specifier) [h : Among l G] : Made (specifiersItems l) G :=
  specifiersItems_eq l ▸ h.made

theorem made_bases (l : List BaseSpecifier) [h : Among l G] : Made (basesItems l) G :=
  basesItems_eq l ▸ h.made

theorem made_enumerators (l : List Enumerator) [h : Among l G] : Made (enumeratorsItems l) G :=
  enumeratorsItems_eq l ▸ h.made

theorem made_chain (l : List Production) [h : Among l G] : Made (chainItems l) G :=
  chainItems_eq l ▸ h.made

theorem made_parameters (l : List Parameter) [h : Among l G] : Made (parametersItems l) G :=
  parametersItems_eq l ▸ h.made

theorem made_memberInitializers (l : List MemberInitializer) [h : Among l G] :
    Made (memberInitializersItems l) G :=
  memberInitializersItems_eq l ▸ h.made

theorem made_initDeclarators (l : List InitDeclarator) [h : Among l G] :
    Made (initDeclaratorsItems l) G :=
  initDeclaratorsItems_eq l ▸ h.made

instance {openAngle : Token} {args : List TemplateArgument} [h : Among args G] :
    Among (ArgumentList.mk openAngle .absent args) G := ⟨made_cons.2 ⟨nofun, h.made⟩⟩

theorem made_argumentList (l : ArgumentList) [h : Among l G] :
    Made (.arguments l.openAngle l.closeAngle l.args :: templateArgumentsItems l.args) G :=
  templateArgumentsItems_eq l.args ▸ h.made

instance {name openAngle closeAngle sep : Token} {args : List TemplateArgument} [Among name G]
    [Among openAngle G] [Among closeAngle G] [Among (ArgumentList.mk openAngle closeAngle args) G]
    [Among sep G] : Among (NestedName.named name openAngle closeAngle args sep) G :=
  ⟨made_token name (made_token openAngle (made_token closeAngle (made_token sep
    (made_argumentList ⟨openAngle, closeAngle, args⟩))))⟩

instance {keyword openParen closeParen sep : Token} [Among keyword G] [Among openParen G]
    [Among closeParen G] [Among sep G] :
    Among (NestedName.decltype keyword openParen closeParen sep) G :=
  ⟨made_token keyword (made_token openParen (made_token closeParen (made_token sep made_nil)))⟩

instance {start stop comma : Token} [Among start G] [Among stop G] [Among comma G] :
    Among (TemplateArgument.unknown start stop comma) G :=
  ⟨made_token start (made_token stop (made_token comma made_nil))⟩

instance {specifiers : List Specifier} {chain : Chain} {comma : Token} [Among specifiers G]
    [Among chain G] [Among comma G] :
    Among (TemplateArgument.typeId specifiers chain comma) G :=
  ⟨made_token comma ((made_specifiers specifiers).append (made_chain chain))⟩

instance {name : Token} [Among name G] :
    Among (Unqualified.identifier name) G := ⟨made_token name made_nil⟩

instance {name openAngle closeAngle : Token} {args : List TemplateArgument} [Among name G]
    [Among openAngle G] [Among closeAngle G] [Among (ArgumentList.mk openAngle closeAngle args) G] :
    Among (Unqualified.templateId name openAngle closeAngle args) G :=
  ⟨made_token name (made_token openAngle (made_token closeAngle
    (made_argumentList ⟨openAngle, closeAngle, args⟩)))⟩

instance {keyword openParen closeParen : Token} [Among keyword G] [Among openParen G]
    [Among closeParen G] :
    Among (Unqualified.decltype keyword openParen closeParen) G :=
  ⟨made_token keyword (made_token openParen (made_token closeParen made_nil))⟩

instance {tilde name : Token} [Among tilde G] [Among name G] :
    Among (Unqualified.destructor tilde name) G := ⟨made_token tilde (made_token name made_nil)⟩

instance {keyword punc punc2 : Token} [Among keyword G] [Among punc G] [Among punc2 G] :
    Among (Unqualified.operator keyword punc punc2) G :=
  ⟨made_token keyword (made_token punc (made_token punc2 made_nil))⟩

instance {keyword : Token} {specifiers : List Specifier} {chain : Chain} [Among keyword G]
    [Among specifiers G] [Among chain G] :
    Among (Unqualified.conversion keyword specifiers chain) G :=
  ⟨made_token keyword ((made_specifiers specifiers).append (made_chain chain))⟩

instance {nested : List NestedName} {unqual : Unqualified} [Among nested G] [Among unqual G] :
    Among (QualifiedId.mk nested unqual) G :=
  ⟨((made_nestedNames nested).append (Among.made (a := unqual)))⟩

instance {token : Token} [Among token G] :
    Among (Specifier.keyword token) G := ⟨made_token token made_nil⟩

instance {token : Token} [Among token G] :
    Among (Specifier.ellipsis token) G := ⟨made_token token made_nil⟩

instance {externToken literal : Token} [Among externToken G] [Among literal G] :
    Among (Specifier.linkage externToken literal) G :=
  ⟨made_token externToken (made_token literal made_nil)⟩

instance {record : Record} [Among record G] :
    Among (Specifier.record record) G := ⟨(Among.made (a := record))⟩

instance {enumeration : Enumeration} [Among enumeration G] :
    Among (Specifier.enumeration enumeration) G := ⟨(Among.made (a := enumeration))⟩

instance {typename : Token} {qid : QualifiedId} {wasAssumed : Bool} [Among typename G] [Among qid G] :
    Among (Specifier.typeName typename qid wasAssumed) G :=
  ⟨made_token typename (Among.made (a := qid))⟩

instance {keyword ellipsis identifier : Token} [Among keyword G] [Among ellipsis G]
    [Among identifier G] :
    Among (Specifier.typeParam keyword ellipsis identifier) G :=
  ⟨made_token keyword (made_token ellipsis (made_token identifier made_nil))⟩

instance {access comma : Token} {qid : QualifiedId} [Among access G] [Among qid G] [Among comma G] :
    Among (BaseSpecifier.mk access qid comma) G :=
  ⟨made_token access (made_token comma (Among.made (a := qid)))⟩

instance {enumKey classKey basePunc openCurly closeCurly : Token} {qid base : QualifiedId}
    {enumerators : List Enumerator} [Among enumKey G] [Among classKey G] [Among qid G]
    [Among basePunc G] [Among base G] [Among openCurly G] [Among closeCurly G] [Among enumerators G] :
    Among (Enumeration.mk enumKey classKey qid basePunc base openCurly closeCurly enumerators) G :=
  ⟨made_token enumKey (made_token classKey (made_token basePunc (made_token openCurly
    (made_token closeCurly (((Among.made (a := qid)).append (Among.made (a := base))).append
    (made_enumerators enumerators))))))⟩

instance {identifier comma : Token} {init : Initializer} [Among identifier G] [Among init G]
    [Among comma G] :
    Among (Enumerator.mk identifier init comma) G :=
  ⟨made_token identifier (made_token comma (Among.made (a := init)))⟩

instance {openParen closeParen : Token} [Among openParen G] [Among closeParen G] :
    Among (Production.parenthesized openParen closeParen) G :=
  ⟨made_token openParen (made_token closeParen made_nil)⟩

instance {nested : List NestedName} {punc : Token} [Among nested G] [Among punc G] :
    Among (Production.pointerTo nested punc) G := ⟨made_token punc (made_nestedNames nested)⟩

instance {openSquare closeSquare : Token} {size : Expression} [Among openSquare G]
    [Among closeSquare G] [Among size G] :
    Among (Production.arrayOf openSquare closeSquare size) G :=
  ⟨made_token openSquare (made_token closeSquare (Among.made (a := size)))⟩

instance {function : FunctionDeclarator} [Among function G] :
    Among (Production.function function) G := ⟨(Among.made (a := function))⟩

instance {keyword : Token} [Among keyword G] :
    Among (Production.qualifier keyword) G := ⟨made_token keyword made_nil⟩

instance {params : ParameterList} {qualifiers : List Token} {arrow : Token} {trailing : QualifiedId}
    [Among params G] [Among qualifiers G] [Among arrow G] [Among trailing G] :
    Among (FunctionDeclarator.mk params qualifiers arrow trailing) G :=
  ⟨made_token arrow (((Among.made (a := params)).append (made_tokens qualifiers)).append
    (Among.made (a := trailing)))⟩

instance {openPunc closePunc : Token} {params : List Parameter} [Among openPunc G]
    [Among closePunc G] [Among params G] :
    Among (ParameterList.mk openPunc closePunc params) G :=
  ⟨made_token openPunc (made_token closePunc (made_parameters params))⟩

instance {specifiers : List Specifier} {declarator : Declarator} {init : Initializer}
    {comma : Token} [Among specifiers G] [Among declarator G] [Among init G] [Among comma G] :
    Among (Parameter.mk specifiers declarator init comma) G :=
  ⟨made_token comma (((made_specifiers specifiers).append (Among.made (a := declarator))).append
    (Among.made (a := init)))⟩

instance {chain : Chain} {qid : QualifiedId} [Among chain G] [Among qid G] :
    Among (Declarator.mk chain qid) G := ⟨((made_chain chain).append (Among.made (a := qid)))⟩

instance {qid : QualifiedId} {openPunc closePunc comma : Token} [Among qid G] [Among openPunc G]
    [Among closePunc G] [Among comma G] :
    Among (MemberInitializer.mk qid openPunc closePunc comma) G :=
  ⟨made_token openPunc (made_token closePunc (made_token comma (Among.made (a := qid))))⟩

instance {start stop equalSign : Token} [Among start G] [Among stop G] [Among equalSign G] :
    Among (Initializer.expression start stop equalSign) G :=
  ⟨made_token start (made_token stop (made_token equalSign made_nil))⟩

instance {colon start stop : Token} [Among colon G] [Among start G] [Among stop G] :
    Among (Initializer.bitField colon start stop) G :=
  ⟨made_token colon (made_token start (made_token stop made_nil))⟩

instance {specifiers : List Specifier} {chain : Chain} {equalSign : Token} [Among specifiers G]
    [Among chain G] [Among equalSign G] :
    Among (Initializer.typeId specifiers chain equalSign) G :=
  ⟨made_token equalSign ((made_specifiers specifiers).append (made_chain chain))⟩

instance {colon openCurly closeCurly : Token} {inits : List MemberInitializer} [Among colon G]
    [Among inits G] [Among openCurly G] [Among closeCurly G] :
    Among (Initializer.functionBody colon inits openCurly closeCurly) G :=
  ⟨made_token colon (made_token openCurly (made_token closeCurly (made_memberInitializers inits)))⟩

instance {declarator : Declarator} {init : Initializer} {comma : Token} [Among declarator G]
    [Among init G] [Among comma G] :
    Among (InitDeclarator.mk declarator init comma) G :=
  ⟨made_token comma ((Among.made (a := declarator)).append (Among.made (a := init)))⟩

instance {specifiers : List Specifier} {declarators : List InitDeclarator} {semicolon : Token}
    [Among specifiers G] [Among declarators G] [Among semicolon G] :
    Among (SimpleDeclaration.mk specifiers declarators semicolon) G :=
  ⟨made_token semicolon ((made_specifiers specifiers).append (made_initDeclarators declarators))⟩

instance {simple : SimpleDeclaration} [Among simple G] :
    Among (Declaration.simple simple) G := ⟨(Among.made (a := simple))⟩

instance {keyword colon : Token} [Among keyword G] [Among colon G] :
    Among (Declaration.accessLabel keyword colon) G :=
  ⟨made_token keyword (made_token colon made_nil)⟩

instance {usingToken namespaceToken semicolon : Token} {qid : QualifiedId} [Among usingToken G]
    [Among namespaceToken G] [Among qid G] [Among semicolon G] :
    Among (Declaration.usingNamespace usingToken namespaceToken qid semicolon) G :=
  ⟨made_token usingToken (made_token namespaceToken (made_token semicolon (Among.made (a := qid))))⟩

instance {usingToken name equals semicolon : Token} {specifiers : List Specifier}
    {declarator : Declarator} [Among usingToken G] [Among name G] [Among equals G]
    [Among specifiers G] [Among declarator G] [Among semicolon G] :
    Among (Declaration.typeAlias usingToken name equals specifiers declarator semicolon) G :=
  ⟨made_token usingToken (made_token name (made_token equals (made_token semicolon
    ((made_specifiers specifiers).append (Among.made (a := declarator))))))⟩

instance {semicolon : Token} [Among semicolon G] :
    Among (Declaration.empty semicolon) G := ⟨made_token semicolon made_nil⟩

instance : Among Unqualified.empty G := ⟨made_nil⟩

instance : Among QualifiedId.empty G := inferInstanceAs (Among (QualifiedId.mk [] .empty) G)

instance : Among Initializer.none G := ⟨made_nil⟩

instance : Among Declarator.empty G := inferInstanceAs (Among (Declarator.mk [] .empty) G)

instance : Among ParameterList.empty G :=
  inferInstanceAs (Among (ParameterList.mk .absent .absent []) G)

instance : Among SimpleDeclaration.empty G :=
  inferInstanceAs (Among (SimpleDeclaration.mk [] [] .absent) G)

instance {start stop : Token} [Among start G] [Among stop G] :
    Among (Expression.between start stop) G := by
  unfold Expression.between
  split
  · exact ⟨made_token start (made_token stop made_nil)⟩
  · exact ⟨made_nil⟩

instance {name : Token} [Among name G] : Among (QualifiedId.ofIdentifier name) G :=
  inferInstanceAs (Among (QualifiedId.mk [] (.identifier name)) G)

instance : Among (Block.mk []) G := ⟨made_cons.2 ⟨nofun, made_nil⟩⟩

instance {classKey colon openCurly closeCurly : Token} {qid : QualifiedId} {words : List Token}
    {bases : List BaseSpecifier} {members : List Declaration} [Among classKey G] [Among qid G]
    [Among words G] [Among colon G] [Among bases G] [Among openCurly G] [Among closeCurly G]
    [h : Among (Block.mk members) G] :
    Among (Record.mk classKey qid words colon bases openCurly closeCurly members) G := by
  obtain ⟨hblock, hmembers⟩ := made_cons.1 h.made
  refine ⟨made_token classKey (made_token colon (made_token openCurly (made_token closeCurly
    (made_cons.2 ⟨hblock, .append (.append (.append (Among.made (a := qid)) (made_tokens words))
      (made_bases bases)) ?_⟩))))⟩
  exact declarationsItems_eq members ▸ hmembers

instance {keyword openCurly closeCurly : Token} {qid : QualifiedId} {members : List Declaration}
    [Among keyword G] [Among qid G] [Among openCurly G] [Among closeCurly G]
    [h : Among (Block.mk members) G] :
    Among (Declaration.namespaceBlock keyword qid openCurly closeCurly members) G := by
  obtain ⟨hblock, hmembers⟩ := made_cons.1 h.made
  refine ⟨made_token keyword (made_token openCurly (made_token closeCurly
    (made_cons.2 ⟨hblock, .append (Among.made (a := qid)) ?_⟩)))⟩
  exact declarationsItems_eq members ▸ hmembers

instance {externToken literal openCurly closeCurly : Token} {members : List Declaration}
    [Among externToken G] [Among literal G] [Among openCurly G] [Among closeCurly G]
    [h : Among (Block.mk members) G] :
    Among (Declaration.linkageBlock externToken literal openCurly closeCurly members) G := by
  obtain ⟨hblock, hmembers⟩ := made_cons.1 h.made
  refine ⟨made_token externToken (made_token literal (made_token openCurly (made_token closeCurly
    (made_cons.2 ⟨hblock, ?_⟩))))⟩
  exact declarationsItems_eq members ▸ hmembers

instance {keyword : Token} {params : ParameterList} {declared : Option Declaration}
    [Among keyword G] [Among params G] [h : Among declared G] :
    Among (Declaration.templated keyword params declared) G := by
  refine ⟨made_token keyword (.append (Among.made (a := params)) ?_)⟩
  cases declared with
  | none => exact made_nil
  | some d => simpa [items, declaredItems] using h.made

instance {keyword openParen closeParen semicolon : Token} [Among keyword G] [Among openParen G]
    [Among closeParen G] [Among semicolon G] :
    Among (Declaration.staticAssert keyword openParen closeParen [] semicolon) G :=
  ⟨made_token keyword (made_token openParen (made_token closeParen (made_token semicolon made_nil)))⟩

/-! ### Parts of nodes -/

instance {qid : QualifiedId} [h : Among qid G] : Among qid.nested G := by
  cases qid
  exact ⟨nestedNamesItems_eq _ ▸ (made_append.1 h.made).1⟩

instance {qid : QualifiedId} [h : Among qid G] : Among qid.unqual G := by
  cases qid
  exact ⟨(made_append.1 h.made).2⟩

instance {d : Declarator} [h : Among d G] : Among d.chain G := by
  cases d
  exact ⟨chainItems_eq _ ▸ (made_append.1 h.made).1⟩

instance {d : Declarator} [h : Among d G] : Among d.qid G := by
  cases d
  exact ⟨(made_append.1 h.made).2⟩

instance {d : InitDeclarator} [h : Among d G] : Among d.declarator G := by
  cases d
  exact ⟨(made_append.1 (made_cons.1 h.made).2).1⟩

instance {d : InitDeclarator} [h : Among d G] : Among d.init G := by
  cases d
  exact ⟨(made_append.1 (made_cons.1 h.made).2).2⟩

instance {simple : SimpleDeclaration} [h : Among simple G] : Among simple.specifiers G := by
  cases simple
  exact ⟨specifiersItems_eq _ ▸ (made_append.1 (made_cons.1 h.made).2).1⟩

instance {simple : SimpleDeclaration} [h : Among simple G] : Among simple.declarators G := by
  cases simple
  exact ⟨initDeclaratorsItems_eq _ ▸ (made_append.1 (made_cons.1 h.made).2).2⟩

instance {simple : SimpleDeclaration} [h : Among simple G] : Among simple.semicolon G := by
  cases simple
  exact ⟨made_cons.2 ⟨(made_cons.1 h.made).1, made_nil⟩⟩

theorem Among.head {α : Type} [Itemed α] {x : α} {xs : List α} (h : Among (x :: xs) G) : Among x G :=
  ⟨(made_append.1 h.made).1⟩

/-! ### What the grammar builds -/

open Grammar

instance {component : NestedName} {sep : Token} [h : Among component G] [Among sep G] :
    Among (component.withSep sep) G := by
  cases component with
  | named name openAngle closeAngle args _ =>
    obtain ⟨hname, hrest⟩ := made_cons.1 h.made
    obtain ⟨hopen, hrest⟩ := made_cons.1 hrest
    obtain ⟨hclose, hrest⟩ := made_cons.1 hrest
    exact ⟨made_cons.2 ⟨hname, made_cons.2 ⟨hopen, made_cons.2 ⟨hclose,
      made_token sep (made_cons.1 hrest).2⟩⟩⟩⟩
  | decltype keyword openParen closeParen _ =>
    obtain ⟨hkeyword, hrest⟩ := made_cons.1 h.made
    obtain ⟨hopen, hrest⟩ := made_cons.1 hrest
    exact ⟨made_cons.2 ⟨hkeyword, made_cons.2 ⟨hopen, made_cons.2 ⟨(made_cons.1 hrest).1,
      made_token sep made_nil⟩⟩⟩⟩

instance {component : NestedName} [h : Among component G] : Among component.toUnqualified G := by
  cases component with
  | named name openAngle closeAngle args _ =>
    obtain ⟨hname, hrest⟩ := made_cons.1 h.made
    rw [NestedName.toUnqualified]
    split
    · obtain ⟨hopen, hrest⟩ := made_cons.1 hrest
      obtain ⟨hclose, hrest⟩ := made_cons.1 hrest
      exact ⟨made_cons.2 ⟨hname, made_cons.2 ⟨hopen, made_cons.2 ⟨hclose, (made_cons.1 hrest).2⟩⟩⟩⟩
    · exact ⟨made_cons.2 ⟨hname, made_nil⟩⟩
  | decltype keyword openParen closeParen _ =>
    obtain ⟨hkeyword, hrest⟩ := made_cons.1 h.made
    obtain ⟨hopen, hrest⟩ := made_cons.1 hrest
    exact ⟨made_cons.2 ⟨hkeyword, made_cons.2 ⟨hopen, made_cons.2 ⟨(made_cons.1 hrest).1,
      made_nil⟩⟩⟩⟩

/-- A part of a list is among the items of the list. -/
theorem Among.of_subset {α : Type} [Itemed α] {as bs : List α} (h : Among bs G) (hsub : as ⊆ bs) :
    Among as G := by
  refine ⟨fun i hi => h.made i ?_⟩
  obtain ⟨a, ha, hi⟩ := List.mem_flatMap.1 hi
  exact List.mem_flatMap.2 ⟨a, hsub ha, hi⟩

theorem Among.of_mem {α : Type} [Itemed α] {a : α} {as : List α} (h : Among as G) (ha : a ∈ as) :
    Among a G := (h.of_subset (List.cons_subset.2 ⟨ha, List.nil_subset as⟩)).head

instance {components : List NestedName} [h : Among components G] :
    Among (splitLast components) G := by
  rw [splitLast]
  cases hlast : components.getLast? with
  | none => exact (inferInstance : Among QualifiedId.empty G)
  | some last =>
    have := h.of_mem (List.mem_of_getLast? hlast)
    have := h.of_subset (List.dropLast_subset components)
    dsimp only
    split <;> infer_instance

instance {comma : Token} {argument : TemplateArgument} [h : Among argument G] [Among comma G] :
    Among (withComma comma argument) G := by
  cases argument with
  | unknown start stop _ =>
    obtain ⟨hstart, hrest⟩ := made_cons.1 h.made
    exact ⟨made_cons.2 ⟨hstart, made_cons.2 ⟨(made_cons.1 hrest).1, made_token comma made_nil⟩⟩⟩
  | typeId specifiers chain _ => exact ⟨made_token comma (made_cons.1 h.made).2⟩

instance {simple : SimpleDeclaration} [Among simple G] : Among (typeChain simple) G := by
  have h : Among simple.declarators G := inferInstance
  rw [typeChain]
  cases hdeclarators : simple.declarators with
  | nil => exact (inferInstance : Among ([] : Chain) G)
  | cons d _ =>
    rw [hdeclarators] at h
    have := h.head
    exact (inferInstance : Among d.declarator.chain G)

instance {chain : Chain} {depth : Nat} {production : Production} [h : Among chain G]
    [Among production G] : Among (Chain.insertAt chain depth production) G := by
  have := h.of_subset (List.take_subset depth chain)
  have := h.of_subset (List.drop_subset depth chain)
  exact (inferInstance : Among (chain.take depth ++ production :: chain.drop depth) G)

instance {list : ParameterList} {parameter? : Option Parameter} {comma : Token} [h : Among list G]
    [h' : Among parameter? G] [Among comma G] : Among (addParameter list parameter? comma) G := by
  cases parameter? with
  | none => exact h
  | some p =>
    obtain ⟨openPunc, closePunc, params⟩ := list
    obtain ⟨specifiers, declarator, init, _⟩ := p
    obtain ⟨hopen, hrest⟩ := made_cons.1 h.made
    obtain ⟨hclose, hparams⟩ := made_cons.1 hrest
    have hp : Made (Parameter.mk specifiers declarator init comma).items G := by
      obtain ⟨-, hp⟩ : _ ∧ Made _ G := made_cons.1 (made_append.1 h'.made).1
      exact made_token comma hp
    have : Among params G := ⟨parametersItems_eq params ▸ hparams⟩
    have : Among (Parameter.mk specifiers declarator init comma) G := ⟨hp⟩
    exact ⟨made_cons.2 ⟨hopen, made_cons.2 ⟨hclose, made_parameters _⟩⟩⟩

instance {list : ParameterList} {closer : Token} [h : Among list G] [Among closer G] :
    Among { list with closePunc := closer } G := by
  cases list
  obtain ⟨hopen, hrest⟩ := made_cons.1 h.made
  exact ⟨made_cons.2 ⟨hopen, made_token closer (made_cons.1 hrest).2⟩⟩

instance {f : FunctionDeclarator} {arrow : Token} {trailing : QualifiedId} [h : Among f G]
    [Among arrow G] [Among trailing G] : Among { f with arrow, trailing } G := by
  cases f
  obtain ⟨-, hrest⟩ := made_cons.1 h.made
  exact ⟨made_token arrow (.append (made_append.1 hrest).1 (Among.made (a := trailing)))⟩

instance {name : Token} [Among name G] : Among (plainType name) G :=
  inferInstanceAs (Among (Specifier.typeName .absent (.ofIdentifier name) false) G)

instance {simple : SimpleDeclaration} {specifier : Specifier} [Among simple G]
    [Among specifier G] : Among (addSpecifier simple specifier) G :=
  inferInstanceAs (Among (SimpleDeclaration.mk (simple.specifiers ++ [specifier]) simple.declarators
    simple.semicolon) G)

instance {simple : SimpleDeclaration} {d : Declarator} {init : Initializer} {comma : Token}
    [Among simple G] [Among d G] [Among init G] [Among comma G] :
    Among (addDeclarator simple d init comma) G :=
  inferInstanceAs (Among (SimpleDeclaration.mk simple.specifiers
    (simple.declarators ++ [⟨d, init, comma⟩]) simple.semicolon) G)

end

end CppDecl
