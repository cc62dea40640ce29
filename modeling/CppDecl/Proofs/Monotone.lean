import CppDecl.Grammar
import CppDecl.Proofs.Visited

/-!
# Results of calls

An action is *below* another one if whatever it results in, the other one does as well.  The body of
each rule is monotone in that sense: if calls are below other calls, the body with the ones is below
the body with the others (`Grammar.body_mono`).

So a result does not depend on the depth that is allowed (`Grammar.run_mono`).
-/

namespace CppDecl

namespace Parse

variable {α β : Type}

/-- Whatever an action results in, the other one does as well. -/
def Below (p q : Parse α) : Prop := ∀ s a s', p s = .ok (a, s') → q s = .ok (a, s')

variable {p q r : Parse α} {f g : α → Parse β}

theorem Below.refl (p : Parse α) : Below p p := fun _ _ _ h => h

theorem Below.trans (h : Below p q) (h' : Below q r) : Below p r :=
  fun s a s' heq => h' s a s' (h s a s' heq)

theorem Below.bind (hp : Below p q) (hf : ∀ a, Below (f a) (g a)) : Below (p >>= f) (q >>= g) := by
  intro s b s₂ heq
  simp only [Bind.bind, StateT.bind] at heq ⊢
  obtain ⟨⟨a, s₁⟩, hfirst, hrest⟩ := Halt.bind_eq_ok heq
  rw [hp s a s₁ hfirst]
  exact hf a s₁ b s₂ hrest

/-- The first action is the same. -/
theorem Below.after (hf : ∀ a, Below (f a) (g a)) : Below (p >>= f) (p >>= g) := (refl p).bind hf

/-- What follows is the same. -/
theorem Below.before (hp : Below p q) : Below (p >>= f) (q >>= f) := hp.bind fun a => refl (f a)

theorem Below.ite {c : Prop} [Decidable c] {p' q' : Parse α} (hp : Below p q) (hp' : Below p' q') :
    Below (if c then p else p') (if c then q else q') := by
  split
  · exact hp
  · exact hp'

/-- Something may come first. -/
theorem Below.afterIf {c : Prop} [Decidable c] {p : Parse Unit} {f g : Unit → Parse β}
    (hf : ∀ a, Below (f a) (g a)) :
    Below (if c then p >>= f else f ()) (if c then p >>= g else g ()) :=
  .ite (.after hf) (hf ())

theorem Below.within {accept : Accept → Accept} {angles : Bool → Bool} (h : Below p q) :
    Below (within accept angles p) (within accept angles q) :=
  .after fun _ => .after fun _ => .before h

end Parse

/-- Calls are below other calls. -/
def Call.Below (call call' : Call) : Prop :=
  ∀ {α : Type} (rule : Rule α), Parse.Below (call rule) (call' rule)

namespace Grammar

open Parse (Below)

variable {call call' : Call}

/-! ## Skipping -/

theorem skipScope_mono (h : call.Below call') (opener : Token) :
    Below (skipScope call opener) (skipScope call' opener) := by
  unfold skipScope
  split
  · exact .refl _
  · exact .within (h _)

theorem skipNested_mono (h : call.Below call') (token : Token) :
    Below (skipNested call token) (skipNested call' token) := by
  unfold skipNested
  split
  · exact .after fun _ => .ite (skipScope_mono h _) (.refl _)
  · exact skipScope_mono h _
  · exact skipScope_mono h _
  · exact skipScope_mono h _
  · exact .refl _

theorem skipTo_mono (h : call.Below call') (opener : Token) (closer : TokenKind) :
    Below (skipTo call opener closer) (skipTo call' opener closer) :=
  .after fun _ => .ite (.refl _) (.after fun _ => .ite (.refl _)
    ((skipNested_mono h _).bind fun _ => h _))

theorem stepOver_mono (h : call.Below call') (token : Token) :
    Below (stepOver call token) (stepOver call' token) :=
  .after fun _ => .ite (.refl _) (.before (skipNested_mono h _))

theorem closeScope_mono (h : call.Below call') (opener : Token) :
    Below (closeScope call opener) (closeScope call' opener) :=
  .after fun _ => .ite (.refl _) (.after fun _ => .after fun _ => .before (skipScope_mono h _))

/-- A token that makes no sense is left to a rule further out, or the list goes on behind it. -/
theorem stepOver_bind {α : Type} (h : call.Below call') (token : Token) {p : Parse α}
    {f g : Token → Parse α} (hf : ∀ last, Below (f last) (g last)) :
    Below (do match ← stepOver call token with | none => p | some last => f last)
      (do match ← stepOver call' token with | none => p | some last => g last) := by
  refine (stepOver_mono h token).bind ?_
  rintro (_ | last)
  · exact .refl p
  · exact hf last

/-! ## Names -/

theorem nestedSeparator_mono (h : call.Below call') (soFar : List NestedName)
    (component : NestedName) :
    Below (nestedSeparator call soFar component) (nestedSeparator call' soFar component) :=
  .after fun _ => .ite (h _) (.refl _)

theorem nestedNames_mono (h : call.Below call') (soFar : List NestedName) :
    Below (nestedNames call soFar) (nestedNames call' soFar) := by
  refine .after fun token => .ite (.refl _) (.after fun punc => .ite (.ite ?_ ?_) ?_)
  · exact (skipScope_mono h _).bind fun _ => nestedSeparator_mono h _ _
  · exact .after fun _ => .after fun _ => nestedSeparator_mono h _ _
  · refine .after fun _ => .ite ?_ (.after fun _ => nestedSeparator_mono h _ _)
    exact (Below.within (h _)).bind fun _ => .ite (nestedSeparator_mono h _ _) (.refl _)

theorem templateSeparator_mono (h : call.Below call') (start : Token) (argument : TemplateArgument) :
    Below (templateSeparator call start argument) (templateSeparator call' start argument) :=
  .after fun _ => .ite (.refl _) (stepOver_bind h _ fun _ => h _)

theorem specified_mono (h : call.Below call') (mode : Mode) :
    Below (specified call mode) (specified call' mode) := h _

theorem templateArguments_mono (h : call.Below call') (soFar : List TemplateArgument) :
    Below (templateArguments call soFar) (templateArguments call' soFar) := by
  refine .after fun start => .after fun trial => (specified_mono h _).bind fun simple =>
    .after fun failed => ?_
  refine .ite (.after fun _ => .after fun _ => ?_) (.after fun _ => .after fun _ => ?_) <;>
  exact (h _).bind fun _ => .ite (h _) (.refl _)

theorem qualifiedId_mono (h : call.Below call') (need : Completeness) :
    Below (qualifiedId call need) (qualifiedId call' need) := .before (h _)

/-! ## Parameters -/

theorem parameterList_mono (h : call.Below call') (forTemplate : Bool) :
    Below (parameterList call forTemplate) (parameterList call' forTemplate) :=
  .after fun _ => .after fun _ => .after fun _ => .ite (.refl _) (.after fun _ => .within (h _))

theorem templateParameter_mono (h : call.Below call') :
    Below (templateParameter call) (templateParameter call') := by
  refine .after fun opener => .ite (.refl _) (.after fun activity => ?_)
  refine (Below.within (parameterList_mono h true)).bind fun _ => .after fun failed => ?_
  exact .ite (.refl _) (.after fun word => .ite (.refl _) (.before (specified_mono h .typeId)))

theorem parameter_mono (h : call.Below call') (forTemplate : Bool) :
    Below (parameter call forTemplate) (parameter call' forTemplate) := by
  refine .after fun first => .ite (.refl _) (.ite (.before (templateParameter_mono h)) ?_)
  exact .after fun _ => .after fun _ => .before (specified_mono h _)

theorem parameters_mono (h : call.Below call') (forTemplate : Bool) (soFar : ParameterList) :
    Below (parameters call forTemplate soFar) (parameters call' forTemplate soFar) := by
  refine (parameter_mono h forTemplate).bind fun _ => .after fun token => ?_
  refine .ite (.refl _) (.ite (h _) (.after fun _ => .ite ?_ ?_))
  · exact .after fun _ => .ite (.after fun _ => h _) (.refl _)
  · exact stepOver_bind h token fun _ => h _

theorem functionQualifiers_mono (h : call.Below call') (soFar : List Token) :
    Below (functionQualifiers call soFar) (functionQualifiers call' soFar) :=
  .after fun _ => .ite (h _) (.refl _)

theorem functionDeclarator_mono (h : call.Below call') :
    Below (functionDeclarator call) (functionDeclarator call') :=
  .after fun _ => .ite (.refl _) (.after fun _ =>
    (parameterList_mono h false).bind fun _ => .before (h _))

/-! ## Expressions -/

theorem nameTail_mono (h : call.Below call') : Below (nameTail call) (nameTail call') := by
  refine .after fun first => ?_
  extract_lets rest rest'
  have hrest : ∀ token, Below (rest token) (rest' token) :=
    fun _ => .ite (.refl _) (.after fun _ => .ite (.refl _) (h _))
  refine .ite ?_ (.after hrest)
  exact (Below.within (skipScope_mono h _)).bind fun _ => .after hrest

theorem literals_mono (h : call.Below call') (last : Token) :
    Below (literals call last) (literals call' last) :=
  .after fun _ => .ite (h _) (.refl _)

theorem expressions_mono (h : call.Below call') (opener : TokenKind) (last : Token) :
    Below (expressions call opener last) (expressions call' opener last) := by
  unfold expressions
  split
  refine .after fun token => .ite (.refl _) (.after fun _ => (h _).bind fun _ => ?_)
  refine .after fun sep => .ite (h _) (.ite (.refl _) (.after fun _ => ?_))
  exact stepOver_bind h sep fun _ => h _

theorem lambda_mono (h : call.Below call') : Below (lambda call) (lambda call') := by
  refine .after fun captures => .afterIf fun _ => .after fun opener => ?_
  extract_lets body type body' type'
  have hbody : ∀ token, Below (body token) (body' token) :=
    fun token => .ite (.refl _) (.before (skipScope_mono h token))
  have htype : ∀ u, Below (type u) (type' u) := by
    refine fun _ => .after fun arrow => .ite ?_ (.after hbody)
    exact (specified_mono h .typeId).bind fun _ => .after hbody
  exact .ite ((parameterList_mono h false).bind fun _ => htype ()) (.after fun _ => htype ())

theorem operand_mono (h : call.Below call') (start : Token) :
    Below (operand call start) (operand call' start) := by
  unfold operand
  split
  · refine (h _).bind fun _ => .after fun next => ?_
    split
    · exact .before (.within (h _))
    · exact .before (.within (h _))
    · exact .refl _
  · exact .refl _
  · exact .before (h _)
  · refine .within ((h _).bind fun _ => .after fun closer => .ite ?_ ?_)
    · exact .before (h _)
    · exact .after fun _ => .before (closeScope_mono h start)
  · exact .before (h _)
  · exact .before (h _)
  · exact .before (h _)
  · exact .before (h _)
  · exact .before (lambda_mono h)
  · exact .refl _

theorem continuation_mono (h : call.Below call') (stop : Token) :
    Below (continuation call stop) (continuation call' stop) := by
  refine .after fun token => .after fun outside => .ite (.refl _) (.ite (.before (h _)) ?_)
  refine .ite ((h _).bind fun _ => .after fun colon => ?_) (.refl _)
  exact .ite (.refl _) (.before (h _))

theorem expression_mono (h : call.Below call') (optional : Bool) :
    Below (expression call optional) (expression call' optional) := by
  refine .after fun start => (operand_mono h start).bind ?_
  rintro (_ | stop)
  · exact .refl _
  · exact .before (continuation_mono h stop)

/-! ## Initializers -/

theorem memberInitializers_mono (h : call.Below call') (soFar : List MemberInitializer) :
    Below (memberInitializers call soFar) (memberInitializers call' soFar) := by
  refine (qualifiedId_mono h _).bind fun qid => .ite (.after fun token => ?_) ?_
  · exact .after fun _ => .ite (.after fun _ => h _) (stepOver_bind h token fun _ => h _)
  · refine .after fun opener => .ite (.after fun _ => .after fun _ => h _) ?_
    refine (skipScope_mono h opener).bind fun closer => .after fun next => ?_
    split
    · exact .refl _
    · exact .after fun _ => h _
    · exact .refl _

theorem functionBody_mono (h : call.Below call') (declared : Nat) :
    Below (functionBody call declared) (functionBody call' declared) := by
  refine .after fun first => .ite (.before (h _)) ?_
  extract_lets rest rest'
  have hrest : ∀ head, Below (rest head) (rest' head) :=
    fun _ => .ite (.after fun _ => .before (skipScope_mono h _)) (.refl _)
  exact .ite ((Below.within (h _)).bind fun _ => .after fun _ => .after hrest) (.after hrest)

theorem typeInitializer_mono (h : call.Below call') :
    Below (typeInitializer call) (typeInitializer call') := by
  refine .after fun equalSign => .ite (.refl _) (.after fun token => .ite (.refl _) ?_)
  exact .after fun _ => .before (specified_mono h .typeId)

theorem variableInitializer_mono (h : call.Below call') (allowBraces : Bool) :
    Below (variableInitializer call allowBraces) (variableInitializer call' allowBraces) :=
  .after fun _ => .ite (.after fun _ => .before (h _))
    (.ite (.before (h _)) (.ite (.before (h _)) (.refl _)))

/-! ## Classes and enumerations -/

theorem declarationList_mono (h : call.Below call') (closeExpected : Bool) (className : String) :
    Below (declarationList call closeExpected className)
      (declarationList call' closeExpected className) := .within (h _)

theorem bases_mono (h : call.Below call') (soFar : List BaseSpecifier) :
    Below (bases call soFar) (bases call' soFar) := by
  refine .after fun token => ?_
  extract_lets rest rest'
  have hrest : ∀ access, Below (rest access) (rest' access) := by
    refine fun access => (qualifiedId_mono h _).bind fun qid => .ite (.refl _) ?_
    refine .after fun _ => .after fun punc => ?_
    split
    · exact .refl _
    · exact h _
    · exact .refl _
  exact .ite (.after fun _ => .after hrest) (.after fun _ => .after hrest)

theorem virtSpecifiers_mono (h : call.Below call') (soFar : List Token) :
    Below (virtSpecifiers call soFar) (virtSpecifiers call' soFar) :=
  .after fun _ => .ite (.ite (h _) (.after fun _ => h _)) (.refl _)

theorem record_mono (h : call.Below call') (classKey : Token) :
    Below (record call classKey) (record call' classKey) := by
  refine (qualifiedId_mono h _).bind fun qid => (h _).bind ?_
  rintro ⟨words, first⟩
  dsimp -zeta only
  extract_lets rest rest'
  have hrest : ∀ head, Below (rest head) (rest' head) :=
    fun _ => .ite (.after fun _ => .before (declarationList_mono h _ _)) (.refl _)
  exact .ite ((h _).bind fun _ => .after fun _ => .after hrest) (.after hrest)

theorem enumerators_mono (h : call.Below call') (soFar : List Enumerator) :
    Below (enumerators call soFar) (enumerators call' soFar) := by
  refine .after fun token => ?_
  split
  · exact .refl _
  · refine .after fun _ => (variableInitializer_mono h false).bind fun init => .after fun next => ?_
    split
    · exact .after fun _ => .after fun _ => h _
    · exact .refl _
    · refine .ite (.after fun _ => ?_) ?_ <;> exact .after fun _ => .after fun _ => h _
  · exact .after fun _ => stepOver_bind h token fun _ => h _

theorem enumeration_mono (h : call.Below call') (enumKey : Token) :
    Below (enumeration call enumKey) (enumeration call' enumKey) := by
  refine .after fun word => ?_
  extract_lets rest rest'
  have hrest : ∀ classKey, Below (rest classKey) (rest' classKey) := by
    refine fun classKey => (qualifiedId_mono h _).bind fun qid => .after fun sep => ?_
    extract_lets body named body' named'
    have hbody : ∀ head, Below (body head) (body' head) :=
      fun _ => .after fun _ => .ite (.after fun _ => .after fun _ => .before (.within (h _))) (.refl _)
    refine .ite (.afterIf fun _ => ?_) (.after fun _ => .after hbody)
    exact (qualifiedId_mono h _).bind fun _ => .after hbody
  exact .ite (.after hrest) (.after fun _ => .after hrest)

/-! ## Declarators -/

theorem trailingReturn_mono (h : call.Below call') (f : FunctionDeclarator) :
    Below (trailingReturn call f) (trailingReturn call' f) :=
  .after fun _ => .ite (.refl _) (.after fun _ => .before (qualifiedId_mono h _))

theorem suffixes_mono (h : call.Below call') (d : Declarator) (depth : Nat) (nameMissing : Bool) :
    Below (suffixes call d depth nameMissing) (suffixes call' d depth nameMissing) := by
  refine .after fun token => ?_
  split
  · refine .after fun _ => (h _).bind fun _ => (closeScope_mono h token).bind fun closer => ?_
    exact .ite (h _) (.refl _)
  · refine .after fun _ => .after fun _ => (functionDeclarator_mono h).bind ?_
    rintro (_ | f)
    · exact h _
    · exact (trailingReturn_mono h f).bind fun _ => h _
  · exact .refl _

theorem innerDeclarator_mono (h : call.Below call') (outer : Chain) (form : DeclaratorForm)
    (opener : Token) :
    Below (innerDeclarator call outer form opener) (innerDeclarator call' outer form opener) :=
  (h _).bind fun _ => (closeScope_mono h opener).bind fun _ => .ite (h _) (.refl _)

theorem functionOrInner_mono (h : call.Below call') (outer : Chain) (form : DeclaratorForm)
    (opener : Token) :
    Below (functionOrInner call outer form opener) (functionOrInner call' outer form opener) := by
  refine .after fun _ => .after fun trial => (functionDeclarator_mono h).bind fun f? =>
    .after fun failed => .ite ?_ ?_
  · exact .after fun _ => .after fun _ => innerDeclarator_mono h _ _ _
  · refine .after fun _ => ?_
    cases f? with
    | some f => exact (trailingReturn_mono h f).bind fun _ => h _
    | none => exact h _

theorem declarator_mono (h : call.Below call') (chain : Chain) (form : DeclaratorForm)
    (allowQualifier : Bool) :
    Below (declarator call chain form allowQualifier)
      (declarator call' chain form allowQualifier) := by
  refine (qualifiedId_mono h _).bind fun qid => .ite (.afterIf fun _ => h _) ?_
  refine .after fun token => .ite (.afterIf fun _ => ?_) (.afterIf fun _ => ?_)
  · exact .after fun _ => .ite (functionOrInner_mono h _ _ _) (innerDeclarator_mono h _ _ _)
  · refine .ite (.after fun _ => h _) (.ite (.after fun _ => h _) (.ite ?_ ?_))
    · exact .afterIf fun _ => .after fun _ => h _
    · exact .afterIf fun _ => .after fun _ => h _

/-! ## Specifiers -/

theorem addFunction_mono (h : call.Below call') (simple : SimpleDeclaration) (d : Declarator) :
    Below (addFunction call simple d) (addFunction call' simple d) := .before (functionBody_mono h _)

theorem declaratorSeparator_mono (h : call.Below call') (simple : SimpleDeclaration)
    (d : Declarator) (init : Initializer) :
    Below (declaratorSeparator call simple d init) (declaratorSeparator call' simple d init) :=
  .after fun _ => .ite (h _) (.refl _)

theorem initDeclarators_mono (h : call.Below call') (simple : SimpleDeclaration) :
    Below (initDeclarators call simple) (initDeclarators call' simple) := by
  refine (h _).bind fun d => .ite (.refl _) (.ite ?_ ?_)
  · refine (functionBody_mono h _).bind fun init => .ite (.refl _) ?_
    exact declaratorSeparator_mono h simple d init
  · exact (variableInitializer_mono h true).bind fun init => declaratorSeparator_mono h simple d init

theorem declarators_mono (h : call.Below call') (mode : Mode) (simple : SimpleDeclaration) :
    Below (declarators call mode simple) (declarators call' mode simple) :=
  .ite (h _) ((h _).bind fun _ => .ite (.before (variableInitializer_mono h false)) (.refl _))

theorem conversionSpecifiers_mono (h : call.Below call') (soFar : List Specifier)
    (hasType : Bool) :
    Below (conversionSpecifiers call soFar hasType) (conversionSpecifiers call' soFar hasType) := by
  refine .after fun token => .ite (.refl _) (.ite (h _) (.ite (h _) (.ite (h _) ?_)))
  refine .after fun _ => (qualifiedId_mono h _).bind fun qid => .ite (.refl _) ?_
  exact .ite (.after fun _ => h _) (h _)

theorem conversionPointers_mono (h : call.Below call') (soFar : Chain) (allowQualifier : Bool) :
    Below (conversionPointers call soFar allowQualifier)
      (conversionPointers call' soFar allowQualifier) :=
  .after fun _ => .ite (h _) (.ite (h _) (.ite (.afterIf fun _ => h _) (.refl _)))

theorem conversionFunction_mono (h : call.Below call') (simple : SimpleDeclaration)
    (keyword : Token) :
    Below (conversionFunction call simple keyword) (conversionFunction call' simple keyword) := by
  refine (h _).bind fun types => (h _).bind fun chain => .after fun opener => .ite (.refl _) ?_
  refine (parameterList_mono h false).bind fun params => (h _).bind fun qualifiers => ?_
  exact addFunction_mono h _ _

theorem typeParameter_mono (h : call.Below call') (simple : SimpleDeclaration)
    (keyword ellipsis : Token) (name : QualifiedId) :
    Below (typeParameter call simple keyword ellipsis name)
      (typeParameter call' simple keyword ellipsis name) := by
  unfold typeParameter
  extract_lets finish finish'
  have hfinish : ∀ identifier, Below (finish identifier) (finish' identifier) :=
    fun _ => .before (typeInitializer_mono h)
  split
  · exact hfinish _
  · exact hfinish _
  · exact .refl _

theorem typeOrConstructor_mono (h : call.Below call') (mode : Mode) (simple : SimpleDeclaration)
    (typename : Token) (qid : QualifiedId) :
    Below (typeOrConstructor call mode simple typename qid)
      (typeOrConstructor call' mode simple typename qid) := by
  unfold typeOrConstructor
  extract_lets asType
  cases mode with
  | globalOrMember className =>
    refine .ite (.after fun trial => (functionDeclarator_mono h).bind fun f? => ?_) (.refl _)
    exact .after fun failed => .ite (.refl _) (.after fun _ => .before (addFunction_mono h _ _))
  | _ => exact .refl _

theorem typeSpecifier_mono (h : call.Below call') (mode : Mode) (simple : SimpleDeclaration)
    (token : Token) :
    Below (typeSpecifier call mode simple token) (typeSpecifier call' mode simple token) := by
  refine .ite (.after fun next => ?_) (.after fun _ => ?_)
  · extract_lets rest rest'
    have hrest : ∀ ellipsis, Below (rest ellipsis) (rest' ellipsis) := by
      refine fun ellipsis => (qualifiedId_mono h _).bind fun name => .ite ?_ ?_
      · exact .before (typeParameter_mono h _ _ _ _)
      · exact .afterIf fun _ => typeOrConstructor_mono h _ _ _ _
    exact .ite (.after hrest) (.after fun _ => .after hrest)
  · exact (qualifiedId_mono h _).bind fun _ => typeOrConstructor_mono h _ _ _ _

theorem specifiers_mono (h : call.Below call') (mode : Mode) (soFar : SpecifierState) :
    Below (specifiers call mode soFar) (specifiers call' mode soFar) := by
  have hdeclarators : ∀ token, Below (do Parse.pushBack token; declarators call mode soFar.simple)
      (do Parse.pushBack token; declarators call' mode soFar.simple) :=
    fun _ => .after fun _ => declarators_mono h mode _
  refine .after fun token => .ite ?_ (.ite ?_ (.ite ?_ (.ite ?_ (.ite ?_ (.ite ?_ (.ite ?_
    (.ite ?_ (.ite ?_ ?_))))))))
  · refine .ite ?_ (hdeclarators token)
    split
    · exact .after fun _ => hdeclarators token
    · exact hdeclarators token
  -- `extern`, keywords, and words for sign and length
  · exact .after fun _ => .after fun _ => .ite (h _) (.after fun _ => h _)
  · exact .after fun _ => h _
  · exact .after fun _ => .ite (h _) (h _)
  -- `alignas`
  · refine .after fun _ => .after fun opener => .ite (.after fun _ => .after fun _ => h _) ?_
    refine (Below.within (h _)).bind fun _ => (closeScope_mono h opener).bind ?_
    rintro (_ | closer)
    · exact .refl _
    · exact h _
  -- `typedef`, classes and enumerations
  · exact .after fun _ => h _
  · exact .after fun _ => .afterIf fun _ => (record_mono h token).bind fun _ => h _
  · exact .after fun _ => .afterIf fun _ => (enumeration_mono h token).bind fun _ => h _
  -- `operator`, and names
  · exact .after fun _ => conversionFunction_mono h _ token
  · refine .after fun _ => .ite (h _) (.ite (hdeclarators token) ?_)
    exact (typeSpecifier_mono h mode _ token).bind fun _ => .ite (.refl _) (h _)

/-! ## Declarations -/

theorem simpleDeclaration_mono (h : call.Below call') (className : String) :
    Below (simpleDeclaration call className) (simpleDeclaration call' className) :=
  .after fun _ => .after fun _ => .before (specified_mono h _)

/-- Declarations in braces. -/
theorem scope_mono {α : Type} (h : call.Below call') (scope : Scope)
    {f : Token → Parse α} :
    Below (do Parse.enterScope scope; let closer ← declarationList call true ""; f closer)
      (do Parse.enterScope scope; let closer ← declarationList call' true ""; f closer) :=
  .after fun _ => .before (declarationList_mono h true "")

theorem externDeclaration_mono (h : call.Below call') (first : Token) (className : String) :
    Below (externDeclaration call first className) (externDeclaration call' first className) := by
  refine .after fun _ => .after fun trial => ?_
  extract_lets giveUp giveUp'
  have hgiveUp : Below giveUp giveUp' := .after fun _ => simpleDeclaration_mono h className
  refine .after fun externToken => .after fun literal => .ite ?_ hgiveUp
  exact .after fun opener => .ite (.after fun _ => scope_mono h .linkage) hgiveUp

theorem namespaceDeclaration_mono (h : call.Below call') (keyword : Token) :
    Below (namespaceDeclaration call keyword) (namespaceDeclaration call' keyword) := by
  refine .after fun first => ?_
  extract_lets rest rest'
  have hrest : ∀ head, Below (rest head) (rest' head) := fun _ => .ite (scope_mono h _) (.refl _)
  refine .ite (.after fun _ => (qualifiedId_mono h _).bind fun qid => ?_) (.after hrest)
  exact .after fun _ => .after hrest

theorem templateDeclaration_mono (h : call.Below call') (keyword : Token) (className : String) :
    Below (templateDeclaration call keyword className)
      (templateDeclaration call' keyword className) := by
  refine .after fun opener => ?_
  extract_lets rest rest'
  have hrest : ∀ params, Below (rest params) (rest' params) := fun _ => .after fun _ => .before (h _)
  exact .ite ((Below.within (parameterList_mono h true)).bind hrest) (.after hrest)

theorem usingDeclaration_mono (h : call.Below call') (usingToken : Token) :
    Below (usingDeclaration call usingToken) (usingDeclaration call' usingToken) :=
  .after fun _ => .ite (.before (qualifiedId_mono h _))
    (.after fun _ => .ite (.refl _) (.before (specified_mono h .typeId)))

theorem staticAssert_mono (h : call.Below call') (keyword : Token) :
    Below (staticAssert call keyword) (staticAssert call' keyword) :=
  .after fun _ => .ite (.refl _) (.before (skipScope_mono h _))

theorem declaration_mono (h : call.Below call') (className : String) :
    Below (declaration call className) (declaration call' className) := by
  refine .after fun token => ?_
  split
  · refine .ite (.after fun _ => .before (externDeclaration_mono h _ _)) (.ite (.refl _) (.ite ?_ ?_))
    · exact .after fun _ => .before (staticAssert_mono h token)
    refine .ite (.after fun _ => .before (namespaceDeclaration_mono h token)) (.ite ?_ (.ite ?_ ?_))
    · exact .after fun _ => .before (templateDeclaration_mono h token className)
    · exact .after fun _ => .before (usingDeclaration_mono h token)
    · exact .after fun _ => .before (simpleDeclaration_mono h className)
  · exact .refl _
  · exact .after fun _ => .before (simpleDeclaration_mono h className)
  · exact .refl _

theorem declarations_mono (h : call.Below call') (closeExpected : Bool) (className : String) :
    Below (declarations call closeExpected className)
      (declarations call' closeExpected className) := by
  refine .after fun token => .ite (.refl _) (.after fun _ => (h _).bind fun found => .ite (h _) ?_)
  refine .after fun token => .after fun _ => .ite (h _) (stepOver_bind h token fun _ => h _)

/-! ## Rules -/

/-- The bodies of rules are monotone in their calls. -/
theorem body_mono (h : call.Below call') {α : Type} (rule : Rule α) :
    Below (body call rule) (body call' rule) := by
  cases rule with
  | skipTo opener closer => exact skipTo_mono h opener closer
  | nameTail => exact nameTail_mono h
  | literals last => exact literals_mono h last
  | expressions opener last => exact expressions_mono h opener last
  | expression optional => exact expression_mono h optional
  | nestedNames soFar => exact nestedNames_mono h soFar
  | templateArguments soFar => exact templateArguments_mono h soFar
  | templateSeparator start argument => exact templateSeparator_mono h start argument
  | parameters forTemplate soFar => exact parameters_mono h forTemplate soFar
  | functionQualifiers soFar => exact functionQualifiers_mono h soFar
  | conversionSpecifiers soFar hasType => exact conversionSpecifiers_mono h soFar hasType
  | conversionPointers soFar allowed => exact conversionPointers_mono h soFar allowed
  | declarator outer form allowed => exact declarator_mono h outer form allowed
  | suffixes soFar depth nameMissing => exact suffixes_mono h soFar depth nameMissing
  | memberInitializers soFar => exact memberInitializers_mono h soFar
  | initDeclarators soFar => exact initDeclarators_mono h soFar
  | bases soFar => exact bases_mono h soFar
  | virtSpecifiers soFar => exact virtSpecifiers_mono h soFar
  | enumerators soFar => exact enumerators_mono h soFar
  | specifiers mode soFar => exact specifiers_mono h mode soFar
  | declaration className => exact declaration_mono h className
  | declarations closeExpected className => exact declarations_mono h closeExpected className

/-- A whole source is parsed with the same result by calls that are above. -/
theorem unit_mono (h : call.Below call') : Below (unit call) (unit call') :=
  .after fun _ => .before (declarationList_mono h false "")

/-- A result does not depend on the depth that is allowed. -/
theorem run_mono {depth depth' : Nat} (hle : depth ≤ depth') :
    Call.Below (fun rule => run depth rule) fun rule => run depth' rule := by
  induction depth generalizing depth' with
  | zero =>
    rintro α rule s a s' ⟨⟩
  | succ depth ih =>
    cases depth' with
    | zero => exact absurd hle (Nat.not_succ_le_zero depth)
    | succ depth' => exact fun rule => body_mono (ih (Nat.le_of_succ_le_succ hle)) rule

end Grammar

end CppDecl
