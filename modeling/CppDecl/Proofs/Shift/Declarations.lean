import CppDecl.Proofs.Shift.Expressions

/-!
# Declarations at another place

Declarators, classes, specifiers and declarations shift if calls do, and so do the bodies of all
rules (`Grammar.body_shifts`).  It follows by induction on the depth of calls that every rule shifts
(`Grammar.run_shifts`).
-/

namespace CppDecl.Grammar

open Parse

variable {k : LinearLoc} {call : Call}

/-! ## Classes and enumerations -/

theorem declarationList_shifts (h : call.Shifts k) (closeExpected : Bool) (className : String) :
    Shifts k (Token.shift k) Any (declarationList call closeExpected className)
      (declarationList call closeExpected className) :=
  inside_shifts _ (h (.declarations closeExpected className))

theorem bases_shifts (h : call.Shifts k) (soFar : List BaseSpecifier) :
    Shifts k (List.map (BaseSpecifier.shift k)) Any (bases call soFar)
      (bases call (soFar.map (BaseSpecifier.shift k))) := by
  refine read_shifts.bind fun token ht => ?_
  extract_lets rest rest'
  have hrest : ∀ access : Token, Shifts k (List.map (BaseSpecifier.shift k)) Any (rest access)
      (rest' (access.shift k)) := by
    refine fun access => (qualifiedId_shifts h _).bind fun qid _ => .iteOf (by simp)
      (fun _ => .pure trivial rfl) fun _ => ?_
    refine unmute_shifts.bind fun _ _ => read_shifts.bind fun punc hpunc => ?_
    dsimp only [Token.shift_kind]
    split
    · exact pushBack_pure_shifts hpunc (by simp)
    · have hnext := h (.bases (soFar ++ [⟨access, qid, punc⟩]))
      exact hnext.of_eq (by simp)
    · exact (faultExpected_shifts _ punc).bind fun _ _ => pushBack_pure_shifts hpunc (by simp)
  refine .ite (fun _ => ?_) fun _ => ?_
  · exact unmute_shifts.bind fun _ _ => hrest token
  · exact (pushBack_shifts ht).bind fun _ _ => hrest .absent

theorem virtSpecifiers_shifts (h : call.Shifts k) (soFar : List Token) :
    Shifts k (Prod.map (List.map (Token.shift k)) (Token.shift k))
      (fun result => result.2.isPresent = true) (virtSpecifiers call soFar)
      (virtSpecifiers call (soFar.map (Token.shift k))) := by
  refine read_shifts.bind fun token ht => .ite (fun _ => .iteOf (by simp) (fun _ => ?_) fun _ => ?_)
    fun _ => .pure ht rfl
  · exact h (.virtSpecifiers [token])
  · exact (fault_shifts true (.noticed _ token)).bind fun _ _ => h (.virtSpecifiers soFar)

theorem record_shifts (h : call.Shifts k) (classKey : Token) :
    Shifts k (Record.shift k) Any (record call classKey) (record call (classKey.shift k)) := by
  refine (qualifiedId_shifts h _).bind fun qid _ => (h (.virtSpecifiers [])).bind ?_
  rintro ⟨words, first⟩ hfirst
  dsimp -zeta only [Rule.shiftResult, Prod.map]
  extract_lets rest rest'
  have hrest : ∀ (colon : Token) (baseList : List BaseSpecifier) (token : Token),
      token.isPresent = true → Shifts k (Record.shift k) Any (rest (colon, baseList, token))
        (rest' (colon.shift k, baseList.map (BaseSpecifier.shift k), token.shift k)) := by
    refine fun colon baseList token ht => .ite (fun _ => ?_) fun _ => ?_
    · rw [QualifiedId.className_shift]
      refine (enterScope_shifts _).bind fun _ _ => (declarationList_shifts h true _).bind
        fun closer _ => members_shifts.bind fun inner _ => ?_
      rw [List.length_map]
      exact (leaveScope_shifts _ _).bind fun _ _ => .pure trivial (by simp)
    · exact pushBack_pure_shifts ht (by simp)
  refine .ite (fun _ => ?_) fun _ => hrest .absent [] first hfirst
  exact (h (.bases [])).bind fun baseList _ => read_shifts.bind fun token ht =>
    hrest first baseList token ht

theorem enumerators_shifts (h : call.Shifts k) (soFar : List Enumerator) :
    Shifts k (Prod.map (List.map (Enumerator.shift k)) (Token.shift k)) Any
      (enumerators call soFar) (enumerators call (soFar.map (Enumerator.shift k))) := by
  refine read_shifts.bind fun token ht => ?_
  dsimp only [Token.shift_kind]
  split
  · exact unmute_shifts.bind fun _ _ => .pure trivial rfl
  · refine unmute_shifts.bind fun _ _ => (variableInitializer_shifts h false).bind fun init _ =>
      read_shifts.bind fun next hnext => ?_
    have hlast : Enumerator.mk (token.shift k) (init.shift k) .absent =
        (Enumerator.mk token init .absent).shift k := by simp
    have hitem : Enumerator.mk (token.shift k) (init.shift k) (next.shift k) =
        (Enumerator.mk token init next).shift k := by simp
    dsimp only [Token.shift_kind]
    rw [hlast, hitem]
    split
    · refine unmute_shifts.bind fun _ _ => (tell_shifts (.enumerated _)).bind fun _ _ => ?_
      have hrest := h (.enumerators (soFar ++ [⟨token, init, next⟩]))
      exact hrest.of_eq (by simp)
    · exact unmute_shifts.bind fun _ _ => (tell_shifts (.enumerated _)).bind fun _ _ =>
        .pure trivial (by simp)
    · refine .afterIf (fault_shifts true _) ?_
      refine (pushBack_shifts hnext).bind fun _ _ => (tell_shifts (.enumerated _)).bind
        fun _ _ => ?_
      have hrest := h (.enumerators (soFar ++ [⟨token, init, .absent⟩]))
      exact hrest.of_eq (by simp)
  · exact (faultExpected_shifts _ token).bind fun _ _ =>
      stepOver_bind_shifts h ht (.pure trivial rfl) fun _ => h (.enumerators soFar)

theorem enumeration_shifts (h : call.Shifts k) (enumKey : Token) :
    Shifts k (Enumeration.shift k) Any (enumeration call enumKey)
      (enumeration call (enumKey.shift k)) := by
  refine read_shifts.bind fun word hword => ?_
  extract_lets rest rest'
  have hrest : ∀ classKey : Token, Shifts k (Enumeration.shift k) Any (rest classKey)
      (rest' (classKey.shift k)) := by
    refine fun classKey => (qualifiedId_shifts h _).bind fun qid _ => read_shifts.bind
      fun sep hsep => ?_
    extract_lets body named body' named'
    have hbody : ∀ (basePunc : Token) (base : QualifiedId), Shifts k (Enumeration.shift k) Any
        (body (basePunc, base)) (body' (basePunc.shift k, base.shift k)) := by
      refine fun basePunc base => read_shifts.bind fun opener hopener => .ite (fun _ => ?_)
        fun _ => ?_
      · rw [QualifiedId.className_shift]
        refine (enterScope_shifts _).bind fun _ _ => unmute_shifts.bind fun _ _ =>
          (inside_shifts _ (h (.enumerators []))).bind ?_
        rintro ⟨items, closer⟩ _
        dsimp only [Rule.shiftResult, Prod.map]
        rw [List.length_map]
        exact (leaveScope_shifts _ _).bind fun _ _ => .pure trivial (by simp)
      · exact pushBack_pure_shifts hopener (by simp)
    refine .ite (fun _ => ?_) fun _ => ?_
    · rw [QualifiedId.isEmpty_shift]
      refine .afterIf (fault_shifts false (.noticed _ sep)) ?_
      exact (qualifiedId_shifts h _).bind fun base _ => hbody sep base
    · exact (pushBack_shifts hsep).bind fun _ _ => (hbody .absent .empty).of_eq (by simp)
  refine .ite (fun _ => hrest word) fun _ => ?_
  exact (pushBack_shifts hword).bind fun _ _ => hrest .absent

/-! ## Declarators -/

theorem trailingReturn_shifts (h : call.Shifts k) (f : FunctionDeclarator) :
    Shifts k (FunctionDeclarator.shift k) Any (trailingReturn call f)
      (trailingReturn call (f.shift k)) := by
  refine read_shifts.bind fun arrow harrow => .ite (fun _ => ?_) fun _ => ?_
  · exact pushBack_pure_shifts harrow rfl
  refine peek_shifts.bind fun start _ => (qualifiedId_shifts h _).bind fun trailing _ => ?_
  rw [QualifiedId.isEmpty_shift]
  exact .afterIf (fault_shifts true _) (.pure trivial (by cases f; simp))

theorem checkName_shifts (nameMissing : Bool) (token : Token) :
    Shifts k id Any (checkName nameMissing token) (checkName nameMissing (token.shift k)) :=
  unmute_shifts.bind fun _ _ => .ite (fun _ => faultExpected_shifts _ token) fun _ =>
    .pure trivial rfl

theorem suffixes_shifts (h : call.Shifts k) (d : Declarator) (depth : Nat) (nameMissing : Bool) :
    Shifts k (Declarator.shift k) Any (suffixes call d depth nameMissing)
      (suffixes call (d.shift k) depth nameMissing) := by
  refine read_shifts.bind fun token ht => ?_
  dsimp only [Token.shift_kind]
  split
  · refine (checkName_shifts _ token).bind fun _ _ => (h (.expression true)).bind ?_
    rintro ⟨start, stop⟩ _
    refine (closeScope_shifts h token).bind fun closer _ => ?_
    dsimp only [Rule.shiftResult, Prod.map]
    refine .iteOf (by simp) (fun _ => ?_) fun _ => .pure trivial ?_
    · have hrest := h (.suffixes ⟨Chain.insertAt d.chain depth
        (.arrayOf token (closer.getD .absent) (.between start stop)), d.qid⟩ (depth + 1) false)
      exact hrest.of_eq (by simp)
    · simp
  · refine (checkName_shifts _ token).bind fun _ _ => (pushBack_shifts ht).bind fun _ _ =>
      (functionDeclarator_shifts h).bind ?_
    rintro (_ | f) _
    · exact h (.suffixes d depth false)
    · refine (trailingReturn_shifts h f).bind fun f _ => ?_
      have hrest := h (.suffixes ⟨Chain.insertAt d.chain depth (.function f), d.qid⟩
        (depth + 1) false)
      exact hrest.of_eq (by simp)
  · exact pushBack_pure_shifts ht rfl

theorem innerDeclarator_shifts (h : call.Shifts k) (outer : Chain) (form : DeclaratorForm)
    (opener : Token) : Shifts k (Declarator.shift k) Any (innerDeclarator call outer form opener)
      (innerDeclarator call (outer.map (Production.shift k)) form (opener.shift k)) := by
  refine (h (.declarator outer form false)).bind fun inner _ => (closeScope_shifts h opener).bind
    fun closer _ => .iteOf (by simp) (fun _ => ?_) fun _ => .pure trivial (by simp)
  have hrest := h (.suffixes
    ⟨.parenthesized opener (closer.getD .absent) :: inner.chain, inner.qid⟩
    (1 + (inner.chain.length - outer.length)) false)
  exact hrest.of_eq (by simp)

theorem functionOrInner_shifts (h : call.Shifts k) (outer : Chain) (form : DeclaratorForm)
    {opener : Token} (hopener : opener.isPresent = true) :
    Shifts k (Declarator.shift k) Any (functionOrInner call outer form opener)
      (functionOrInner call (outer.map (Production.shift k)) form (opener.shift k)) := by
  refine (pushBack_shifts hopener).bind fun _ _ => beginTrial_shifts.bind fun trial _ =>
    (functionDeclarator_shifts h).bind fun f? _ => (failedSince_shifts _).bind fun _ _ =>
      .ite (fun _ => ?_) fun _ => ?_
  · exact (abandon_shifts trial).bind fun _ _ => read_shifts.bind fun opener _ =>
      innerDeclarator_shifts h outer form opener
  refine (endTrial_shifts trial).bind fun _ _ => ?_
  cases f? with
  | some f =>
    refine (trailingReturn_shifts h f).bind fun f _ => ?_
    have hrest := h (.suffixes ⟨.function f :: outer, .empty⟩ 1 false)
    exact hrest.of_eq (by simp)
  | none =>
    have hrest := h (.suffixes ⟨outer, .empty⟩ 0 false)
    exact hrest.of_eq (by simp)

theorem declarator_shifts (h : call.Shifts k) (chain : Chain) (form : DeclaratorForm)
    (allowQualifier : Bool) :
    Shifts k (Declarator.shift k) Any (declarator call chain form allowQualifier)
      (declarator call (chain.map (Production.shift k)) form allowQualifier) := by
  have hsuffixes (qid : QualifiedId) (nameMissing : Bool) :
      Shifts k (Declarator.shift k) Any (call (.suffixes ⟨chain, qid⟩ 0 nameMissing))
        (call (.suffixes ⟨chain.map (Production.shift k), qid.shift k⟩ 0 nameMissing)) := by
    have hrest := h (.suffixes ⟨chain, qid⟩ 0 nameMissing)
    exact hrest.of_eq (by simp)
  refine (qualifiedId_shifts h _).bind fun qid _ => .iteOf (by simp) (fun _ => ?_) fun _ => ?_
  · rw [QualifiedId.firstToken_shift]
    exact .afterIf (fault_shifts false (.noticed _ _)) (hsuffixes qid false)
  refine read_shifts.bind fun token ht => ?_
  rw [QualifiedId.firstToken_shift, QualifiedId.shift_nested, List.isEmpty_map, List.isEmpty_map]
  refine .ite (fun _ => ?_) fun _ => ?_
  · refine .afterIf (fault_shifts false _) (unmute_shifts.bind fun _ _ => .ite (fun _ => ?_)
      fun _ => innerDeclarator_shifts h chain form token)
    exact functionOrInner_shifts h chain form ht
  refine .afterIf (fault_shifts false _) (.ite (fun _ => ?_) fun _ => .ite (fun _ => ?_) fun _ =>
    .ite (fun _ => ?_) fun _ => ?_)
  · refine unmute_shifts.bind fun _ _ => ?_
    have hrest := h (.declarator (.pointerTo qid.nested token :: chain) form (token.kind == .star))
    exact hrest.of_eq (by simp)
  · exact unmute_shifts.bind fun _ _ => h (.declarator chain form allowQualifier)
  · refine .afterIf (fault_shifts false (.noticed _ token)) (unmute_shifts.bind fun _ _ => ?_)
    have hrest := h (.declarator (.qualifier token :: chain) form allowQualifier)
    exact hrest.of_eq (by simp)
  · refine .afterIf (faultExpected_shifts _ token) ((pushBack_shifts ht).bind fun _ _ => ?_)
    exact (hsuffixes .empty _).of_eq (by simp)

/-! ## Specifiers -/

theorem addFunction_shifts (h : call.Shifts k) (simple : SimpleDeclaration) (d : Declarator) :
    Shifts k (SimpleDeclaration.shift k) Any (addFunction call simple d)
      (addFunction call (simple.shift k) (d.shift k)) := by
  unfold addFunction
  rw [SimpleDeclaration.shift_declarators, List.length_map]
  exact (functionBody_shifts h _).bind fun init _ => .pure trivial (by simp)

theorem declaratorSeparator_shifts (h : call.Shifts k) (simple : SimpleDeclaration)
    (d : Declarator) (init : Initializer) :
    Shifts k (SimpleDeclaration.shift k) Any (declaratorSeparator call simple d init)
      (declaratorSeparator call (simple.shift k) (d.shift k) (init.shift k)) := by
  refine read_shifts.bind fun sep hsep => .ite (fun _ => ?_) fun _ => ?_
  · exact (h (.initDeclarators (addDeclarator simple d init sep))).of_eq (by simp)
  · exact pushBack_pure_shifts hsep (by simp)

theorem initDeclarators_shifts (h : call.Shifts k) (simple : SimpleDeclaration) :
    Shifts k (SimpleDeclaration.shift k) Any (initDeclarators call simple)
      (initDeclarators call (simple.shift k)) := by
  refine Shifts.bind (m := Declarator.shift k) (h (.declarator [] ⟨true, false⟩ false))
    fun d _ => .iteOf (by simp) (fun _ => .pure trivial rfl) fun _ => .iteOf (by simp) (fun _ => ?_)
      fun _ => ?_
  · rw [SimpleDeclaration.shift_declarators, List.length_map, List.isEmpty_map]
    refine (functionBody_shifts h _).bind fun init _ => .iteOf (by simp) (fun _ => ?_) fun _ =>
      declaratorSeparator_shifts h simple d init
    have hopener : ((Chain.functionAt? (d.shift k).chain 0).map
        fun f : FunctionDeclarator => f.params.openPunc).getD .absent =
        (((Chain.functionAt? d.chain 0).map
          fun f : FunctionDeclarator => f.params.openPunc).getD .absent).shift k := by
      rw [Declarator.shift_chain, Chain.functionAt?_shift]
      cases Chain.functionAt? d.chain 0 <;> simp
    dsimp only
    rw [hopener]
    exact .afterIf (fault_shifts false (.noticed _ _)) (.pure trivial (by simp))
  · exact (variableInitializer_shifts h true).bind fun init _ =>
      declaratorSeparator_shifts h simple d init

theorem declarators_shifts (h : call.Shifts k) (mode : Mode) (simple : SimpleDeclaration) :
    Shifts k (SimpleDeclaration.shift k) Any (declarators call mode simple)
      (declarators call mode (simple.shift k)) := by
  refine .ite (fun _ => h (.initDeclarators simple)) fun _ => ?_
  refine (h (.declarator [] ⟨mode.isParam, true⟩ false)).bind fun d _ => ?_
  have hrest (init : Initializer) : Shifts k (SimpleDeclaration.shift k) Any
      (pure (addDeclarator simple d init .absent))
      (pure (addDeclarator (simple.shift k) (d.shift k) (init.shift k) .absent)) :=
    .pure trivial (by simp)
  exact .ite (fun _ => (variableInitializer_shifts h false).bind fun init _ => hrest init)
    fun _ => hrest .none

theorem conversionSpecifiers_shifts (h : call.Shifts k) (soFar : List Specifier)
    (hasType : Bool) :
    Shifts k (List.map (Specifier.shift k)) Any (conversionSpecifiers call soFar hasType)
      (conversionSpecifiers call (soFar.map (Specifier.shift k)) hasType) := by
  have hmore (spec : Specifier) (hasType : Bool) : Shifts k (List.map (Specifier.shift k)) Any
      (call (.conversionSpecifiers (soFar ++ [spec]) hasType))
      (call (.conversionSpecifiers (soFar.map (Specifier.shift k) ++ [spec.shift k]) hasType)) := by
    have hrest := h (.conversionSpecifiers (soFar ++ [spec]) hasType)
    exact hrest.of_eq (by simp)
  refine read_shifts.bind fun token ht => .ite (fun _ => ?_) fun _ => .ite (fun _ => ?_) fun _ =>
    .ite (fun _ => ?_) fun _ => .ite (fun _ => ?_) fun _ => ?_
  · exact pushBack_pure_shifts ht rfl
  · exact (hmore (.keyword token) hasType).of_eq (by simp)
  · exact (hmore (.keyword token) true).of_eq (by simp)
  · exact (hmore (plainType token) hasType).of_eq (by simp)
  refine (pushBack_shifts ht).bind fun _ _ => (qualifiedId_shifts h _).bind fun qid _ =>
    .iteOf (by simp) (fun _ => .pure trivial rfl) fun _ => .ite (fun _ => ?_) fun _ => ?_
  · rw [QualifiedId.firstToken_shift]
    exact (fault_shifts false (.noticed _ _)).bind fun _ _ =>
      h (.conversionSpecifiers soFar hasType)
  · exact (hmore (.typeName .absent qid false) true).of_eq (by simp)

theorem conversionPointers_shifts (h : call.Shifts k) (soFar : Chain) (allowQualifier : Bool) :
    Shifts k (List.map (Production.shift k)) Any (conversionPointers call soFar allowQualifier)
      (conversionPointers call (soFar.map (Production.shift k)) allowQualifier) := by
  refine read_shifts.bind fun token ht => .ite (fun _ => ?_) fun _ => .ite (fun _ => ?_) fun _ =>
    .ite (fun _ => ?_) fun _ => ?_
  · have hrest := h (.conversionPointers (.pointerTo [] token :: soFar) (token.kind == .star))
    exact hrest.of_eq (by simp)
  · exact h (.conversionPointers soFar allowQualifier)
  · refine .afterIf (fault_shifts false (.noticed _ token)) ?_
    have hrest := h (.conversionPointers (.qualifier token :: soFar) allowQualifier)
    exact hrest.of_eq (by simp)
  · exact pushBack_pure_shifts ht rfl

theorem conversionFunction_shifts (h : call.Shifts k) (simple : SimpleDeclaration)
    (keyword : Token) :
    Shifts k (SimpleDeclaration.shift k) Any (conversionFunction call simple keyword)
      (conversionFunction call (simple.shift k) (keyword.shift k)) := by
  refine Shifts.bind (m := List.map (Specifier.shift k)) (h (.conversionSpecifiers [] false))
    fun types _ => Shifts.bind (m := List.map (Production.shift k))
      (h (.conversionPointers [] false)) fun chain _ => peek_shifts.bind fun opener _ =>
        .ite (fun _ => ?_) fun _ => ?_
  · exact (faultExpected_shifts _ opener).bind fun _ _ => .pure trivial (by simp)
  refine (parameterList_shifts h false).bind fun params _ => (h (.functionQualifiers [])).bind
    fun qualifiers _ => ?_
  have hrest := addFunction_shifts h simple
    ⟨[.function ⟨params, qualifiers, .absent, .empty⟩], ⟨[], .conversion keyword types chain⟩⟩
  exact hrest.of_eq (by simp)

theorem typeParameter_shifts (h : call.Shifts k) (simple : SimpleDeclaration)
    (keyword ellipsis : Token) (name : QualifiedId) :
    Shifts k (SimpleDeclaration.shift k) Any (typeParameter call simple keyword ellipsis name)
      (typeParameter call (simple.shift k) (keyword.shift k) (ellipsis.shift k)
        (name.shift k)) := by
  unfold typeParameter
  extract_lets finish finish'
  have hfinish (identifier : Token) : Shifts k (SimpleDeclaration.shift k) Any (finish identifier)
      (finish' (identifier.shift k)) :=
    (typeInitializer_shifts h).bind fun init _ => .pure trivial (by simp)
  rw [QualifiedId.shift_unqual]
  have hother (other : Unqualified) : Shifts k (SimpleDeclaration.shift k) Any
      (do faultExpected .identifier other.firstToken; return simple)
      (do faultExpected .identifier (other.shift k).firstToken; return simple.shift k) := by
    rw [Unqualified.firstToken_shift]
    exact (faultExpected_shifts _ _).bind fun _ _ => .pure trivial rfl
  cases name.unqual with
  | identifier name => exact hfinish name
  | empty => exact hfinish .absent
  | _ => exact hother _

theorem typeOrConstructor_shifts (h : call.Shifts k) (mode : Mode) (simple : SimpleDeclaration)
    (typename : Token) (qid : QualifiedId) :
    Shifts k (Prod.map id (SimpleDeclaration.shift k)) Any
      (typeOrConstructor call mode simple typename qid)
      (typeOrConstructor call mode (simple.shift k) (typename.shift k) (qid.shift k)) := by
  unfold typeOrConstructor
  rw [QualifiedId.firstToken_shift]
  extract_lets added asType added' asType'
  have hadded : Shifts k (Prod.map id (SimpleDeclaration.shift k)) Any (added ()) (added' ()) :=
    .pure trivial (by simp)
  have hasType : Shifts k (Prod.map id (SimpleDeclaration.shift k)) Any asType asType' := by
    refine .iteOf (by simp) (fun _ => ?_) fun _ => hadded
    exact (faultExpected_shifts _ _).bind fun _ _ => hadded
  cases mode with
  | globalOrMember className =>
    refine .iteOf (by simp) (fun _ => ?_) fun _ => hasType
    refine beginTrial_shifts.bind fun trial _ => (functionDeclarator_shifts h).bind fun f? _ =>
      (failedSince_shifts _).bind fun _ _ => .ite (fun _ => ?_) fun _ => ?_
    · exact (abandon_shifts trial).bind fun _ _ => hasType
    refine (endTrial_shifts trial).bind fun _ _ => ?_
    have hadd (chain : Chain) := addFunction_shifts h simple ⟨chain, qid⟩
    cases f? with
    | some f =>
      exact ((hadd [.function f]).of_eq (by simp)).bind fun _ _ => .pure trivial rfl
    | none => exact ((hadd []).of_eq (by simp)).bind fun _ _ => .pure trivial rfl
  | _ => exact hasType

theorem typeSpecifier_shifts (h : call.Shifts k) (mode : Mode) (simple : SimpleDeclaration)
    {token : Token} (ht : token.isPresent = true) :
    Shifts k (Prod.map id (SimpleDeclaration.shift k)) Any (typeSpecifier call mode simple token)
      (typeSpecifier call mode (simple.shift k) (token.shift k)) := by
  refine .ite (fun _ => read_shifts.bind fun next hnext => ?_) fun _ => ?_
  · extract_lets rest rest'
    have hrest (ellipsis : Token) : Shifts k (Prod.map id (SimpleDeclaration.shift k)) Any
        (rest ellipsis) (rest' (ellipsis.shift k)) := by
      refine (qualifiedId_shifts h _).bind fun name _ => .iteOf (by simp) (fun _ => ?_) fun _ => ?_
      · exact (typeParameter_shifts h _ _ _ _).bind fun _ _ => .pure trivial rfl
      · exact .afterIf (faultExpected_shifts _ ellipsis) (typeOrConstructor_shifts h _ _ _ _)
    refine .ite (fun _ => hrest next) fun _ => ?_
    exact (pushBack_shifts hnext).bind fun _ _ => hrest .absent
  · exact (pushBack_shifts ht).bind fun _ _ => (qualifiedId_shifts h _).bind fun qid _ =>
      typeOrConstructor_shifts h mode simple .absent qid

theorem specifiers_shifts (h : call.Shifts k) (mode : Mode) (soFar : SpecifierState) :
    Shifts k (SimpleDeclaration.shift k) Any (specifiers call mode soFar)
      (specifiers call mode (soFar.shift k)) := by
  have hmore (simple : SimpleDeclaration) (hasType modifiersOnly : Bool) :
      Shifts k (SimpleDeclaration.shift k) Any
        (call (.specifiers mode ⟨simple, hasType, modifiersOnly⟩))
        (call (.specifiers mode ⟨simple.shift k, hasType, modifiersOnly⟩)) :=
    h (.specifiers mode ⟨simple, hasType, modifiersOnly⟩)
  have hgoOn (spec : Specifier) : Shifts k (SimpleDeclaration.shift k) Any
      (call (.specifiers mode { soFar with simple := addSpecifier soFar.simple spec }))
      (call (.specifiers mode { soFar.shift k with
        simple := addSpecifier (soFar.shift k).simple (spec.shift k) })) :=
    (hmore (addSpecifier soFar.simple spec) soFar.hasType soFar.modifiersOnly).of_eq (by
      simp [SpecifierState.shift])
  have hdeclarators (token : Token) (ht : token.isPresent = true) :
      Shifts k (SimpleDeclaration.shift k) Any
        (do pushBack token; declarators call mode soFar.simple)
        (do pushBack (token.shift k); declarators call mode (soFar.shift k).simple) :=
    (pushBack_shifts ht).bind fun _ _ => declarators_shifts h mode _
  refine read_shifts.bind fun token ht => .ite (fun _ => ?_) fun _ => .ite (fun _ => ?_) fun _ =>
    .ite (fun _ => ?_) fun _ => .ite (fun _ => ?_) fun _ => .ite (fun _ => ?_) fun _ =>
    .ite (fun _ => ?_) fun _ => .ite (fun _ => ?_) fun _ => .ite (fun _ => ?_) fun _ =>
    .ite (fun _ => ?_) fun _ => ?_
  · refine .ite (fun _ => ?_) fun _ => hdeclarators token ht
    split
    · exact (faultExpected_shifts _ token).bind fun _ _ => hdeclarators token ht
    · exact hdeclarators token ht
  -- `extern`, keywords, and words for sign and length
  · refine unmute_shifts.bind fun _ _ => read_shifts.bind fun literal hliteral =>
      .ite (fun _ => ?_) fun _ => ?_
    · exact (hgoOn (.linkage token literal)).of_eq (by simp)
    · exact (pushBack_shifts hliteral).bind fun _ _ => (hgoOn (.keyword token)).of_eq (by simp)
  · exact unmute_shifts.bind fun _ _ => (hgoOn (.keyword token)).of_eq (by simp)
  · refine unmute_shifts.bind fun _ _ => .ite (fun _ => ?_) fun _ => ?_
    · exact (hgoOn (.keyword token)).of_eq (by simp)
    · exact (hmore (addSpecifier soFar.simple (.keyword token)) true true).of_eq (by simp)
  -- `alignas`
  · refine unmute_shifts.bind fun _ _ => read_shifts.bind fun opener hopener =>
      .ite (fun _ => ?_) fun _ => ?_
    · exact (fault_shifts true _).bind fun _ _ => (pushBack_shifts hopener).bind fun _ _ =>
        h (.specifiers mode soFar)
    · refine (inside_shifts _ (h (.expression false))).bind fun _ _ =>
        (closeScope_shifts h opener).bind ?_
      rintro (_ | closer) _
      · exact .pure trivial rfl
      · exact h (.specifiers mode soFar)
  -- `typedef`, classes and enumerations
  · exact unmute_shifts.bind fun _ _ => (hgoOn (.keyword token)).of_eq (by simp)
  · refine unmute_shifts.bind fun _ _ => .afterIf (fault_shifts true (.noticed _ token)) ?_
    exact (record_shifts h token).bind fun r _ =>
      (hmore (addSpecifier soFar.simple (.record r)) true soFar.modifiersOnly).of_eq (by
        simp [SpecifierState.shift])
  · refine unmute_shifts.bind fun _ _ => .afterIf (fault_shifts true (.noticed _ token)) ?_
    exact (enumeration_shifts h token).bind fun e _ =>
      (hmore (addSpecifier soFar.simple (.enumeration e)) true soFar.modifiersOnly).of_eq (by
        simp [SpecifierState.shift])
  -- `operator`, and names
  · exact unmute_shifts.bind fun _ _ => conversionFunction_shifts h _ token
  · refine unmute_shifts.bind fun _ _ => .ite (fun _ => ?_) fun _ => .ite
      (fun _ => hdeclarators token ht) fun _ => ?_
    · exact (hmore (addSpecifier soFar.simple (plainType token)) soFar.hasType false).of_eq (by
        simp [SpecifierState.shift])
    · refine (typeSpecifier_shifts h mode soFar.simple ht).bind ?_
      rintro ⟨complete, simple⟩ _
      exact .ite (fun _ => .pure trivial rfl) fun _ => hmore simple true soFar.modifiersOnly

/-! ## Declarations -/

theorem requiredSemicolon_shifts :
    Shifts k (Token.shift k) Any requiredSemicolon requiredSemicolon := by
  refine read_shifts.bind fun token ht => .ite (fun _ => ?_) fun _ => ?_
  · exact unmute_shifts.bind fun _ _ => .pure trivial rfl
  · exact (faultExpected_shifts _ token).bind fun _ _ => pushBack_pure_shifts ht rfl

theorem simpleDeclaration_shifts (h : call.Shifts k) (className : String) :
    Shifts k id Any (simpleDeclaration call className) (simpleDeclaration call className) := by
  refine peek_shifts.bind fun start _ => beginActivity_shifts.bind fun activity _ =>
    (specified_shifts h _).bind fun simple _ => (failedSince_shifts _).bind fun failed _ => ?_
  extract_lets hasBody collect hasBody' collect'
  have hcollect : Shifts k id Any (collect ()) (collect' ()) := by
    show Shifts k id Any (if simple.isBodied = true then _ else _)
      (if (simple.shift k).isBodied = true then _ else _)
    refine .iteOf (by simp) (fun _ => ?_) fun _ => ?_
    · exact (declare_shifts (.simple simple)).of_eq (by simp)
    · exact requiredSemicolon_shifts.bind fun semicolon _ =>
        (declare_shifts (.simple { simple with semicolon })).of_eq (by simp)
  refine .ite (fun _ => unmute_shifts.bind fun _ _ => ?_) fun _ => hcollect
  rw [SimpleDeclaration.shift_declarators, List.isEmpty_map, SimpleDeclaration.declaresType_shift]
  exact .afterIf (fault_shifts false (.noticed _ start)) hcollect

theorem externDeclaration_shifts (h : call.Shifts k) {first : Token}
    (hfirst : first.isPresent = true) (className : String) :
    Shifts k id Any (externDeclaration call first className)
      (externDeclaration call (first.shift k) className) := by
  refine (pushBack_shifts hfirst).bind fun _ _ => beginTrial_shifts.bind fun trial _ => ?_
  extract_lets giveUp
  have hgiveUp : Shifts k id Any giveUp giveUp :=
    (abandon_shifts trial).bind fun _ _ => simpleDeclaration_shifts h className
  refine read_shifts.bind fun externToken _ => read_shifts.bind fun literal _ =>
    .ite (fun _ => read_shifts.bind fun opener _ => .ite (fun _ => ?_) fun _ => hgiveUp)
      fun _ => hgiveUp
  refine (endTrial_shifts trial).bind fun _ _ => (enterScope_shifts _).bind fun _ _ =>
    (declarationList_shifts h true "").bind fun closer _ => members_shifts.bind fun inner _ => ?_
  rw [List.length_map]
  exact (leaveScope_shifts _ _).bind fun _ _ =>
    (declare_shifts (.linkageBlock externToken literal opener closer inner)).of_eq (by simp)

theorem namespaceDeclaration_shifts (h : call.Shifts k) (keyword : Token) :
    Shifts k id Any (namespaceDeclaration call keyword)
      (namespaceDeclaration call (keyword.shift k)) := by
  refine read_shifts.bind fun first hfirst => ?_
  extract_lets rest rest'
  have hrest (qid : QualifiedId) (token : Token) (ht : token.isPresent = true) :
      Shifts k id Any (rest (qid, token)) (rest' (qid.shift k, token.shift k)) := by
    refine .ite (fun _ => ?_) fun _ => ?_
    · rw [QualifiedId.className_shift]
      refine (enterScope_shifts _).bind fun _ _ => (declarationList_shifts h true "").bind
        fun closer _ => members_shifts.bind fun inner _ => ?_
      rw [List.length_map]
      exact (leaveScope_shifts _ _).bind fun _ _ =>
        (declare_shifts (.namespaceBlock keyword qid token closer inner)).of_eq (by simp)
    · exact (faultExpected_shifts _ token).bind fun _ _ => (pushBack_shifts ht).bind fun _ _ =>
        (declare_shifts (.namespaceBlock keyword qid .absent .absent [])).of_eq (by simp)
  refine .ite (fun _ => ?_) fun _ => (hrest .empty first hfirst).of_eq (by simp)
  exact (pushBack_shifts hfirst).bind fun _ _ => (qualifiedId_shifts h _).bind fun qid _ =>
    read_shifts.bind fun token ht => hrest qid token ht

theorem templateDeclaration_shifts (h : call.Shifts k) (keyword : Token) (className : String) :
    Shifts k id Any (templateDeclaration call keyword className)
      (templateDeclaration call (keyword.shift k) className) := by
  refine peek_shifts.bind fun opener _ => ?_
  extract_lets rest rest'
  have hrest (params : ParameterList) :
      Shifts k id Any (rest params) (rest' (params.shift k)) := by
    refine (enterScope_shifts _).bind fun _ _ => (h (.declaration className)).bind fun _ _ =>
      members_shifts.bind fun inner _ => ?_
    rw [List.head?_map]
    cases inner.head? with
    | none => exact (leaveScope_shifts _ _).bind fun _ _ =>
        (declare_shifts (.templated keyword params none)).of_eq (by simp)
    | some d => exact (leaveScope_shifts _ _).bind fun _ _ =>
        (declare_shifts (.templated keyword params (some d))).of_eq (by simp)
  refine .ite (fun _ => ?_) fun _ => (hrest .empty).of_eq (by simp)
  exact (withCloseAngles_shifts (parameterList_shifts h true)).bind fun params _ => hrest params

theorem usingDeclaration_shifts (h : call.Shifts k) (usingToken : Token) :
    Shifts k id Any (usingDeclaration call usingToken)
      (usingDeclaration call (usingToken.shift k)) := by
  refine read_shifts.bind fun second _ => .ite (fun _ => ?_) fun _ => ?_
  · exact (qualifiedId_shifts h _).bind fun qid _ => requiredSemicolon_shifts.bind
      fun semicolon _ =>
        (declare_shifts (.usingNamespace usingToken second qid semicolon)).of_eq (by simp)
  refine read_shifts.bind fun equals hequals => .ite (fun _ => ?_) fun _ => ?_
  · exact (fault_shifts true _).bind fun _ _ => pushBack_shifts hequals
  refine (specified_shifts h .typeId).bind fun simple _ => ?_
  have hdeclare (d : Declarator) : Shifts k id Any
      (do let semicolon ← requiredSemicolon
          declare (.typeAlias usingToken second equals simple.specifiers d semicolon))
      (do let semicolon ← requiredSemicolon
          declare (.typeAlias (usingToken.shift k) (second.shift k) (equals.shift k)
            (simple.shift k).specifiers (d.shift k) semicolon)) :=
    requiredSemicolon_shifts.bind fun semicolon _ => (declare_shifts
      (.typeAlias usingToken second equals simple.specifiers d semicolon)).of_eq (by simp)
  rw [SimpleDeclaration.shift_declarators]
  cases simple.declarators with
  | nil => exact (hdeclare .empty).of_eq (by simp)
  | cons d rest => exact (hdeclare d.declarator).of_eq (by simp)

theorem accessLabel_shifts (keyword : Token) :
    Shifts k id Any (accessLabel keyword) (accessLabel (keyword.shift k)) := by
  refine read_shifts.bind fun colon hcolon => .ite (fun _ => ?_) fun _ => ?_
  · exact (declare_shifts (.accessLabel keyword colon)).of_eq (by simp)
  · exact (fault_shifts true _).bind fun _ _ => pushBack_shifts hcolon

theorem staticAssert_shifts (h : call.Shifts k) (keyword : Token) :
    Shifts k id Any (staticAssert call keyword) (staticAssert call (keyword.shift k)) := by
  refine read_shifts.bind fun opener hopener => .ite (fun _ => ?_) fun _ => ?_
  · exact (fault_shifts true _).bind fun _ _ => pushBack_shifts hopener
  refine (skipScope_shifts h opener).bind ?_
  rintro (_ | closer) _
  · exact .pure trivial rfl
  · exact requiredSemicolon_shifts.bind fun semicolon _ =>
      (declare_shifts (.staticAssert keyword opener closer [] semicolon)).of_eq (by simp)

theorem declaration_shifts (h : call.Shifts k) (className : String) :
    Shifts k id Any (declaration call className) (declaration call className) := by
  refine read_shifts.bind fun token ht => ?_
  dsimp only [Token.shift_kind]
  split
  · refine .ite (fun _ => ?_) fun _ => .ite (fun _ => ?_) fun _ => .ite (fun _ => ?_) fun _ =>
      .ite (fun _ => ?_) fun _ => .ite (fun _ => ?_) fun _ => .ite (fun _ => ?_) fun _ => ?_
    · exact unmute_shifts.bind fun _ _ => (externDeclaration_shifts h ht className).bind
        fun _ _ => .pure trivial rfl
    · exact unmute_shifts.bind fun _ _ => (accessLabel_shifts token).bind fun _ _ =>
        .pure trivial rfl
    · exact unmute_shifts.bind fun _ _ => (staticAssert_shifts h token).bind fun _ _ =>
        .pure trivial rfl
    · exact unmute_shifts.bind fun _ _ => (namespaceDeclaration_shifts h token).bind fun _ _ =>
        .pure trivial rfl
    · exact unmute_shifts.bind fun _ _ => (templateDeclaration_shifts h token className).bind
        fun _ _ => .pure trivial rfl
    · exact unmute_shifts.bind fun _ _ => (usingDeclaration_shifts h token).bind fun _ _ =>
        .pure trivial rfl
    · exact (pushBack_shifts ht).bind fun _ _ => (simpleDeclaration_shifts h className).bind
        fun _ _ => .pure trivial rfl
  · exact ((declare_shifts (.empty token)).of_eq (by simp)).bind fun _ _ => .pure trivial rfl
  · exact (pushBack_shifts ht).bind fun _ _ => (simpleDeclaration_shifts h className).bind
      fun _ _ => .pure trivial rfl
  · exact pushBack_pure_shifts ht rfl

theorem declarations_shifts (h : call.Shifts k) (closeExpected : Bool) (className : String) :
    Shifts k (Token.shift k) Any (declarations call closeExpected className)
      (declarations call closeExpected className) := by
  refine read_shifts.bind fun token ht => .ite (fun _ => ?_) fun _ => ?_
  · refine .ite (fun _ => .pure trivial rfl) fun _ => ?_
    exact pushBack_pure_shifts ht rfl
  refine (pushBack_shifts ht).bind fun _ _ => (h (.declaration className)).bind fun found _ =>
    .ite (fun _ => h (.declarations closeExpected className)) fun _ => ?_
  refine read_shifts.bind fun token ht => (faultExpected_shifts _ token).bind fun _ _ =>
    .ite (fun _ => h (.declarations closeExpected className)) fun _ => ?_
  exact stepOver_bind_shifts h ht (.pure trivial rfl) fun _ =>
    h (.declarations closeExpected className)

/-! ## Rules -/

/-- The bodies of rules shift if calls do. -/
theorem body_shifts (h : call.Shifts k) {α : Type} (rule : Rule α) :
    Shifts k (rule.shiftResult k) rule.Ensures (body call rule) (body call (rule.shift k)) := by
  cases rule with
  | skipTo opener closer => exact skipTo_shifts h opener closer
  | nameTail => exact nameTail_shifts h
  | literals last => exact literals_shifts h last
  | expressions opener last => exact expressions_shifts h opener last
  | expression optional => exact expression_shifts h optional
  | nestedNames soFar => exact nestedNames_shifts h soFar
  | templateArguments soFar => exact templateArguments_shifts h soFar
  | templateSeparator start argument => exact templateSeparator_shifts h start argument
  | parameters forTemplate soFar => exact parameters_shifts h forTemplate soFar
  | functionQualifiers soFar => exact functionQualifiers_shifts h soFar
  | conversionSpecifiers soFar hasType => exact conversionSpecifiers_shifts h soFar hasType
  | conversionPointers soFar allowed => exact conversionPointers_shifts h soFar allowed
  | declarator outer form allowed => exact declarator_shifts h outer form allowed
  | suffixes soFar depth nameMissing => exact suffixes_shifts h soFar depth nameMissing
  | memberInitializers soFar => exact memberInitializers_shifts h soFar
  | initDeclarators soFar => exact initDeclarators_shifts h soFar
  | bases soFar => exact bases_shifts h soFar
  | virtSpecifiers soFar => exact virtSpecifiers_shifts h soFar
  | enumerators soFar => exact enumerators_shifts h soFar
  | specifiers mode soFar => exact specifiers_shifts h mode soFar
  | declaration className => exact declaration_shifts h className
  | declarations closeExpected className => exact declarations_shifts h closeExpected className

/-- Every rule shifts, with calls of any depth. -/
theorem run_shifts (k : LinearLoc) (depth : Nat) :
    Call.Shifts k fun rule => run depth rule := by
  induction depth with
  | zero => exact fun _ _ _ => .error .exhausted
  | succ depth ih => exact fun rule => body_shifts ih rule

theorem single_shifts (h : call.Shifts k) :
    Shifts k (SimpleDeclaration.shift k) Any (single call) (single call) :=
  (enterScope_shifts _).bind fun _ _ => (specified_shifts h _).bind fun _ _ =>
    (leaveScope_shifts _ _).bind fun _ _ => .pure trivial rfl

end CppDecl.Grammar
