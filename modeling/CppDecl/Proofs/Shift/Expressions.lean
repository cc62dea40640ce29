import CppDecl.Proofs.Shift.Rule

/-!
# Names and expressions at another place

Names, parameters, expressions and initializers shift if calls do.
-/

namespace CppDecl.Grammar

open Parse

variable {k : LinearLoc} {call : Call}

/-! ## Names -/

theorem nestedSeparator_shifts (h : call.Shifts k) (soFar : List NestedName)
    (component : NestedName) :
    Shifts k (List.map (NestedName.shift k)) Any (nestedSeparator call soFar component)
      (nestedSeparator call (soFar.map (NestedName.shift k)) (component.shift k)) := by
  refine read_shifts.bind fun sep hsep => .ite (fun _ => ?_) fun _ => ?_
  · exact (h (.nestedNames (soFar ++ [component.withSep sep]))).of_eq (by simp)
  · exact pushBack_pure_shifts hsep (by simp)

theorem nestedNames_shifts (h : call.Shifts k) (soFar : List NestedName) :
    Shifts k (List.map (NestedName.shift k)) Any (nestedNames call soFar)
      (nestedNames call (soFar.map (NestedName.shift k))) := by
  refine read_shifts.bind fun token ht => .ite (fun _ => ?_) fun _ => ?_
  · exact pushBack_pure_shifts ht rfl
  refine read_shifts.bind fun punc hpunc => .ite
    (fun _ => .ite (fun _ => ?_) fun _ => ?_) fun _ => ?_
  · refine (skipScope_shifts h punc).bind fun closer _ => ?_
    exact (nestedSeparator_shifts h soFar
      (.decltype token punc (closer.getD .absent) .absent)).of_eq (by simp)
  · refine (fault_shifts true _).bind fun _ _ => (pushBack_shifts hpunc).bind fun _ _ => ?_
    exact (nestedSeparator_shifts h soFar (.decltype token .absent .absent .absent)).of_eq (by simp)
  refine .bind .get fun s _ => .ite (fun _ => ?_) fun _ => ?_
  · refine (inside_shifts _ (h (.templateArguments []))).bind ?_
    rintro ⟨args, closer⟩ _
    refine .ite (fun _ => ?_) fun _ => .pure trivial ?_
    · exact (nestedSeparator_shifts h soFar (.named token punc closer args .absent)).of_eq (by simp)
    · simp
  · refine (pushBack_shifts hpunc).bind fun _ _ => ?_
    exact (nestedSeparator_shifts h soFar (.named token .absent .absent [] .absent)).of_eq (by simp)

theorem templateSeparator_shifts (h : call.Shifts k) (start : Token) (argument : TemplateArgument) :
    Shifts k (Prod.map (TemplateArgument.shift k) (Token.shift k)) Any
      (templateSeparator call start argument)
      (templateSeparator call (start.shift k) (argument.shift k)) := by
  refine read_shifts.bind fun sep hsep => .ite (fun _ => ?_) fun _ => ?_
  · exact unmute_shifts.bind fun _ _ => .pure trivial rfl
  · exact stepOver_bind_shifts h hsep (.pure trivial (by simp)) fun last =>
      (h (.templateSeparator start (.unknown start last .absent))).of_eq (by simp)

theorem specified_shifts (h : call.Shifts k) (mode : Mode) :
    Shifts k (SimpleDeclaration.shift k) Any (specified call mode) (specified call mode) :=
  (h (.specifiers mode ⟨.empty, false, false⟩)).of_eq (by simp [specified, SpecifierState.shift])

theorem templateArguments_shifts (h : call.Shifts k) (soFar : List TemplateArgument) :
    Shifts k (Prod.map (List.map (TemplateArgument.shift k)) (Token.shift k)) Any
      (templateArguments call soFar)
      (templateArguments call (soFar.map (TemplateArgument.shift k))) := by
  refine peek_shifts.bind fun start _ => beginTrial_shifts.bind fun trial _ => ?_
  refine (specified_shifts h _).bind fun simple _ => (failedSince_shifts _).bind fun failed _ => ?_
  extract_lets rest rest'
  have hrest : ∀ argument : TemplateArgument,
      Shifts k (Prod.map (List.map (TemplateArgument.shift k)) (Token.shift k)) Any
        (rest argument) (rest' (argument.shift k)) := by
    refine fun argument => (h (.templateSeparator start argument)).bind ?_
    rintro ⟨argument, sep⟩ _
    refine .ite (fun _ => ?_) fun _ => .pure trivial ?_
    · exact (h (.templateArguments (soFar ++ [withComma sep argument]))).of_eq (by simp)
    · simp
  refine .ite (fun _ => ?_) fun _ => ?_
  · exact (abandon_shifts trial).bind fun _ _ => hrest (.unknown start .absent .absent)
  · refine (endTrial_shifts trial).bind fun _ _ => ?_
    exact (hrest (.typeId simple.specifiers (typeChain simple) .absent)).of_eq (by simp)

theorem operatorName_shifts (keyword : Token) :
    Shifts k (Unqualified.shift k) Any (operatorName keyword) (operatorName (keyword.shift k)) := by
  refine read_shifts.bind fun op hop => .ite (fun _ => ?_) fun _ => .ite (fun _ => ?_) fun _ => ?_
  · exact (fault_shifts true _).bind fun _ _ => pushBack_pure_shifts hop (by simp)
  · refine read_shifts.bind fun next hnext => .ite (fun _ => .pure trivial (by simp)) fun _ => ?_
    exact (fault_shifts true _).bind fun _ _ => pushBack_pure_shifts hnext (by simp)
  · exact .pure trivial (by simp)

theorem specialName_shifts : Shifts k (Unqualified.shift k) Any specialName specialName := by
  refine read_shifts.bind fun token ht => .ite (fun _ => ?_) fun _ => .ite (fun _ => ?_) fun _ => ?_
  · refine read_shifts.bind fun name hname => .ite (fun _ => .pure trivial (by simp)) fun _ => ?_
    exact (fault_shifts true _).bind fun _ _ => pushBack_pure_shifts hname (by simp)
  · exact operatorName_shifts token
  · exact pushBack_pure_shifts ht (by simp)

theorem qualifiedId_shifts (h : call.Shifts k) (need : Completeness) :
    Shifts k (QualifiedId.shift k) Any (qualifiedId call need) (qualifiedId call need) := by
  refine Shifts.bind (m := List.map (NestedName.shift k)) (h (.nestedNames []))
    fun components _ => ?_
  extract_lets qid rest qid'
  have hrest : ∀ qid : QualifiedId, Shifts k (QualifiedId.shift k) Any (rest qid)
      (rest (qid.shift k)) := by
    refine fun qid => .iteOf (by simp) (fun _ => ?_) fun _ => .pure trivial rfl
    exact read_shifts.bind fun token ht => (faultExpected_shifts _ token).bind fun _ _ =>
      pushBack_pure_shifts ht rfl
  rw [show qid' = qid.shift k from splitLast_shift components]
  refine .iteOf (by simp) (fun _ => ?_) fun _ => hrest qid
  refine specialName_shifts.bind fun unqual _ => ?_
  exact (hrest { qid with unqual }).of_eq (by simp)

/-! ## Parameters -/

theorem parameterList_shifts (h : call.Shifts k) (forTemplate : Bool) :
    Shifts k (ParameterList.shift k) Any (parameterList call forTemplate)
      (parameterList call forTemplate) := by
  refine read_shifts.bind fun opener _ => unmute_shifts.bind fun _ _ =>
    read_shifts.bind fun token ht => .ite (fun _ => .pure trivial (by simp)) fun _ => ?_
  refine (pushBack_shifts ht).bind fun _ _ => inside_shifts _ ?_
  exact (h (.parameters forTemplate ⟨opener, .absent, []⟩)).of_eq (by simp)

theorem templateParameter_shifts (h : call.Shifts k) :
    Shifts k id Any (templateParameter call) (templateParameter call) := by
  refine peek_shifts.bind fun opener _ => .ite (fun _ => faultExpected_shifts _ opener) fun _ => ?_
  refine beginActivity_shifts.bind fun activity _ => ?_
  refine (withCloseAngles_shifts (parameterList_shifts h true)).bind fun _ _ =>
    (failedSince_shifts _).bind fun _ _ => .ite (fun _ => .pure trivial rfl) fun _ => ?_
  refine read_shifts.bind fun word hword => .ite (fun _ => ?_) fun _ => ?_
  · exact (faultExpected_shifts _ word).bind fun _ _ => pushBack_shifts hword
  · exact (specified_shifts h .typeId).bind fun _ _ => unmuteUnlessFailed_shifts activity

theorem parameter_shifts (h : call.Shifts k) (forTemplate : Bool) :
    Shifts k (Prod.map (Option.map (Parameter.shift k)) id) Any (parameter call forTemplate)
      (parameter call forTemplate) := by
  refine read_shifts.bind fun first hfirst => .ite (fun _ => .pure trivial ?_) fun _ =>
    .ite (fun _ => ?_) fun _ => ?_
  · simp
  · exact (templateParameter_shifts h).bind fun _ _ => .pure trivial rfl
  refine (pushBack_shifts hfirst).bind fun _ _ => beginActivity_shifts.bind fun activity _ => ?_
  refine (specified_shifts h _).bind fun simple _ => (unmuteUnlessFailed_shifts activity).bind
    fun _ _ => (consumedSince_shifts activity).bind fun consumed _ => .pure trivial ?_
  rw [SimpleDeclaration.shift_declarators, SimpleDeclaration.shift_specifiers]
  cases simple.declarators <;> simp

theorem parameters_shifts (h : call.Shifts k) (forTemplate : Bool) (soFar : ParameterList) :
    Shifts k (ParameterList.shift k) Any (parameters call forTemplate soFar)
      (parameters call forTemplate (soFar.shift k)) := by
  refine (parameter_shifts h forTemplate).bind ?_
  rintro ⟨kept, consumed⟩ _
  dsimp only [Prod.map, id]
  have hlist : addParameter (soFar.shift k) (kept.map (Parameter.shift k)) .absent =
      (addParameter soFar kept .absent).shift k := (shift_addParameter soFar kept .absent).symm
  refine read_shifts.bind fun token ht => .ite (fun _ => .pure trivial ?_) fun _ =>
    .ite (fun _ => ?_) fun _ => ?_
  · rw [hlist]
    cases addParameter soFar kept .absent
    simp
  · exact (h (.parameters forTemplate (addParameter soFar kept token))).of_eq (by simp)
  rw [hlist]
  refine (faultExpected_shifts _ token).bind fun _ _ => .ite (fun _ => ?_) fun _ => ?_
  · refine (mayStay_shifts ht).bind fun _ _ => .ite (fun _ => ?_) fun _ => .pure trivial rfl
    exact (pushBack_shifts ht).bind fun _ _ =>
      h (.parameters forTemplate (addParameter soFar kept .absent))
  · exact stepOver_bind_shifts h ht (.pure trivial rfl) fun _ =>
      h (.parameters forTemplate (addParameter soFar kept .absent))

theorem functionQualifiers_shifts (h : call.Shifts k) (soFar : List Token) :
    Shifts k (List.map (Token.shift k)) Any (functionQualifiers call soFar)
      (functionQualifiers call (soFar.map (Token.shift k))) := by
  refine read_shifts.bind fun token ht => .ite (fun _ => ?_) fun _ => ?_
  · exact (h (.functionQualifiers (soFar ++ [token]))).of_eq (by simp)
  · exact pushBack_pure_shifts ht rfl

theorem functionDeclarator_shifts (h : call.Shifts k) :
    Shifts k (Option.map (FunctionDeclarator.shift k)) Any (functionDeclarator call)
      (functionDeclarator call) := by
  refine peek_shifts.bind fun opener _ => .ite (fun _ => ?_) fun _ => ?_
  · exact (faultExpected_shifts _ opener).bind fun _ _ => .pure trivial rfl
  refine unmute_shifts.bind fun _ _ => (parameterList_shifts h false).bind fun params _ => ?_
  exact (h (.functionQualifiers [])).bind fun qualifiers _ => .pure trivial (by simp)

/-! ## Expressions -/

theorem nameTail_shifts (h : call.Shifts k) : Shifts k id Any (nameTail call) (nameTail call) := by
  refine read_shifts.bind fun first hfirst => ?_
  extract_lets rest
  have hrest : ∀ token : Token, token.isPresent = true →
      Shifts k id Any (rest token) (rest (token.shift k)) := by
    refine fun token ht => .ite (fun _ => pushBack_pure_shifts ht rfl)
      fun _ => read_shifts.bind fun name hname => .ite (fun _ => ?_) fun _ => h .nameTail
    exact (faultExpected_shifts _ name).bind fun _ _ => pushBack_shifts hname
  refine .ite (fun _ => ?_) fun _ => hrest first hfirst
  exact (withCloseAngles_shifts (skipScope_shifts h first)).bind fun _ _ => read_shifts.bind hrest

theorem literals_shifts (h : call.Shifts k) (last : Token) :
    Shifts k (Token.shift k) Any (literals call last) (literals call (last.shift k)) := by
  refine read_shifts.bind fun token ht => .ite (fun _ => h (.literals token)) fun _ => ?_
  exact pushBack_pure_shifts ht rfl

theorem expressions_shifts (h : call.Shifts k) (opener : TokenKind) (last : Token) :
    Shifts k (Token.shift k) Any (expressions call opener last)
      (expressions call opener (last.shift k)) := by
  unfold expressions
  split
  refine read_shifts.bind fun token ht => .ite (fun _ => .pure trivial rfl) fun _ => ?_
  refine (pushBack_shifts ht).bind fun _ _ => (h (.expression false)).bind fun _ _ => ?_
  refine read_shifts.bind fun sep hsep => .ite (fun _ => h (.expressions opener last)) fun _ =>
    .ite (fun _ => .pure trivial rfl) fun _ => (faultExpected_shifts _ sep).bind fun _ _ => ?_
  exact stepOver_bind_shifts h hsep (.pure trivial rfl) fun _ => h (.expressions opener sep)

theorem lambda_shifts (h : call.Shifts k) :
    Shifts k (Token.shift k) Any (lambda call) (lambda call) := by
  refine read_shifts.bind fun captures _ => .afterIf (faultExpected_shifts _ captures) ?_
  refine peek_shifts.bind fun opener _ => ?_
  extract_lets body type
  have hbody : ∀ token : Token, token.isPresent = true →
      Shifts k (Token.shift k) Any (body token) (body (token.shift k)) := by
    refine fun token ht => .ite (fun _ => ?_) fun _ => ?_
    · exact (faultExpected_shifts _ token).bind fun _ _ => pushBack_pure_shifts ht rfl
    · exact (skipScope_shifts h token).bind fun closer _ => .pure trivial (by simp)
  have htype : ∀ u, Shifts k (Token.shift k) Any (type u) (type u) := by
    refine fun _ => read_shifts.bind fun arrow harrow => .ite (fun _ => ?_) fun _ =>
      hbody arrow harrow
    exact (specified_shifts h .typeId).bind fun _ _ => read_shifts.bind hbody
  refine .ite (fun _ => ?_) fun _ => ?_
  · exact (parameterList_shifts h false).bind fun _ _ => htype ()
  · exact (faultExpected_shifts _ opener).bind fun _ _ => htype ()

theorem operand_shifts (h : call.Shifts k) (start : Token) :
    Shifts k (Option.map (Token.shift k)) Any (operand call start)
      (operand call (start.shift k)) := by
  unfold operand
  rw [Token.shift_kind]
  split
  · refine (h .nameTail).bind fun _ _ => read_shifts.bind fun next hnext => ?_
    dsimp only [Token.shift_kind]
    split
    · exact (inside_shifts _ (h (.expressions .openParen .absent))).bind fun _ _ =>
        .pure trivial rfl
    · exact (inside_shifts _ (h (.expressions .openCurly .absent))).bind fun _ _ =>
        .pure trivial rfl
    · exact pushBack_pure_shifts hnext rfl
  · exact .pure trivial rfl
  · exact (h (.literals start)).bind fun _ _ => .pure trivial rfl
  · refine inside_shifts _ ((h (.expression false)).bind fun _ _ => read_shifts.bind
      fun closer hcloser => .ite (fun _ => ?_) fun _ => ?_)
    · refine (h (.expression true)).bind ?_
      rintro ⟨castStart, castStop⟩ _
      refine .pure trivial ?_
      cases hcast : castStart.isPresent <;> simp [hcast]
    · refine (pushBack_shifts hcloser).bind fun _ _ => (closeScope_shifts h start).bind
        fun _ _ => .pure trivial (by simp)
  · exact (h (.expressions .openCurly .absent)).bind fun _ _ => .pure trivial rfl
  · exact (h (.expression false)).bind fun _ _ => .pure trivial rfl
  · exact (h (.expression false)).bind fun _ _ => .pure trivial rfl
  · exact (h (.expression false)).bind fun _ _ => .pure trivial rfl
  · exact (lambda_shifts h).bind fun _ _ => .pure trivial rfl
  · exact .pure trivial rfl

theorem continuation_shifts (h : call.Shifts k) (stop : Token) :
    Shifts k (Token.shift k) Any (continuation call stop) (continuation call (stop.shift k)) := by
  have hlast : Shifts k (Token.shift k) Any
      (do let next ← call (.expression false)
          return if next.1.isPresent then next.2 else stop)
      (do let next ← call (.expression false)
          return if next.1.isPresent then next.2 else stop.shift k) := by
    refine (h (.expression false)).bind fun next _ => .pure trivial ?_
    cases hnext : next.1.isPresent <;> simp [hnext]
  refine read_shifts.bind fun token ht => .bind .get fun s _ => .ite (fun _ => ?_) fun _ =>
    .ite (fun _ => hlast) fun _ => .ite (fun _ => ?_) fun _ => ?_
  · exact pushBack_pure_shifts ht rfl
  · refine (h (.expression false)).bind fun _ _ => read_shifts.bind fun colon hcolon =>
      .ite (fun _ => ?_) fun _ => hlast
    exact (faultExpected_shifts _ colon).bind fun _ _ => pushBack_pure_shifts hcolon rfl
  · exact pushBack_pure_shifts ht rfl

theorem expression_shifts (h : call.Shifts k) (optional : Bool) :
    Shifts k (Prod.map (Token.shift k) (Token.shift k)) Any (expression call optional)
      (expression call optional) := by
  refine read_shifts.bind fun start hstart => (operand_shifts h start).bind ?_
  rintro (_ | stop) _
  · refine .afterIf (faultExpected_shifts _ start) ?_
    exact pushBack_pure_shifts hstart rfl
  · exact (continuation_shifts h stop).bind fun _ _ => .pure trivial rfl

/-! ## Initializers -/

theorem memberInitializers_shifts (h : call.Shifts k) (soFar : List MemberInitializer) :
    Shifts k (List.map (MemberInitializer.shift k)) Any (memberInitializers call soFar)
      (memberInitializers call (soFar.map (MemberInitializer.shift k))) := by
  refine (qualifiedId_shifts h _).bind fun qid _ => .iteOf (by simp) (fun _ => ?_) fun _ => ?_
  · refine read_shifts.bind fun token ht => (faultExpected_shifts _ token).bind fun _ _ =>
      .iteOf (by simp) (fun _ => ?_) fun _ => ?_
    · exact (pushBack_shifts ht).bind fun _ _ => h (.memberInitializers soFar)
    · exact stepOver_bind_shifts h ht (.pure trivial rfl) fun _ => h (.memberInitializers soFar)
  refine read_shifts.bind fun opener hopener => .ite (fun _ => ?_) fun _ => ?_
  · exact (faultExpected_shifts _ opener).bind fun _ _ => (pushBack_shifts hopener).bind fun _ _ =>
      h (.memberInitializers soFar)
  refine (skipScope_shifts h opener).bind fun closer _ => read_shifts.bind fun next hnext => ?_
  dsimp only [Token.shift_kind]
  split
  · exact unmute_shifts.bind fun _ _ => pushBack_pure_shifts hnext (by simp)
  · refine unmute_shifts.bind fun _ _ => ?_
    have hnext := h (.memberInitializers (soFar ++ [⟨qid, opener, closer.getD .absent, next⟩]))
    exact hnext.of_eq (by simp)
  · exact (fault_shifts true (.noticed _ next)).bind fun _ _ =>
      pushBack_pure_shifts hnext (by simp)

theorem functionBody_shifts (h : call.Shifts k) (declared : Nat) :
    Shifts k (Initializer.shift k) Any (functionBody call declared)
      (functionBody call declared) := by
  refine read_shifts.bind fun first hfirst => .ite (fun _ => ?_) fun _ => ?_
  · exact (h (.expression false)).bind fun _ _ => .pure trivial (by simp)
  extract_lets rest
  have hrest : ∀ (colon : Token) (inits : List MemberInitializer) (token : Token),
      token.isPresent = true → Shifts k (Initializer.shift k) Any (rest (colon, inits, token))
        (rest (colon.shift k, inits.map (MemberInitializer.shift k), token.shift k)) := by
    refine fun colon inits token ht => .ite (fun _ => ?_) fun _ => ?_
    · exact (enterScope_shifts _).bind fun _ _ => (skipScope_shifts h token).bind fun closer _ =>
        (leaveScope_shifts _ _).bind fun _ _ => .pure trivial (by simp)
    · exact (pushBack_shifts ht).bind fun _ _ => .ite (fun _ => .pure trivial (by simp)) fun _ =>
        .pure trivial (by simp)
  refine .ite (fun _ => ?_) fun _ => hrest .absent [] first hfirst
  exact (leavingOpenCurly_shifts (h (.memberInitializers []))).bind fun inits _ =>
    read_shifts.bind fun token ht => hrest first inits token ht

theorem typeInitializer_shifts (h : call.Shifts k) :
    Shifts k (Initializer.shift k) Any (typeInitializer call) (typeInitializer call) := by
  refine read_shifts.bind fun equalSign hequal => .ite (fun _ => ?_) fun _ => ?_
  · exact pushBack_pure_shifts hequal (by simp)
  refine peek_shifts.bind fun token _ => .ite (fun _ => ?_) fun _ => ?_
  · exact read_shifts.bind fun _ _ => .pure trivial (by simp)
  refine beginActivity_shifts.bind fun activity _ => (specified_shifts h .typeId).bind
    fun simple _ => (failedSince_shifts _).bind fun _ _ => .ite (fun _ => ?_) fun _ => ?_
  · exact .pure trivial (by simp)
  · exact .pure trivial (by simp)

theorem variableInitializer_shifts (h : call.Shifts k) (allowBraces : Bool) :
    Shifts k (Initializer.shift k) Any (variableInitializer call allowBraces)
      (variableInitializer call allowBraces) := by
  refine read_shifts.bind fun token ht => .ite (fun _ => ?_) fun _ => .ite (fun _ => ?_) fun _ =>
    .ite (fun _ => ?_) fun _ => ?_
  · exact (pushBack_shifts ht).bind fun _ _ => (h (.expression false)).bind fun _ _ =>
      .pure trivial (by simp)
  · exact (h (.expression false)).bind fun _ _ => .pure trivial (by simp)
  · exact (h (.expression false)).bind fun _ _ => .pure trivial (by simp)
  · exact pushBack_pure_shifts ht (by simp)

end CppDecl.Grammar
