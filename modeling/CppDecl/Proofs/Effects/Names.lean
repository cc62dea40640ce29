import CppDecl.Proofs.Effects.Rule

/-!
# What the rules leave: names

A list of template arguments lacks its closing bracket without a fault only if it is cut off.
-/

namespace CppDecl.Grammar

open Parse (Brings Leads)
open Session (Fit Past)

variable {W : Concern} {call : Call} {s₀ s s' : Session} {t : Token}
variable {ts us : List Token} {sc : List OpenScope} {ps qs : List Part}

/-! ## Names -/

theorem nestedSeparator_leads (hcall : Effects W call) (h : s.Fit W) (soFar : List NestedName)
    (component : NestedName) :
    Leads (nestedSeparator call soFar component) s
      (Brings W s (Yields W (nestedNamesParts soFar ++ component.parts) nestedNamesParts)) := by
  refine .bind (.read h.past ?_)
  intro sep s₁ h₁ _
  split
  next hsep =>
    refine .part h₁ (hcall.leads _ s₁ h₁.left trivial) ?_
    rintro names us ps s₂ h₂ ⟨hlevel, hparts⟩
    refine ⟨_, _, h₂, (h.level.kind hsep (by decide)).append hlevel, ?_⟩
    simpa [NestedName.parts_withSep] using hparts
  next =>
    refine .bind (.pushBack h₁ ?_)
    intro s₂ h₂ _ _
    exact .pure ⟨_, _, h₂, h.level, by simp⟩

theorem nestedNames_leads (hcall : Effects W call) (h : s.Fit W) (soFar : List NestedName) :
    Leads (nestedNames call soFar) s ((Rule.nestedNames soFar).Effect W s) := by
  refine .bind (.read h.past ?_)
  intro token s₁ h₁ _
  split
  next =>
    refine .bind (.pushBack h₁ ?_)
    intro s₂ h₂ _ _
    exact .pure ⟨_, _, h₂, h.level, by simp⟩
  next hname =>
    have hkind : token.kind = .identifier := by
      simp only [ne_eq, Bool.or_eq_true, decide_eq_true_eq, not_or, not_not] at hname
      exact hname.1
    have hl := h.level.kind hkind (by decide)
    -- what comes behind a component with its brackets
    have hseparator : ∀ {us ps s'} (component : NestedName), Past W s us s.scopes ps s' →
        Level W ps us → component.parts ⊆ ps → Leads (nestedSeparator call soFar component) s'
          (Brings W s (Yields W (nestedNamesParts soFar) nestedNamesParts)) := by
      intro us ps s' component h' hl' hcomponent
      refine .part h' (nestedSeparator_leads hcall h'.left soFar component) ?_
      rintro names vs qs s₂ h₂ ⟨hlevel, hparts⟩
      exact ⟨_, _, h₂, hl'.append hlevel, by grind⟩
    have hplain : ∀ {s'}, Past W s ([] ++ [token]) s.scopes [] s' → ∀ component : NestedName,
        component.parts = [.arguments .absent .absent []] ∨
          component.parts = [.bracket .absent .absent] →
        Leads (nestedSeparator call soFar component) s'
          (Brings W s (Yields W (nestedNamesParts soFar) nestedNamesParts)) := by
      rintro s' h' component (hparts | hparts)
      · exact hseparator component (h'.add (p := .arguments .absent .absent []) fun _ => .inl rfl)
          (hl.add (by trivial)) (by simp [hparts])
      · exact hseparator component (h'.add (p := .bracket .absent .absent) fun _ => .inl rfl)
          (hl.add (by trivial)) (by simp [hparts])
    refine .bind (.read h₁ ?_)
    intro punc s₂ h₂ _
    split
    · split
      next hparen =>
        refine .bind (.part h₂ (skipScope_leads hcall h₂.left (by rw [hparen]; rfl)) ?_)
        intro closer us ps s₃ h₃ hskipped
        exact hseparator _ h₃ (hl.span hskipped.level) (by
          simpa [NestedName.parts] using hskipped.bracket)
      next =>
        refine .bind (.still (Parse.still_fault _ _) h₂ ?_)
        intro s₃ h₃ _
        refine .bind (.pushBack h₃ ?_)
        intro s₄ h₄ _ _
        exact hplain h₄ _ (by simp [NestedName.parts])
    · refine .bind (.get ?_)
      split
      next hopen =>
        have hangle : punc.kind = .openAngle := (of_decide_eq_true (Bool.and_eq_true_iff.1 hopen).1)
        refine .bind (.within (R := TakesArguments W []) h₂ (Accept.inside_closeCurly _) ?_ ?_)
        · intro s₃ h₃ _ _
          exact hcall.leads _ s₃ h₃ trivial
        · rintro ⟨args, closer⟩ us ps s₃ h₃ ⟨hlevel, hargs, hcut⟩
          have hended : Part.Ended (.arguments punc closer args) := by
            cases hpresent : closer.isPresent with
            | true => exact .inl (by simp [Part.isClosed, hpresent])
            | false => exact .inr (hcut hpresent)
          have h₄ := h₃.add fun _ => hended
          have hl₄ := ((hl.kind hangle (by decide)).append hlevel).add (p := .arguments punc closer args)
            (by trivial)
          have hparts : (NestedName.named token punc closer args .absent).parts ⊆
              ps ++ [.arguments punc closer args] := by
            simp only [NestedName.parts, templateArgumentsParts_eq, List.flatMap_nil,
              List.nil_append] at hargs ⊢
            grind
          refine .ite (fun _ => hseparator _ h₄ hl₄ hparts) fun _ => .pure ⟨_, _, h₄, hl₄, ?_⟩
          simp only [nestedNamesParts_eq, List.flatMap_append, List.flatMap_singleton]
          grind
      · refine .bind (.pushBack h₂ ?_)
        intro s₃ h₃ _ _
        exact hplain h₃ _ (by simp [NestedName.parts])

theorem not_brace_of_operator {op : Token} (h : op.kind ∈ operatorKinds) : op.isBrace = false := by
  have hall : ∀ kind ∈ operatorKinds, kind ≠ .openCurly ∧ kind ≠ .closeCurly := by decide
  simp [Token.isBrace, hall op.kind h]

theorem operatorName_leads (h : s.Fit W) (keyword : Token) :
    Leads (operatorName keyword) s (Brings W s (Yields W [] Unqualified.parts)) := by
  refine .bind (.read h.past ?_)
  intro op s₁ h₁ _
  split
  next =>
    refine .bind (.still (Parse.still_fault _ _) h₁ ?_)
    intro s₂ h₂ _
    refine .bind (.pushBack h₂ ?_)
    intro s₃ h₃ _ _
    exact .pure ⟨_, _, h₃, h.level, by simp [Unqualified.parts]⟩
  next hop =>
    have hop' : op.isBrace = false := not_brace_of_operator (by simpa using hop)
    have hl : Level W [] ([] ++ [op]) := h.level.plain hop'
    split
    next =>
      refine .bind (.read h₁ ?_)
      intro next s₂ h₂ _
      split
      next hcloser =>
        refine .pure ⟨_, _, h₂, hl.plain ?_, by simp [Unqualified.parts]⟩
        obtain ⟨-, hopen, -, hclose⟩ := closer_spec hcloser.symm
        have hnot := mt hclose.1
        simp only [Token.isBrace, Bool.or_eq_false_iff, beq_eq_false_iff_ne] at hop' ⊢
        exact ⟨hopen, hnot hop'.1⟩
      next =>
        refine .bind (.still (Parse.still_fault _ _) h₂ ?_)
        intro s₃ h₃ _
        refine .bind (.pushBack h₃ ?_)
        intro s₄ h₄ _ _
        exact .pure ⟨_, _, h₄, hl, by simp [Unqualified.parts]⟩
    next => exact .pure ⟨_, _, h₁, hl, by simp [Unqualified.parts]⟩

theorem specialName_leads (h : s.Fit W) :
    Leads specialName s (Brings W s (Yields W [] Unqualified.parts)) := by
  refine .bind (.read h.past ?_)
  intro token s₁ h₁ _
  split
  next htilde =>
    refine .bind (.read h₁ ?_)
    intro name s₂ h₂ _
    split
    next hname =>
      exact .pure ⟨_, _, h₂, (h.level.kind htilde (by decide)).kind hname (by decide), by simp [Unqualified.parts]⟩
    next =>
      refine .bind (.still (Parse.still_fault _ _) h₂ ?_)
      intro s₃ h₃ _
      refine .bind (.pushBack h₃ ?_)
      intro s₄ h₄ _ _
      exact .pure ⟨_, _, h₄, h.level.kind htilde (by decide), by simp [Unqualified.parts]⟩
  next =>
    split
    next hword =>
      refine .part h₁ (operatorName_leads h₁.left token) ?_
      rintro unqual us ps s₂ h₂ ⟨hlevel, hparts⟩
      exact ⟨_, _, h₂, (h.level.word hword).append hlevel, hparts⟩
    next =>
      refine .bind (.pushBack h₁ ?_)
      intro s₂ h₂ _ _
      exact .pure ⟨_, _, h₂, h.level, by simp [Unqualified.parts]⟩

theorem qualifiedId_leads (hcall : Effects W call) (h : s.Fit W) (need : Completeness) :
    Leads (qualifiedId call need) s (Brings W s (Yields W [] QualifiedId.parts)) := by
  refine .bind (.part h.past (hcall.leads _ s h trivial) ?_)
  rintro names us ps s₁ h₁ ⟨hlevel, hnames⟩
  extract_lets qid check
  -- checking the name consumes nothing
  have hcheck : ∀ {qid us ps s'}, Past W s us s.scopes ps s' → Level W ps us → qid.parts ⊆ ps →
      Leads (check qid) s' (Brings W s (Yields W [] QualifiedId.parts)) := by
    intro qid us ps s' h' hl hqid
    refine .ite ?_ fun _ => .pure ⟨_, _, h', hl, hqid⟩
    intro _
    refine .bind (.read h' ?_)
    intro token s₂ h₂ _
    refine .bind (.still (Parse.still_faultExpected _ _) h₂ ?_)
    intro s₃ h₃ _
    refine .bind (.pushBack h₃ ?_)
    intro s₄ h₄ _ _
    exact .pure ⟨_, _, h₄, hl, hqid⟩
  have hqid : qid.parts ⊆ ps := by
    have hsplit := parts_splitLast names
    simp only [nestedNamesParts_eq, List.flatMap_nil, List.nil_append] at hnames
    exact fun p hp => hnames (hsplit hp)
  refine .ite ?_ fun _ => .bind (.pure (hcheck h₁ hlevel hqid))
  intro _
  refine .bind (.part h₁ (specialName_leads h₁.left) ?_)
  rintro unqual vs qs s₂ h₂ ⟨hlevel', hunqual⟩
  refine .bind (.pure (hcheck h₂ (hlevel.append hlevel') ?_))
  obtain ⟨nested, old⟩ := qid
  simp only [QualifiedId.parts] at hqid ⊢
  grind

/-! ## Template arguments -/

theorem templateSeparator_leads (hcall : Effects W call) (h : s.Fit W) (start : Token)
    (argument : TemplateArgument) : Leads (templateSeparator call start argument) s
      ((Rule.templateSeparator start argument).Effect W s) := by
  refine .bind (.read h.past ?_)
  intro sep s₁ h₁ _
  split
  next hsep =>
    refine .bind (.still Parse.still_unmute h₁ ?_)
    intro s₂ h₂ _
    rcases (Bool.or_eq_true _ _).mp hsep with hkind | hkind
    · have hkind := of_decide_eq_true hkind
      exact .pure ⟨_, _, h₂, ⟨h.level.kind hkind (by decide), by simp⟩, fun habsent => by
        simp [Token.isPresent, hkind] at habsent⟩
    · have hkind := of_decide_eq_true hkind
      exact .pure ⟨_, _, h₂, ⟨h.level.kind hkind (by decide), by simp⟩, fun habsent => by
        simp [Token.isPresent, hkind] at habsent⟩
  next hsep =>
    refine .bind (stepOver_leads hcall h₁ ?_ ?_)
    · intro vs s₂ h₂ hleft _
      refine .pure ⟨_, _, h₂, ⟨hleft.level h.level, by simp [TemplateArgument.parts]⟩, fun _ => ?_⟩
      exact hleft.cutOff fun hkind => hsep (by simp [hkind])
    · intro last vs qs s₂ h₂ hlevel
      refine .part h₂ (hcall.leads _ s₂ h₂.left trivial) ?_
      rintro result us ps s₃ h₃ ⟨⟨hlevel', hparts⟩, hcut⟩
      refine ⟨_, _, h₃, ⟨(h.level.span hlevel).append hlevel', ?_⟩, hcut⟩
      simp only [TemplateArgument.parts] at hparts
      grind

/-- Specifiers and declarators from their start. -/
theorem specified_leads (hcall : Effects W call) (h : s.Fit W) (mode : Mode) :
    Leads (specified call mode) s (Brings W s (Yields W [] SimpleDeclaration.parts)) := by
  refine .part h.past (hcall.leads _ s h trivial) ?_
  rintro simple us ps s₁ h₁ ⟨hlevel, hparts⟩
  refine ⟨_, _, h₁, hlevel, ?_⟩
  simpa [SimpleDeclaration.parts, SimpleDeclaration.empty] using hparts

theorem parts_typeChain (simple : SimpleDeclaration) :
    specifiersParts simple.specifiers ++ chainParts (typeChain simple) ⊆ simple.parts := by
  obtain ⟨specifiers, declarators, semicolon⟩ := simple
  cases declarators with
  | nil => simp [SimpleDeclaration.parts, typeChain]
  | cons d rest =>
    obtain ⟨⟨chain, qid⟩, init, comma⟩ := d
    simp only [SimpleDeclaration.parts, typeChain, initDeclaratorsParts, InitDeclarator.parts,
      Declarator.parts]
    grind

theorem templateArguments_leads (hcall : Effects W call) (h : s.Fit W)
    (soFar : List TemplateArgument) : Leads (templateArguments call soFar) s
      ((Rule.templateArguments soFar).Effect W s) := by
  refine .bind (.peek h.past ?_)
  intro start s₁ h₁ _ _
  refine .bind (.beginTrial ?_)
  intro trial s₂ hbegun
  refine .bind (.part (hbegun.past h₁) (specified_leads hcall (hbegun.past h₁).left _) ?_)
  rintro simple us ps s₃ h₃ ⟨hlevel, hsimple⟩
  refine .bind (.failedSince _ ?_)
  extract_lets rest
  have hrest : ∀ {argument us ps s'}, Past W s us s.scopes ps s' → Level W ps us →
      argument.parts ⊆ ps →
      Leads (rest argument) s' ((Rule.templateArguments soFar).Effect W s) := by
    intro argument us ps s' h' hl hargument
    refine .bind (.part h' (hcall.leads _ s' h'.left trivial) ?_)
    rintro ⟨argument', sep⟩ vs qs s₄ h₄ ⟨⟨hlevel', hargument'⟩, hcut⟩
    have hl₄ := hl.append hlevel'
    refine .ite ?_ ?_
    · intro hcomma
      refine .part h₄ (hcall.leads _ s₄ h₄.left trivial) ?_
      rintro ⟨args, closer⟩ us ps s₅ h₅ ⟨hlevel'', hargs, hcut'⟩
      refine ⟨_, _, h₅, hl₄.append hlevel'', ?_, hcut'⟩
      simp only [templateArgumentsParts_eq, List.flatMap_append, List.flatMap_singleton,
        parts_withComma] at hargs ⊢
      grind
    · intro _
      refine .pure ⟨_, _, h₄, hl₄, ?_, ?_⟩
      · simp only [templateArgumentsParts_eq, List.flatMap_append, List.flatMap_singleton]
        grind
      · intro habsent
        simpa using hcut habsent
  refine .ite ?_ ?_
  · intro _
    refine .bind (.abandon h₁ hbegun h₃ ?_)
    intro s₄ h₄ _
    exact .bind (.pure (hrest h₄ h.level (by simp [TemplateArgument.parts])))
  · intro hfailed
    refine .bind (.endTrial h₁ hbegun h₃ (by simpa using hfailed) ?_)
    intro s₄ h₄
    refine .bind (.pure (hrest h₄ hlevel ?_))
    have hchain := parts_typeChain simple
    simp only [TemplateArgument.parts]
    grind

end CppDecl.Grammar
