import CppDecl.Proofs.Effects.Names

/-!
# What the rules leave: parameters, expressions and initializers

A list of expressions in braces that is an operand by itself does not keep the brackets further out
from ending it.  Where braces are watched, that is left out.
-/

namespace CppDecl.Grammar

open Parse (Brings Leads Left)
open Session (Fit Past Pending)

variable {W : Concern} {call : Call} {α : Type} {s₀ s s' : Session} {t : Token}
variable {ts us : List Token} {sc : List OpenScope} {ps qs : List Part}

/-! ## Parameters -/

theorem parameterBrackets_spec (forTemplate : Bool) :
    (parameterBrackets forTemplate).2 ≠ .openCurly ∧
      (parameterBrackets forTemplate).2 ≠ .closeCurly ∧
      (parameterBrackets forTemplate).2 ≠ .invalid := by
  cases forTemplate <;> decide

/-- A closing bracket of parameters. -/
theorem of_parameterBrackets {token : Token} {forTemplate : Bool}
    (h : token.kind = (parameterBrackets forTemplate).2) :
    token.isBrace = false ∧ token.isPresent = true := by
  obtain ⟨hopen, hclose, hpresent⟩ := parameterBrackets_spec forTemplate
  simp [Token.isBrace, Token.isPresent, h, hopen, hclose, hpresent]

theorem parameterList_leads (hcall : Effects W call) (h : s.Fit W) (hopen : s.Pending t)
    (hplain : t.isBrace = false) (forTemplate : Bool) :
    Leads (parameterList call forTemplate) s (Brings W s (Yields W [] ParameterList.parts)) := by
  unfold parameterList
  split
  next openKind closeKind hbrackets =>
  refine .bind (.read h.past ?_)
  intro opener s₁ h₁ hfirst
  obtain rfl := hfirst t hopen
  refine .bind (.still Parse.still_unmute h₁ ?_)
  intro s₂ h₂ _
  refine .bind (.read h₂ ?_)
  intro token s₃ h₃ _
  have hl := h.level.plain hplain
  split
  next hclose =>
    have hbracket : token.kind = (parameterBrackets forTemplate).2 := by rw [hbrackets, hclose]
    obtain ⟨htoken, hpresent⟩ := of_parameterBrackets hbracket
    refine .pure ⟨_, _, h₃.add (p := .bracket opener token) fun _ => .inl ?_,
      (hl.plain htoken).add (by trivial), ?_⟩
    · simp [Part.isClosed, hpresent]
    · simp [ParameterList.parts]
  next =>
    refine .bind (.pushBack h₃ ?_)
    intro s₄ h₄ _ _
    refine .within (R := Yields W [] ParameterList.parts) h₄ (Accept.inside_closeCurly _) ?_ ?_
    · intro s₅ h₅ _ _
      exact hcall.leads (.parameters forTemplate ⟨opener, .absent, []⟩) s₅ h₅ trivial
    · rintro list us ps s₅ h₅ ⟨hlevel, hlist⟩
      exact ⟨_, _, h₅, hl.append hlevel, hlist⟩

theorem templateParameter_leads (hcall : Effects W call) (h : s.Fit W) :
    Leads (templateParameter call) s (Brings W s (Levels W)) := by
  refine .bind (.peek h.past ?_)
  intro opener s₁ h₁ hopen _
  split
  · refine .bind (.still (Parse.still_faultExpected _ _) h₁ ?_)
    intro s₂ h₂ _
    exact .pure ⟨_, _, h₂, h.level⟩
  next hangle =>
    have hplain : opener.isBrace = false := by simp [Token.isBrace, not_not.1 hangle]
    refine .bind (.beginActivity h₁ ?_)
    intro activity s₂ h₂ hpending
    refine .bind (.within (R := Yields W [] ParameterList.parts) h₂ id ?_ ?_)
    · intro s₃ h₃ hqueue _
      exact parameterList_leads hcall h₃ ((hpending opener hopen).of_queue_eq hqueue) hplain true
    · rintro list us ps s₃ h₃ ⟨hlevel, -⟩
      refine .bind (.failedSince _ (.ite (fun _ => .pure ⟨_, _, h₃, hlevel⟩) fun _ => ?_))
      refine .bind (.read h₃ ?_)
      intro word s₄ h₄ _
      split
      next =>
        refine .bind (.still (Parse.still_faultExpected _ _) h₄ ?_)
        intro s₅ h₅ _
        exact .leaving h₅ hlevel
      next hword =>
        have hl : Level W ps (us ++ [word]) := by
          rcases Bool.or_eq_true_iff.1 (by simpa [Decidable.imp_iff_or_not] using hword) with hw | hw
          · exact hlevel.word hw
          · exact hlevel.word hw
        refine .bind (.part h₄ (specified_leads hcall h₄.left _) ?_)
        rintro _ vs qs s₅ h₅ ⟨hlevel', -⟩
        exact .unmuteUnlessFailed activity h₅ fun s₆ h₆ => ⟨_, _, h₆, hl.append hlevel'⟩

/-- The parameter that is kept is made of what was read. -/
theorem parameter_leads (hcall : Effects W call) (h : s.Fit W) (forTemplate : Bool) :
    Leads (parameter call forTemplate) s
      (Brings W s (Yields W [] fun result => result.1.toList.flatMap Parameter.parts)) := by
  refine .bind (.read h.past ?_)
  intro first s₁ h₁ _
  split
  next hellipsis =>
    have hkind := of_decide_eq_true (Bool.and_eq_true_iff.1 hellipsis).1
    refine .pure ⟨_, _, h₁, h.level.kind hkind (by decide), ?_⟩
    simp [Parameter.parts_eq, Specifier.parts, Declarator.empty, Declarator.parts_eq,
      QualifiedId.empty, QualifiedId.parts_eq, Unqualified.parts, Initializer.parts]
  split
  next hword =>
    refine .bind (.part h₁ (templateParameter_leads hcall h₁.left) ?_)
    intro _ us ps s₂ h₂ hlevel
    exact .pure ⟨_, _, h₂, (h.level.word (Bool.and_eq_true_iff.1 hword).2).append hlevel, by simp⟩
  next =>
    refine .bind (.pushBack h₁ ?_)
    intro s₂ h₂ _ _
    refine .bind (.beginActivity h₂ ?_)
    intro activity s₃ h₃ _
    refine .bind (.part h₃ (specified_leads hcall h₃.left _) ?_)
    rintro ⟨specifiers, declarators, semicolon⟩ us ps s₄ h₄ ⟨hlevel, hparts⟩
    refine .bind (.unmuteUnlessFailed activity h₄ ?_)
    intro s₅ h₅
    refine .bind (.consumedSince activity h₅ ?_)
    intro consumed s₆ h₆
    refine .pure ⟨_, _, h₆, hlevel, ?_⟩
    cases declarators with
    | nil => simp
    | cons d rest =>
      obtain ⟨declarator, init, comma⟩ := d
      simp only [SimpleDeclaration.parts, initDeclaratorsParts, InitDeclarator.parts] at hparts
      simp only [Option.toList_some, List.flatMap_singleton, Parameter.parts]
      grind

theorem parts_addParameter (list : ParameterList) (parameter? : Option Parameter) (comma : Token) :
    (addParameter list parameter? comma).params.flatMap Parameter.parts =
      list.params.flatMap Parameter.parts ++ parameter?.toList.flatMap Parameter.parts := by
  cases parameter? <;> simp [addParameter, Parameter.parts_eq]

theorem parameters_leads (hcall : Effects W call) (h : s.Fit W) (forTemplate : Bool)
    (soFar : ParameterList) : Leads (parameters call forTemplate soFar) s
      ((Rule.parameters forTemplate soFar).Effect W s) := by
  refine .bind (.part h.past (parameter_leads hcall h forTemplate) ?_)
  rintro ⟨kept, consumed⟩ us ps s₁ h₁ ⟨hlevel, hkept⟩
  refine .bind (.read h₁ ?_)
  intro token s₂ h₂ _
  -- going on with the next parameter
  have hnext : ∀ (qs : List Part) {us comma s'}, Past W s us s.scopes (ps ++ qs) s' →
      Level W (ps ++ qs) us → Leads (call (.parameters forTemplate (addParameter soFar kept comma))) s'
        ((Rule.parameters forTemplate soFar).Effect W s) := by
    intro qs us comma s' h' hl
    refine .part h' (hcall.leads _ s' h'.left trivial) ?_
    rintro list vs rs s₃ h₃ ⟨hlevel', hlist⟩
    refine ⟨_, _, h₃, hl.append hlevel', ?_⟩
    simp only [parametersParts_eq, parts_addParameter] at hlist ⊢
    grind
  -- stopping after a fault
  have hstop : ∀ {us s'}, Past W s us s.scopes ps s' → Level W ps us → 0 < s'.rawErrors →
      Leads (Pure.pure (addParameter soFar kept .absent)) s'
        ((Rule.parameters forTemplate soFar).Effect W s) := by
    intro us s' h' hl hraw
    let list := addParameter soFar kept .absent
    refine .pure ⟨_, _, h'.add (p := .bracket list.openPunc list.closePunc) fun _ => by omega,
      hl.add (by trivial), ?_⟩
    simp only [ParameterList.parts_eq, parametersParts_eq, parts_addParameter]
    grind
  refine .ite ?_ fun _ => .ite ?_ ?_
  · intro hclose
    obtain ⟨htoken, hpresent⟩ := of_parameterBrackets hclose
    refine .pure ⟨_, _, h₂.add (p := .bracket (addParameter soFar kept .absent).openPunc token)
      fun _ => .inl (by simp [Part.isClosed, hpresent]), (hlevel.plain htoken).add (by trivial), ?_⟩
    simp only [ParameterList.parts_eq, parametersParts_eq, parts_addParameter]
    grind
  · intro hcomma
    exact hnext [] (by simpa using h₂) (by simpa using hlevel.kind hcomma (by decide))
  · intro _
    refine .bind (.fault h₂ ?_)
    intro s₃ h₃ _ hraw
    split
    next =>
      refine .bind (.mayStay h₃ ?_ ?_)
      · intro s₄ h₄ _ _
        refine .bind (.pushBack h₄ ?_)
        intro s₅ h₅ _ _
        exact hnext [] (by simpa using h₅) (by simpa using hlevel)
      · intro vs s₄ h₄ hleft heq
        exact hstop h₄ (hleft.level hlevel) (by omega)
    next =>
      refine .bind (stepOver_leads hcall h₃ ?_ ?_)
      · intro vs s₄ h₄ hleft heq
        exact hstop h₄ (hleft.level hlevel) (by omega)
      · intro last vs qs s₄ h₄ hlevel'
        exact hnext qs h₄ (hlevel.span hlevel')

theorem not_brace_of_isFunctionQualifier (h : isFunctionQualifier t = true) :
    t.isBrace = false := by
  cases hkind : t.kind <;> simp_all [isFunctionQualifier, Token.isBrace]

theorem functionQualifiers_leads (hcall : Effects W call) (h : s.Fit W) (soFar : List Token) :
    Leads (functionQualifiers call soFar) s (Brings W s (Levels W)) := by
  refine .bind (.read h.past ?_)
  intro token s₁ h₁ _
  split
  next hqualifier =>
    exact .ending h₁ (h.level.plain (not_brace_of_isFunctionQualifier hqualifier))
      (hcall.leads _ s₁ h₁.left trivial)
  next => exact .leaving h₁ h.level

/-- Parameters and qualifiers of a function. -/
theorem functionDeclarator_leads (hcall : Effects W call) (h : s.Fit W) :
    Leads (functionDeclarator call) s (Brings W s
      (Yields W [] fun f? => f?.toList.flatMap FunctionDeclarator.parts)) := by
  refine .bind (.peek h.past ?_)
  intro opener s₁ h₁ hopen _
  split
  next =>
    refine .bind (.still (Parse.still_faultExpected _ _) h₁ ?_)
    intro s₂ h₂ _
    exact .pure ⟨_, _, h₂, h.level, by simp⟩
  next hkind =>
    have hplain : opener.isBrace = false := by simp [Token.isBrace, not_not.1 hkind]
    refine .bind (.still Parse.still_unmute h₁ ?_)
    intro s₂ h₂ hqueue
    refine .bind (.part h₂ (parameterList_leads hcall h₂.left (hopen.of_queue_eq hqueue) hplain
      false) ?_)
    rintro params us ps s₃ h₃ ⟨hlevel, hparams⟩
    refine .bind (.part h₃ (hcall.leads _ s₃ h₃.left trivial) ?_)
    intro qualifiers vs qs s₄ h₄ hlevel'
    refine .pure ⟨_, _, h₄, hlevel.append hlevel', ?_⟩
    simp only [Option.toList_some, List.flatMap_singleton, FunctionDeclarator.parts_eq,
      QualifiedId.parts_empty]
    grind

/-! ## Expressions -/

theorem nameTail_leads (hcall : Effects W call) (h : s.Fit W) :
    Leads (nameTail call) s (Brings W s (Levels W)) := by
  refine .bind (.read h.past ?_)
  intro first s₁ h₁ _
  extract_lets rest
  have hrest : ∀ {token us ps s'}, Past W s (us ++ [token]) s.scopes ps s' → Level W ps us →
      Leads (rest token) s' (Brings W s (Levels W)) := by
    intro token us ps s' h' hl
    refine .ite (fun _ => .leaving h' hl) ?_
    intro hkind
    refine .bind (.read h' ?_)
    intro name s₂ h₂ _
    have hl₂ := hl.kind (not_not.1 hkind) (by decide)
    refine .ite ?_ ?_
    · intro _
      refine .bind (.still (Parse.still_faultExpected _ _) h₂ ?_)
      intro s₃ h₃ _
      refine .pushBack h₃ ?_
      intro s₄ h₄ _ _
      exact ⟨_, _, h₄, hl₂⟩
    · intro hname
      exact .ending h₂ (hl₂.kind (not_not.1 hname) (by decide)) (hcall.leads _ s₂ h₂.left trivial)
  split
  next hangle =>
    refine .bind (.within (R := Skipped W first) h₁ id ?_ ?_)
    · intro s₂ h₂ _ _
      exact skipScope_leads hcall h₂ (by rw [hangle]; rfl)
    · intro c us ps s₂ h₂ hskipped
      refine .bind (.read h₂ ?_)
      intro token s₃ h₃ _
      exact hrest h₃ (h.level.span hskipped.level)
  next => exact .bind (.pure (hrest h₁ h.level))

theorem literals_leads (hcall : Effects W call) (h : s.Fit W) (last : Token) :
    Leads (literals call last) s (Brings W s (Levels W)) := by
  refine .bind (.read h.past ?_)
  intro token s₁ h₁ _
  split
  next hkind => exact .ending h₁ (h.level.kind hkind (by decide)) (hcall.leads _ s₁ h₁.left trivial)
  next => exact .leaving h₁ h.level

/-- A stretch in front of the rest of a list in braces. -/
theorem endsList_after {a : Token} {us vs : List Token} {s₁ : Session} {rs : List Part}
    (h : Past W s (us ++ vs) sc rs s₁) (hlevel : Level W ps us) (haccept : s'.accept = s.accept)
    (hends : EndsList W s' a vs qs s₁) : EndsList W s a (us ++ vs) (ps ++ qs) s₁ := by
  refine ⟨fun hkind => h.closes hlevel (hends.1 hkind), fun hkind => ?_⟩
  obtain ⟨hrest, hend⟩ := hends.2 hkind
  refine ⟨hlevel.append hrest, ?_⟩
  rcases hend with ⟨t, ht, hend⟩ | hpending
  · exact .inl ⟨t, List.mem_append_right _ ht, hend⟩
  · exact .inr (haccept ▸ hpending)

theorem expressions_leads (hcall : Effects W call) (h : s.Fit W) (opener : TokenKind)
    (last : Token) (hlast : (Rule.expressions opener last).Pre s) :
    Leads (expressions call opener last) s ((Rule.expressions opener last).Effect W s) := by
  unfold expressions
  split
  next closeKind missing hclose =>
  refine .bind (.read h.past ?_)
  intro token s₁ h₁ _
  -- the list is closed
  have hclosed : ∀ {us ps token s'}, Past W s (us ++ [token]) s.scopes ps s' → Level W ps us →
      token.kind = closeKind →
      (Rule.expressions opener last).Effect W s token s' := by
    intro us ps token s' h' hl hkind
    refine ⟨_, _, h', ?_⟩
    split at hclose <;> cases hclose
    next hopen =>
      rw [if_pos hopen]
      exact hl.kind hkind (by decide)
    next hopen =>
      rw [if_neg hopen]
      exact ⟨fun _ => hl.closes hkind (h'.more (by rw [hkind]; decide)), absurd hkind⟩
  split
  next hkind => exact .pure (hclosed h₁ h.level hkind)
  next =>
    refine .bind (.pushBack h₁ ?_)
    intro s₂ h₂ _ _
    refine .bind (.part h₂ (hcall.leads _ s₂ h₂.left trivial) ?_)
    intro _ us ps s₃ h₃ hlevel
    refine .bind (.read h₃ ?_)
    intro sep s₄ h₄ _
    -- the list goes on
    have hnext : ∀ {last' us ps s'}, Past W s us s.scopes ps s' → Level W ps us →
        (opener ≠ .openParen → last'.kind ≠ .closeCurly) →
        Leads (call (.expressions opener last')) s' ((Rule.expressions opener last).Effect W s) := by
      intro last' us ps s' h' hl hlast'
      refine .part h' (hcall.leads _ s' h'.left hlast') ?_
      intro a vs qs s₅ h₅ hends
      refine ⟨_, _, h₅, ?_⟩
      split at hends
      next hopen =>
        rw [if_pos hopen]
        exact hl.append hends
      next hopen =>
        rw [if_neg hopen]
        exact endsList_after h₅ hl h'.advance.accept hends
    split
    next hcomma => exact hnext h₄ (hlevel.kind hcomma (by decide)) hlast
    next =>
      split
      next hkind => exact .pure (hclosed h₄ hlevel hkind)
      next hother =>
        have hcurly : opener ≠ .openParen → sep.kind ≠ .closeCurly := by
          intro hopen hkind
          rw [if_neg hopen] at hclose
          cases hclose
          exact hother hkind
        refine .bind (.still (Parse.still_faultExpected _ _) h₄ ?_)
        intro s₅ h₅ _
        refine .bind (stepOver_leads hcall h₅ ?_ ?_)
        · intro vs s₆ h₆ hleft _
          refine .pure ⟨_, _, h₆, ?_⟩
          have hl := hleft.level hlevel
          split
          next => exact hl
          next hopen =>
            refine ⟨fun hkind => absurd hkind (hlast hopen), fun _ => ⟨hl, ?_⟩⟩
            cases hleft with
            | ended hend => exact .inl ⟨sep, by simp, hend⟩
            | back hmore hpending hleaves =>
              exact .inr ⟨sep, hpending, hmore, hcurly hopen, hleaves⟩
        · intro _ vs qs s₆ h₆ hlevel'
          exact hnext h₆ (hlevel.span hlevel') hcurly

/-- A list of expressions in braces is level if it does not end at a token that is left to a rule
further out. -/
theorem endsList_level {a o : Token} {vs : List Token} (h : EndsList W s a vs qs s')
    (ho : o.kind = .openCurly)
    (hleft : W.asked → a.kind ≠ .closeCurly → ∀ t, s'.Pending t → t.kind ≠ .endOfFile →
      t.kind ≠ .closeCurly → s.accept.leaves? t.kind ≠ some true) : Level W qs (o :: vs) := by
  by_cases hkind : a.kind = .closeCurly
  · exact (h.1 hkind).level ho
  · obtain ⟨hlevel, hend⟩ := h.2 hkind
    refine hlevel.behind (fun hW => ?_) o
    rcases hend with hend | ⟨t, hpending, hmore, hcurly, hleaves⟩
    · exact hend
    · exact absurd hleaves (hleft hW hkind t hpending hmore hcurly)

/-- A list of expressions in braces as an operand. -/
theorem braceList_leads (hcall : Effects W call) (h : s.Fit W) {start : Token}
    (hstart : start.kind = .openCurly) : Leads (call (.expressions .openCurly .absent)) s
      (Brings W s fun _ us ps _ => Level W ps (start :: us)) := by
  intro a s' heq
  obtain ⟨us, ps, hpast, hends⟩ := hcall.leads _ s h (fun _ => by decide) a s' heq
  refine ⟨us, ps, hpast, ?_⟩
  by_cases hclosed : W.closed
  · refine endsList_level hends hstart ?_
    intro _ hkind t hpending hmore
    exact absurd (hcall.listed hclosed _ s a s' heq hkind t hpending) hmore
  · by_cases hkind : a.kind = .closeCurly
    · exact (hends.1 hkind).level hstart
    · exact (hends.2 hkind).1.leftOpen hclosed hstart

/-- A list of expressions in brackets of its own. -/
theorem inside_leads (hcall : Effects W call) (h : s.Fit W) {start : Token}
    (hstart : start.kind = .openParen ∨ start.kind = .openCurly) :
    Leads (Parse.inside start.kind (call (.expressions start.kind .absent))) s
      (Brings W s fun _ us ps _ => Level W ps (start :: us)) := by
  refine .within (R := fun _ us ps _ => Level W ps (start :: us)) h.past
    (Accept.inside_closeCurly _) ?_ ?_
  · intro s₁ h₁ _ haccept
    refine (hcall.leads _ s₁ h₁ (fun _ => by decide)).mono ?_
    rintro a s₂ ⟨us, ps, h₂, hends⟩
    refine ⟨us, ps, h₂, ?_⟩
    rcases hstart with hkind | hkind
    · rw [if_pos hkind] at hends
      exact hends.front (by simp [Token.isBrace, hkind])
    · rw [if_neg (by rw [hkind]; decide)] at hends
      refine endsList_level hends hkind ?_
      intro _ _ t _ _ hcurly
      rw [haccept, hkind]
      cases hkind : t.kind <;> simp_all [Accept.inside, Accept.leaves?, Accept.nothing]
  · intro a us ps s₁ h₁ hlevel
    exact ⟨_, _, h₁, hlevel⟩

/-- The token behind the bracket that opens the captures is read whatever it is. -/
theorem lambda_leads (hcall : Effects W call) (h : s.Fit W) {start : Token}
    (hstart : start.kind = .openSquare) :
    Leads (lambda call) s (Brings W s fun _ us ps _ => Level W ps (start :: us)) := by
  refine .bind (.read h.past ?_)
  intro captures s₁ h₁ _
  have hl₁ : Level W [] (start :: ([] ++ [captures])) :=
    Level.nil.blind (by simp [Token.isBlind, hstart])
  extract_lets body type
  have hbody : ∀ {token us ps s'}, Past W s (us ++ [token]) s.scopes ps s' →
      Level W ps (start :: us) →
      Leads (body token) s' (Brings W s fun _ us ps _ => Level W ps (start :: us)) := by
    intro token us ps s' h' hl
    refine .ite ?_ ?_
    · intro _
      refine .bind (.still (Parse.still_faultExpected _ _) h' ?_)
      intro s₂ h₂ _
      refine .bind (.pushBack h₂ ?_)
      intro s₃ h₃ _ _
      exact .pure ⟨_, _, h₃, hl⟩
    · intro hkind
      refine .bind (.part h' (skipScope_leads hcall h'.left (by rw [not_not.1 hkind]; rfl)) ?_)
      intro c vs qs s₂ h₂ hskipped
      exact .pure ⟨_, _, h₂, hl.span hskipped.level⟩
  have htype : ∀ {us ps s'}, Past W s us s.scopes ps s' → Level W ps (start :: us) →
      Leads (type ()) s' (Brings W s fun _ us ps _ => Level W ps (start :: us)) := by
    intro us ps s' h' hl
    refine .bind (.read h' ?_)
    intro arrow s₂ h₂ _
    split
    next harrow =>
      refine .bind (.part h₂ (specified_leads hcall h₂.left _) ?_)
      rintro _ vs qs s₃ h₃ ⟨hlevel, -⟩
      refine .bind (.read h₃ ?_)
      intro token s₄ h₄ _
      exact hbody h₄ ((hl.kind harrow (by decide)).append hlevel)
    next => exact .bind (.pure (hbody h₂ hl))
  refine .stillIf (Parse.still_faultExpected _ _) h₁ ?_
  intro s₂ h₂ _
  refine .bind (.peek h₂ ?_)
  intro opener s₃ h₃ hopen _
  split
  next hparen =>
    have hplain : opener.isBrace = false := by simp [Token.isBrace, hparen]
    refine .bind (.part h₃ (parameterList_leads hcall h₃.left hopen hplain false) ?_)
    rintro _ us ps s₄ h₄ ⟨hlevel, -⟩
    exact htype h₄ (hl₁.append hlevel)
  next =>
    refine .bind (.still (Parse.still_faultExpected _ _) h₃ ?_)
    intro s₄ h₄ _
    exact htype h₄ hl₁

/-- An operand, the token that it starts with included.  Where there is none, nothing is consumed. -/
def TakesOperand (W : Concern) (start : Token) (result : Option Token) (us : List Token)
    (ps : List Part) (_ : Session) : Prop :=
  (result = none → us = [] ∧ ps = []) ∧ (result ≠ none → Level W ps (start :: us))

theorem TakesOperand.found {start stop : Token} (h : Level W ps (start :: us)) :
    TakesOperand W start (some stop) us ps s :=
  ⟨fun hnone => absurd hnone (Option.some_ne_none _), fun _ => h⟩

/-- The rest of an operand whose last token is what a part of it results in. -/
theorem operand_of {β : Type} {p : Parse β} {f : β → Token} {start : Token}
    (hp : Leads p s (Brings W s fun _ us ps _ => Level W ps (start :: us))) :
    Leads (do return some (f (← p))) s (Brings W s (TakesOperand W start)) := by
  refine .bind (hp.mono ?_)
  rintro a s₁ ⟨us, ps, h₁, hlevel⟩
  exact .pure ⟨_, _, h₁, .found hlevel⟩

/-- An operand in parentheses, and what is cast if it is a type. -/
theorem parenthesized_leads (hcall : Effects W call) (h : s.Fit W) {start : Token}
    (hstart : start.kind = .openParen) :
    Leads (do
      let _ ← call (.expression false)
      let closer ← Parse.read
      if closer.kind = .closeParen then
        let (castStart, castStop) ← call (.expression true)
        return some (if castStart.isPresent then castStop else closer)
      else
        Parse.pushBack closer
        return some ((← closeScope call start).getD .absent)) s
      (Brings W s fun result us ps _ => result ≠ none ∧ Level W ps us) := by
  refine .bind (.part h.past (hcall.leads _ s h trivial) ?_)
  intro _ us ps s₁ h₁ hlevel
  refine .bind (.read h₁ ?_)
  intro closer s₂ h₂ _
  split
  next hclose =>
    refine .bind (.part h₂ (hcall.leads _ s₂ h₂.left trivial) ?_)
    intro _ vs qs s₃ h₃ hlevel'
    exact .pure ⟨_, _, h₃, nofun, Level.append (hlevel.kind hclose (by decide)) hlevel'⟩
  next =>
    refine .bind (.pushBack h₂ ?_)
    intro s₃ h₃ _ _
    refine .bind (.part h₃ (closeScope_leads hcall h₃.left (.inl hstart)) ?_)
    rintro _ vs qs s₄ h₄ ⟨hlevel', -⟩
    exact .pure ⟨_, _, h₄, nofun, Level.append hlevel hlevel'⟩

theorem operand_leads (hcall : Effects W call) (h : s.Fit W) (start : Token) :
    Leads (operand call start) s (Brings W s (TakesOperand W start)) := by
  -- what a call brings behind a token that is no brace
  have hfront : ∀ {β : Type} {p : Parse β}, start.isBrace = false →
      Leads p s (Brings W s (Levels W)) →
      Leads p s (Brings W s fun _ us ps _ => Level W ps (start :: us)) := by
    intro β p hplain hp
    refine hp.mono ?_
    rintro a s₁ ⟨us, ps, h₁, hlevel⟩
    exact ⟨us, ps, h₁, Level.front hlevel hplain⟩
  unfold operand
  split
  next hkind =>
    have hplain : start.isBrace = false := by simp [Token.isBrace, hkind]
    refine .bind (.part h.past (hcall.leads _ s h trivial) ?_)
    intro _ us ps s₁ h₁ hlevel
    have hl : Level W ps (start :: us) := Level.front hlevel hplain
    refine .bind (.read h₁ ?_)
    intro next s₂ h₂ _
    have hlist : (next.kind = .openParen ∨ next.kind = .openCurly) →
        Leads (do return some (← Parse.inside next.kind (call (.expressions next.kind .absent)))) s₂
          (Brings W s (TakesOperand W start)) := by
      intro hnext
      refine .bind (.part h₂ (inside_leads hcall h₂.left hnext) ?_)
      intro a vs qs s₃ h₃ hlevel'
      exact .pure ⟨_, _, h₃, .found (hl.span hlevel')⟩
    split
    next hnext => exact hnext ▸ hlist (.inl hnext)
    next hnext => exact hnext ▸ hlist (.inr hnext)
    next =>
      refine .bind (.pushBack h₂ ?_)
      intro s₃ h₃ _ _
      exact .pure ⟨_, _, h₃, .found hl⟩
  next hkind => exact .pure ⟨_, _, h.past, .found (Level.nil.kind hkind (by decide))⟩
  next hkind =>
    exact operand_of (f := id) (hfront (by simp [Token.isBrace, hkind]) (hcall.leads _ s h trivial))
  next hkind =>
    refine .within (R := fun result us ps _ => result ≠ none ∧ Level W ps us) h.past
      (Accept.inside_closeCurly _) (fun s₁ h₁ _ _ => parenthesized_leads hcall h₁ hkind) ?_
    rintro result us ps s₁ h₁ ⟨hne, hlevel⟩
    exact ⟨_, _, h₁, fun hnone => absurd hnone hne,
      fun _ => hlevel.front (by simp [Token.isBrace, hkind])⟩
  next hkind => exact operand_of (f := id) (braceList_leads hcall h hkind)
  next hkind =>
    exact operand_of (f := Prod.snd)
      (hfront (by simp [Token.isBrace, hkind]) (hcall.leads _ s h trivial))
  next hkind =>
    exact operand_of (f := Prod.snd)
      (hfront (by simp [Token.isBrace, hkind]) (hcall.leads _ s h trivial))
  next hkind =>
    exact operand_of (f := Prod.snd)
      (hfront (by simp [Token.isBrace, hkind]) (hcall.leads _ s h trivial))
  next hkind => exact operand_of (f := id) (lambda_leads hcall h hkind)
  next => exact .pure ⟨_, _, h.past, fun _ => ⟨rfl, rfl⟩, fun hne => absurd rfl hne⟩

theorem continuation_leads (hcall : Effects W call) (h : s.Fit W) (stop : Token) :
    Leads (continuation call stop) s (Brings W s (Levels W)) := by
  refine .bind (.read h.past ?_)
  intro token s₁ h₁ _
  refine .bind (.get ?_)
  split
  next => exact .leaving h₁ h.level
  split
  next hoperator =>
    have hplain : token.isBrace = false := by
      have hall : ∀ kind ∈ binaryOperators, kind ≠ .openCurly ∧ kind ≠ .closeCurly := by decide
      simp [Token.isBrace, hall token.kind (by simpa using hoperator)]
    refine .bind (.part h₁ (hcall.leads _ s₁ h₁.left trivial) ?_)
    intro _ us ps s₂ h₂ hlevel
    exact .pure ⟨_, _, h₂, (h.level.plain hplain).append hlevel⟩
  split
  next hkind =>
    refine .bind (.part h₁ (hcall.leads _ s₁ h₁.left trivial) ?_)
    intro _ us ps s₂ h₂ hlevel
    have hl₂ := (h.level.kind hkind (by decide)).append hlevel
    refine .bind (.read h₂ ?_)
    intro colon s₃ h₃ _
    split
    next =>
      refine .bind (.still (Parse.still_faultExpected _ _) h₃ ?_)
      intro s₄ h₄ _
      exact .leaving h₄ hl₂
    next hcolon =>
      refine .bind (.part h₃ (hcall.leads _ s₃ h₃.left trivial) ?_)
      intro _ vs qs s₄ h₄ hlevel'
      exact .pure ⟨_, _, h₄, (hl₂.kind (not_not.1 hcolon) (by decide)).append hlevel'⟩
  next => exact .leaving h₁ h.level

theorem expression_leads (hcall : Effects W call) (h : s.Fit W) (optional : Bool) :
    Leads (expression call optional) s (Brings W s (Levels W)) := by
  refine .bind (.read h.past ?_)
  intro start s₁ h₁ _
  refine .bind (.part h₁ (operand_leads hcall h₁.left start) ?_)
  rintro (_ | stop) us ps s₂ h₂ ⟨hnone, hsome⟩
  · obtain ⟨rfl, rfl⟩ := hnone rfl
    rw [List.append_nil] at h₂
    refine .stillIf (Parse.still_faultExpected _ _) h₂ ?_
    intro s₃ h₃ _
    exact .leaving h₃ h.level
  · refine .bind (.part h₂ (continuation_leads hcall h₂.left stop) ?_)
    intro _ vs qs s₃ h₃ hlevel
    exact .pure ⟨_, _, h₃, (h.level.span (hsome nofun)).append hlevel⟩

/-! ## Initializers -/

theorem memberInitializers_leads (hcall : Effects W call) (h : s.Fit W)
    (soFar : List MemberInitializer) : Leads (memberInitializers call soFar) s
      ((Rule.memberInitializers soFar).Effect W s) := by
  refine .bind (.part h.past (qualifiedId_leads hcall h _) ?_)
  rintro qid us ps s₁ h₁ ⟨hlevel, hqid⟩
  -- the rest of the list
  have hnext : ∀ {list us ps s'}, Past W s us s.scopes ps s' → Level W ps us →
      list.flatMap MemberInitializer.parts ⊆ soFar.flatMap MemberInitializer.parts ++ ps →
      Leads (call (.memberInitializers list)) s' ((Rule.memberInitializers soFar).Effect W s) := by
    intro list us ps s' h' hl hlist
    refine .part h' (hcall.leads _ s' h'.left trivial) ?_
    rintro result vs qs s₂ h₂ ⟨hlevel', hresult⟩
    refine ⟨_, _, h₂, hl.append hlevel', ?_⟩
    simp only [memberInitializersParts_eq] at hresult ⊢
    grind
  split
  · refine .bind (.read h₁ ?_)
    intro token s₂ h₂ _
    refine .bind (.still (Parse.still_faultExpected _ _) h₂ ?_)
    intro s₃ h₃ _
    split
    next =>
      refine .bind (.pushBack h₃ ?_)
      intro s₄ h₄ _ _
      exact hnext h₄ hlevel (by simp)
    next =>
      refine .bind (stepOver_leads hcall h₃ ?_ ?_)
      · intro vs s₄ h₄ hleft _
        exact .pure ⟨_, _, h₄, hleft.level hlevel, by simp⟩
      · intro _ vs qs s₄ h₄ hlevel'
        exact hnext h₄ (hlevel.span hlevel') (by simp)
  · refine .bind (.read h₁ ?_)
    intro opener s₂ h₂ _
    split
    next =>
      refine .bind (.still (Parse.still_faultExpected _ _) h₂ ?_)
      intro s₃ h₃ _
      refine .bind (.pushBack h₃ ?_)
      intro s₄ h₄ _ _
      exact hnext h₄ hlevel (by simp)
    next hopen =>
      have hopener : opener.kind.closer?.isSome = true := by
        have hkind : opener.kind = .openCurly ∨ opener.kind = .openParen := by
          simpa [Decidable.imp_iff_or_not] using hopen
        rcases hkind with hkind | hkind <;> rw [hkind] <;> rfl
      refine .bind (.part h₂ (skipScope_leads hcall h₂.left hopener) ?_)
      intro closer vs qs s₃ h₃ hskipped
      have hl₃ := hlevel.span hskipped.level
      have hbracket := hskipped.bracket
      extract_lets item
      have hitem : ∀ comma, (item comma).parts ⊆ ps ++ qs := by
        intro comma
        simp only [item, MemberInitializer.parts]
        grind
      refine .bind (.read h₃ ?_)
      intro next s₄ h₄ _
      split
      next =>
        refine .bind (.still Parse.still_unmute h₄ ?_)
        intro s₅ h₅ _
        refine .bind (.pushBack h₅ ?_)
        intro s₆ h₆ _ _
        have hparts := hitem .absent
        exact .pure ⟨_, _, h₆, hl₃, by simp; grind⟩
      next hcomma =>
        refine .bind (.still Parse.still_unmute h₄ ?_)
        intro s₅ h₅ _
        have hparts := hitem next
        exact hnext h₅ (hl₃.kind hcomma (by decide)) (by simp; grind)
      next =>
        refine .bind (.still (Parse.still_fault _ _) h₄ ?_)
        intro s₅ h₅ _
        refine .bind (.pushBack h₅ ?_)
        intro s₆ h₆ _ _
        have hparts := hitem .absent
        exact .pure ⟨_, _, h₆, hl₃, by simp; grind⟩

theorem functionBody_leads (hcall : Effects W call) (h : s.Fit W) (declared : Nat) :
    Leads (functionBody call declared) s (Brings W s (Yields W [] Initializer.parts)) := by
  refine .bind (.read h.past ?_)
  intro first s₁ h₁ _
  split
  next hequal =>
    refine .bind (.part h₁ (hcall.leads _ s₁ h₁.left trivial) ?_)
    intro _ us ps s₂ h₂ hlevel
    exact .pure ⟨_, _, h₂, (h.level.kind hequal (by decide)).append hlevel, by simp [Initializer.parts]⟩
  next =>
    extract_lets rest
    have hrest : ∀ {colon inits token us ps s'}, Past W s (us ++ [token]) s.scopes ps s' →
        Level W ps us → memberInitializersParts inits ⊆ ps →
        Leads (rest (colon, inits, token)) s'
          (Brings W s (Yields W [] Initializer.parts)) := by
      intro colon inits token us ps s' h' hl hinits
      refine .ite ?_ ?_
      · intro hopen
        refine .bind (.enterScope h' rfl ?_)
        intro s₂ h₂
        refine .bind (.part h₂ (skipScope_leads hcall h₂.left (by rw [hopen]; rfl)) ?_)
        intro closer vs qs s₃ h₃ hskipped
        have hblock := hskipped.block hopen
        refine .bind (.leaveScope h₃ rfl (.inl rfl) ?_)
        intro s₄ h₄
        refine .pure ⟨_, _, h₄, hl.span hskipped.level, ?_⟩
        simp only [Initializer.parts]
        grind
      · intro _
        refine .bind (.pushBack h' ?_)
        intro s₂ h₂ _ _
        refine .ite ?_ ?_
        · intro _
          refine .pure ⟨_, _, h₂.add (p := .block .absent .absent) fun _ => .inl rfl,
            hl.add (Part.matched_of_absent rfl), ?_⟩
          simp only [Initializer.parts]
          grind
        · intro _
          exact .pure ⟨_, _, h₂, hl, by simp [Initializer.parts]⟩
    split
    next hcolon =>
      refine .bind (.within (R := Yields W [] memberInitializersParts) h₁ id ?_ ?_)
      · intro s₂ h₂ _ _
        exact hcall.leads (.memberInitializers []) s₂ h₂ trivial
      · rintro inits us ps s₂ h₂ ⟨hlevel, hinits⟩
        refine .bind (.read h₂ ?_)
        intro token s₃ h₃ _
        exact .bind (.pure (hrest h₃ ((h.level.kind hcolon (by decide)).append hlevel) hinits))
    next => exact .bind (.pure (hrest h₁ h.level (by simp)))

theorem typeInitializer_leads (hcall : Effects W call) (h : s.Fit W) :
    Leads (typeInitializer call) s (Brings W s (Yields W [] Initializer.parts)) := by
  refine .bind (.read h.past ?_)
  intro equalSign s₁ h₁ _
  split
  next =>
    refine .bind (.pushBack h₁ ?_)
    intro s₂ h₂ _ _
    exact .pure ⟨_, _, h₂, h.level, by simp [Initializer.parts]⟩
  next hequal =>
    have hl := h.level.kind (not_not.1 hequal) (by decide)
    refine .bind (.peek h₁ ?_)
    intro token s₂ h₂ htoken _
    split
    next hliteral =>
      refine .bind (.read h₂ ?_)
      intro literal s₃ h₃ hfirst
      obtain rfl := hfirst token htoken
      exact .pure ⟨_, _, h₃, hl.kind hliteral (by decide), by simp [Initializer.parts]⟩
    next =>
      refine .bind (.beginActivity h₂ ?_)
      intro activity s₃ h₃ _
      refine .bind (.part h₃ (specified_leads hcall h₃.left _) ?_)
      rintro simple us ps s₄ h₄ ⟨hlevel, hsimple⟩
      have hchain := parts_typeChain simple
      refine .bind (.failedSince _ (.ite ?_ ?_))
      · intro _
        exact .pure ⟨_, _, h₄, hl.append hlevel, by simp [Initializer.parts]⟩
      · intro _
        refine .pure ⟨_, _, h₄, hl.append hlevel, ?_⟩
        simp only [Initializer.parts]
        grind

theorem variableInitializer_leads (hcall : Effects W call) (h : s.Fit W) (allowBraces : Bool) :
    Leads (variableInitializer call allowBraces) s
      (Brings W s (Yields W [] Initializer.parts)) := by
  refine .bind (.read h.past ?_)
  intro token s₁ h₁ _
  -- an expression behind a token
  have hvalue : ∀ {us s'} (make : Token → Token → Initializer), Past W s us s.scopes [] s' →
      Level W [] us → (∀ start stop, (make start stop).parts = []) →
      Leads (do let (start, stop) ← call (.expression false); return make start stop) s'
        (Brings W s (Yields W [] Initializer.parts)) := by
    intro us s' make h' hl hmake
    refine .bind (.part h' (hcall.leads _ s' h'.left trivial) ?_)
    intro _ vs qs s₂ h₂ hlevel
    exact .pure ⟨_, _, h₂, hl.append hlevel, by simp [hmake]⟩
  split
  next =>
    refine .bind (.pushBack h₁ ?_)
    intro s₂ h₂ _ _
    exact hvalue (.expression · · .absent) h₂ h.level fun _ _ => by simp [Initializer.parts]
  split
  next hequal =>
    exact hvalue (.expression · · token) h₁ (h.level.kind hequal (by decide)) fun _ _ => by
      simp [Initializer.parts]
  split
  next hcolon =>
    exact hvalue (.bitField token) h₁ (h.level.kind hcolon (by decide)) fun _ _ => by
      simp [Initializer.parts]
  next =>
    refine .bind (.pushBack h₁ ?_)
    intro s₂ h₂ _ _
    exact .pure ⟨_, _, h₂, h.level, by simp [Initializer.parts]⟩

end CppDecl.Grammar
