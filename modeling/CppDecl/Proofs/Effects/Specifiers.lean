import CppDecl.Proofs.Effects.Declarators

/-!
# What the rules leave: classes, enumerations and specifiers

The body of a class or of an enumeration is a block.  It lacks its closing brace only if there was a
fault, and then it goes on to the end of the file.
-/

namespace CppDecl.Grammar

open Parse (Brings Leads Left)
open Session (Fit Past)

variable {W : Concern} {call : Call} {α : Type} {s₀ s s' : Session} {t : Token}
variable {ts us : List Token} {sc : List OpenScope} {ps qs : List Part}

/-! ## Classes and enumerations -/

/-- Declarations in braces, from behind the opening brace on. -/
theorem declarationList_leads {Q : Token → Session → Prop} {scope : Scope}
    (hcall : Effects W call) (h : Past W s₀ us (⟨scope, []⟩ :: sc) ps s)
    (hscope : scope.gathers = true) (className : String)
    (hQ : ∀ closer members vs qs s', Past W s₀ (us ++ vs) (⟨scope, members⟩ :: sc) (ps ++ qs) s' →
      Ends W closer vs qs s' → members.flatMap Declaration.parts ⊆ qs → Q closer s') :
    Leads (declarationList call true className) s Q := by
  refine .bracketed (k := fun _ => 0) (R := fun closer vs sc' qs s' =>
    Grown qs (⟨scope, []⟩ :: sc) sc' ∧ Ends W closer vs qs s') h (fun _ : W.asked => rfl) ?_ ?_
  · intro s₁ h₁ hscopes _ haccept
    have hbraces : s₁.accept.InBraces := haccept
    have hgathering : Gathering s₁.scopes := ⟨_, _, hscopes, hscope⟩
    refine (hcall.leads (.declarations true className) s₁ h₁ ⟨hbraces, hgathering⟩).mono ?_
    rintro closer s' ⟨vs, sc', qs, hpast, hgrown, hends⟩
    exact ⟨vs, sc', qs, hpast, hscopes ▸ hgrown, hends⟩
  · rintro closer vs sc' qs s' hpast ⟨⟨members, rfl, hmembers, -⟩, hends⟩
    exact hQ closer members vs qs _ hpast hends (by simpa using hmembers)

theorem bases_leads (hcall : Effects W call) (h : s.Fit W) (soFar : List BaseSpecifier) :
    Leads (bases call soFar) s (Brings W s (Yields W (basesParts soFar) basesParts)) := by
  refine .bind (.read h.past ?_)
  intro token s₁ h₁ _
  extract_lets rest
  have hrest : ∀ {access us ps s'}, Past W s us s.scopes ps s' → Level W ps us →
      Leads (rest access) s' (Brings W s (Yields W (basesParts soFar) basesParts)) := by
    intro access us ps s' h' hl
    refine .bind (.part h' (qualifiedId_leads hcall h'.left _) ?_)
    rintro qid vs qs s₂ h₂ ⟨hlevel, hqid⟩
    have hl₂ := hl.append hlevel
    have hbases : ∀ comma, basesParts (soFar ++ [⟨access, qid, comma⟩]) ⊆
        basesParts soFar ++ (ps ++ qs) := by
      intro comma
      simp only [basesParts_eq, List.flatMap_append, List.flatMap_singleton, BaseSpecifier.parts]
      grind
    refine .ite (fun _ => .pure ⟨_, _, h₂, hl₂, by simp⟩) ?_
    intro _
    refine .bind (.still Parse.still_unmute h₂ ?_)
    intro s₃ h₃ _
    refine .bind (.read h₃ ?_)
    intro punc s₄ h₄ _
    split
    next =>
      refine .bind (.pushBack h₄ ?_)
      intro s₅ h₅ _ _
      exact .pure ⟨_, _, h₅, hl₂, hbases _⟩
    next hcomma =>
      exact .yielding h₄ (hl₂.kind hcomma (by decide)) (hcall.leads _ s₄ h₄.left trivial) (hbases _)
    next =>
      refine .bind (.still (Parse.still_faultExpected _ _) h₄ ?_)
      intro s₅ h₅ _
      refine .bind (.pushBack h₅ ?_)
      intro s₆ h₆ _ _
      exact .pure ⟨_, _, h₆, hl₂, hbases _⟩
  split
  next haccess =>
    refine .bind (.still Parse.still_unmute h₁ ?_)
    intro s₂ h₂ _
    have hkind : token.kind = .identifier := by
      simpa using (Bool.and_eq_true_iff.1 haccess).1
    exact .bind (.pure (hrest h₂ (h.level.kind hkind (by decide))))
  next =>
    refine .bind (.pushBack h₁ ?_)
    intro s₂ h₂ _ _
    exact .bind (.pure (hrest h₂ h.level))

theorem virtSpecifiers_leads (hcall : Effects W call) (h : s.Fit W) (soFar : List Token) :
    Leads (virtSpecifiers call soFar) s ((Rule.virtSpecifiers soFar).Effect W s) := by
  refine .bind (.read h.past ?_)
  intro token s₁ h₁ _
  split
  next hfinal =>
    have hcalled : ∀ {words s'}, Past W s ([] ++ [token]) s.scopes [] s' →
        Leads (call (.virtSpecifiers words)) s' ((Rule.virtSpecifiers soFar).Effect W s) := by
      intro words s' h'
      refine .part h' (hcall.leads _ s' h'.left trivial) ?_
      rintro result _ ps s₂ h₂ ⟨vs, rfl, hlevel⟩
      exact ⟨_, _, h₂, [token] ++ vs, by simp, (h.level.word hfinal).append hlevel⟩
    refine .ite (fun _ => hcalled h₁) ?_
    intro _
    refine .bind (.still (Parse.still_fault _ _) h₁ ?_)
    intro s₂ h₂ _
    exact hcalled h₂
  next => exact .pure ⟨_, _, h₁, [], rfl, h.level⟩

theorem record_leads (hcall : Effects W call) (h : s.Fit W) (classKey : Token) :
    Leads (record call classKey) s (Brings W s (Yields W [] Record.parts)) := by
  refine .bind (.part h.past (qualifiedId_leads hcall h _) ?_)
  rintro qid us ps s₁ h₁ ⟨hlevel, hqid⟩
  refine .bind (.part h₁ (hcall.leads _ s₁ h₁.left trivial) ?_)
  rintro ⟨words, first⟩ _ qs s₂ h₂ ⟨vs, rfl, hlevel'⟩
  rw [← List.append_assoc] at h₂
  have hl₂ := Level.append hlevel hlevel'
  dsimp -zeta only
  extract_lets rest
  have hrest : ∀ {colon baseList token us ps s'}, Past W s (us ++ [token]) s.scopes ps s' →
      Level W ps us → qid.parts ⊆ ps → basesParts baseList ⊆ ps →
      Leads (rest (colon, baseList, token)) s' (Brings W s (Yields W [] Record.parts)) := by
    intro colon baseList token us ps s' h' hl hqid hbases
    refine .ite ?_ ?_
    · intro hopen
      refine .bind (.enterScope h' rfl ?_)
      intro s₃ h₃
      refine .bind (declarationList_leads hcall h₃ rfl _ ?_)
      intro closer inner ws rs s₄ h₄ hends hinner
      obtain ⟨h₄, hl₄⟩ := h₄.block hl hopen hends
      refine .bind (.members h₄ ?_)
      refine .bind (.leaveScope h₄ rfl (.inr rfl) ?_)
      intro s₅ h₅
      refine .pure ⟨_, _, h₅, hl₄, ?_⟩
      simp only [Record.parts, declarationsParts_eq]
      grind
    · intro _
      refine .bind (.pushBack h' ?_)
      intro s₃ h₃ _ _
      refine .pure ⟨_, _, h₃.add (p := .block .absent .absent) fun _ => .inl rfl,
        hl.add (Part.matched_of_absent rfl), ?_⟩
      simp only [Record.parts, declarationsParts]
      grind
  split
  next hcolon =>
    refine .bind (.part h₂ (hcall.leads _ s₂ h₂.left trivial) ?_)
    rintro baseList ws rs s₃ h₃ ⟨hlevel'', hbases⟩
    refine .bind (.read h₃ ?_)
    intro token s₄ h₄ _
    refine .bind (.pure (hrest h₄ ((hl₂.kind hcolon (by decide)).append hlevel'') ?_ ?_))
    · grind
    · simp only [basesParts_eq, List.flatMap_nil] at hbases ⊢
      grind
  next => exact .bind (.pure (hrest h₂ hl₂ (by grind) (by simp)))

theorem enumerators_leads (hcall : Effects W call) (h : s.Fit W) (soFar : List Enumerator)
    (hbraces : s.accept.InBraces) :
    Leads (enumerators call soFar) s ((Rule.enumerators soFar).Effect W s) := by
  refine .bind (.read h.past ?_)
  intro token s₁ h₁ _
  -- the enumeration is closed
  have hclosed : ∀ {items us ps closer s' k}, Past W s (us ++ [closer]) s.scopes ps s' k →
      items.length = soFar.length + k → Level W ps us → closer.kind = .closeCurly →
      enumeratorsParts items ⊆ enumeratorsParts soFar ++ ps →
      (Rule.enumerators soFar).Effect W s (items, closer) s' := by
    intro items us ps closer s' k h' hlength hl hkind hitems
    refine ⟨_, _, _, h', hlength, ⟨hl.closes hkind (h'.more (by rw [hkind]; decide)), ?_⟩, hitems⟩
    intro habsent
    simp [Token.isPresent, hkind] at habsent
  -- the enumeration goes on
  have hnext : ∀ {items us ps s' k}, Past W s us s.scopes ps s' k →
      items.length = soFar.length + k → Level W ps us →
      enumeratorsParts items ⊆ enumeratorsParts soFar ++ ps →
      Leads (call (.enumerators items)) s' ((Rule.enumerators soFar).Effect W s) := by
    intro items us ps s' k h' hlength hl hitems
    have hbraces' : s'.accept.InBraces := h'.advance.accept ▸ hbraces
    refine (hcall.leads (.enumerators items) s' h'.left hbraces').mono ?_
    rintro result s₂ ⟨vs, qs, l, h₂, hlength', hends, hresult⟩
    rw [h'.scopes] at h₂
    have hall := h'.append h₂
    exact ⟨_, _, _, hall, by omega, hends.after hall hl (Nat.le_refl _), by grind⟩
  split
  next hkind =>
    refine .bind (.still Parse.still_unmute h₁ ?_)
    intro s₂ h₂ _
    exact .pure (hclosed h₂ rfl h.level hkind (by simp))
  next hname =>
    refine .bind (.still Parse.still_unmute h₁ ?_)
    intro s₂ h₂ _
    refine .bind (.part h₂ (variableInitializer_leads hcall h₂.left false) ?_)
    rintro init us ps s₃ h₃ ⟨hlevel, hinit⟩
    have hl₃ := (h.level.kind hname (by decide)).append hlevel
    have hitems : ∀ comma, enumeratorsParts (soFar ++ [⟨token, init, comma⟩]) ⊆
        enumeratorsParts soFar ++ ps := by
      intro comma
      simp only [enumeratorsParts_eq, List.flatMap_append, List.flatMap_singleton,
        Enumerator.parts]
      grind
    refine .bind (.read h₃ ?_)
    intro next s₄ h₄ _
    split
    next hcomma =>
      refine .bind (.still Parse.still_unmute h₄ ?_)
      intro s₅ h₅ _
      refine .bind (.tell _ h₅ ?_)
      intro s₆ h₆
      exact hnext h₆ List.length_append (hl₃.kind hcomma (by decide)) (hitems _)
    next hkind =>
      refine .bind (.still Parse.still_unmute h₄ ?_)
      intro s₅ h₅ _
      refine .bind (.tell _ h₅ ?_)
      intro s₆ h₆
      exact .pure (hclosed h₆ List.length_append hl₃ hkind (hitems _))
    next =>
      refine .stillIf (Parse.still_fault _ _) h₄ ?_
      intro s₅ h₅ _
      refine .bind (.pushBack h₅ ?_)
      intro s₆ h₆ _ _
      refine .bind (.tell _ h₆ ?_)
      intro s₇ h₇
      exact hnext h₇ List.length_append hl₃ (hitems _)
  next hother _ =>
    refine .bind (.fault h₁ ?_)
    intro s₂ h₂ _ hraw
    refine .bind (stepOver_leads hcall h₂ ?_ ?_)
    · intro vs s₃ h₃ hleft heq
      refine .pure ⟨_, _, _, h₃, rfl, ⟨(hleft.level h.level).closes_of_end fun _ => ?_, ?_⟩, by simp⟩
      · exact hleft.ended_inBraces hbraces hother
      · exact fun _ => by omega
    · intro _ vs qs s₃ h₃ hlevel
      exact hnext h₃ rfl (h.level.span hlevel) (by simp)

theorem enumeration_leads (hcall : Effects W call) (h : s.Fit W) (enumKey : Token) :
    Leads (enumeration call enumKey) s (Brings W s (Yields W [] Enumeration.parts)) := by
  refine .bind (.read h.past ?_)
  intro word s₁ h₁ _
  extract_lets rest
  have hrest : ∀ {classKey us ps s'}, Past W s us s.scopes ps s' → Level W ps us →
      Leads (rest classKey) s' (Brings W s (Yields W [] Enumeration.parts)) := by
    intro classKey us ps s' h' hl
    refine .bind (.part h' (qualifiedId_leads hcall h'.left _) ?_)
    rintro qid vs qs s₂ h₂ ⟨hlevel, hqid⟩
    have hl₂ := hl.append hlevel
    refine .bind (.read h₂ ?_)
    intro sep s₃ h₃ _
    extract_lets finish
    have hfinish : ∀ {basePunc base us ps s'}, Past W s us s.scopes ps s' → Level W ps us →
        qid.parts ⊆ ps → base.parts ⊆ ps →
        Leads (finish (basePunc, base)) s' (Brings W s (Yields W [] Enumeration.parts)) := by
      intro basePunc base us ps s' h' hl hqid hbase
      refine .bind (.read h' ?_)
      intro opener s₄ h₄ _
      refine .ite ?_ ?_
      · intro hopen
        refine .bind (.enterEnumeration h₄ ?_)
        intro s₅ henter h₅
        refine .bind (.still Parse.still_unmute h₅ ?_)
        intro s₆ h₆ _
        refine .bind (.bracketed (k := fun result => result.1.length) (R := fun result vs sc' qs s' =>
          sc' = ⟨.enumeration qid.className, []⟩ :: s.scopes ∧ Ends W result.2 vs qs s' ∧
            enumeratorsParts result.1 ⊆ qs) h₆ (fun _ : W.asked => rfl) ?_ ?_)
        · intro s₇ h₇ hscopes _ haccept
          have hbraces : s₇.accept.InBraces := haccept
          refine (hcall.leads (.enumerators []) s₇ h₇ hbraces).mono ?_
          rintro ⟨items, closer⟩ s' ⟨ws, rs, k, hpast, hlength, hends, hitems⟩
          obtain rfl : k = items.length := by simpa using hlength.symm
          exact ⟨_, _, _, hpast, hscopes, hends, hitems⟩
        · rintro ⟨items, closer⟩ ws _ rs s₇ h₇ ⟨rfl, hends, hitems⟩
          rw [Nat.zero_add] at h₇
          refine .bind (.leaveEnumeration h₄ henter h₇ ?_)
          intro s₈ h₈ hraw
          obtain ⟨h₉, hl₉⟩ := h₈.block hl hopen ⟨hends.1, hraw ▸ hends.2⟩
          refine .pure ⟨_, _, h₉, hl₉, ?_⟩
          simp only [Enumeration.parts]
          grind
      · intro _
        refine .bind (.pushBack h₄ ?_)
        intro s₅ h₅ _ _
        refine .pure ⟨_, _, h₅.add (p := .block .absent .absent) fun _ => .inl rfl,
          hl.add (Part.matched_of_absent rfl), ?_⟩
        simp only [Enumeration.parts, enumeratorsParts]
        grind
    split
    next hcolon =>
      refine .stillIf (Parse.still_fault _ _) h₃ ?_
      intro s₄ h₄ _
      refine .bind (.part h₄ (qualifiedId_leads hcall h₄.left _) ?_)
      rintro base ws rs s₅ h₅ ⟨hlevel', hbase⟩
      exact .bind (.pure (hfinish h₅ ((hl₂.kind hcolon (by decide)).append hlevel') (by grind) (by grind)))
    next =>
      refine .bind (.pushBack h₃ ?_)
      intro s₄ h₄ _ _
      exact .bind (.pure (hfinish h₄ hl₂ (by grind) (by simp)))
  split
  next hword =>
    have hl : Level W [] ([] ++ [word]) :=
      (Bool.or_eq_true_iff.1 hword).elim h.level.word h.level.word
    exact .bind (.pure (hrest h₁ hl))
  next =>
    refine .bind (.pushBack h₁ ?_)
    intro s₂ h₂ _ _
    exact .bind (.pure (hrest h₂ h.level))

/-! ## Declarators of a declaration -/

theorem parts_addSpecifier (simple : SimpleDeclaration) (spec : Specifier) :
    (addSpecifier simple spec).parts ⊆ simple.parts ++ spec.parts := by
  simp only [addSpecifier, SimpleDeclaration.parts_eq, List.flatMap_append,
    List.flatMap_singleton]
  grind

theorem parts_addDeclarator (simple : SimpleDeclaration) (d : Declarator) (init : Initializer)
    (comma : Token) :
    (addDeclarator simple d init comma).parts ⊆ simple.parts ++ d.parts ++ init.parts := by
  simp only [addDeclarator, SimpleDeclaration.parts_eq, List.flatMap_append,
    List.flatMap_singleton, InitDeclarator.parts_eq]
  grind

theorem addFunction_leads (hcall : Effects W call) (h : s.Fit W) (simple : SimpleDeclaration)
    (d : Declarator) : Leads (addFunction call simple d) s
      (Brings W s (Yields W (simple.parts ++ d.parts) SimpleDeclaration.parts)) := by
  refine .bind (.part h.past (functionBody_leads hcall h _) ?_)
  rintro init us ps s₁ h₁ ⟨hlevel, hinit⟩
  have hparts := parts_addDeclarator simple d init .absent
  exact .pure ⟨_, _, h₁, hlevel, by grind⟩

theorem declaratorSeparator_leads (hcall : Effects W call) (h : s.Fit W)
    (simple : SimpleDeclaration) (d : Declarator) (init : Initializer) :
    Leads (declaratorSeparator call simple d init) s (Brings W s
      (Yields W (simple.parts ++ d.parts ++ init.parts) SimpleDeclaration.parts)) := by
  refine .bind (.read h.past ?_)
  intro sep s₁ h₁ _
  have hparts := parts_addDeclarator simple d init
  split
  next hcomma =>
    have hadd := hparts sep
    exact .yielding h₁ (h.level.kind hcomma (by decide)) (hcall.leads _ s₁ h₁.left trivial) (by grind)
  next =>
    have hadd := hparts .absent
    refine .bind (.pushBack h₁ ?_)
    intro s₂ h₂ _ _
    exact .pure ⟨_, _, h₂, h.level, by grind⟩

theorem initDeclarators_leads (hcall : Effects W call) (h : s.Fit W) (simple : SimpleDeclaration) :
    Leads (initDeclarators call simple) s
      (Brings W s (Yields W simple.parts SimpleDeclaration.parts)) := by
  refine .bind (.part h.past (hcall.leads _ s h trivial) ?_)
  rintro d us ps s₁ h₁ ⟨hlevel, hd⟩
  simp only [chainParts, List.nil_append] at hd
  have hseparator : ∀ {init us ps s'}, Past W s us s.scopes ps s' → Level W ps us →
      d.parts ⊆ ps → init.parts ⊆ ps →
      Leads (declaratorSeparator call simple d init) s'
        (Brings W s (Yields W simple.parts SimpleDeclaration.parts)) :=
    fun h' hl hd hinit =>
      .yielding h' hl (declaratorSeparator_leads hcall h'.left simple d _) (by grind)
  split
  · exact .pure ⟨_, _, h₁, hlevel, by simp⟩
  split
  · refine .bind (.part h₁ (functionBody_leads hcall h₁.left _) ?_)
    rintro init vs qs s₂ h₂ ⟨hlevel', hinit⟩
    have hl₂ := Level.append hlevel hlevel'
    have hadd := parts_addDeclarator simple d init .absent
    split
    · refine .stillIf (Parse.still_fault _ _) h₂ ?_
      intro s₃ h₃ _
      exact .pure ⟨_, _, h₃, hl₂, by grind⟩
    · exact hseparator h₂ hl₂ (by grind) (by grind)
  · refine .bind (.part h₁ (variableInitializer_leads hcall h₁.left _) ?_)
    rintro init vs qs s₂ h₂ ⟨hlevel', hinit⟩
    exact hseparator h₂ (Level.append hlevel hlevel') (by grind) (by grind)

theorem declarators_leads (hcall : Effects W call) (h : s.Fit W) (mode : Mode)
    (simple : SimpleDeclaration) : Leads (declarators call mode simple) s
      (Brings W s (Yields W simple.parts SimpleDeclaration.parts)) := by
  unfold declarators
  split
  · exact hcall.leads _ s h trivial
  · refine .bind (.part h.past (hcall.leads _ s h trivial) ?_)
    rintro d us ps s₁ h₁ ⟨hlevel, hd⟩
    simp only [chainParts, List.nil_append] at hd
    split
    · refine .bind (.part h₁ (variableInitializer_leads hcall h₁.left _) ?_)
      rintro init vs qs s₂ h₂ ⟨hlevel', hinit⟩
      have hadd := parts_addDeclarator simple d init .absent
      exact .pure ⟨_, _, h₂, Level.append hlevel hlevel', by grind⟩
    · have hadd := parts_addDeclarator simple d .none .absent
      simp only [Initializer.parts, List.append_nil] at hadd
      exact .bind (.pure (.pure ⟨_, _, h₁, hlevel, by grind⟩))

/-! ## Conversion functions -/

theorem conversionSpecifiers_leads (hcall : Effects W call) (h : s.Fit W) (soFar : List Specifier)
    (hasType : Bool) : Leads (conversionSpecifiers call soFar hasType) s
      (Brings W s (Yields W (specifiersParts soFar) specifiersParts)) := by
  refine .bind (.read h.past ?_)
  intro token s₁ h₁ _
  have hnext : ∀ {given hasType us ps s'}, Past W s us s.scopes ps s' → Level W ps us →
      specifiersParts given ⊆ specifiersParts soFar ++ ps →
      Leads (call (.conversionSpecifiers given hasType)) s'
        (Brings W s (Yields W (specifiersParts soFar) specifiersParts)) :=
    fun h' hl hgiven => .yielding h' hl (hcall.leads _ _ h'.left trivial) hgiven
  split
  next =>
    refine .bind (.pushBack h₁ ?_)
    intro s₂ h₂ _ _
    exact .pure ⟨_, _, h₂, h.level, by simp⟩
  next hname =>
    have hl := h.level.kind (not_not.1 hname) (by decide)
    split
    · exact hnext h₁ hl (by simp [Specifier.parts])
    split
    · exact hnext h₁ hl (by simp [Specifier.parts])
    split
    · exact hnext h₁ hl (by
        simp [plainType, Specifier.parts, QualifiedId.ofIdentifier, QualifiedId.parts_eq,
          Unqualified.parts])
    refine .bind (.pushBack h₁ ?_)
    intro s₂ h₂ _ _
    refine .bind (.part h₂ (qualifiedId_leads hcall h₂.left _) ?_)
    rintro qid us ps s₃ h₃ ⟨hlevel, hqid⟩
    split
    · exact .pure ⟨_, _, h₃, hlevel, by simp⟩
    split
    · refine .bind (.still (Parse.still_fault _ _) h₃ ?_)
      intro s₄ h₄ _
      exact hnext h₄ hlevel (by simp)
    · refine hnext h₃ hlevel ?_
      simp only [specifiersParts_eq, List.flatMap_append, List.flatMap_singleton, Specifier.parts]
      grind

theorem conversionPointers_leads (hcall : Effects W call) (h : s.Fit W) (soFar : Chain)
    (allowQualifier : Bool) : Leads (conversionPointers call soFar allowQualifier) s
      (Brings W s (Yields W (chainParts soFar) chainParts)) := by
  refine .bind (.read h.past ?_)
  intro token s₁ h₁ _
  have hnext : ∀ {given allowed us ps s'}, Past W s us s.scopes ps s' → Level W ps us →
      chainParts given ⊆ chainParts soFar ++ ps →
      Leads (call (.conversionPointers given allowed)) s'
        (Brings W s (Yields W (chainParts soFar) chainParts)) :=
    fun h' hl hgiven => .yielding h' hl (hcall.leads _ _ h'.left trivial) hgiven
  split
  next hpointer =>
    exact hnext h₁ (h.level.plain (not_brace_of_isPointerKind hpointer)) (by
      simp [Production.parts])
  split
  next hellipsis => exact hnext h₁ (h.level.kind hellipsis (by decide)) (by simp)
  split
  next hword =>
    have hl : Level W [] ([] ++ [token]) :=
      (Bool.or_eq_true_iff.1 hword).elim h.level.word h.level.word
    refine .stillIf (Parse.still_fault _ _) h₁ ?_
    intro s₂ h₂ _
    exact hnext h₂ hl (by simp [Production.parts])
  next =>
    refine .bind (.pushBack h₁ ?_)
    intro s₂ h₂ _ _
    exact .pure ⟨_, _, h₂, h.level, by simp⟩

theorem conversionFunction_leads (hcall : Effects W call) (h : s.Fit W)
    (simple : SimpleDeclaration) (keyword : Token) :
    Leads (conversionFunction call simple keyword) s
      (Brings W s (Yields W simple.parts SimpleDeclaration.parts)) := by
  refine .bind (.part h.past (hcall.leads _ s h trivial) ?_)
  rintro types us ps s₁ h₁ ⟨hlevel, htypes⟩
  refine .bind (.part h₁ (hcall.leads _ s₁ h₁.left trivial) ?_)
  rintro chain vs qs s₂ h₂ ⟨hlevel', hchain⟩
  have hl₂ := Level.append hlevel hlevel'
  extract_lets qid
  have hqid : qid.parts ⊆ ps ++ qs := by
    simp only [qid, QualifiedId.parts_eq, Unqualified.parts, List.flatMap_nil, specifiersParts,
      chainParts] at htypes hchain ⊢
    grind
  refine .bind (.peek h₂ ?_)
  intro opener s₃ h₃ hopen _
  refine .ite ?_ ?_
  · intro _
    refine .bind (.still (Parse.still_faultExpected _ _) h₃ ?_)
    intro s₄ h₄ _
    have hadd := parts_addDeclarator simple ⟨[], qid⟩ .none .absent
    simp only [Declarator.parts_eq, List.flatMap_nil, Initializer.parts] at hadd
    exact .pure ⟨_, _, h₄, hl₂, by grind⟩
  · intro hparen
    have hplain : opener.isBrace = false := by simp [Token.isBrace, not_not.1 hparen]
    refine .bind (.part h₃ (parameterList_leads hcall h₃.left hopen hplain false) ?_)
    rintro params ws rs s₄ h₄ ⟨hlevel₄, hparams⟩
    refine .bind (.part h₄ (hcall.leads _ s₄ h₄.left trivial) ?_)
    intro qualifiers xs ts s₅ h₅ hlevel₅
    refine .yielding h₅ (Level.append (hl₂.append hlevel₄) hlevel₅)
      (addFunction_leads hcall h₅.left simple _) ?_
    simp only [Declarator.parts_eq, List.flatMap_singleton, Production.parts,
      FunctionDeclarator.parts_eq, QualifiedId.parts_empty, List.append_nil]
    grind

/-! ## Types by name -/

theorem typeParameter_leads (hcall : Effects W call) (h : s.Fit W) (simple : SimpleDeclaration)
    (keyword ellipsis : Token) (name : QualifiedId) :
    Leads (typeParameter call simple keyword ellipsis name) s
      (Brings W s (Yields W (simple.parts ++ name.parts) SimpleDeclaration.parts)) := by
  unfold typeParameter
  extract_lets finish
  have hfinish : ∀ identifier, Leads (finish identifier) s
      (Brings W s (Yields W (simple.parts ++ name.parts) SimpleDeclaration.parts)) := by
    intro identifier
    refine .bind (.part h.past (typeInitializer_leads hcall h) ?_)
    rintro init us ps s₁ h₁ ⟨hlevel, hinit⟩
    have hspec := parts_addSpecifier simple (.typeParam keyword ellipsis identifier)
    have hadd := parts_addDeclarator
      (addSpecifier simple (.typeParam keyword ellipsis identifier)) ⟨[], name⟩ init .absent
    simp only [Specifier.parts, Declarator.parts_eq, List.flatMap_nil] at hspec hadd
    exact .pure ⟨_, _, h₁, hlevel, by grind⟩
  split
  · exact hfinish _
  · exact hfinish _
  · refine .bind (.still (Parse.still_faultExpected _ _) h.past ?_)
    intro s₁ h₁ _
    exact .pure ⟨_, _, h₁, h.level, by simp⟩

/-- A type by its name, or the whole declaration of a constructor. -/
theorem typeOrConstructor_leads (hcall : Effects W call) (h : s.Fit W) (mode : Mode)
    (simple : SimpleDeclaration) (typename : Token) (qid : QualifiedId) :
    Leads (typeOrConstructor call mode simple typename qid) s
      (Brings W s (Yields W (simple.parts ++ qid.parts) fun result => result.2.parts)) := by
  unfold typeOrConstructor
  extract_lets _ asType
  have htype : ∀ {s'}, Past W s [] s.scopes [] s' → Leads asType s'
      (Brings W s (Yields W (simple.parts ++ qid.parts) fun result => result.2.parts)) := by
    intro s' h'
    refine .stillIf (Parse.still_faultExpected _ _) h' ?_
    intro s₁ h₁ _
    have hspec := parts_addSpecifier simple (.typeName typename qid false)
    simp only [Specifier.parts] at hspec
    exact .pure ⟨_, _, h₁, h.level, by grind⟩
  split
  · split
    · refine .bind (.beginTrial ?_)
      intro trial s₁ hbegun
      have htrial := hbegun.past h.past
      refine .bind (.part htrial (functionDeclarator_leads hcall htrial.left) ?_)
      rintro f? us ps s₂ h₂ ⟨hlevel, hf⟩
      refine .bind (.failedSince _ (.ite ?_ ?_))
      · intro _
        refine .bind (.abandon h.past hbegun h₂ ?_)
        intro s₃ h₃ _
        exact htype h₃
      · intro hfailed
        refine .bind (.endTrial h.past hbegun h₂ (by simpa using hfailed) ?_)
        intro s₃ h₃
        extract_lets chain
        have hchain : chain.flatMap Production.parts ⊆ ps := by
          cases f? with
          | none => simp [chain]
          | some f => simpa [chain, Production.parts] using hf
        refine .bind (.part h₃ (addFunction_leads hcall h₃.left simple ⟨chain, qid⟩) ?_)
        rintro simple' vs qs s₄ h₄ ⟨hlevel', hsimple⟩
        simp only [Declarator.parts_eq] at hsimple
        exact .pure ⟨_, _, h₄, Level.append hlevel hlevel', by grind⟩
    · exact htype h.past
  · exact htype h.past

theorem typeSpecifier_leads {token : Token} (hcall : Effects W call)
    (h : Past W s ([] ++ [token]) s.scopes [] s') (hname : token.kind = .identifier) (mode : Mode)
    (simple : SimpleDeclaration) : Leads (typeSpecifier call mode simple token) s'
      (Brings W s (Yields W simple.parts fun result => result.2.parts)) := by
  have hl : Level W [] ([] ++ [token]) := Level.nil.kind hname (by decide)
  have htype : ∀ {typename qid us ps s'}, Past W s us s.scopes ps s' → Level W ps us →
      qid.parts ⊆ ps → Leads (typeOrConstructor call mode simple typename qid) s'
        (Brings W s (Yields W simple.parts fun result => result.2.parts)) :=
    fun h' hl hqid =>
      .yielding h' hl (typeOrConstructor_leads hcall h'.left mode simple _ _) (by grind)
  unfold typeSpecifier
  split
  · refine .bind (.read h ?_)
    intro next s₁ h₁ _
    extract_lets rest
    have hrest : ∀ {ellipsis us s'}, Past W s us s.scopes [] s' → Level W [] us →
        Leads (rest ellipsis) s'
          (Brings W s (Yields W simple.parts fun result => result.2.parts)) := by
      intro ellipsis us s' h' hl
      refine .bind (.part h' (qualifiedId_leads hcall h'.left _) ?_)
      rintro name vs qs s₂ h₂ ⟨hlevel, hqid⟩
      have hl₂ := hl.append hlevel
      refine .ite ?_ ?_
      · intro _
        refine .bind (.part h₂ (typeParameter_leads hcall h₂.left simple token ellipsis name) ?_)
        rintro simple' ws rs s₃ h₃ ⟨hlevel', hsimple⟩
        exact .pure ⟨_, _, h₃, hl₂.append hlevel', by grind⟩
      · intro _
        refine .stillIf (Parse.still_faultExpected _ _) h₂ ?_
        intro s₃ h₃ _
        exact htype h₃ hl₂ (by grind)
    split
    next hellipsis => exact .bind (.pure (hrest h₁ (hl.kind hellipsis (by decide))))
    next =>
      refine .bind (.pushBack h₁ ?_)
      intro s₂ h₂ _ _
      exact .bind (.pure (hrest h₂ hl))
  · refine .bind (.pushBack h ?_)
    intro s₁ h₁ _ _
    refine .bind (.part h₁ (qualifiedId_leads hcall h₁.left _) ?_)
    rintro qid us ps s₂ h₂ ⟨hlevel, hqid⟩
    exact htype h₂ hlevel (by grind)

/-! ## Specifiers -/

theorem specifiers_leads (hcall : Effects W call) (h : s.Fit W) (mode : Mode)
    (soFar : SpecifierState) : Leads (specifiers call mode soFar) s
      (Brings W s (Yields W soFar.simple.parts SimpleDeclaration.parts)) := by
  refine .bind (.read h.past ?_)
  intro token s₁ h₁ _
  have hdeclarators : ∀ {s'}, Past W s [] s.scopes [] s' →
      Leads (declarators call mode soFar.simple) s'
        (Brings W s (Yields W soFar.simple.parts SimpleDeclaration.parts)) :=
    fun h' => .yielding h' h.level (declarators_leads hcall h'.left mode _) (by simp)
  refine .ite ?_ ?_
  · intro _
    extract_lets rest
    have hrest : ∀ {s'}, Past W s ([] ++ [token]) s.scopes [] s' → Leads (rest ()) s'
        (Brings W s (Yields W soFar.simple.parts SimpleDeclaration.parts)) := by
      intro s' h'
      refine .bind (.pushBack h' ?_)
      intro s₂ h₂ _ _
      exact hdeclarators h₂
    refine .ite ?_ fun _ => hrest h₁
    intro _
    split
    · exact .bind (.still (Parse.still_faultExpected _ _) h₁ fun s₂ h₂ _ => hrest h₂)
    · exact .bind (.pure (hrest h₁))
  intro hkind
  have hname := not_not.1 hkind
  have hl := h.level.kind hname (by decide)
  -- a call with more specifiers
  have hgo : ∀ {state us ps s'}, Past W s us s.scopes ps s' → Level W ps us →
      state.simple.parts ⊆ soFar.simple.parts ++ ps →
      Leads (call (.specifiers mode state)) s'
        (Brings W s (Yields W soFar.simple.parts SimpleDeclaration.parts)) :=
    fun h' hl' hstate => .yielding h' hl' (hcall.leads _ _ h'.left trivial) hstate
  have hadd : ∀ {spec : Specifier} {ps}, spec.parts ⊆ ps →
      (addSpecifier soFar.simple spec).parts ⊆ soFar.simple.parts ++ ps := by
    intro spec ps hspec
    have hparts := parts_addSpecifier soFar.simple spec
    grind
  have hkeyword : (addSpecifier soFar.simple (.keyword token)).parts ⊆
      soFar.simple.parts ++ ([] : List Part) := hadd (by simp [Specifier.parts])
  refine .ite (fun _ => ?_) fun _ => .ite (fun _ => ?_) fun _ => .ite (fun _ => ?_) fun _ =>
    .ite (fun _ => ?_) fun _ => .ite (fun _ => ?_) fun _ => .ite (fun _ => ?_) fun _ =>
    .ite (fun _ => ?_) fun _ => .ite (fun _ => ?_) fun _ => ?_
  all_goals
    refine .bind (.still Parse.still_unmute h₁ ?_)
    intro s₂ h₂ _
  -- `extern`, keywords, and words for sign and length
  · refine .bind (.read h₂ ?_)
    intro literal s₃ h₃ _
    refine .ite ?_ ?_
    · intro hliteral
      exact hgo h₃ (hl.kind hliteral (by decide)) (hadd (by simp [Specifier.parts]))
    · intro _
      refine .bind (.pushBack h₃ ?_)
      intro s₄ h₄ _ _
      exact hgo h₄ hl hkeyword
  · exact hgo h₂ hl hkeyword
  · exact .ite (fun _ => hgo h₂ hl hkeyword) (fun _ => hgo h₂ hl hkeyword)
  -- `alignas`
  · refine .bind (.read h₂ ?_)
    intro opener s₃ h₃ _
    refine .ite ?_ ?_
    · intro _
      refine .bind (.still (Parse.still_fault _ _) h₃ ?_)
      intro s₄ h₄ _
      refine .bind (.pushBack h₄ ?_)
      intro s₅ h₅ _ _
      exact hgo h₅ hl (by simp)
    · intro hparen
      have hopen := not_not.1 hparen
      refine .bind (.within (R := Levels W) h₃ id ?_ ?_)
      · intro s₄ h₄ _ _
        exact hcall.leads (.expression false) s₄ h₄ trivial
      · intro _ us ps s₄ h₄ hlevel
        refine .bind (.part h₄ (closeScope_leads hcall h₄.left (.inl hopen)) ?_)
        rintro (_ | closer) vs qs s₅ h₅ ⟨hlevel', -⟩
        · exact .pure ⟨_, _, h₅, ((hl.kind hopen (by decide)).append hlevel).append hlevel', by simp⟩
        · exact hgo h₅ (((hl.kind hopen (by decide)).append hlevel).append hlevel') (by simp)
  -- `typedef`, classes and enumerations
  · exact hgo h₂ hl hkeyword
  · refine .stillIf (Parse.still_fault _ _) h₂ ?_
    intro s₃ h₃ _
    refine .bind (.part h₃ (record_leads hcall h₃.left token) ?_)
    rintro r us ps s₄ h₄ ⟨hlevel, hr⟩
    exact hgo h₄ (hl.append hlevel) (hadd (by rw [Specifier.parts]; grind))
  · refine .stillIf (Parse.still_fault _ _) h₂ ?_
    intro s₃ h₃ _
    refine .bind (.part h₃ (enumeration_leads hcall h₃.left token) ?_)
    rintro e us ps s₄ h₄ ⟨hlevel, he⟩
    exact hgo h₄ (hl.append hlevel) (hadd (by rw [Specifier.parts]; grind))
  -- `operator`, and names
  · exact .yielding h₂ hl (conversionFunction_leads hcall h₂.left _ token) (by simp)
  refine .ite (fun _ => hgo h₂ hl (hadd ?_)) ?_
  · simp [plainType, Specifier.parts, QualifiedId.ofIdentifier, QualifiedId.parts_eq,
      Unqualified.parts]
  intro _
  refine .ite ?_ ?_
  · intro _
    refine .bind (.pushBack h₂ ?_)
    intro s₃ h₃ _ _
    exact hdeclarators h₃
  intro _
  refine .bind ((typeSpecifier_leads hcall h₂ hname mode _).mono ?_)
  rintro ⟨complete, simple⟩ s₃ ⟨us, ps, h₃, hlevel, hsimple⟩
  refine .ite ?_ ?_
  · intro _
    exact .pure ⟨_, _, h₃, hlevel, hsimple⟩
  · intro _
    exact hgo h₃ hlevel hsimple

end CppDecl.Grammar
