import CppDecl.Proofs.Effects.Expressions

/-!
# What the rules leave: declarators

The parameters of a function are tried first where a parenthesis may open an inner declarator as
well.  What the trial has read is forgotten with the trial.
-/

namespace CppDecl.Grammar

open Parse (Brings Leads)
open Session (Fit Past)

variable {W : Concern} {call : Call} {α : Type} {s₀ s s' : Session} {t : Token}
variable {ts us : List Token} {sc : List OpenScope} {ps qs : List Part}

theorem trailingReturn_leads (hcall : Effects W call) (h : s.Fit W) (f : FunctionDeclarator) :
    Leads (trailingReturn call f) s (Brings W s (Yields W f.parts FunctionDeclarator.parts)) := by
  refine .bind (.read h.past ?_)
  intro arrow s₁ h₁ _
  split
  next =>
    refine .bind (.pushBack h₁ ?_)
    intro s₂ h₂ _ _
    exact .pure ⟨_, _, h₂, h.level, by simp⟩
  next harrow =>
    refine .bind (.peek h₁ ?_)
    intro start s₂ h₂ _ _
    refine .bind (.part h₂ (qualifiedId_leads hcall h₂.left _) ?_)
    rintro trailing us ps s₃ h₃ ⟨hlevel, htrailing⟩
    refine .stillIf (Parse.still_fault _ _) h₃ ?_
    intro s₄ h₄ _
    refine .pure ⟨_, _, h₄, (h.level.kind (not_not.1 harrow) (by decide)).append hlevel, ?_⟩
    simp only [FunctionDeclarator.parts_eq]
    grind

theorem checkName_leads {Q : Unit → Session → Prop} (h : Past W s₀ us sc ps s) (nameMissing : Bool)
    (token : Token) (hQ : ∀ s', Past W s₀ us sc ps s' → Q () s') :
    Leads (checkName nameMissing token) s Q := by
  refine .bind (.still Parse.still_unmute h ?_)
  intro s₁ h₁ _
  split
  · exact .still (Parse.still_faultExpected _ _) h₁ fun s₂ h₂ _ => hQ s₂ h₂
  · exact .pure (hQ s₁ h₁)

theorem parts_insert (d : Declarator) (depth : Nat) (production : Production) :
    ({ d with chain := Chain.insertAt d.chain depth production } : Declarator).parts ⊆
      d.parts ++ production.parts := by
  have hinsert := Chain.parts_insertAt d.chain depth production
  simp only [Declarator.parts_eq]
  grind

theorem suffixes_leads (hcall : Effects W call) (h : s.Fit W) (d : Declarator) (depth : Nat)
    (nameMissing : Bool) :
    Leads (suffixes call d depth nameMissing) s (Brings W s (Yields W d.parts Declarator.parts)) := by
  refine .bind (.read h.past ?_)
  intro token s₁ h₁ _
  split
  next hsquare =>
    refine .bind (checkName_leads h₁ nameMissing token ?_)
    intro s₂ h₂
    refine .bind (.part h₂ (hcall.leads _ s₂ h₂.left trivial) ?_)
    rintro ⟨start, stop⟩ us ps s₃ h₃ hlevel
    refine .bind (.part h₃ (closeScope_leads hcall h₃.left (.inr hsquare)) ?_)
    rintro closer vs qs s₄ h₄ ⟨hlevel', hbracket⟩
    have hl := ((h.level.kind hsquare (by decide)).append hlevel).append hlevel'
    have hinsert := parts_insert d depth (.arrayOf token (closer.getD .absent) (.between start stop))
    rw [Production.parts_arrayOf_between] at hinsert
    refine .ite ?_ ?_
    · intro _
      exact .yielding h₄ hl (hcall.leads _ s₄ h₄.left trivial) (by grind)
    · intro _
      exact .pure ⟨_, _, h₄, hl, by grind⟩
  next hparen =>
    refine .bind (checkName_leads h₁ nameMissing token ?_)
    intro s₂ h₂
    refine .bind (.pushBack h₂ ?_)
    intro s₃ h₃ _ _
    refine .bind (.part h₃ (functionDeclarator_leads hcall h₃.left) ?_)
    rintro (_ | f) us ps s₄ h₄ ⟨hlevel, hf⟩
    · exact .yielding h₄ hlevel (hcall.leads _ s₄ h₄.left trivial) (by simp)
    · refine .bind (.part h₄ (trailingReturn_leads hcall h₄.left f) ?_)
      rintro f' vs qs s₅ h₅ ⟨hlevel', hf'⟩
      have hinsert := parts_insert d depth (.function f')
      simp only [Production.parts, Option.toList_some, List.flatMap_singleton] at hinsert hf
      exact .yielding h₅ (Level.append hlevel hlevel') (hcall.leads _ s₅ h₅.left trivial) (by grind)
  next =>
    refine .bind (.pushBack h₁ ?_)
    intro s₂ h₂ _ _
    exact .pure ⟨_, _, h₂, h.level, by simp⟩

theorem innerDeclarator_leads (hcall : Effects W call) (h : s.Fit W) (outer : Chain)
    (form : DeclaratorForm) {opener : Token} (hopener : opener.kind = .openParen) :
    Leads (innerDeclarator call outer form opener) s
      (Brings W s (Yields W (chainParts outer) Declarator.parts)) := by
  refine .bind (.part h.past (hcall.leads _ s h trivial) ?_)
  rintro inner us ps s₁ h₁ ⟨hlevel, hinner⟩
  refine .bind (.part h₁ (closeScope_leads hcall h₁.left (.inl hopener)) ?_)
  rintro closer vs qs s₂ h₂ ⟨hlevel', hbracket⟩
  have hl := Level.append hlevel hlevel'
  have hparts : ({ inner with
      chain := .parenthesized opener (closer.getD .absent) :: inner.chain } : Declarator).parts ⊆
        chainParts outer ++ (ps ++ qs) := by
    simp only [Declarator.parts_eq, List.flatMap_cons, Production.parts] at hinner ⊢
    grind
  refine .ite ?_ ?_
  · intro _
    exact .yielding h₂ hl (hcall.leads _ s₂ h₂.left trivial) hparts
  · intro _
    exact .pure ⟨_, _, h₂, hl, hparts⟩

theorem functionOrInner_leads {opener : Token} (hcall : Effects W call)
    (h : Past W s (us ++ [opener]) s.scopes ps s') (hlevel : Level W ps us)
    (hparen : opener.kind = .openParen) (outer : Chain) (form : DeclaratorForm) :
    Leads (functionOrInner call outer form opener) s'
      (Brings W s (Yields W (chainParts outer) Declarator.parts)) := by
  refine .bind (.pushBack h ?_)
  intro s₁ h₁ hpending _
  refine .bind (.beginTrial ?_)
  intro trial s₂ hbegun
  have htrial := hbegun.past h₁
  refine .bind (.part htrial (functionDeclarator_leads hcall htrial.left) ?_)
  rintro f? vs qs s₃ h₃ ⟨hlevel', hf⟩
  refine .bind (.failedSince _ (.ite ?_ ?_))
  · intro _
    refine .bind (.abandon h₁ hbegun h₃ ?_)
    intro s₄ h₄ hagain
    refine .bind (.read h₄ ?_)
    intro opener' s₅ h₅ hfirst
    obtain rfl := hfirst opener (hagain opener hpending)
    exact .yielding h₅ (hlevel.kind hparen (by decide))
      (innerDeclarator_leads hcall h₅.left outer form hparen) (by simp)
  · intro hfailed
    refine .bind (.endTrial h₁ hbegun h₃ (by simpa using hfailed) ?_)
    intro s₄ h₄
    have hl := hlevel.append hlevel'
    cases f? with
    | none =>
      refine .yielding h₄ hl (hcall.leads _ s₄ h₄.left trivial) ?_
      simp [Declarator.parts_eq]
    | some f =>
      refine .bind (.part h₄ (trailingReturn_leads hcall h₄.left f) ?_)
      rintro f' ws rs s₅ h₅ ⟨hlevel'', hf'⟩
      refine .yielding h₅ (hl.append hlevel'') (hcall.leads _ s₅ h₅.left trivial) ?_
      simp only [Declarator.parts_eq, List.flatMap_cons, Production.parts, QualifiedId.parts_empty,
        Option.toList_some, chainParts_eq] at hf ⊢
      grind

theorem not_brace_of_isPointerKind (h : isPointerKind t.kind = true) : t.isBrace = false := by
  cases hkind : t.kind <;> simp_all [isPointerKind, Token.isBrace]

theorem declarator_leads (hcall : Effects W call) (h : s.Fit W) (chain : Chain)
    (form : DeclaratorForm) (allowQualifier : Bool) :
    Leads (declarator call chain form allowQualifier) s
      (Brings W s (Yields W (chainParts chain) Declarator.parts)) := by
  refine .bind (.part h.past (qualifiedId_leads hcall h _) ?_)
  rintro qid us ps s₁ h₁ ⟨hlevel, hqid⟩
  -- going on with a longer chain
  have hnext : ∀ {chain' allowed us s'}, Past W s us s.scopes ps s' → Level W ps us →
      chainParts chain' ⊆ chainParts chain ++ ps →
      Leads (call (.declarator chain' form allowed)) s'
        (Brings W s (Yields W (chainParts chain) Declarator.parts)) :=
    fun h' hl hchain => .yielding h' hl (hcall.leads _ _ h'.left trivial) hchain
  split
  · refine .stillIf (Parse.still_fault _ _) h₁ ?_
    intro s₂ h₂ _
    refine .yielding h₂ hlevel (hcall.leads _ s₂ h₂.left trivial) ?_
    simp only [Declarator.parts_eq, chainParts_eq]
    grind
  refine .bind (.read h₁ ?_)
  intro token s₂ h₂ _
  split
  next hparen =>
    refine .stillIf (Parse.still_fault _ _) h₂ ?_
    intro s₃ h₃ _
    refine .bind (.still Parse.still_unmute h₃ ?_)
    intro s₄ h₄ _
    split
    · exact functionOrInner_leads hcall h₄ hlevel hparen chain form
    · exact .yielding h₄ (hlevel.kind hparen (by decide))
        (innerDeclarator_leads hcall h₄.left chain form hparen) (by simp)
  next =>
    refine .stillIf (Parse.still_fault _ _) h₂ ?_
    intro s₃ h₃ _
    split
    next hpointer =>
      refine .bind (.still Parse.still_unmute h₃ ?_)
      intro s₄ h₄ _
      refine hnext h₄ (hlevel.plain (not_brace_of_isPointerKind hpointer)) ?_
      simp only [chainParts_eq, List.flatMap_cons, Production.parts, nestedNamesParts_eq,
        QualifiedId.parts_eq] at hqid ⊢
      grind
    split
    next hellipsis =>
      refine .bind (.still Parse.still_unmute h₃ ?_)
      intro s₄ h₄ _
      exact hnext h₄ (hlevel.kind hellipsis (by decide)) (by simp)
    split
    next hname =>
      refine .stillIf (Parse.still_fault _ _) h₃ ?_
      intro s₄ h₄ _
      refine .bind (.still Parse.still_unmute h₄ ?_)
      intro s₅ h₅ _
      exact hnext h₅ (hlevel.kind hname (by decide)) (by simp [Production.parts])
    next =>
      refine .stillIf (Parse.still_faultExpected _ _) h₃ ?_
      intro s₄ h₄ _
      refine .bind (.pushBack h₄ ?_)
      intro s₅ h₅ _ _
      refine .yielding h₅ hlevel (hcall.leads _ s₅ h₅.left trivial) ?_
      simp [Declarator.parts_eq]

end CppDecl.Grammar
