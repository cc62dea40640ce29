import CppDecl.Parsing
import CppDecl.Proofs.Effects.Declarations

/-!
# What a run leaves

The body of each rule has the effect of the rule if calls do (`Grammar.body_leads`), so every run has
it, however deep (`Grammar.run_effects`).  From that follows what is known of the tree of a whole
source (`Grammar.unit_leads`), and of its log (`runGrammar_told`).
-/

namespace CppDecl

open Parse (Leads)
open Session (Fit Past)

variable {W : Concern} {call : Call} {s : Session}

namespace Grammar

theorem body_leads {α : Type} (rule : Rule α) (hcall : Effects W call) (h : s.Fit W)
    (hpre : rule.Pre s) : Leads (body call rule) s (rule.Effect W s) := by
  cases rule with
  | skipTo opener closer => exact skipTo_leads hcall h opener closer hpre
  | nameTail => exact nameTail_leads hcall h
  | literals last => exact literals_leads hcall h last
  | expressions opener last => exact expressions_leads hcall h opener last hpre
  | expression optional => exact expression_leads hcall h optional
  | nestedNames soFar => exact nestedNames_leads hcall h soFar
  | templateArguments soFar => exact templateArguments_leads hcall h soFar
  | templateSeparator start argument => exact templateSeparator_leads hcall h start argument
  | parameters forTemplate soFar => exact parameters_leads hcall h forTemplate soFar
  | functionQualifiers soFar => exact functionQualifiers_leads hcall h soFar
  | conversionSpecifiers soFar hasType => exact conversionSpecifiers_leads hcall h soFar hasType
  | conversionPointers soFar allowed => exact conversionPointers_leads hcall h soFar allowed
  | declarator outer form allowed => exact declarator_leads hcall h outer form allowed
  | suffixes soFar depth nameMissing => exact suffixes_leads hcall h soFar depth nameMissing
  | memberInitializers soFar => exact memberInitializers_leads hcall h soFar
  | initDeclarators soFar => exact initDeclarators_leads hcall h soFar
  | bases soFar => exact bases_leads hcall h soFar
  | virtSpecifiers soFar => exact virtSpecifiers_leads hcall h soFar
  | enumerators soFar => exact enumerators_leads hcall h soFar hpre
  | specifiers mode soFar => exact specifiers_leads hcall h mode soFar
  | declaration className => exact declaration_leads hcall h hpre className
  | declarations closeExpected className =>
    exact declarations_leads hcall h closeExpected className hpre.1 hpre.2

/-- Every run leaves what its rule does, unless lists of expressions have to be closed. -/
theorem run_effects_of_not_closed (hunknown : ¬ W.closed) (depth : Nat) :
    Effects W fun rule => run depth rule := by
  induction depth with
  | zero => exact ⟨fun _ _ _ _ _ _ hrun => (nomatch hrun), fun hclosed => absurd hclosed hunknown⟩
  | succ depth ih =>
    exact ⟨fun rule s h hpre => body_leads rule ih h hpre, fun hclosed => absurd hclosed hunknown⟩

/-- Every run leaves what its rule does, if nobody asks for braces. -/
theorem run_effects (depth : Nat) : Effects .nothing fun rule => run depth rule :=
  run_effects_of_not_closed id depth

/-- What is known of the tree of a whole source.  All of it is in the braces of an outermost block,
so to say, which is not there.  It goes on to the end of the file. -/
theorem unit_leads (hcall : Effects W call) (h : s.Fit .nothing) :
    Leads (unit call) s fun unit s' => ∃ us ps, Past .nothing s us s.scopes ps s' ∧ unit.parts ⊆ ps ∧
      (W.asked → ∀ p ∈ ps, p.Matched W.closed us) ∧ s'.reader.frames = [] := by
  refine .bind (.enterScope h.past rfl ?_)
  intro s₁ h₁
  refine .bind (.bracketed (k := fun _ => 0) (R := fun _ vs sc' qs s' =>
    Grown qs (⟨.unit, []⟩ :: s.scopes) sc' ∧ (W.asked → ∀ p ∈ qs, p.Matched W.closed vs) ∧
      EndsFile vs s') h₁ (fun _ : W.asked => rfl) ?_ ?_)
  · intro s₂ h₂ hscopes _ haccept
    have hbraces : s₂.accept.InBraces := haccept
    have hgathering : Gathering s₂.scopes := ⟨_, _, hscopes, rfl⟩
    refine (hcall.leads (.declarations false "") s₂ h₂ ⟨hbraces, hgathering⟩).mono ?_
    rintro closer s' ⟨vs, sc', qs, hpast, hgrown, hmatched⟩
    exact ⟨vs, sc', qs, hpast, hscopes ▸ hgrown, hmatched⟩
  · rintro closer vs sc' qs s' h₂ ⟨⟨members, rfl, hmembers, -⟩, hmatched, hends⟩
    refine .bind (.read h₂ ?_)
    intro last s₃ h₃ hfirst
    have hend : ∃ t ∈ [] ++ vs ++ [last], t.kind = .endOfFile := by
      rcases hends with ⟨t, ht, hend⟩ | ⟨t, hpending, hend⟩
      · exact ⟨t, by simp [ht], hend⟩
      · exact ⟨t, by simp [hfirst t hpending], hend⟩
    refine .bind (.members h₃ ?_)
    refine .bind (.leaveScope h₃ rfl (.inr rfl) ?_)
    intro s₄ h₄
    refine .pure ⟨_, _, h₄, ?_, fun hW p hp => (hmatched hW p hp).left _, h₄.frames_nil hend⟩
    simpa [TranslationUnit.parts] using hmembers

/-- What is known of specifiers and declarators by themselves. -/
theorem single_leads (hcall : Effects W call) (h : s.Fit W) :
    Leads (single call) s fun _ s' => ∃ us ps, Past W s us s.scopes ps s' := by
  refine .bind (.enterScope h.past rfl ?_)
  intro s₁ h₁
  refine .bind (.part h₁ (specified_leads hcall h₁.left _) ?_)
  intro simple us ps s₂ h₂ _
  refine .bind (.leaveScope h₂ rfl (.inr rfl) ?_)
  intro s₃ h₃
  exact .pure ⟨_, _, h₃⟩

end Grammar

/-- A parse of a whole source tells of all that happens, closes all scopes, and reads everything. -/
theorem runGrammar_told {reader : Reader} {budget passNumber : Nat} {unit : TranslationUnit}
    (hsound : reader.Sound) (hrun : runGrammar budget passNumber reader Grammar.unit = .ok (unit, s)) :
    (Session.new reader budget passNumber).Told 0 s ∧ s.scopes = [] ∧ s.reader.frames = [] := by
  obtain ⟨us, ps, hpast, -, -, hframes⟩ := Grammar.unit_leads (Grammar.run_effects budget)
    ⟨Session.orderly_new hsound budget passNumber, False.elim⟩ unit s hrun
  exact ⟨hpast.told, hpast.scopes, hframes⟩

end CppDecl
