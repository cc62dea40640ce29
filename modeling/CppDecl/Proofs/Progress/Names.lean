import CppDecl.Proofs.Progress.Rule

/-!
# Progress: names

A name that is not empty has consumed a token.  Template arguments go on behind a comma only, which
was read even if the argument in front of it was given up.
-/

namespace CppDecl.Grammar

open Parse (Consumed Consumes Runs)
open Session (Since Ready Advance Pending)

variable {call : Call} {α : Type} {n k : Nat} {s₀ s s' : Session} {t : Token}
variable {ts us : List Token}

/-! ## Names -/

theorem nestedSeparator_runs (hcall : Serves call n k) (h : Since n s₀ ts s) (hpos : 0 < live ts)
    (soFar : List NestedName) (component : NestedName) :
    Runs (nestedSeparator call soFar component) s (Consumed s₀ fun _ us _ => 0 < live us) := by
  refine .bind (.read h ?_)
  intro sep s₁ h₁ _
  split
  · refine hcall.after h₁ (live_pos_left hpos) _ ?_
    intro _ us s₂ h₂ _
    exact ⟨_, h₂.advance, live_pos_left (live_pos_left hpos)⟩
  · refine .bind (.pushBack h₁ ?_)
    intro s₂ h₂ _
    exact .pure ⟨_, h₂.advance, hpos⟩

theorem not_name_iff (token : Token) :
    (token.kind ≠ .identifier || notNames.contains token.text) = true ↔
      ¬ (token.kind = .identifier ∧ token.text ∉ notNames) := by
  simp only [Bool.or_eq_true, decide_eq_true_eq, List.contains_iff_mem]
  tauto

theorem nestedNames_consumes (hcall : Serves call n 0) (h : s.Ready n) (soFar : List NestedName) :
    Consumes (nestedNames call soFar) s ((Rule.nestedNames soFar).Post s) := by
  refine .bind (.read h.since ?_)
  intro token s₁ h₁ hfirst
  split
  next hstop =>
    refine .bind (.pushBack h₁ ?_)
    intro s₂ h₂ _
    refine .pure ⟨[], h₂.advance, .inl ⟨rfl, rfl⟩, ?_⟩
    intro t ht
    rw [← hfirst t ht, if_neg ((not_name_iff token).1 hstop)]
  next hstop =>
    have hname := not_not.1 (mt (not_name_iff token).2 hstop)
    have hmore : token.kind ≠ .endOfFile := by rw [hname.1]; decide
    -- whatever comes, the name was consumed
    have hdone : ∀ {p : Parse (List NestedName)} {s'},
        Runs p s' (Consumed s fun _ us _ => 0 < live us) →
          Runs p s' (Consumed s ((Rule.nestedNames soFar).Post s)) := by
      intro p s' hruns
      refine hruns.mono ?_
      rintro a s'' ⟨us, hadvance, hpos⟩
      refine ⟨us, hadvance, .inr hpos, ?_⟩
      intro t ht
      rw [← hfirst t ht, if_pos hname]
      exact hpos
    refine .bind (.read h₁ ?_)
    intro punc s₂ h₂ _
    have hpos₂ : 0 < live ([] ++ [token] ++ [punc]) := live_pos (by simp) hmore
    split
    · split
      · refine .bind (.part h₂ (skipScope_consumes (hcall.lt (h₂.used hpos₂)) h₂.left punc) ?_)
        intro closer us s₃ h₃ _
        exact hdone (nestedSeparator_runs hcall h₃ (live_pos (t := token) (by simp) hmore) _ _)
      · refine .bind (.quiet (Parse.quiet_fault _ _) h₂ ?_)
        intro s₃ h₃ _
        refine .bind (.pushBack h₃ ?_)
        intro s₄ h₄ _
        exact hdone (nestedSeparator_runs hcall h₄ (live_pos (t := token) (by simp) hmore) _ _)
    · refine .bind (.get ?_)
      split
      · refine .bind (.within (R := anything) h₂ ?_ ?_)
        · intro s₃ hready _ _
          exact hcall _ s₃ _ hready (.inl (h₂.used hpos₂))
        · rintro ⟨args, closer⟩ us s₃ h₃ _
          have hpos₃ : 0 < live ([] ++ [token] ++ [punc] ++ us) := live_pos (by simp) hmore
          simp only
          split
          · exact hdone (nestedSeparator_runs hcall h₃ hpos₃ _ _)
          · exact hdone (.pure ⟨_, h₃.advance, hpos₃⟩)
      · refine .bind (.pushBack h₂ ?_)
        intro s₃ h₃ _
        exact hdone (nestedSeparator_runs hcall h₃ (live_pos (t := token) (by simp) hmore) _ _)

theorem operatorName_runs (h : Since n s₀ ts s) (keyword : Token) :
    Runs (operatorName keyword) s fun _ s' => ∃ us, Since n s₀ (ts ++ us) s' := by
  refine .bind (.read h ?_)
  intro op s₁ h₁ _
  split
  · refine .bind (.quiet (Parse.quiet_fault _ _) h₁ ?_)
    intro s₂ h₂ _
    refine .bind (.pushBack h₂ ?_)
    intro s₃ h₃ _
    exact .pure ⟨[], by rwa [List.append_nil]⟩
  · split
    · refine .bind (.read h₁ ?_)
      intro next s₂ h₂ _
      split
      · exact .pure ⟨_, by rwa [← List.append_assoc]⟩
      · refine .bind (.quiet (Parse.quiet_fault _ _) h₂ ?_)
        intro s₃ h₃ _
        refine .bind (.pushBack h₃ ?_)
        intro s₄ h₄ _
        exact .pure ⟨_, h₄⟩
    · exact .pure ⟨_, h₁⟩

theorem specialName_consumes (h : s.Ready n) : Consumes specialName s fun name us _ =>
    (name.isEmpty = false → 0 < live us) ∧ ∀ t, s.Pending t → t.kind = .tilde → 0 < live us := by
  refine .bind (.read h.since ?_)
  intro token s₁ h₁ hfirst
  split
  next htilde =>
    have hmore : token.kind ≠ .endOfFile := by rw [htilde]; decide
    refine .bind (.read h₁ ?_)
    intro name s₂ h₂ _
    split
    · have hpos : 0 < live ([] ++ [token] ++ [name]) := live_pos (by simp) hmore
      exact .pure ⟨_, h₂.advance, fun _ => hpos, fun _ _ _ => hpos⟩
    · refine .bind (.quiet (Parse.quiet_fault _ _) h₂ ?_)
      intro s₃ h₃ _
      refine .bind (.pushBack h₃ ?_)
      intro s₄ h₄ _
      have hpos : 0 < live ([] ++ [token]) := live_pos (by simp) hmore
      exact .pure ⟨_, h₄.advance, fun _ => hpos, fun _ _ _ => hpos⟩
  next htilde =>
    split
    next hword =>
      have hmore := Token.more_of_isWord hword
      refine (operatorName_runs h₁ token).mono ?_
      rintro a s₂ ⟨us, h₂⟩
      have hpos : 0 < live ([] ++ [token] ++ us) := live_pos (by simp) hmore
      exact ⟨_, h₂.advance, fun _ => hpos, fun _ _ _ => hpos⟩
    · refine .bind (.pushBack h₁ ?_)
      intro s₂ h₂ _
      refine .pure ⟨[], h₂.advance, nofun, ?_⟩
      intro t ht hkind
      rw [← hfirst t ht] at hkind
      exact absurd hkind htilde

theorem isEmpty_of_isComplete {qid : QualifiedId} (h : qid.isComplete = true) :
    qid.isEmpty = false := by
  rw [QualifiedId.isComplete, Bool.not_eq_true'] at h
  rw [QualifiedId.isEmpty, h, Bool.and_false]

/-- A name that is not empty has consumed a token, and so has one that begins with a token that can
begin a name. -/
theorem qualifiedId_consumes (hcall : Serves call n 1) (h : s.Ready n) (need : Completeness) :
    Consumes (qualifiedId call need) s fun qid us _ => (qid.isEmpty = false → 0 < live us) ∧
      ∀ t, s.Pending t → t.kind = .identifier ∧ t.text ∉ notNames ∨ t.kind = .tilde →
        0 < live us := by
  refine .bind (hcall.below h.since _ Nat.zero_lt_one ?_)
  rintro names us s₁ h₁ ⟨hnames, hfirst⟩
  extract_lets qid check
  -- checking the name consumes nothing
  have hcheck : ∀ {qid ts s' R}, Since n s ts s' → (∀ q, R qid ts q) →
      Runs (check qid) s' (Consumed s R) := by
    intro qid ts s' R h' hR
    simp only [check]
    split
    · refine .bind (.read h' ?_)
      intro token s₂ h₂ _
      refine .bind (.quiet (Parse.quiet_faultExpected _ _) h₂ ?_)
      intro s₃ h₃ _
      refine .bind (.pushBack h₃ ?_)
      intro s₄ h₄ _
      exact .pure ⟨ts, h₄.advance, hR _⟩
    · exact .pure ⟨ts, h'.advance, hR _⟩
  split
  · refine .bind (.part h₁ (specialName_consumes h₁.left) ?_)
    rintro unqual vs s₂ h₂ ⟨hunqual, htilde⟩
    refine .bind (.pure (hcheck h₂ ?_))
    intro q
    constructor
    · intro hne
      rcases hnames with ⟨-, rfl⟩ | hpos
      · have hunqual' : unqual.isEmpty = false := by
          simpa [QualifiedId.isEmpty, qid, splitLast, QualifiedId.empty] using hne
        exact live_pos_right (hunqual hunqual')
      · exact live_pos_left hpos
    · intro t ht hkind
      have hconsumed := hfirst t ht
      split at hconsumed
      next => exact live_pos_left hconsumed
      next hno =>
        subst hconsumed
        exact live_pos_right (htilde t (ht.advance h₁.advance) (hkind.resolve_left hno))
  next hne =>
    refine .bind (.pure (hcheck h₁ ?_))
    intro q
    have hpos : 0 < live us := by
      rcases hnames with ⟨-, rfl⟩ | hpos
      · exact absurd rfl hne
      · exact hpos
    exact ⟨fun _ => hpos, fun _ _ _ => hpos⟩

/-! ## Template arguments -/

theorem templateSeparator_consumes (hcall : Serves call n 0) (h : s.Ready n) (start : Token)
    (argument : TemplateArgument) : Consumes (templateSeparator call start argument) s
      ((Rule.templateSeparator start argument).Post s) := by
  refine .bind (.read h.since ?_)
  intro sep s₁ h₁ _
  split
  · refine .bind (.quiet Parse.quiet_unmute h₁ ?_)
    intro s₂ h₂ _
    refine .pure ⟨_, h₂.advance, ?_⟩
    intro (hcomma : sep.kind = .comma)
    have hmore : sep.kind ≠ .endOfFile := by rw [hcomma]; decide
    exact live_pos (by simp) hmore
  · refine .bind (stepOver_runs hcall h₁ ?_ ?_)
    · intro vs s₂ h₂ _
      exact .pure ⟨_, h₂.advance, nofun⟩
    · intro last us s₂ h₂ _ hpos
      refine hcall.after h₂ hpos _ ?_
      intro a vs s₃ h₃ _
      exact ⟨_, h₃.advance, fun _ => live_pos_left hpos⟩

theorem templateArguments_consumes (hcall : Serves call n 5) (h : s.Ready n)
    (soFar : List TemplateArgument) : Consumes (templateArguments call soFar) s anything := by
  refine .bind (.peek h.since ?_)
  intro start s₁ h₁ _ _
  refine .bind (.beginTrial ?_)
  intro trial s₂ hbegun
  refine .bind (hcall.below (hbegun.ready h₁.left).since _ (Nat.lt_succ_self 4) ?_)
  intro simple us s₃ h₃ _
  refine .bind (.failedSince _ ?_)
  intro failed
  extract_lets rest
  have hrest : ∀ argument ts s', Since n s ts s' →
      Runs (rest argument) s' (Consumed s anything) := by
    intro argument ts s' h'
    refine .bind (hcall.below h' _ (Nat.succ_pos 4) ?_)
    rintro ⟨argument, sep⟩ vs s₄ h₄ hcomma
    simp only
    split
    next hsep => exact hcall.last h₄ (live_pos_right (hcomma hsep)) _
    next => exact .done h₄
  split
  · refine .bind (.abandon h₁ hbegun h₃ ?_)
    intro s₄ h₄ _
    exact .bind (.pure (hrest _ _ _ h₄))
  · refine .bind (.endTrial h₁ hbegun h₃ ?_)
    intro s₄ h₄
    exact .bind (.pure (hrest _ _ _ h₄))

end CppDecl.Grammar
