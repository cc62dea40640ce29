import CppDecl.Proofs.Progress.Declarators

/-!
# Progress: specifiers

The specifiers of a declaration may consume nothing before its declarators.  But where there is no
type yet, a name is a type, or the name of a constructor, and a tilde is left to the declarators.  So
a declaration that begins with a name or with the tilde of a destructor consumes something.

Bodies of classes and enumerations are read behind a keyword and the brace that opens them.
-/

namespace CppDecl.Grammar

open Parse (Consumed Consumes Runs)
open Session (Since Ready Advance Pending)

variable {call : Call} {α : Type} {n k : Nat} {s₀ s s' : Session} {t : Token}
variable {ts us : List Token}

/-! ## Classes and enumerations -/

theorem declarationList_consumes (hcall : Serves call n 7) (h : s.Ready n) (closeExpected : Bool)
    (className : String) : Consumes (declarationList call closeExpected className) s anything := by
  refine .within h.since (R := anything) ?_ fun _ us _ h' _ => ⟨us, h'.advance, trivial⟩
  intro s₁ hready _ _
  exact (hcall.free hready.since _ fun _ us _ h' _ => ⟨us, h'.advance, trivial⟩)

theorem bases_consumes (hcall : Serves call n 1) (h : s.Ready n) (soFar : List BaseSpecifier) :
    Consumes (bases call soFar) s anything := by
  refine .bind (.read h.since ?_)
  intro token s₁ h₁ _
  extract_lets rest
  have hrest : ∀ access ts s', Since n s ts s' → Runs (rest access) s' (Consumed s anything) := by
    intro access ts s' h'
    refine .bind (.part h' (qualifiedId_consumes (hcall.le (Nat.sub_le _ _) (Nat.le_refl 1)) h'.left
      _) ?_)
    intro qid us s₂ h₂ _
    split
    · exact .done h₂
    refine .bind (.quiet Parse.quiet_unmute h₂ ?_)
    intro s₃ h₃ _
    refine .bind (.read h₃ ?_)
    intro punc s₄ h₄ _
    split
    · exact .leaving h₄
    next hcomma =>
      have hmore : punc.kind ≠ .endOfFile := by rw [hcomma]; decide
      exact hcall.last h₄ (live_pos (by simp) hmore) _
    next =>
      refine .bind (.quiet (Parse.quiet_faultExpected _ _) h₄ ?_)
      intro s₅ h₅ _
      exact .leaving h₅
  split
  · refine .bind (.quiet Parse.quiet_unmute h₁ ?_)
    intro s₂ h₂ _
    exact .bind (.pure (hrest _ _ s₂ h₂))
  · refine .bind (.pushBack h₁ ?_)
    intro s₂ h₂ _
    exact .bind (.pure (hrest _ _ s₂ h₂))

/-- The token that is given is the last one that was consumed, so that it can be pushed back. -/
theorem virtSpecifiers_consumes (hcall : Serves call n 0) (h : s.Ready n) (soFar : List Token) :
    Consumes (virtSpecifiers call soFar) s ((Rule.virtSpecifiers soFar).Post s) := by
  refine .bind (.read h.since ?_)
  intro token s₁ h₁ _
  split
  next hfinal =>
    have hmore := Token.more_of_isWord hfinal
    have hcalled : ∀ soFar s', Since n s ([] ++ [token]) s' →
        Runs (call (.virtSpecifiers soFar)) s' (Consumed s ((Rule.virtSpecifiers soFar).Post s)) := by
      intro soFar s' h'
      refine hcall.after h' (live_pos (by simp) hmore) _ ?_
      rintro result us s₂ h₂ ⟨vs, rfl⟩
      exact ⟨_, h₂.advance, [token] ++ vs, by simp⟩
    split
    · exact hcalled _ s₁ h₁
    · refine .bind (.quiet (Parse.quiet_fault _ _) h₁ ?_)
      intro s₂ h₂ _
      exact hcalled _ s₂ h₂
  next => exact .pure ⟨_, h₁.advance, [], rfl⟩

theorem record_consumes (hcall : Serves call n 7) (h : s.Ready n) (classKey : Token) :
    Consumes (record call classKey) s anything := by
  refine .bind (.part h.since (qualifiedId_consumes (hcall.le (Nat.le_refl n) (by decide)) h _) ?_)
  intro qid us s₁ h₁ _
  refine .bind (hcall.free h₁ _ ?_)
  rintro ⟨words, first⟩ _ s₂ h₂ ⟨vs, rfl⟩
  rw [← List.append_assoc] at h₂
  dsimp -zeta only
  extract_lets rest
  have hrest : ∀ colon baseList token ts s', Since n s (ts ++ [token]) s' →
      Runs (rest (colon, baseList, token)) s' (Consumed s anything) := by
    intro colon baseList token ts s' h'
    simp only [rest]
    split
    · refine .bind (.quiet (Parse.quiet_enterScope _) h' ?_)
      intro s₃ h₃ _
      refine .bind (.part h₃ (declarationList_consumes (hcall.le (Nat.sub_le _ _) (Nat.le_refl 7))
        h₃.left true _) ?_)
      intro closer ws s₄ h₄ _
      refine .bind (.members ?_)
      intro inner
      refine .bind (.quiet (Parse.quiet_leaveScope _ _) h₄ ?_)
      intro s₅ h₅ _
      exact .done h₅
    · exact .leaving h'
  split
  · refine .bind (hcall.free h₂ _ ?_)
    intro baseList ws s₃ h₃ _
    refine .bind (.read h₃ ?_)
    intro token s₄ h₄ _
    exact .bind (.pure (hrest _ _ token _ s₄ h₄))
  · exact .bind (.pure (hrest _ _ first _ s₂ h₂))

theorem enumerators_consumes (hcall : Serves call n 0) (h : s.Ready n) (soFar : List Enumerator) :
    Consumes (enumerators call soFar) s anything := by
  refine .bind (.read h.since ?_)
  intro token s₁ h₁ _
  split
  · refine .bind (.quiet Parse.quiet_unmute h₁ ?_)
    intro s₂ h₂ _
    exact .done h₂
  next hname =>
    have hmore : token.kind ≠ .endOfFile := by rw [hname]; decide
    refine .bind (.quiet Parse.quiet_unmute h₁ ?_)
    intro s₂ h₂ _
    have hused := h₂.used (live_pos (by simp) hmore)
    refine .bind (.part h₂ (variableInitializer_consumes (hcall.lt hused) h₂.left false) ?_)
    intro init us s₃ h₃ _
    refine .bind (.read h₃ ?_)
    intro next s₄ h₄ _
    split
    · refine .bind (.quiet Parse.quiet_unmute h₄ ?_)
      intro s₅ h₅ _
      refine .bind (.quiet (Parse.quiet_tell _) h₅ ?_)
      intro s₆ h₆ _
      exact hcall.last h₆ (live_pos (by simp) hmore) _
    · refine .bind (.quiet Parse.quiet_unmute h₄ ?_)
      intro s₅ h₅ _
      refine .bind (.quiet (Parse.quiet_tell _) h₅ ?_)
      intro s₆ h₆ _
      exact .done h₆
    · refine .quietIf (Parse.quiet_fault _ _) h₄ ?_
      intro s₅ h₅ _
      refine .bind (.pushBack h₅ ?_)
      intro s₆ h₆ _
      refine .bind (.quiet (Parse.quiet_tell _) h₆ ?_)
      intro s₇ h₇ _
      exact hcall.last h₇ (live_pos (by simp) hmore) _
  next =>
    refine .bind (.quiet (Parse.quiet_faultExpected _ _) h₁ ?_)
    intro s₂ h₂ _
    refine .bind (stepOver_runs hcall h₂ ?_ ?_)
    · intro vs s₃ h₃ _
      exact .done h₃
    · intro _ vs s₃ h₃ _ hpos
      exact hcall.last h₃ hpos _

theorem enumeration_consumes (hcall : Serves call n 7) (h : s.Ready n) (enumKey : Token) :
    Consumes (enumeration call enumKey) s anything := by
  have hname : ∀ {ts s'} need, Since n s ts s' → Consumes (qualifiedId call need) s' _ :=
    fun need h' => qualifiedId_consumes (hcall.le (Nat.sub_le _ _) (by decide)) h'.left need
  refine .bind (.read h.since ?_)
  intro word s₁ h₁ _
  extract_lets rest
  have hrest : ∀ classKey ts s', Since n s ts s' →
      Runs (rest classKey) s' (Consumed s anything) := by
    intro classKey ts s' h'
    refine .bind (.part h' (hname _ h') ?_)
    intro qid us s₂ h₂ _
    refine .bind (.read h₂ ?_)
    intro sep s₃ h₃ _
    extract_lets finish
    have hfinish : ∀ basePunc base ts s', Since n s ts s' →
        Runs (finish (basePunc, base)) s' (Consumed s anything) := by
      intro basePunc base ts s' h'
      refine .bind (.read h' ?_)
      intro opener s₄ h₄ _
      split
      · refine .bind (.quiet (Parse.quiet_enterScope _) h₄ ?_)
        intro s₅ h₅ _
        refine .bind (.quiet Parse.quiet_unmute h₅ ?_)
        intro s₆ h₆ _
        refine .bind (.within (R := anything) h₆ ?_ ?_)
        · intro s₇ hready _ _
          exact hcall _ s₇ _ hready (.inr ⟨Nat.sub_le _ _, Rule.rank_lt _⟩)
        · intro _ vs s₇ h₇ _
          refine .bind (.quiet (Parse.quiet_leaveScope _ _) h₇ ?_)
          intro s₈ h₈ _
          exact .done h₈
      · exact .leaving h₄
    split
    · refine .quietIf (Parse.quiet_fault _ _) h₃ ?_
      intro s₄ h₄ _
      refine .bind (.part h₄ (hname _ h₄) ?_)
      intro base vs s₅ h₅ _
      exact .bind (.pure (hfinish _ _ _ s₅ h₅))
    · refine .bind (.pushBack h₃ ?_)
      intro s₄ h₄ _
      exact .bind (.pure (hfinish _ _ _ s₄ h₄))
  split
  · exact .bind (.pure (hrest _ _ s₁ h₁))
  · refine .bind (.pushBack h₁ ?_)
    intro s₂ h₂ _
    exact .bind (.pure (hrest _ _ s₂ h₂))

/-! ## Declarators of a declaration -/

theorem addFunction_consumes (hcall : Serves call n 0) (h : s.Ready n) (simple : SimpleDeclaration)
    (d : Declarator) : Consumes (addFunction call simple d) s anything := by
  refine .bind (.part h.since (functionBody_consumes hcall h _) ?_)
  intro init us s₁ h₁ _
  exact .done h₁

theorem declaratorSeparator_consumes (hcall : Serves call n 0) (h : s.Ready n)
    (simple : SimpleDeclaration) (d : Declarator) (init : Initializer) :
    Consumes (declaratorSeparator call simple d init) s anything := by
  refine .bind (.read h.since ?_)
  intro sep s₁ h₁ _
  split
  next hcomma =>
    have hmore : sep.kind ≠ .endOfFile := by rw [hcomma]; decide
    exact hcall.last h₁ (live_pos (by simp) hmore) _
  next => exact .leaving h₁

theorem initDeclarators_consumes (hcall : Serves call n 2) (h : s.Ready n)
    (simple : SimpleDeclaration) :
    Consumes (initDeclarators call simple) s ((Rule.initDeclarators simple).Post s) := by
  refine .bind (hcall.below h.since _ (Nat.lt_succ_self 1) ?_)
  intro d us s₁ h₁ htilde
  -- the declarator takes care of the promise
  refine .part h₁ (R := anything) ?_ fun _ vs _ h' _ =>
    ⟨us ++ vs, h'.advance, fun t ht hkind => live_pos_left (htilde t ht hkind)⟩
  have hcall₁ : Serves call (n - live ([] ++ us)) 1 := hcall.le (Nat.sub_le _ _) (by decide)
  have hseparator : ∀ init ts s', Since (n - live ([] ++ us)) s₁ ts s' →
      Runs (declaratorSeparator call simple d init) s' (Consumed s₁ anything) := by
    intro init ts s' h'
    refine .part h' (declaratorSeparator_consumes (hcall₁.le (Nat.sub_le _ _) (by decide)) h'.left
      simple d init) ?_
    intro _ vs s₂ h₂ _
    exact ⟨_, h₂.advance, trivial⟩
  replace h₁ := h₁.left.since
  split
  · exact .done h₁
  split
  · refine .bind (.part h₁ (functionBody_consumes (hcall₁.le (Nat.sub_le _ _) (by decide)) h₁.left
      _) ?_)
    intro init vs s₂ h₂ _
    split
    · refine .quietIf (Parse.quiet_fault _ _) h₂ ?_
      intro s₃ h₃ _
      exact .done h₃
    · exact hseparator init _ s₂ h₂
  · refine .bind (.part h₁ (variableInitializer_consumes (hcall₁.le (Nat.sub_le _ _)
      (Nat.le_refl 1)) h₁.left _) ?_)
    intro init vs s₂ h₂ _
    exact hseparator init _ s₂ h₂

theorem declarators_consumes (hcall : Serves call n 3) (h : s.Ready n) (mode : Mode)
    (simple : SimpleDeclaration) : Consumes (declarators call mode simple) s fun _ us _ =>
      mode.isGlobalOrMember = true → ∀ t, s.Pending t → t.kind = .tilde → 0 < live us := by
  unfold declarators
  split
  · refine hcall.below h.since _ (Nat.lt_succ_self 2) ?_
    intro _ us s₁ h₁ htilde
    exact ⟨us, h₁.advance, fun _ => htilde⟩
  next hmode =>
    refine .bind (hcall.below h.since _ (by decide : 1 < 3) ?_)
    intro d us s₁ h₁ _
    split
    · refine .bind (.part h₁ (variableInitializer_consumes (hcall.le (Nat.sub_le _ _) (by decide))
        h₁.left _) ?_)
      intro init vs s₂ h₂ _
      exact .pure ⟨_, h₂.advance, fun htrue => absurd htrue hmode⟩
    · exact .bind (.pure (.pure ⟨_, h₁.advance, fun htrue => absurd htrue hmode⟩))

/-! ## Conversion functions -/

theorem conversionSpecifiers_consumes (hcall : Serves call n 1) (h : s.Ready n)
    (soFar : List Specifier) (hasType : Bool) :
    Consumes (conversionSpecifiers call soFar hasType) s anything := by
  refine .bind (.read h.since ?_)
  intro token s₁ h₁ _
  split
  · exact .leaving h₁
  next hname =>
    have hmore : token.kind ≠ .endOfFile := by rw [not_not.1 hname]; decide
    have hpos : 0 < live ([] ++ [token]) := live_pos (by simp) hmore
    split
    · exact hcall.last h₁ hpos _
    split
    · exact hcall.last h₁ hpos _
    split
    · exact hcall.last h₁ hpos _
    refine .bind (.pushBack h₁ ?_)
    intro s₂ h₂ _
    refine .bind (.part h₂ (qualifiedId_consumes (hcall.le (Nat.sub_le _ _) (Nat.le_refl 1)) h₂.left
      _) ?_)
    rintro qid us s₃ h₃ ⟨hqid, -⟩
    split
    · exact .done h₃
    next hne =>
      have hpos₃ := hqid (Bool.not_eq_true _ ▸ hne)
      split
      · refine .bind (.quiet (Parse.quiet_fault _ _) h₃ ?_)
        intro s₄ h₄ _
        exact hcall.last h₄ hpos₃ _
      · exact hcall.last h₃ hpos₃ _

theorem conversionPointers_consumes (hcall : Serves call n 0) (h : s.Ready n) (soFar : Chain)
    (allowQualifier : Bool) :
    Consumes (conversionPointers call soFar allowQualifier) s anything := by
  refine .bind (.read h.since ?_)
  intro token s₁ h₁ _
  split
  next hpointer =>
    exact hcall.last h₁ (live_pos (by simp) (more_of_isPointerKind hpointer)) _
  split
  next hellipsis =>
    have hmore : token.kind ≠ .endOfFile := by rw [hellipsis]; decide
    exact hcall.last h₁ (live_pos (by simp) hmore) _
  split
  next hword =>
    have hmore : token.kind ≠ .endOfFile :=
      (Bool.or_eq_true_iff.1 hword).elim Token.more_of_isWord Token.more_of_isWord
    refine .quietIf (Parse.quiet_fault _ _) h₁ ?_
    intro s₂ h₂ _
    exact hcall.last h₂ (live_pos (by simp) hmore) _
  next => exact .leaving h₁

theorem conversionFunction_consumes (hcall : Serves call n 7) (h : s.Ready n)
    (simple : SimpleDeclaration) (keyword : Token) :
    Consumes (conversionFunction call simple keyword) s anything := by
  refine .bind (hcall.free h.since _ ?_)
  intro types us s₁ h₁ _
  refine .bind (hcall.free h₁ _ ?_)
  intro chain vs s₂ h₂ _
  refine .bind (.peek h₂ ?_)
  intro opener s₃ h₃ hopen _
  split
  · refine .bind (.quiet (Parse.quiet_faultExpected _ _) h₃ ?_)
    intro s₄ h₄ _
    exact .done h₄
  next hparen =>
    have hmore : opener.kind ≠ .endOfFile := by rw [not_not.1 hparen]; decide
    refine .bind (.part h₃ (parameterList_consumes (hcall.le (Nat.sub_le _ _) (by decide)) h₃.left
      hopen hmore false) ?_)
    intro params ws s₄ h₄ _
    refine .bind (hcall.free h₄ _ ?_)
    intro qualifiers xs s₅ h₅ _
    refine .part h₅ (addFunction_consumes (hcall.le (Nat.sub_le _ _) (by decide)) h₅.left _ _) ?_
    intro _ ys s₆ h₆ _
    exact ⟨_, h₆.advance, trivial⟩

/-! ## Types by name -/

theorem typeParameter_consumes (hcall : Serves call n 0) (h : s.Ready n)
    (simple : SimpleDeclaration) (keyword ellipsis : Token) (name : QualifiedId) :
    Consumes (typeParameter call simple keyword ellipsis name) s anything := by
  unfold typeParameter
  extract_lets finish
  have hfinish : ∀ identifier, Runs (finish identifier) s (Consumed s anything) := by
    intro identifier
    refine .bind (.part h.since (typeInitializer_consumes hcall h) ?_)
    intro init us s₁ h₁ _
    exact .done h₁
  split
  · exact hfinish _
  · exact hfinish _
  · refine .bind (.quiet (Parse.quiet_faultExpected _ _) h.since ?_)
    intro s₁ h₁ _
    exact .done h₁

theorem typeOrConstructor_consumes (hcall : Serves call n 0) (h : s.Ready n) (mode : Mode)
    (simple : SimpleDeclaration) (typename : Token) (qid : QualifiedId) :
    Consumes (typeOrConstructor call mode simple typename qid) s anything := by
  unfold typeOrConstructor
  extract_lets _ asType
  have htype : ∀ s', Since n s [] s' → Runs asType s' (Consumed s anything) := by
    intro s' h'
    refine .quietIf (Parse.quiet_faultExpected _ _) h' ?_
    intro s₁ h₁ _
    exact .done h₁
  split
  · split
    · refine .bind (.beginTrial ?_)
      intro trial s₁ hbegun
      have hready := hbegun.ready h
      refine .bind (.part hready.since (functionDeclarator_consumes hcall hready) ?_)
      intro f? us s₂ h₂ _
      refine .bind (.failedSince _ ?_)
      intro failed
      split
      · refine .bind (.abandon h.since hbegun h₂ ?_)
        intro s₃ h₃ _
        exact htype s₃ h₃
      · refine .bind (.endTrial h.since hbegun h₂ ?_)
        intro s₃ h₃
        refine .bind (.part h₃ (addFunction_consumes (hcall.le (Nat.sub_le _ _) (Nat.le_refl 0))
          h₃.left _ _) ?_)
        intro _ vs s₄ h₄ _
        exact .done h₄
    · exact htype s h.since
  · exact htype s h.since

/-- A type that starts with a name consumes that name. -/
theorem typeSpecifier_runs {token : Token} (hcall : Serves call n 1)
    (h : Since n s ([] ++ [token]) s') (hname : token.kind = .identifier) (mode : Mode)
    (simple : SimpleDeclaration) :
    Runs (typeSpecifier call mode simple token) s' fun _ s'' =>
      ∃ us, Since n s us s'' ∧ (token.text ∉ notNames → 0 < live us) := by
  have hmore : token.kind ≠ .endOfFile := by rw [hname]; decide
  have htype : ∀ {ts s'} typename qid, Since n s ts s' → (token.text ∉ notNames → 0 < live ts) →
      Runs (typeOrConstructor call mode simple typename qid) s' fun _ s'' =>
        ∃ us, Since n s us s'' ∧ (token.text ∉ notNames → 0 < live us) := by
    intro ts s' typename qid h' hpos
    refine .part h' (typeOrConstructor_consumes (hcall.le (Nat.sub_le _ _) (Nat.zero_le 1)) h'.left
      mode simple typename qid) ?_
    intro _ us s₁ h₁ _
    exact ⟨_, h₁, fun hword => live_pos_left (hpos hword)⟩
  unfold typeSpecifier
  split
  · refine .bind (.read h ?_)
    intro next s₁ h₁ _
    extract_lets rest
    have hrest : ∀ ellipsis ts s', Since n s ([] ++ [token] ++ ts) s' →
        Runs (rest ellipsis) s' fun _ s'' =>
          ∃ us, Since n s us s'' ∧ (token.text ∉ notNames → 0 < live us) := by
      intro ellipsis ts s' h'
      refine .bind (.part h' (qualifiedId_consumes (hcall.le (Nat.sub_le _ _) (Nat.le_refl 1))
        h'.left _) ?_)
      intro name us s₂ h₂ _
      have hpos : 0 < live ([] ++ [token] ++ ts ++ us) := live_pos (by simp) hmore
      split
      · refine .bind (.part h₂ (typeParameter_consumes (hcall.le (Nat.sub_le _ _) (Nat.zero_le 1))
          h₂.left simple token ellipsis name) ?_)
        intro _ vs s₃ h₃ _
        exact .pure ⟨_, h₃, fun _ => live_pos_left hpos⟩
      · refine .quietIf (Parse.quiet_faultExpected _ _) h₂ ?_
        intro s₃ h₃ _
        exact htype token name h₃ fun _ => hpos
    split
    · exact .bind (.pure (hrest _ _ s₁ h₁))
    · refine .bind (.pushBack h₁ ?_)
      intro s₂ h₂ _
      exact .bind (.pure (hrest _ [] s₂ h₂))
  · refine .bind (.pushBack h ?_)
    intro s₁ h₁ hpending
    refine .bind (.part h₁ (qualifiedId_consumes (hcall.le (Nat.sub_le _ _) (Nat.le_refl 1)) h₁.left
      _) ?_)
    rintro qid us s₂ h₂ ⟨-, hqid⟩
    exact htype .absent qid h₂ fun hword => hqid token hpending (.inl ⟨hname, hword⟩)

/-! ## Specifiers -/

theorem le_rank_specifiers (mode : Mode) (soFar : SpecifierState) :
    3 ≤ (Rule.specifiers mode soFar).rank := by
  rw [Rule.rank]
  split
  · exact Nat.le_refl 3
  · exact Nat.le_succ 3

/-- A word that cannot be part of a name is a specifier by itself, but for `operator`. -/
theorem not_mem_notNames {word : String} (hkeyword : ¬ keywordSpecifiers.contains word = true)
    (hoperator : word ≠ "operator") : word ∉ notNames := by
  intro hmem
  refine hkeyword (List.contains_iff_mem.2 ?_)
  have hrest : word ∈ notNames.tail := (List.mem_cons.1 hmem).resolve_left hoperator
  exact (by decide : notNames.tail ⊆ keywordSpecifiers) hrest

theorem specifiers_consumes {mode : Mode} {soFar : SpecifierState}
    (hcall : Serves call n (Rule.specifiers mode soFar).rank) (h : s.Ready n) :
    Consumes (specifiers call mode soFar) s ((Rule.specifiers mode soFar).Post s) := by
  have hrank := le_rank_specifiers mode soFar
  refine .bind (.read h.since ?_)
  intro token s₁ h₁ hfirst
  refine .ite ?_ ?_
  · intro hkind
    extract_lets rest
    have hrest : ∀ s', Since n s ([] ++ [token]) s' →
        Runs (rest ()) s' (Consumed s ((Rule.specifiers mode soFar).Post s)) := by
      intro s' h'
      refine .bind (.pushBack h' ?_)
      intro s₂ h₂ hpending
      refine .part h₂ (declarators_consumes (hcall.le (Nat.sub_le _ _) hrank) h₂.left mode _) ?_
      intro _ us s₃ h₃ htilde
      refine ⟨us, h₃.advance, ?_⟩
      intro hmode _ t ht ht'
      rw [← hfirst t ht] at ht'
      exact htilde hmode token hpending (ht'.resolve_left hkind)
    refine .ite ?_ fun _ => hrest s₁ h₁
    intro _
    split
    · exact .bind (.quiet (Parse.quiet_faultExpected _ _) h₁ fun s₂ h₂ _ => hrest s₂ h₂)
    · exact .bind (.pure (hrest s₁ h₁))
  intro hkind
  have hname := not_not.1 hkind
  have hmore : token.kind ≠ .endOfFile := by rw [hname]; decide
  have hpos : 0 < live ([] ++ [token]) := live_pos (by simp) hmore
  -- a call after the name was consumed
  have hgo : ∀ {ts s'} (rule : Rule SimpleDeclaration), Since n s ts s' → 0 < live ts →
      Runs (call rule) s' (Consumed s ((Rule.specifiers mode soFar).Post s)) := by
    intro ts s' rule h' hpos'
    refine hcall.after h' hpos' rule ?_
    intro _ us s₂ h₂ _
    exact ⟨_, h₂.advance, fun _ _ _ _ _ => live_pos_left hpos'⟩
  refine .ite (fun _ => ?_) fun _ => .ite (fun _ => ?_) fun hkeyword => .ite (fun _ => ?_) fun _ =>
    .ite (fun _ => ?_) fun _ => .ite (fun _ => ?_) fun _ => .ite (fun _ => ?_) fun _ =>
    .ite (fun _ => ?_) fun _ => .ite (fun _ => ?_) fun hoperator => ?_
  all_goals
    refine .bind (.quiet Parse.quiet_unmute h₁ ?_)
    intro s₂ h₂ _
  -- `extern`, keywords, and words for sign and length
  · refine .bind (.read h₂ ?_)
    intro literal s₃ h₃ _
    refine .ite ?_ ?_
    · intro _
      exact hgo _ h₃ (live_pos_left hpos)
    · intro _
      refine .bind (.pushBack h₃ ?_)
      intro s₄ h₄ _
      exact hgo _ h₄ hpos
  · exact hgo _ h₂ hpos
  · exact .ite (fun _ => hgo _ h₂ hpos) (fun _ => hgo _ h₂ hpos)
  -- `alignas`
  · refine .bind (.read h₂ ?_)
    intro opener s₃ h₃ _
    refine .ite ?_ ?_
    · intro _
      refine .bind (.quiet (Parse.quiet_fault _ _) h₃ ?_)
      intro s₄ h₄ _
      refine .bind (.pushBack h₄ ?_)
      intro s₅ h₅ _
      exact hgo _ h₅ hpos
    · intro _
      refine .bind (.within (R := anything) h₃ ?_ ?_)
      · intro s₄ hready _ _
        exact hcall _ s₄ _ hready (.inl (h₃.used (live_pos_left hpos)))
      · intro _ us s₄ h₄ _
        have hpos₄ : 0 < live ([] ++ [token] ++ [opener] ++ us) := live_pos (by simp) hmore
        refine .bind (.part h₄ (closeScope_consumes (hcall.lt (h₄.used hpos₄)) h₄.left opener) ?_)
        rintro (_ | closer) vs s₅ h₅ _
        · exact .pure ⟨_, h₅.advance, fun _ _ _ _ _ => live_pos_left hpos₄⟩
        · exact hgo _ h₅ (live_pos_left hpos₄)
  -- `typedef`, classes and enumerations
  · exact hgo _ h₂ hpos
  · refine .quietIf (Parse.quiet_fault _ _) h₂ ?_
    intro s₃ h₃ _
    refine .bind (.part h₃ (record_consumes (hcall.lt (h₃.used hpos)) h₃.left token) ?_)
    intro _ us s₄ h₄ _
    exact hgo _ h₄ (live_pos_left hpos)
  · refine .quietIf (Parse.quiet_fault _ _) h₂ ?_
    intro s₃ h₃ _
    refine .bind (.part h₃ (enumeration_consumes (hcall.lt (h₃.used hpos)) h₃.left token) ?_)
    intro _ us s₄ h₄ _
    exact hgo _ h₄ (live_pos_left hpos)
  -- `operator`, and names
  · refine .part h₂ (conversionFunction_consumes (hcall.lt (h₂.used hpos)) h₂.left _ token) ?_
    intro _ us s₃ h₃ _
    exact ⟨_, h₃.advance, fun _ _ _ _ _ => live_pos_left hpos⟩
  refine .ite (fun _ => hgo _ h₂ hpos) ?_
  intro _
  refine .ite ?_ ?_
  · intro htype
    refine .bind (.pushBack h₂ ?_)
    intro s₃ h₃ _
    refine .part h₃ (declarators_consumes (hcall.le (Nat.sub_le _ _) hrank) h₃.left mode _) ?_
    intro _ us s₄ h₄ _
    exact ⟨us, h₄.advance, fun _ hnone => absurd htype (by simp [hnone])⟩
  intro htype
  -- the name is a type, since it is not a word that cannot be part of a name
  refine .bind (typeSpecifier_runs (hcall.le (Nat.le_refl n) (by omega)) h₂ hname mode _ |>.mono ?_)
  rintro ⟨complete, simple⟩ s₃ ⟨us, h₃, hconsumed⟩
  have hpost : mode.isGlobalOrMember = true → 0 < live us := by
    intro hmode
    refine hconsumed (not_mem_notNames hkeyword ?_)
    intro hword
    exact hoperator (by simp [hword, hmode, htype])
  refine .ite ?_ ?_
  · intro _
    exact .pure ⟨us, h₃.advance, fun hmode _ _ _ _ => hpost hmode⟩
  · intro _
    refine hcall.below h₃ _ ?_ ?_
    · simp [Rule.rank, htype]
    · intro _ vs s₄ h₄ _
      exact ⟨_, h₄.advance, fun hmode _ _ _ _ => live_pos_left (hpost hmode)⟩

end CppDecl.Grammar
