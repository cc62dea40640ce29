import CppDecl.Proofs.Progress.Names

/-!
# Progress: parameters, expressions and initializers

A parameter may stop at a token that the next one starts with again.  It is tried again only if the
first one has consumed something, which is told from the locations of the tokens that wait before and
after it.

In an expression every call is behind a token of its own.
-/

namespace CppDecl.Grammar

open Parse (Consumed Consumes Runs)
open Session (Since Ready Advance Pending)

variable {call : Call} {α : Type} {n k : Nat} {s₀ s s' : Session} {t : Token}
variable {ts us : List Token}

/-! ## Parameters -/

/-- Parameters consume the bracket that opens them. -/
theorem parameterList_consumes (hcall : Serves call n 0) (h : s.Ready n) (hopen : s.Pending t)
    (hmore : t.kind ≠ .endOfFile) (forTemplate : Bool) :
    Consumes (parameterList call forTemplate) s fun _ us _ => 0 < live us := by
  unfold parameterList
  split
  refine .bind (.read h.since ?_)
  intro opener s₁ h₁ hfirst
  rw [hfirst t hopen] at h₁
  refine .bind (.quiet Parse.quiet_unmute h₁ ?_)
  intro s₂ h₂ _
  refine .bind (.read h₂ ?_)
  intro token s₃ h₃ _
  split
  · exact .pure ⟨_, h₃.advance, live_pos (by simp) hmore⟩
  · refine .bind (.pushBack h₃ ?_)
    intro s₄ h₄ _
    refine .within (R := anything) h₄ ?_ ?_
    · intro s₅ hready _ _
      exact hcall _ s₅ _ hready (.inl (h₄.used (live_pos (by simp) hmore)))
    · intro a us s₅ h₅ _
      exact ⟨_, h₅.advance, live_pos (by simp) hmore⟩

theorem templateParameter_consumes (hcall : Serves call n 7) (h : s.Ready n) :
    Consumes (templateParameter call) s anything := by
  refine .bind (.peek h.since ?_)
  intro opener s₁ h₁ hopen _
  split
  · refine .bind (.quiet (Parse.quiet_faultExpected _ _) h₁ ?_)
    intro s₂ h₂ _
    exact .done h₂
  next hangle =>
    have hmore : opener.kind ≠ .endOfFile := by rw [not_not.1 hangle]; decide
    refine .bind (.beginActivity h₁ ?_)
    intro activity s₂ t h₂ hpending _ hfirst
    rw [hfirst opener hopen] at hpending
    refine .bind (.within (R := fun _ us _ => 0 < live us) h₂ ?_ ?_)
    · intro s₃ hready hqueue _
      exact parameterList_consumes (hcall.le (Nat.sub_le _ _) (Nat.zero_le 7)) hready
        (hpending.of_queue_eq hqueue) hmore true
    · intro _ us s₃ h₃ _
      refine .bind (.failedSince _ ?_)
      intro failed
      split
      · exact .done h₃
      refine .bind (.read h₃ ?_)
      intro word s₄ h₄ _
      split
      · refine .bind (.quiet (Parse.quiet_faultExpected _ _) h₄ ?_)
        intro s₅ h₅ _
        exact .leaving h₅
      · refine .bind (hcall.free h₄ _ ?_)
        intro _ vs s₅ h₅ _
        refine .unmuteUnlessFailed activity h₅ ?_
        intro s₆ h₆ _
        exact ⟨_, h₆.advance, trivial⟩

/-- A parameter that is said to have consumed something has done so. -/
theorem parameter_consumes (hcall : Serves call n 5) (h : s.Ready n) (forTemplate : Bool) :
    Consumes (parameter call forTemplate) s fun result us _ => result.2 = true → us ≠ [] := by
  refine .bind (.read h.since ?_)
  intro first s₁ h₁ _
  split
  · exact .pure ⟨_, h₁.advance, fun _ => by simp⟩
  split
  next hword =>
    have hmore := Token.more_of_isWord (Bool.and_eq_true_iff.1 hword).2
    have hused := h₁.used (live_pos (by simp) hmore)
    refine .bind (.part h₁ (templateParameter_consumes (hcall.lt hused) h₁.left) ?_)
    intro _ us s₂ h₂ _
    exact .pure ⟨_, h₂.advance, fun _ => by simp⟩
  next =>
    refine .bind (.pushBack h₁ ?_)
    intro s₂ h₂ _
    refine .bind (.beginActivity h₂ ?_)
    intro activity s₃ t h₃ hpending hloc _
    -- from here on, what is consumed is counted from the token that waits now
    refine .part h₃ (R := fun result us _ => result.2 = true → us ≠ []) ?_
      fun _ us _ h' hR => ⟨us, h'.advance, hR⟩
    refine .bind (hcall.below h₃.left.since _ (Nat.lt_succ_self 4) ?_)
    intro simple us s₄ h₄ _
    refine .bind (.unmuteUnlessFailed activity h₄ ?_)
    intro s₅ h₅ _
    refine .bind (.consumedSince activity h₅ ?_)
    intro consumed s₆ h₆ hconsumed
    refine .pure ⟨us, h₆.advance, ?_⟩
    rintro htrue rfl
    exact hconsumed htrue t hloc (hpending.advance h₅.advance)

theorem parameters_consumes (hcall : Serves call n 5) (h : s.Ready n) (forTemplate : Bool)
    (soFar : ParameterList) : Consumes (parameters call forTemplate soFar) s anything := by
  refine .bind (.part h.since (parameter_consumes hcall h forTemplate) ?_)
  rintro ⟨kept, consumed⟩ us s₁ h₁ hconsumed
  refine .bind (.read h₁ ?_)
  intro token s₂ h₂ _
  split
  · exact .done h₂
  split
  next hcomma =>
    have hmore : token.kind ≠ .endOfFile := by rw [hcomma]; decide
    exact hcall.last h₂ (live_pos (by simp) hmore) _
  next =>
    refine .bind (.quiet (Parse.quiet_faultExpected _ _) h₂ ?_)
    intro s₃ h₃ _
    split
    next htrue =>
      refine .bind (.mayStay h₃ ?_ ?_)
      · intro s₄ h₄ hmore
        -- the parameter has not consumed the end of the file, since another token follows
        have hlive := h₄.ready.live_of_advance h₄.advance hmore
        have hpos : 0 < live ([] ++ us) := by
          rw [hlive]
          exact List.length_pos_iff.2 (hconsumed htrue)
        refine .bind (.pushBack h₄ ?_)
        intro s₅ h₅ _
        exact hcall.last h₅ hpos _
      · intro vs s₄ h₄ _
        exact .done h₄
    next =>
      refine .bind (stepOver_runs hcall h₃ ?_ ?_)
      · intro vs s₄ h₄ _
        exact .done h₄
      · intro last vs s₄ h₄ _ hpos
        exact hcall.last h₄ hpos _

theorem more_of_isFunctionQualifier (h : isFunctionQualifier t = true) : t.kind ≠ .endOfFile := by
  intro hend
  simp [isFunctionQualifier, hend] at h

theorem functionQualifiers_consumes (hcall : Serves call n 0) (h : s.Ready n)
    (soFar : List Token) : Consumes (functionQualifiers call soFar) s anything := by
  refine .bind (.read h.since ?_)
  intro token s₁ h₁ _
  split
  next hqualifier =>
    exact hcall.last h₁ (live_pos (by simp) (more_of_isFunctionQualifier hqualifier)) _
  next =>
    exact .leaving h₁

/-- If a parenthesis comes next, it is consumed. -/
theorem functionDeclarator_consumes (hcall : Serves call n 0) (h : s.Ready n) :
    Consumes (functionDeclarator call) s fun _ us _ =>
      ∀ t, s.Pending t → t.kind = .openParen → 0 < live us := by
  refine .bind (.peek h.since ?_)
  intro opener s₁ h₁ hopen hfirst
  split
  next hkind =>
    refine .bind (.quiet (Parse.quiet_faultExpected _ _) h₁ ?_)
    intro s₂ h₂ _
    refine .pure ⟨_, h₂.advance, ?_⟩
    intro t ht hparen
    rw [← hfirst t ht] at hparen
    exact absurd hparen hkind
  next hkind =>
    have hmore : opener.kind ≠ .endOfFile := by rw [not_not.1 hkind]; decide
    refine .bind (.quiet Parse.quiet_unmute h₁ ?_)
    intro s₂ h₂ hqueue
    refine .bind (.part h₂ (parameterList_consumes (hcall.le (Nat.sub_le _ _) (Nat.le_refl 0))
      h₂.left (hopen.of_queue_eq hqueue) hmore false) ?_)
    intro params us s₃ h₃ hpos
    refine .bind (hcall.after h₃ hpos _ ?_)
    intro qualifiers vs s₄ h₄ _
    exact .pure ⟨_, h₄.advance, fun _ _ _ => live_pos_left hpos⟩

/-! ## Expressions -/

theorem nameTail_consumes (hcall : Serves call n 0) (h : s.Ready n) :
    Consumes (nameTail call) s anything := by
  refine .bind (.read h.since ?_)
  intro first s₁ h₁ _
  extract_lets rest
  have hrest : ∀ token ts s', Since n s (ts ++ [token]) s' →
      Runs (rest token) s' (Consumed s anything) := by
    intro token ts s' h'
    simp only [rest]
    split
    · exact .leaving h'
    next hkind =>
      have hmore : token.kind ≠ .endOfFile := by rw [not_not.1 hkind]; decide
      refine .bind (.read h' ?_)
      intro name s₂ h₂ _
      split
      · refine .bind (.quiet (Parse.quiet_faultExpected _ _) h₂ ?_)
        intro s₃ h₃ _
        refine .pushBack h₃ ?_
        intro s₄ h₄ _
        exact ⟨_, h₄.advance, trivial⟩
      · exact hcall.last h₂ (live_pos (by simp) hmore) _
  split
  next hangle =>
    have hmore : first.kind ≠ .endOfFile := by rw [hangle]; decide
    refine .bind (.within (R := anything) h₁ ?_ ?_)
    · intro s₂ hready _ _
      exact skipScope_consumes (hcall.lt (h₁.used (live_pos (by simp) hmore))) hready first
    · intro _ us s₂ h₂ _
      refine .bind (.read h₂ ?_)
      intro token s₃ h₃ _
      exact hrest token _ s₃ h₃
  next =>
    exact .bind (.pure (hrest first _ s₁ h₁))

theorem literals_consumes (hcall : Serves call n 0) (h : s.Ready n) (last : Token) :
    Consumes (literals call last) s anything := by
  refine .bind (.read h.since ?_)
  intro token s₁ h₁ _
  split
  next hkind =>
    have hmore : token.kind ≠ .endOfFile := by rw [hkind]; decide
    exact hcall.last h₁ (live_pos (by simp) hmore) _
  next =>
    exact .leaving h₁

theorem expressions_consumes (hcall : Serves call n 1) (h : s.Ready n) (opener : TokenKind)
    (last : Token) : Consumes (expressions call opener last) s anything := by
  unfold expressions
  split
  refine .bind (.read h.since ?_)
  intro token s₁ h₁ _
  split
  · exact .done h₁
  refine .bind (.pushBack h₁ ?_)
  intro s₂ h₂ _
  refine .bind (hcall.below h₂ _ Nat.zero_lt_one ?_)
  intro _ us s₃ h₃ _
  refine .bind (.read h₃ ?_)
  intro sep s₄ h₄ _
  split
  next hcomma =>
    have hmore : sep.kind ≠ .endOfFile := by rw [hcomma]; decide
    exact hcall.last h₄ (live_pos (by simp) hmore) _
  next =>
    split
    · exact .done h₄
    refine .bind (.quiet (Parse.quiet_faultExpected _ _) h₄ ?_)
    intro s₅ h₅ _
    refine .bind (stepOver_runs hcall h₅ ?_ ?_)
    · intro vs s₆ h₆ _
      exact .done h₆
    · intro _ vs s₆ h₆ _ hpos
      exact hcall.last h₆ hpos _

theorem lambda_consumes (hcall : Serves call n 7) (h : s.Ready n) :
    Consumes (lambda call) s anything := by
  refine .bind (.read h.since ?_)
  intro captures s₁ h₁ _
  extract_lets body type
  have hbody : ∀ token ts s', Since n s (ts ++ [token]) s' →
      Runs (body token) s' (Consumed s anything) := by
    intro token ts s' h'
    simp only [body]
    split
    · refine .bind (.quiet (Parse.quiet_faultExpected _ _) h' ?_)
      intro s₂ h₂ _
      exact .leaving h₂
    · refine .bind (.part h' (skipScope_consumes (hcall.le (Nat.sub_le _ _) (by decide)) h'.left
        token) ?_)
      intro _ us s₂ h₂ _
      exact .done h₂
  have htype : ∀ ts s', Since n s ts s' → Runs (type ()) s' (Consumed s anything) := by
    intro ts s' h'
    refine .bind (.read h' ?_)
    intro arrow s₂ h₂ _
    split
    · refine .bind (hcall.free h₂ _ ?_)
      intro _ us s₃ h₃ _
      refine .bind (.read h₃ ?_)
      intro token s₄ h₄ _
      exact hbody token _ s₄ h₄
    · exact .bind (.pure (hbody arrow _ s₂ h₂))
  refine .quietIf (Parse.quiet_faultExpected _ _) h₁ ?_
  intro s₂ h₂ _
  refine .bind (.peek h₂ ?_)
  intro opener s₃ h₃ hopen _
  split
  next hparen =>
    have hmore : opener.kind ≠ .endOfFile := by rw [hparen]; decide
    refine .bind (.part h₃ (parameterList_consumes (hcall.le (Nat.sub_le _ _) (by decide)) h₃.left
      hopen hmore false) ?_)
    intro _ us s₄ h₄ _
    exact htype _ s₄ h₄
  next =>
    refine .bind (.quiet (Parse.quiet_faultExpected _ _) h₃ ?_)
    intro s₄ h₄ _
    exact htype _ s₄ h₄

/-- An operand in parentheses, and what is cast if it is a type. -/
theorem parenthesized_consumes (hcall : Serves call n 7) (h : s.Ready n) (start : Token) :
    Consumes (do
      let _ ← call (.expression false)
      let closer ← Parse.read
      if closer.kind = .closeParen then
        let (castStart, castStop) ← call (.expression true)
        return some (if castStart.isPresent then castStop else closer)
      else
        Parse.pushBack closer
        return some ((← closeScope call start).getD .absent)) s
      fun result _ _ => result ≠ none := by
  refine .bind (hcall.free h.since _ ?_)
  intro _ us s₁ h₁ _
  refine .bind (.read h₁ ?_)
  intro closer s₂ h₂ _
  split
  · refine .bind (hcall.free h₂ _ ?_)
    intro _ vs s₃ h₃ _
    exact .pure ⟨_, h₃.advance, nofun⟩
  · refine .bind (.pushBack h₂ ?_)
    intro s₃ h₃ _
    refine .bind (.part h₃ (closeScope_consumes (hcall.le (Nat.sub_le _ _) (by decide)) h₃.left
      start) ?_)
    intro _ vs s₄ h₄ _
    exact .pure ⟨_, h₄.advance, nofun⟩

/-- Where there is no operand, nothing is consumed. -/
theorem operand_consumes (hcall : Serves call n 7) (h : s.Ready n) (start : Token) :
    Consumes (operand call start) s fun result us _ => result = none → us = [] := by
  unfold operand
  split
  · refine .bind (hcall.free h.since _ ?_)
    intro _ us s₁ h₁ _
    refine .bind (.read h₁ ?_)
    intro next s₂ h₂ _
    split
    · refine .bind (.within (R := anything) h₂ ?_ ?_)
      · intro s₃ hready _ _
        exact hcall _ s₃ _ hready (.inr ⟨Nat.sub_le _ _, Rule.rank_lt _⟩)
      · intro _ vs s₃ h₃ _
        exact .pure ⟨_, h₃.advance, nofun⟩
    · refine .bind (.within (R := anything) h₂ ?_ ?_)
      · intro s₃ hready _ _
        exact hcall _ s₃ _ hready (.inr ⟨Nat.sub_le _ _, Rule.rank_lt _⟩)
      · intro _ vs s₃ h₃ _
        exact .pure ⟨_, h₃.advance, nofun⟩
    · refine .bind (.pushBack h₂ ?_)
      intro s₃ h₃ _
      exact .pure ⟨_, h₃.advance, nofun⟩
  · exact .pure ⟨[], .refl s, nofun⟩
  · exact hcall.giving h _ fun _ _ _ => nofun
  · refine .within h.since (fun s₁ hready _ _ => parenthesized_consumes hcall hready start) ?_
    intro result us s₁ h₁ hne
    exact ⟨_, h₁.advance, fun hnone => absurd hnone hne⟩
  · exact hcall.giving h _ fun _ _ _ => nofun
  · exact hcall.giving h _ fun _ _ _ => nofun
  · exact hcall.giving h _ fun _ _ _ => nofun
  · exact hcall.giving h _ fun _ _ _ => nofun
  · refine .bind (.part h.since (lambda_consumes hcall h) ?_)
    intro _ us s₁ h₁ _
    exact .pure ⟨_, h₁.advance, nofun⟩
  · exact .pure ⟨[], .refl s, fun _ => rfl⟩

theorem continuation_consumes (hcall : Serves call n 7) (h : s.Ready n) (stop : Token) :
    Consumes (continuation call stop) s anything := by
  refine .bind (.read h.since ?_)
  intro token s₁ h₁ _
  refine .bind (.get ?_)
  split
  · exact .leaving h₁
  split
  · refine .bind (hcall.free h₁ _ ?_)
    intro _ us s₂ h₂ _
    exact .done h₂
  split
  · refine .bind (hcall.free h₁ _ ?_)
    intro _ us s₂ h₂ _
    refine .bind (.read h₂ ?_)
    intro colon s₃ h₃ _
    split
    · refine .bind (.quiet (Parse.quiet_faultExpected _ _) h₃ ?_)
      intro s₄ h₄ _
      exact .leaving h₄
    · refine .bind (hcall.free h₃ _ ?_)
      intro _ vs s₄ h₄ _
      exact .done h₄
  · exact .leaving h₁

theorem expression_consumes (hcall : Serves call n 0) (h : s.Ready n) (optional : Bool) :
    Consumes (expression call optional) s anything := by
  refine .bind (.read h.since ?_)
  intro start s₁ h₁ _
  -- no operand begins with the end of the file
  have hoperand : Consumes (operand call start) s₁ fun result us _ =>
      (result = none → us = []) ∧ (result ≠ none → start.kind ≠ .endOfFile) := by
    by_cases hend : start.kind = .endOfFile
    · unfold operand
      rw [hend]
      exact .pure ⟨[], .refl s₁, fun _ => rfl, fun hne => absurd rfl hne⟩
    · have hused := h₁.used (live_pos (by simp) hend)
      refine (operand_consumes (hcall.lt hused) h₁.left start).mono ?_
      rintro result s₂ ⟨us, hadvance, hnone⟩
      exact ⟨us, hadvance, hnone, fun _ => hend⟩
  refine .bind (.part h₁ hoperand ?_)
  rintro (_ | stop) us s₂ h₂ ⟨hnone, hsome⟩
  · obtain rfl := hnone rfl
    rw [List.append_nil] at h₂
    simp only
    refine .quietIf (Parse.quiet_faultExpected _ _) h₂ ?_
    intro s₃ h₃ _
    exact .leaving h₃
  · have hused := h₂.used (live_pos (by simp) (hsome nofun))
    refine .bind (.part h₂ (continuation_consumes (hcall.lt hused) h₂.left stop) ?_)
    intro _ vs s₃ h₃ _
    exact .done h₃

/-! ## Initializers -/

theorem memberInitializers_consumes (hcall : Serves call n 1) (h : s.Ready n)
    (soFar : List MemberInitializer) : Consumes (memberInitializers call soFar) s anything := by
  refine .bind (.part h.since (qualifiedId_consumes hcall h _) ?_)
  rintro qid us s₁ h₁ ⟨hname, -⟩
  split
  · refine .bind (.read h₁ ?_)
    intro token s₂ h₂ _
    refine .bind (.quiet (Parse.quiet_faultExpected _ _) h₂ ?_)
    intro s₃ h₃ _
    split
    next hne =>
      refine .bind (.pushBack h₃ ?_)
      intro s₄ h₄ _
      exact hcall.last h₄ (hname (by simpa using hne)) _
    next =>
      refine .bind (stepOver_runs hcall h₃ ?_ ?_)
      · intro vs s₄ h₄ _
        exact .done h₄
      · intro _ vs s₄ h₄ _ hpos
        exact hcall.last h₄ hpos _
  next hcomplete =>
    have hpos := hname (isEmpty_of_isComplete (by simpa using hcomplete))
    refine .bind (.read h₁ ?_)
    intro opener s₂ h₂ _
    split
    · refine .bind (.quiet (Parse.quiet_faultExpected _ _) h₂ ?_)
      intro s₃ h₃ _
      refine .bind (.pushBack h₃ ?_)
      intro s₄ h₄ _
      exact hcall.last h₄ hpos _
    · have hused := h₂.used (live_pos_left hpos)
      refine .bind (.part h₂ (skipScope_consumes (hcall.lt hused) h₂.left opener) ?_)
      intro closer vs s₃ h₃ _
      refine .bind (.read h₃ ?_)
      intro next s₄ h₄ _
      split
      · refine .bind (.quiet Parse.quiet_unmute h₄ ?_)
        intro s₅ h₅ _
        exact .leaving h₅
      · refine .bind (.quiet Parse.quiet_unmute h₄ ?_)
        intro s₅ h₅ _
        exact hcall.last h₅ (live_pos_left (live_pos_left (live_pos_left hpos))) _
      · refine .bind (.quiet (Parse.quiet_fault _ _) h₄ ?_)
        intro s₅ h₅ _
        exact .leaving h₅

theorem functionBody_consumes (hcall : Serves call n 0) (h : s.Ready n) (declared : Nat) :
    Consumes (functionBody call declared) s anything := by
  refine .bind (.read h.since ?_)
  intro first s₁ h₁ _
  split
  next hequal =>
    have hmore : first.kind ≠ .endOfFile := by rw [hequal]; decide
    refine .bind (hcall.after h₁ (live_pos (by simp) hmore) _ ?_)
    intro _ us s₂ h₂ _
    exact .done h₂
  next =>
    extract_lets rest
    have hrest : ∀ colon inits token ts s', Since n s (ts ++ [token]) s' →
        Runs (rest (colon, inits, token)) s' (Consumed s anything) := by
      intro colon inits token ts s' h'
      simp only [rest]
      split
      next hopen =>
        have hmore : token.kind ≠ .endOfFile := by rw [hopen]; decide
        refine .bind (.quiet (Parse.quiet_enterScope _) h' ?_)
        intro s₂ h₂ _
        have hused := h₂.used (live_pos (by simp) hmore)
        refine .bind (.part h₂ (skipScope_consumes (hcall.lt hused) h₂.left token) ?_)
        intro closer us s₃ h₃ _
        refine .bind (.quiet (Parse.quiet_leaveScope _ _) h₃ ?_)
        intro s₄ h₄ _
        exact .done h₄
      next =>
        refine .bind (.pushBack h' ?_)
        intro s₂ h₂ _
        split
        · exact .done h₂
        · exact .done h₂
    split
    next hcolon =>
      have hmore : first.kind ≠ .endOfFile := by rw [hcolon]; decide
      refine .bind (.within (R := anything) h₁ ?_ ?_)
      · intro s₂ hready _ _
        exact hcall _ s₂ _ hready (.inl (h₁.used (live_pos (by simp) hmore)))
      · intro inits us s₂ h₂ _
        refine .bind (.read h₂ ?_)
        intro token s₃ h₃ _
        exact .bind (.pure (hrest _ _ token _ s₃ h₃))
    next => exact .bind (.pure (hrest _ _ first _ s₁ h₁))

theorem typeInitializer_consumes (hcall : Serves call n 0) (h : s.Ready n) :
    Consumes (typeInitializer call) s anything := by
  refine .bind (.read h.since ?_)
  intro equalSign s₁ h₁ _
  split
  · exact .leaving h₁
  next hequal =>
    have hmore : equalSign.kind ≠ .endOfFile := by rw [not_not.1 hequal]; decide
    refine .bind (.peek h₁ ?_)
    intro token s₂ h₂ _ _
    split
    · refine .bind (.read h₂ ?_)
      intro _ s₃ h₃ _
      exact .done h₃
    refine .bind (.beginActivity h₂ ?_)
    intro activity s₃ t h₃ _ _ _
    refine .bind (hcall.after h₃ (live_pos (by simp) hmore) _ ?_)
    intro simple us s₄ h₄ _
    refine .bind (.failedSince _ ?_)
    intro failed
    split
    · exact .done h₄
    · exact .done h₄

theorem variableInitializer_consumes (hcall : Serves call n 1) (h : s.Ready n)
    (allowBraces : Bool) : Consumes (variableInitializer call allowBraces) s anything := by
  refine .bind (.read h.since ?_)
  intro token s₁ h₁ _
  split
  · refine .bind (.pushBack h₁ ?_)
    intro s₂ h₂ _
    refine .bind (hcall.below h₂ _ Nat.zero_lt_one ?_)
    intro _ us s₃ h₃ _
    exact .done h₃
  split
  · refine .bind (hcall.below h₁ _ Nat.zero_lt_one ?_)
    intro _ us s₂ h₂ _
    exact .done h₂
  split
  · refine .bind (hcall.below h₁ _ Nat.zero_lt_one ?_)
    intro _ us s₂ h₂ _
    exact .done h₂
  · exact .leaving h₁

end CppDecl.Grammar
