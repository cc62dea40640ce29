import CppDecl.Proofs.Progress.Specifiers

/-!
# Progress: declarations

Where a declaration begins, it consumes a token, so that declarations can follow one another.  Where
none begins, nothing is consumed, and the token that is there is passed over.  At the outermost level
no bracket is open further out, so only the end of the file ends the declarations.
-/

namespace CppDecl.Grammar

open Parse (Consumed Consumes Runs)
open Session (Since Ready Advance Pending)

variable {call : Call} {α : Type} {n k : Nat} {s₀ s s' : Session} {t : Token}
variable {ts us : List Token}

/-! ## Kinds of declarations -/

theorem requiredSemicolon_consumes (h : s.Ready n) : Consumes requiredSemicolon s anything := by
  refine .bind (.read h.since ?_)
  intro token s₁ h₁ _
  split
  · refine .bind (.quiet Parse.quiet_unmute h₁ ?_)
    intro s₂ h₂ _
    exact .done h₂
  · refine .bind (.quiet (Parse.quiet_faultExpected _ _) h₁ ?_)
    intro s₂ h₂ _
    exact .leaving h₂

/-- A declaration that begins with a name or the tilde of a destructor consumes something. -/
theorem simpleDeclaration_consumes (hcall : Serves call n 5) (h : s.Ready n) (className : String) :
    Consumes (simpleDeclaration call className) s fun _ us _ =>
      ∀ t, s.Pending t → t.kind = .identifier ∨ t.kind = .tilde → 0 < live us := by
  refine .bind (.peek h.since ?_)
  intro start s₁ h₁ hstart hfirst
  refine .bind (.beginActivity h₁ ?_)
  intro activity s₂ t₂ h₂ hpending _ hfirst₂
  obtain rfl := hfirst₂ start hstart
  refine .bind (hcall.below h₂ _ (Nat.lt_succ_self 4) ?_)
  intro simple us s₃ h₃ hpost
  -- the specifiers take care of the promise
  refine .part h₃ (R := anything) ?_ ?_
  · replace h₃ := h₃.left.since
    refine .bind (.failedSince _ ?_)
    intro failed
    extract_lets hasBody rest
    have hrest : ∀ s', Since (n - live ([] ++ us)) s₃ [] s' →
        Runs (rest ()) s' (Consumed s₃ anything) := by
      intro s' h'
      refine .ite (fun _ => (Parse.quiet_declare _).ending h') ?_
      intro _
      refine .bind (.part h' (requiredSemicolon_consumes h'.left) ?_)
      intro semicolon vs s₄ h₄ _
      exact (Parse.quiet_declare _).ending h₄
    refine .ite ?_ fun _ => hrest s₃ h₃
    intro _
    refine .bind (.quiet Parse.quiet_unmute h₃ ?_)
    intro s₄ h₄ _
    exact .quietIf (Parse.quiet_fault _ _) h₄ fun s₅ h₅ _ => hrest s₅ h₅
  · intro _ vs s₄ h₄ _
    refine ⟨_, h₄.advance, ?_⟩
    intro t ht hkind
    rw [← hfirst t ht] at hkind
    exact live_pos_left (hpost rfl rfl _ hpending hkind)

/-- Declarations in braces, and what is made of them. -/
theorem scope_runs (hcall : Serves call n 7) (h : Since n s ts s') (scope : Scope)
    (make : Token → List Declaration → Declaration) :
    Runs (do
      Parse.enterScope scope
      let closer ← declarationList call true ""
      let inner ← Parse.members
      Parse.leaveScope scope inner.length
      Parse.declare (make closer inner)) s' (Consumed s anything) := by
  refine .bind (.quiet (Parse.quiet_enterScope _) h ?_)
  intro s₁ h₁ _
  refine .bind (.part h₁ (declarationList_consumes (hcall.le (Nat.sub_le _ _) (Nat.le_refl 7)) h₁.left
    true "") ?_)
  intro closer us s₂ h₂ _
  refine .bind (.members ?_)
  intro inner
  refine .bind (.quiet (Parse.quiet_leaveScope _ _) h₂ ?_)
  intro s₃ h₃ _
  exact (Parse.quiet_declare _).ending h₃

theorem namespaceDeclaration_consumes (hcall : Serves call n 7) (h : s.Ready n) (keyword : Token) :
    Consumes (namespaceDeclaration call keyword) s anything := by
  refine .bind (.read h.since ?_)
  intro first s₁ h₁ _
  extract_lets rest
  have hrest : ∀ qid token ts s', Since n s (ts ++ [token]) s' →
      Runs (rest (qid, token)) s' (Consumed s anything) := by
    intro qid token ts s' h'
    refine .ite (fun _ => scope_runs hcall h' _ _) ?_
    intro _
    refine .bind (.quiet (Parse.quiet_faultExpected _ _) h' ?_)
    intro s₂ h₂ _
    refine .bind (.pushBack h₂ ?_)
    intro s₃ h₃ _
    exact (Parse.quiet_declare _).ending h₃
  split
  · refine .bind (.pushBack h₁ ?_)
    intro s₂ h₂ _
    refine .bind (.part h₂ (qualifiedId_consumes (hcall.le (Nat.sub_le _ _) (by decide)) h₂.left _)
      ?_)
    intro qid us s₃ h₃ _
    refine .bind (.read h₃ ?_)
    intro token s₄ h₄ _
    exact .bind (.pure (hrest qid token _ s₄ h₄))
  · exact .bind (.pure (hrest _ first _ s₁ h₁))

theorem templateDeclaration_consumes (hcall : Serves call n 7) (h : s.Ready n) (keyword : Token)
    (className : String) : Consumes (templateDeclaration call keyword className) s anything := by
  refine .bind (.peek h.since ?_)
  intro opener s₁ h₁ hopen _
  extract_lets rest
  have hrest : ∀ params ts s', Since n s ts s' → Runs (rest params) s' (Consumed s anything) := by
    intro params ts s' h'
    refine .bind (.quiet (Parse.quiet_enterScope _) h' ?_)
    intro s₂ h₂ _
    refine .bind (hcall.free h₂ _ ?_)
    intro _ us s₃ h₃ _
    refine .bind (.members ?_)
    intro inner
    refine .bind (.quiet (Parse.quiet_leaveScope _ _) h₃ ?_)
    intro s₄ h₄ _
    exact (Parse.quiet_declare _).ending h₄
  split
  next hangle =>
    have hmore : opener.kind ≠ .endOfFile := by rw [hangle]; decide
    refine .bind (.within (R := fun _ us _ => 0 < live us) h₁ ?_ ?_)
    · intro s₂ hready hqueue _
      exact parameterList_consumes (hcall.le (Nat.sub_le _ _) (by decide)) hready
        (hopen.of_queue_eq hqueue) hmore true
    · intro params us s₂ h₂ _
      exact hrest params _ s₂ h₂
  next => exact .bind (.pure (hrest _ _ s₁ h₁))

theorem usingDeclaration_consumes (hcall : Serves call n 7) (h : s.Ready n) (usingToken : Token) :
    Consumes (usingDeclaration call usingToken) s anything := by
  refine .bind (.read h.since ?_)
  intro second s₁ h₁ _
  split
  · refine .bind (.part h₁ (qualifiedId_consumes (hcall.le (Nat.sub_le _ _) (by decide)) h₁.left _)
      ?_)
    intro qid us s₂ h₂ _
    refine .bind (.part h₂ (requiredSemicolon_consumes h₂.left) ?_)
    intro semicolon vs s₃ h₃ _
    exact (Parse.quiet_declare _).ending h₃
  refine .bind (.read h₁ ?_)
  intro equals s₂ h₂ _
  split
  · refine .bind (.quiet (Parse.quiet_fault _ _) h₂ ?_)
    intro s₃ h₃ _
    exact .pushBack h₃ fun s₄ h₄ _ => ⟨_, h₄.advance, trivial⟩
  · refine .bind (hcall.free h₂ _ ?_)
    intro simple us s₃ h₃ _
    refine .bind (.part h₃ (requiredSemicolon_consumes h₃.left) ?_)
    intro semicolon vs s₄ h₄ _
    exact (Parse.quiet_declare _).ending h₄

theorem accessLabel_consumes (h : s.Ready n) (keyword : Token) :
    Consumes (accessLabel keyword) s anything := by
  refine .bind (.read h.since ?_)
  intro colon s₁ h₁ _
  split
  · exact (Parse.quiet_declare _).ending h₁
  · refine .bind (.quiet (Parse.quiet_fault _ _) h₁ ?_)
    intro s₂ h₂ _
    exact .pushBack h₂ fun s₃ h₃ _ => ⟨_, h₃.advance, trivial⟩

theorem staticAssert_consumes (hcall : Serves call n 7) (h : s.Ready n) (keyword : Token) :
    Consumes (staticAssert call keyword) s anything := by
  refine .bind (.read h.since ?_)
  intro opener s₁ h₁ _
  split
  · refine .bind (.quiet (Parse.quiet_fault _ _) h₁ ?_)
    intro s₂ h₂ _
    exact .pushBack h₂ fun s₃ h₃ _ => ⟨_, h₃.advance, trivial⟩
  · refine .bind (.part h₁ (skipScope_consumes (hcall.le (Nat.sub_le _ _) (by decide)) h₁.left
      opener) ?_)
    rintro (_ | closer) us s₂ h₂ _
    · exact .done h₂
    · refine .bind (.part h₂ (requiredSemicolon_consumes h₂.left) ?_)
      intro semicolon vs s₃ h₃ _
      exact (Parse.quiet_declare _).ending h₃

/-- A declaration that begins with `extern` consumes that word, also if it is no block and is read
again from there. -/
theorem externDeclaration_runs {first : Token} (hcall : Serves call n 5)
    (h : Since n s ([] ++ [first]) s') (hname : first.kind = .identifier) (className : String) :
    Runs (externDeclaration call first className) s' (Consumed s fun _ us _ => 0 < live us) := by
  refine .bind (.pushBack h ?_)
  intro s₁ h₁ hpending
  refine .bind (.beginTrial ?_)
  intro trial s₂ hbegun
  have hready := hbegun.ready h₁.left
  extract_lets giveUp
  have hgiveUp : ∀ {m us s'}, Since m s₂ us s' →
      Runs giveUp s' (Consumed s fun _ us _ => 0 < live us) := by
    intro m us s' h'
    refine .bind (.abandon h₁ hbegun h' ?_)
    intro s₃ h₃ hagain
    refine .part h₃ (simpleDeclaration_consumes (hcall.le (Nat.sub_le _ _) (Nat.le_refl 5)) h₃.left
      className) ?_
    intro _ vs s₄ h₄ hpos
    exact ⟨vs, h₄.advance, hpos first (hagain first hpending) (.inl hname)⟩
  refine .bind (.read hready.since ?_)
  intro externToken s₃ h₃ _
  refine .bind (.read h₃ ?_)
  intro literal s₄ h₄ _
  refine .ite ?_ fun _ => hgiveUp h₄
  intro _
  refine .bind (.read h₄ ?_)
  intro opener s₅ h₅ _
  refine .ite ?_ fun _ => hgiveUp h₅
  intro hopen
  have hmore : opener.kind ≠ .endOfFile := by rw [hopen]; decide
  refine .bind (.endTrial h₁ hbegun h₅ ?_)
  intro s₆ h₆
  have hpos : 0 < live ([] ++ ([] ++ [externToken] ++ [literal] ++ [opener])) :=
    live_pos (by simp) hmore
  refine .part h₆ (scope_runs (hcall.lt (h₆.used hpos)) h₆.left.since _ _) ?_
  intro _ vs s₇ h₇ _
  exact ⟨_, h₇.advance, live_pos_left hpos⟩

/-! ## Lists of declarations -/

theorem declaration_consumes (hcall : Serves call n 5) (h : s.Ready n) (className : String) :
    Consumes (declaration call className) s ((Rule.declaration className).Post s) := by
  refine .bind (.read h.since ?_)
  intro token s₁ h₁ hfirst
  -- a declaration behind its first word
  have hbehind : ∀ {p : Parse Unit}, token.kind ≠ .endOfFile →
      (∀ s', s'.Ready (n - live ([] ++ [token])) → Consumes p s' anything) →
      Runs (do Parse.unmute; p; return true) s₁ (Consumed s ((Rule.declaration className).Post s)) := by
    intro p hmore hp
    refine .bind (.quiet Parse.quiet_unmute h₁ ?_)
    intro s₂ h₂ _
    refine .bind (.part h₂ (hp s₂ h₂.left) ?_)
    intro _ us s₃ h₃ _
    exact .pure ⟨_, h₃.advance, live_pos (by simp) hmore⟩
  -- a declaration from its first token on
  have hsimple : token.kind = .identifier ∨ token.kind = .tilde →
      Runs (do Parse.pushBack token; simpleDeclaration call className; return true) s₁
        (Consumed s ((Rule.declaration className).Post s)) := by
    intro hkind
    refine .bind (.pushBack h₁ ?_)
    intro s₂ h₂ hpending
    refine .bind (.part h₂ (simpleDeclaration_consumes (hcall.le (Nat.sub_le _ _) (Nat.le_refl 5))
      h₂.left className) ?_)
    intro _ us s₃ h₃ hpos
    exact .pure ⟨_, h₃.advance, hpos token hpending hkind⟩
  split
  next hname =>
    have hmore : token.kind ≠ .endOfFile := by rw [hname]; decide
    have hafter : Serves call (n - live ([] ++ [token])) 7 :=
      hcall.lt (h₁.used (live_pos (by simp) hmore))
    refine .ite ?_ ?_
    · intro _
      refine .bind (.quiet Parse.quiet_unmute h₁ ?_)
      intro s₂ h₂ _
      refine .bind ((externDeclaration_runs hcall h₂ hname className).mono ?_)
      rintro _ s₃ ⟨us, hadvance, hpos⟩
      exact .pure ⟨us, hadvance, hpos⟩
    intro _
    refine .ite (fun _ => hbehind hmore fun s' h' => accessLabel_consumes h' token) ?_
    intro _
    refine .ite (fun _ => hbehind hmore fun s' h' => staticAssert_consumes hafter h' token) ?_
    intro _
    refine .ite (fun _ => hbehind hmore fun s' h' => namespaceDeclaration_consumes hafter h' token) ?_
    intro _
    refine .ite (fun _ => hbehind hmore fun s' h' =>
      templateDeclaration_consumes hafter h' token className) ?_
    intro _
    refine .ite (fun _ => hbehind hmore fun s' h' => usingDeclaration_consumes hafter h' token) ?_
    intro _
    exact hsimple (.inl hname)
  next hsemicolon =>
    have hmore : token.kind ≠ .endOfFile := by rw [hsemicolon]; decide
    refine .bind (.quiet (Parse.quiet_declare _) h₁ ?_)
    intro s₂ h₂ _
    exact .pure ⟨_, h₂.advance, live_pos (by simp) hmore⟩
  next htilde => exact hsimple (.inr htilde)
  next =>
    refine .bind (.pushBack h₁ ?_)
    intro s₂ h₂ _
    exact .pure ⟨_, h₂.advance, rfl⟩

theorem declarations_consumes (hcall : Serves call n 6) (h : s.Ready n) (closeExpected : Bool)
    (className : String) : Consumes (declarations call closeExpected className) s
      ((Rule.declarations closeExpected className).Post s) := by
  refine .bind (.read h.since ?_)
  intro token s₁ h₁ _
  refine .ite ?_ ?_
  · intro hkind
    cases closeExpected with
    | true => exact .pure ⟨_, h₁.advance, nofun⟩
    | false =>
      refine .bind (.pushBack h₁ ?_)
      intro s₂ h₂ hpending
      exact .pure ⟨_, h₂.advance, fun _ _ => ⟨token, hpending, hkind⟩⟩
  intro hkind
  refine .bind (.pushBack h₁ ?_)
  intro s₂ h₂ hpending
  -- from here on, what is consumed is counted from the token that waits now
  refine .part h₂ (R := (Rule.declarations closeExpected className).Post s) ?_
    fun _ us _ h' hpost => ⟨us, h'.advance, hpost⟩
  have haccept := h₂.advance.accept
  replace hcall : Serves call (n - live []) 6 := hcall.le (Nat.sub_le _ _) (Nat.le_refl 6)
  -- the promise of the call for the rest is the promise itself
  have hlast : ∀ {ts s'}, Since (n - live []) s₂ ts s' → 0 < live ts →
      Runs (call (.declarations closeExpected className)) s'
        (Consumed s₂ ((Rule.declarations closeExpected className).Post s)) := by
    intro ts s' h' hpos
    refine hcall.after h' hpos _ ?_
    intro _ us s₃ h₃ hpost
    exact ⟨_, h₃.advance, fun hclose hs =>
      hpost hclose (h'.advance.accept.trans (haccept.trans hs))⟩
  refine .bind (hcall.below h₂.left.since _ (Nat.lt_succ_self 5) ?_)
  rintro (_ | _) us s₃ h₃ hfound
  · obtain rfl : us = [] := hfound
    refine .bind (.read h₃ ?_)
    intro token' s₄ h₄ hfirst
    obtain rfl := hfirst token (hpending.advance h₃.advance)
    refine .bind (.quiet (Parse.quiet_faultExpected _ _) h₄ ?_)
    intro s₅ h₅ _
    refine .ite ?_ ?_
    · intro hclose
      have hmore : token'.kind ≠ .endOfFile := by rw [hclose]; decide
      exact hlast h₅ (live_pos (by simp) hmore)
    intro hclose
    refine .bind (stepOver_runs hcall h₅ ?_ ?_)
    · intro vs s₆ h₆ hleft
      refine .pure ⟨_, h₆.advance, ?_⟩
      rintro rfl hs
      -- neither the end of the file nor a bracket that is open further out
      exfalso
      rcases hleft with hend | hleaves
      · exact hkind hend
      · rw [haccept, hs] at hleaves
        revert hclose hleaves
        cases token'.kind <;> decide
    · intro _ vs s₆ h₆ _ hpos
      exact hlast h₆ hpos
  · exact hlast h₃ hfound

end CppDecl.Grammar
