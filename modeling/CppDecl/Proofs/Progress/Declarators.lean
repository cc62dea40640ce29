import CppDecl.Proofs.Progress.Expressions

/-!
# Progress: declarators and specifiers

A declarator consumes the name that it begins with.  The specifiers of a declaration may consume
nothing, but a name is then left to the declarators, and where there is no type yet a name is a type.
So a declaration that begins with a name, or with the tilde of a destructor, consumes something.
-/

namespace CppDecl.Grammar

open Parse (Consumed Consumes Runs)
open Session (Since Ready Advance Pending)

variable {call : Call} {α : Type} {n k : Nat} {s₀ s s' : Session} {t : Token}
variable {ts us : List Token}

/-! ## Declarators -/

theorem trailingReturn_consumes (hcall : Serves call n 0) (h : s.Ready n) (f : FunctionDeclarator) :
    Consumes (trailingReturn call f) s anything := by
  refine .bind (.read h.since ?_)
  intro arrow s₁ h₁ _
  split
  · exact .leaving h₁
  next harrow =>
    have hmore : arrow.kind ≠ .endOfFile := by rw [not_not.1 harrow]; decide
    refine .bind (.peek h₁ ?_)
    intro start s₂ h₂ _ _
    have hused := h₂.used (live_pos (by simp) hmore)
    refine .bind (.part h₂ (qualifiedId_consumes (hcall.lt hused) h₂.left _) ?_)
    intro trailing us s₃ h₃ _
    refine .quietIf (Parse.quiet_fault _ _) h₃ ?_
    intro s₄ h₄ _
    exact .done h₄

theorem checkName_runs {Q : Unit → Session → Prop} (h : Since n s₀ ts s) (nameMissing : Bool)
    (token : Token) (hQ : ∀ s', Since n s₀ ts s' → Q () s') :
    Runs (checkName nameMissing token) s Q := by
  refine .bind (.quiet Parse.quiet_unmute h ?_)
  intro s₁ h₁ _
  split
  · exact .quiet (Parse.quiet_faultExpected _ _) h₁ fun s₂ h₂ _ => hQ s₂ h₂
  · exact .pure (hQ s₁ h₁)

theorem suffixes_consumes (hcall : Serves call n 0) (h : s.Ready n) (d : Declarator) (depth : Nat)
    (nameMissing : Bool) : Consumes (suffixes call d depth nameMissing) s anything := by
  refine .bind (.read h.since ?_)
  intro token s₁ h₁ _
  split
  next hsquare =>
    have hmore : token.kind ≠ .endOfFile := by rw [hsquare]; decide
    refine .bind (checkName_runs h₁ nameMissing token ?_)
    intro s₂ h₂
    refine .bind (hcall.after h₂ (live_pos (by simp) hmore) _ ?_)
    rintro ⟨start, stop⟩ us s₃ h₃ _
    have hused := h₃.used (live_pos (by simp) hmore)
    refine .bind (.part h₃ (closeScope_consumes (hcall.lt hused) h₃.left token) ?_)
    intro closer vs s₄ h₄ _
    split
    · exact hcall.last h₄ (live_pos (by simp) hmore) _
    · exact .done h₄
  next hparen =>
    refine .bind (checkName_runs h₁ nameMissing token ?_)
    intro s₂ h₂
    refine .bind (.pushBack h₂ ?_)
    intro s₃ h₃ hpending
    refine .bind (.part h₃ (functionDeclarator_consumes (hcall.le (Nat.sub_le _ _) (Nat.le_refl 0))
      h₃.left) ?_)
    rintro (_ | f) us s₄ h₄ hopen
    · exact hcall.last h₄ (hopen token hpending hparen) _
    · have hpos := hopen token hpending hparen
      refine .bind (.part h₄ (trailingReturn_consumes (hcall.lt (h₄.used hpos)) h₄.left f) ?_)
      intro f vs s₅ h₅ _
      exact hcall.last h₅ (live_pos_left hpos) _
  next => exact .leaving h₁

theorem innerDeclarator_consumes (hcall : Serves call n 7) (h : s.Ready n) (outer : Chain)
    (form : DeclaratorForm) (opener : Token) :
    Consumes (innerDeclarator call outer form opener) s anything := by
  refine .bind (hcall.free h.since _ ?_)
  intro inner us s₁ h₁ _
  refine .bind (.part h₁ (closeScope_consumes (hcall.le (Nat.sub_le _ _) (by decide)) h₁.left
    opener) ?_)
  intro closer vs s₂ h₂ _
  split
  · refine hcall.free h₂ _ ?_
    intro _ ws s₃ h₃ _
    exact ⟨_, h₃.advance, trivial⟩
  · exact .done h₂

theorem functionOrInner_runs {opener : Token} (hcall : Serves call n k)
    (h : Since n s (ts ++ [opener]) s') (hparen : opener.kind = .openParen) (outer : Chain)
    (form : DeclaratorForm) :
    Runs (functionOrInner call outer form opener) s' (Consumed s anything) := by
  have hmore : opener.kind ≠ .endOfFile := by rw [hparen]; decide
  refine .bind (.pushBack h ?_)
  intro s₁ h₁ hpending
  refine .bind (.beginTrial ?_)
  intro trial s₂ hbegun
  have hready := hbegun.ready h₁.left
  refine .bind (.part hready.since (functionDeclarator_consumes (hcall.le (Nat.sub_le _ _)
    (Nat.zero_le k)) hready) ?_)
  intro f? us s₃ h₃ hopen
  refine .bind (.failedSince _ ?_)
  intro failed
  split
  · refine .bind (.abandon h₁ hbegun h₃ ?_)
    intro s₄ h₄ hagain
    refine .bind (.read h₄ ?_)
    intro opener' s₅ h₅ hfirst
    obtain rfl := hfirst opener (hagain opener hpending)
    have hused := h₅.used (live_pos (by simp) hmore)
    refine .part h₅ (innerDeclarator_consumes (hcall.lt hused) h₅.left outer form opener') ?_
    intro _ vs s₆ h₆ _
    exact ⟨_, h₆.advance, trivial⟩
  · have hpos : 0 < live us := hopen opener (hbegun.pending hpending) hparen
    refine .bind (.endTrial h₁ hbegun h₃ ?_)
    intro s₄ h₄
    cases f? with
    | none => exact hcall.last h₄ (live_pos_right hpos) _
    | some f =>
      have hused := h₄.used (live_pos_right hpos)
      refine .bind (.part h₄ (trailingReturn_consumes (hcall.lt hused) h₄.left f) ?_)
      intro f vs s₅ h₅ _
      exact hcall.last h₅ (live_pos_left (live_pos_right hpos)) _

theorem more_of_isPointerKind (h : isPointerKind t.kind = true) : t.kind ≠ .endOfFile := by
  intro hend
  rw [hend] at h
  exact absurd h (by decide)

theorem declarator_consumes (hcall : Serves call n 1) (h : s.Ready n) (chain : Chain)
    (form : DeclaratorForm) (allowQualifier : Bool) :
    Consumes (declarator call chain form allowQualifier) s
      ((Rule.declarator chain form allowQualifier).Post s) := by
  refine .bind (.part h.since (qualifiedId_consumes hcall h _) ?_)
  rintro qid us s₁ h₁ ⟨-, hname⟩
  -- the name takes care of the promise
  refine .part h₁ (R := anything) ?_ fun _ vs _ h' _ =>
    ⟨us ++ vs, h'.advance, fun t ht hkind => live_pos_left (hname t ht (.inr hkind))⟩
  replace hcall : Serves call (n - live ([] ++ us)) 1 := hcall.le (Nat.sub_le _ _) (Nat.le_refl 1)
  have hsuffixes : ∀ d depth nameMissing ts s', Since (n - live ([] ++ us)) s₁ ts s' →
      Runs (call (.suffixes d depth nameMissing)) s' (Consumed s₁ anything) := by
    intro d depth nameMissing ts s' h'
    refine hcall.below h' _ Nat.zero_lt_one ?_
    intro _ vs s₂ h₂ _
    exact ⟨_, h₂.advance, trivial⟩
  replace h₁ := h₁.left.since
  split
  · refine .quietIf (Parse.quiet_fault _ _) h₁ ?_
    intro s₂ h₂ _
    exact hsuffixes _ _ _ _ s₂ h₂
  refine .bind (.read h₁ ?_)
  intro token s₂ h₂ _
  split
  next hparen =>
    have hmore : token.kind ≠ .endOfFile := by rw [hparen]; decide
    refine .quietIf (Parse.quiet_fault _ _) h₂ ?_
    intro s₃ h₃ _
    refine .bind (.quiet Parse.quiet_unmute h₃ ?_)
    intro s₄ h₄ _
    split
    · exact functionOrInner_runs hcall h₄ hparen chain form
    · have hused := h₄.used (live_pos (by simp) hmore)
      refine .part h₄ (innerDeclarator_consumes (hcall.lt hused) h₄.left chain form token) ?_
      intro _ vs s₅ h₅ _
      exact ⟨_, h₅.advance, trivial⟩
  next =>
    refine .quietIf (Parse.quiet_fault _ _) h₂ ?_
    intro s₃ h₃ _
    split
    next hpointer =>
      refine .bind (.quiet Parse.quiet_unmute h₃ ?_)
      intro s₄ h₄ _
      exact hcall.last h₄ (live_pos (by simp) (more_of_isPointerKind hpointer)) _
    split
    next hellipsis =>
      have hmore : token.kind ≠ .endOfFile := by rw [hellipsis]; decide
      refine .bind (.quiet Parse.quiet_unmute h₃ ?_)
      intro s₄ h₄ _
      exact hcall.last h₄ (live_pos (by simp) hmore) _
    split
    next hname =>
      have hmore : token.kind ≠ .endOfFile := by rw [hname]; decide
      refine .quietIf (Parse.quiet_fault _ _) h₃ ?_
      intro s₄ h₄ _
      refine .bind (.quiet Parse.quiet_unmute h₄ ?_)
      intro s₅ h₅ _
      exact hcall.last h₅ (live_pos (by simp) hmore) _
    next =>
      refine .quietIf (Parse.quiet_faultExpected _ _) h₃ ?_
      intro s₄ h₄ _
      refine .bind (.pushBack h₄ ?_)
      intro s₅ h₅ _
      exact hsuffixes _ _ _ _ s₅ h₅

end CppDecl.Grammar
