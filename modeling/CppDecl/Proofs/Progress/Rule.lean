import CppDecl.Grammar
import CppDecl.Proofs.Runs

/-!
# Progress of the rules

Every rule of the grammar ends.  A call is either made after a token was consumed, or it is a call of
a rule with a smaller *rank*.  So what gets smaller is the number of tokens that are left, and the
rank where the number stays the same.

Some rules have to promise more, since their callers go on only because of it: that a declaration
consumes something if there is one, or that a name that is not empty was read from somewhere.
`Rule.Post` has these promises.  `Serves` says that calls are carried out as long as something gets
smaller.  For each rule it is shown that its body keeps the promise if calls do.
-/

namespace CppDecl

open Parse (Consumed Consumes Runs)
open Session (Since Ready Advance Pending)

/-- How far up a rule stands among the rules that may be called before a token is consumed. -/
def Rule.rank : {α : Type} → Rule α → Nat
  | _, .declarations _ _ => 6
  | _, .declaration _ => 5
  | _, .templateArguments _ => 5
  | _, .parameters _ _ => 5
  | _, .specifiers _ soFar => if soFar.hasType then 3 else 4
  | _, .initDeclarators _ => 2
  | _, .declarator _ _ _ => 1
  | _, .expressions _ _ => 1
  | _, .conversionSpecifiers _ _ => 1
  | _, .memberInitializers _ => 1
  | _, .bases _ => 1
  | _, _ => 0

theorem Rule.rank_lt {α : Type} (rule : Rule α) : rule.rank < 7 := by
  cases rule <;> simp only [Rule.rank] <;> first | omega | split <;> omega

/-- What a rule promises about its result, given the session it starts from, the tokens that it
consumes and the queue that it leaves. -/
def Rule.Post (s : Session) : {α : Type} → Rule α → α → List Token → TokenQueue → Prop
  -- no component is found without a token, and a name is not passed over
  | _, .nestedNames soFar, names, us, _ =>
      (us = [] ∧ names = soFar ∨ 0 < live us) ∧
      ∀ t, s.Pending t →
        if t.kind = .identifier ∧ t.text ∉ Grammar.notNames then 0 < live us else us = []
  -- the comma is not made up
  | _, .templateSeparator _ _, result, us, _ => result.2.kind = .comma → 0 < live us
  -- the token that is given is the last one
  | _, .virtSpecifiers _, result, us, _ => ∃ vs, us = vs ++ [result.2]
  -- a destructor is not passed over
  | _, .declarator _ _ _, _, us, _ => ∀ t, s.Pending t → t.kind = .tilde → 0 < live us
  | _, .initDeclarators _, _, us, _ => ∀ t, s.Pending t → t.kind = .tilde → 0 < live us
  -- nor is a name where there is no type yet
  | _, .specifiers mode soFar, _, us, _ =>
      mode.isGlobalOrMember = true → soFar.hasType = false →
        ∀ t, s.Pending t → t.kind = .identifier ∨ t.kind = .tilde → 0 < live us
  -- there is a declaration, or nothing happens
  | _, .declaration _, found, us, _ => if found then 0 < live us else us = []
  -- at the outermost level, only the end of the file ends the declarations
  | _, .declarations closeExpected _, _, _, q =>
      closeExpected = false → s.accept = { Accept.nothing with closeCurly := true } →
        ∃ t, q.ahead.head? = some t ∧ t.kind = .endOfFile
  | _, _, _, _, _ => True

/-- Calls are carried out with fewer than `n` tokens left, and with `n` tokens left if the rank is
less than `k`.  With `k` at 7 there is no condition on the rank. -/
def Serves (call : Call) (n k : Nat) : Prop :=
  ∀ {α : Type} (rule : Rule α) (s : Session) (m : Nat), s.Ready m →
    m < n ∨ m ≤ n ∧ rule.rank < k → Consumes (call rule) s (rule.Post s)

variable {call : Call} {α : Type} {n m k l : Nat} {s₀ s s' : Session} {t : Token}
variable {ts us : List Token} {Q : α → Session → Prop}

theorem Serves.lt (h : Serves call n k) (hm : m < n) : Serves call m l :=
  fun rule s m' hready hless => h rule s m' hready (.inl (by omega))

theorem Serves.le (h : Serves call n k) (hm : m ≤ n) (hl : l ≤ k) : Serves call m l :=
  fun rule s m' hready hless => h rule s m' hready (by omega)

theorem live_pos (hmem : t ∈ ts) (hmore : t.kind ≠ .endOfFile) : 0 < live ts :=
  List.countP_pos_iff.2 ⟨t, hmem, by simpa using hmore⟩

theorem live_pos_left (h : 0 < live ts) : 0 < live (ts ++ us) := by
  rw [live_append]
  omega

theorem live_pos_right (h : 0 < live us) : 0 < live (ts ++ us) := by
  rw [live_append]
  omega

theorem Token.more_of_isWord {word : String} (h : t.isWord word = true) : t.kind ≠ .endOfFile := by
  intro hend
  simp [Token.isWord, hend] at h

/-- Less is left once a token was consumed. -/
theorem Session.Since.used (h : Since n s₀ ts s) (hpos : 0 < live ts) : n - live ts < n := by
  have hle := h.live_le
  omega

/-- A call after a token was consumed. -/
theorem Serves.after (hcall : Serves call n k) (h : Since n s₀ ts s) (hpos : 0 < live ts)
    (rule : Rule α) (hQ : ∀ a us s', Since n s₀ (ts ++ us) s' → rule.Post s a us s'.queue → Q a s') :
    Runs (call rule) s Q :=
  .part h (hcall rule s _ h.left (.inl (h.used hpos))) hQ

/-- A call of a rule with a smaller rank. -/
theorem Serves.below (hcall : Serves call n k) (h : Since n s₀ ts s) (rule : Rule α)
    (hrank : rule.rank < k)
    (hQ : ∀ a us s', Since n s₀ (ts ++ us) s' → rule.Post s a us s'.queue → Q a s') :
    Runs (call rule) s Q :=
  .part h (hcall rule s _ h.left (.inr ⟨Nat.sub_le _ _, hrank⟩)) hQ

/-- A call of any rule. -/
theorem Serves.free (hcall : Serves call n 7) (h : Since n s₀ ts s) (rule : Rule α)
    (hQ : ∀ a us s', Since n s₀ (ts ++ us) s' → rule.Post s a us s'.queue → Q a s') :
    Runs (call rule) s Q :=
  hcall.below h rule rule.rank_lt hQ

/-- Nothing in particular is promised. -/
def anything {α : Type} : α → List Token → TokenQueue → Prop := fun _ _ _ => True

/-- The end of an action. -/
theorem Parse.Runs.done {a : α} (h : Since n s ts s') : Runs (Pure.pure a) s' (Consumed s anything) :=
  .pure ⟨ts, h.advance, trivial⟩

/-- The end of an action that leaves the last token alone. -/
theorem Parse.Runs.leaving {a : α} (h : Since n s (ts ++ [t]) s') :
    Runs (do Parse.pushBack t; return a) s' (Consumed s anything) := by
  refine .bind (.pushBack h ?_)
  intro s₁ h₁ _
  exact .done h₁

/-- An action that does nothing to tokens and comes last. -/
theorem Parse.Quiet.ending {p : Parse Unit} (hp : Parse.Quiet p) (h : Since n s ts s') :
    Runs p s' (Consumed s anything) :=
  .quiet hp h fun _ h' _ => ⟨ts, h'.advance, trivial⟩

/-- A call that comes last, after a token was consumed. -/
theorem Serves.last (hcall : Serves call n k) (h : Since n s ts s') (hpos : 0 < live ts)
    (rule : Rule α) :
    Runs (call rule) s' (Consumed s anything) :=
  hcall.after h hpos rule fun _ us _ h' _ => ⟨ts ++ us, h'.advance, trivial⟩

/-- A call of any rule whose result is only looked at. -/
theorem Serves.giving {β : Type} {f : α → β} {R : β → List Token → TokenQueue → Prop}
    (hcall : Serves call n 7) (h : s.Ready n) (rule : Rule α) (hR : ∀ a us q, R (f a) us q) :
    Consumes (do return f (← call rule)) s R := by
  refine .bind (hcall.free h.since rule ?_)
  intro a us s₁ h₁ _
  exact .pure ⟨_, h₁.advance, hR _ _ _⟩

/-! ## Skipping -/

namespace Grammar

theorem skipScope_consumes (hcall : Serves call n 1) (h : s.Ready n) (opener : Token) :
    Consumes (skipScope call opener) s anything := by
  unfold skipScope
  split
  · exact .pure ⟨[], .refl s, trivial⟩
  · refine .within (R := anything) h.since ?_ ?_
    · intro s₁ hready _ _
      exact hcall _ s₁ n hready (.inr ⟨Nat.le_refl n, Nat.zero_lt_one⟩)
    · intro a us s₁ h₁ _
      exact ⟨us, h₁.advance, trivial⟩

theorem skipNested_consumes (hcall : Serves call n 1) (h : s.Ready n) (token : Token) :
    Consumes (skipNested call token) s anything := by
  unfold skipNested
  split
  · refine .bind (.get ?_)
    split
    · exact skipScope_consumes hcall h token
    · exact .pure ⟨[], .refl s, trivial⟩
  · exact skipScope_consumes hcall h token
  · exact skipScope_consumes hcall h token
  · exact skipScope_consumes hcall h token
  · exact .pure ⟨[], .refl s, trivial⟩

theorem skipTo_consumes (hcall : Serves call n 0) (h : s.Ready n) (opener : Token)
    (closer : TokenKind) : Consumes (skipTo call opener closer) s anything := by
  refine .bind (.read h.since ?_)
  intro token s₁ h₁ _
  split
  · exact .done h₁
  refine .bind (.mayStay h₁ ?_ ?_)
  · intro s₂ h₂ hmore
    have hused := h₂.used (live_pos (t := token) (by simp) hmore)
    refine .bind (.part h₂ (skipNested_consumes (hcall.lt hused) h₂.left token) ?_)
    intro _ us s₃ h₃ _
    exact hcall.last h₃ (live_pos (t := token) (by simp) hmore) _
  · intro vs s₂ h₂ _
    refine .bind (.quiet (Parse.quiet_fault _ _) h₂ ?_)
    intro s₃ h₃ _
    exact .done h₃

/-- Stepping over a token.  If the token is left to a rule further out, it is pushed back or is the
end of the file. -/
theorem stepOver_runs {Q : Option Token → Session → Prop} (hcall : Serves call n k)
    (h : Since n s₀ (ts ++ [t]) s)
    (hnone : ∀ vs s', Since n s₀ (ts ++ vs) s' →
      t.kind = .endOfFile ∨ s₀.accept.leaves? t.kind = some true → Q none s')
    (hsome : ∀ last us s', Since n s₀ (ts ++ [t] ++ us) s' → t.kind ≠ .endOfFile →
      0 < live (ts ++ [t] ++ us) → Q (some last) s') :
    Runs (stepOver call t) s Q := by
  refine .bind (.mayStay h ?_ ?_)
  · intro s₁ h₁ hmore
    have hused := h₁.used (live_pos (t := t) (by simp) hmore)
    refine .bind (.part h₁ (skipNested_consumes (hcall.lt hused) h₁.left t) ?_)
    intro closer us s₂ h₂ _
    exact .pure (hsome _ us s₂ h₂ hmore (live_pos (t := t) (by simp) hmore))
  · intro vs s₁ h₁ hleft
    exact .pure (hnone vs s₁ h₁ hleft)

/-- Reading the closer of a bracket. -/
theorem closeScope_consumes (hcall : Serves call n 1) (h : s.Ready n) (opener : Token) :
    Consumes (closeScope call opener) s anything := by
  refine .bind (.read h.since ?_)
  intro token s₁ h₁ _
  split
  · exact .done h₁
  refine .bind (.quiet (Parse.quiet_faultExpected _ _) h₁ ?_)
  intro s₂ h₂ _
  refine .bind (.pushBack h₂ ?_)
  intro s₃ h₃ _
  refine .bind (.part h₃ (skipScope_consumes hcall h₃.left opener) ?_)
  intro closer us s₄ h₄ _
  split
  · exact .done h₄
  · refine .bind (.quiet Parse.quiet_unmute h₄ ?_)
    intro s₅ h₅ _
    exact .done h₅

end Grammar

end CppDecl
