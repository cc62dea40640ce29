import CppDecl.Proofs.Leads

/-!
# What the rules leave

Every rule of the grammar leaves the counts and the scopes in order, and the parts that it reads are
ended unless there was a fault.  If braces are watched, the tokens that it consumes are level, and
the blocks that it reads are matched in them.

`Rule.Effect` says so for each rule, and `Effects` of all calls.  For each rule it is shown that its
body has the effect of the rule if calls do.
-/

namespace CppDecl

open Parse (Brings Collects Leads Left)
open Session (Fit Past Pending)

/-- What is read where only a closing brace is left to a rule further out. -/
def Accept.InBraces (a : Accept) : Prop := a = { Accept.nothing with closeCurly := true }

/-- A result with parts that were given or read. -/
def Yields {α : Type} (W : Concern) (given : List Part) (parts : α → List Part) (a : α)
    (us : List Token) (ps : List Part) (_ : Session) : Prop :=
  Level W ps us ∧ parts a ⊆ given ++ ps

/-- Nothing in particular results. -/
def Levels {α : Type} (W : Concern) (_ : α) (us : List Token) (ps : List Part) (_ : Session) : Prop :=
  Level W ps us

/-- Template arguments with the bracket that closes them, which is missing only if they are cut off. -/
def TakesArguments (W : Concern) (given : List TemplateArgument)
    (result : List TemplateArgument × Token) (us : List Token) (ps : List Part) (_ : Session) :
    Prop :=
  Level W ps us ∧ templateArgumentsParts result.1 ⊆ templateArgumentsParts given ++ ps ∧
    (result.2.isPresent = false → result.1.getLast?.any TemplateArgument.isCutOff = true)

/-- The closing bracket that was looked for, if it was found. -/
def Finds (W : Concern) (opener : Token) (closer : TokenKind) (c : Option Token) (us : List Token)
    (ps : List Part) (_ : Session) : Prop :=
  .bracket opener (c.getD .absent) ∈ ps ∧
    if closer = .closeCurly then Closes W ps us (c.getD .absent) else Level W ps us

/-- The brace that closes a block, which is missing only if there was a fault. -/
def Ends (W : Concern) (closer : Token) (us : List Token) (ps : List Part) (s : Session) : Prop :=
  Closes W ps us closer ∧ (closer.isPresent = false → 0 < s.rawErrors)

/-- The end of a list of expressions in braces.  If it is not the closing brace, the list goes on to
the end of the file, or to a token that is left to a rule further out. -/
def EndsList (W : Concern) (s : Session) (a : Token) (us : List Token) (ps : List Part)
    (s' : Session) : Prop :=
  (a.kind = .closeCurly → Closes W ps us a) ∧
  (a.kind ≠ .closeCurly → Level W ps us ∧ ((∃ t ∈ us, t.kind = .endOfFile) ∨
    ∃ t, s'.Pending t ∧ t.kind ≠ .endOfFile ∧ t.kind ≠ .closeCurly ∧
      s.accept.leaves? t.kind = some true))

/-- The end of the file has been consumed or comes next. -/
def EndsFile (us : List Token) (s : Session) : Prop :=
  (∃ t ∈ us, t.kind = .endOfFile) ∨ ∃ t, s.Pending t ∧ t.kind = .endOfFile

/-- What has to hold where a rule is called. -/
def Rule.Pre (s : Session) : {α : Type} → Rule α → Prop
  | _, .skipTo opener closer =>
      opener.kind.closer? = some closer ∧ (closer = .closeCurly → s.accept.InBraces)
  | _, .expressions opener last => opener ≠ .openParen → last.kind ≠ .closeCurly
  | _, .enumerators _ => s.accept.InBraces
  | _, .declaration _ => Session.Collecting s.scopes
  | _, .declarations _ _ => s.accept.InBraces ∧ Gathering s.scopes
  | _, _ => True

/-- What a rule leaves. -/
def Rule.Effect (W : Concern) (s : Session) : {α : Type} → Rule α → α → Session → Prop
  | _, .skipTo opener closer => Brings W s (Finds W opener closer)
  | _, .expressions opener _ => Brings W s fun a us ps s' =>
      if opener = .openParen then Level W ps us else EndsList W s a us ps s'
  | _, .nestedNames soFar => Brings W s (Yields W (nestedNamesParts soFar) nestedNamesParts)
  | _, .templateArguments soFar => Brings W s (TakesArguments W soFar)
  | _, .templateSeparator _ argument => Brings W s fun result us ps s' =>
      Yields W argument.parts TemplateArgument.parts result.1 us ps s' ∧
        (result.2.isPresent = false → result.1.isCutOff = true)
  | _, .parameters _ soFar =>
      Brings W s (Yields W (parametersParts soFar.params) ParameterList.parts)
  | _, .conversionSpecifiers soFar _ => Brings W s (Yields W (specifiersParts soFar) specifiersParts)
  | _, .conversionPointers soFar _ => Brings W s (Yields W (chainParts soFar) chainParts)
  | _, .declarator outer _ _ => Brings W s (Yields W (chainParts outer) Declarator.parts)
  | _, .suffixes soFar _ _ => Brings W s (Yields W soFar.parts Declarator.parts)
  | _, .memberInitializers soFar =>
      Brings W s (Yields W (memberInitializersParts soFar) memberInitializersParts)
  | _, .initDeclarators soFar => Brings W s (Yields W soFar.parts SimpleDeclaration.parts)
  | _, .bases soFar => Brings W s (Yields W (basesParts soFar) basesParts)
  | _, .virtSpecifiers _ => Brings W s fun result us ps _ =>
      ∃ vs, us = vs ++ [result.2] ∧ Level W ps vs
  | _, .enumerators soFar => fun result s' => ∃ us ps k, Past W s us s.scopes ps s' k ∧
      result.1.length = soFar.length + k ∧ Ends W result.2 us ps s' ∧
      enumeratorsParts result.1 ⊆ enumeratorsParts soFar ++ ps
  | _, .specifiers _ soFar => Brings W s (Yields W soFar.simple.parts SimpleDeclaration.parts)
  | _, .declaration _ => Collects W s fun found us ps _ =>
      Level W ps us ∧ (found = false → us = [])
  | _, .declarations closeExpected _ => Collects W s fun closer us ps s' =>
      if closeExpected then Ends W closer us ps s'
      else (W.asked → ∀ p ∈ ps, p.Matched W.closed us) ∧ EndsFile us s'
  | _, .nameTail => Brings W s (Levels W)
  | _, .literals _ => Brings W s (Levels W)
  | _, .expression _ => Brings W s (Levels W)
  | _, .functionQualifiers _ => Brings W s (Levels W)

/-- Calls leave what their rules do.  If braces are watched, no list of expressions in braces is left
where it is not closed, except at the end of the file. -/
structure Effects (W : Concern) (call : Call) : Prop where
  /-- The effects of rules. -/
  leads : ∀ {α : Type} (rule : Rule α) (s : Session), s.Fit W → rule.Pre s →
    Leads (call rule) s (rule.Effect W s)
  /-- Lists in braces are closed. -/
  listed : W.closed → ∀ last s a s', call (.expressions .openCurly last) s = .ok (a, s') →
    a.kind ≠ .closeCurly → ∀ t, s'.Pending t → t.kind = .endOfFile

variable {W : Concern} {call : Call} {α : Type} {s₀ s s' : Session} {t : Token}
variable {ts us vs : List Token} {sc : List OpenScope} {ps qs : List Part}

theorem Accept.inside_closeCurly (opener : TokenKind) {a : Accept} (h : a.closeCurly = true) :
    (a.inside opener).closeCurly = true := by
  cases opener <;> first | exact h | rfl

/-- If braces are watched, a token that is not left alone is no closing brace. -/
theorem Session.Past.not_closeCurly (h : Past W s₀ us sc ps s)
    (hstay : s₀.accept.leaves? t.kind ≠ some true) (hW : W.asked) : t.kind ≠ .closeCurly := by
  intro hkind
  rw [hkind, Accept.leaves?, h.fit.guarded hW] at hstay
  exact hstay rfl

/-- A part that comes last. -/
theorem Parse.Leads.ending {p : Parse α} (h : Past W s us s.scopes ps s') (hlevel : Level W ps us)
    (hp : Leads p s' (Brings W s' (Levels W))) : Leads p s' (Brings W s (Levels W)) :=
  .part h hp fun _ _ _ _ h' hlevel' => ⟨_, _, h', hlevel.append hlevel'⟩

/-- A part that comes last and is given parts that were given or read before. -/
theorem Parse.Leads.yielding {p : Parse α} {given given' : List Part} {parts : α → List Part}
    (h : Past W s us s.scopes ps s') (hlevel : Level W ps us)
    (hp : Leads p s' (Brings W s' (Yields W given' parts))) (hgiven : given' ⊆ given ++ ps) :
    Leads p s' (Brings W s (Yields W given parts)) := by
  refine .part h hp ?_
  rintro a vs qs s₁ h₁ ⟨hlevel', hparts⟩
  exact ⟨_, _, h₁, hlevel.append hlevel', by grind⟩

/-- The end of an action that leaves the last token alone. -/
theorem Parse.Leads.leaving {a : α} (h : Past W s (us ++ [t]) s.scopes ps s')
    (hlevel : Level W ps us) :
    Leads (do Parse.pushBack t; return a) s' (Brings W s (Levels W)) := by
  refine .bind (.pushBack h ?_)
  intro s₁ h₁ _ _
  exact .pure ⟨_, _, h₁, hlevel⟩

/-- A token that is left alone is one of those that cut template arguments off, unless it is the
bracket that closes them. -/
theorem Parse.Left.cutOff (h : Left s₀ t vs s) (hangle : t.kind ≠ .closeAngle) :
    cutOffKinds.contains t.kind = true := by
  cases h with
  | ended hend => rw [hend]; rfl
  | back _ _ hleaves => cases hkind : t.kind <;> simp_all [Accept.leaves?, cutOffKinds]

/-- In braces, only a closing brace is left to a rule further out. -/
theorem Parse.Left.ended_inBraces (h : Left s₀ t vs s) (hbraces : s₀.accept.InBraces)
    (hother : t.kind ≠ .closeCurly) : ∃ u ∈ vs, u.kind = .endOfFile := by
  cases h with
  | ended hend => exact ⟨t, by simp, hend⟩
  | back _ _ hleaves =>
    rw [show s₀.accept = { Accept.nothing with closeCurly := true } from hbraces] at hleaves
    cases hkind : t.kind <;> simp_all [Accept.leaves?, Accept.nothing]

/-- A level stretch in front of the rest of a block. -/
theorem Session.Past.closes {c : Token} {rs : List Part} {k : Nat}
    (h : Past W s₀ (us ++ vs) sc rs s k) (hlevel : Level W ps us) (hc : Closes W qs vs c) :
    Closes W (ps ++ qs) (us ++ vs) c := by
  refine ⟨hc.brace, ?_, ?_, ?_⟩
  · intro hW hkind
    obtain ⟨inner, rfl, hinner⟩ := hc.closed hW hkind
    rw [← List.append_assoc] at h ⊢
    have hmore := h.more (by rw [hkind]; decide)
    refine ⟨us ++ inner, rfl, Paired.append ?_ hinner⟩
    rcases hlevel.paired hW with hpaired | ⟨u, hu, hend⟩
    · exact hpaired
    · exact absurd hend (hmore u (List.mem_append_left _ hu))
  · intro hW habsent
    obtain ⟨u, hu, hend⟩ := hc.ended hW habsent
    exact ⟨u, List.mem_append_right _ hu, hend⟩
  · intro hW
    exact List.forall_mem_append.2 ⟨fun p hp => (hlevel.matched hW p hp).left vs,
      fun p hp => (hc.matched hW p hp).right us⟩

theorem Ends.after {c : Token} {rs : List Part} {s₁ : Session} {k : Nat}
    (h : Past W s₀ (us ++ vs) sc rs s k) (hlevel : Level W ps us) (hends : Ends W c vs qs s₁)
    (hraw : s₁.rawErrors ≤ s.rawErrors) : Ends W c (us ++ vs) (ps ++ qs) s :=
  ⟨h.closes hlevel hends.1, fun habsent => (hends.2 habsent).trans_le hraw⟩

/-- A block, with its braces. -/
theorem Session.Past.block {o c : Token} (h : Past W s₀ (us ++ [o] ++ vs) sc (ps ++ qs) s)
    (hlevel : Level W ps us) (ho : o.kind = .openCurly) (hends : Ends W c vs qs s) :
    Past W s₀ (us ++ [o] ++ vs) sc (ps ++ (qs ++ [.block o c])) s ∧
      Level W (ps ++ (qs ++ [.block o c])) (us ++ [o] ++ vs) := by
  refine ⟨?_, hlevel.span (hends.1.block ho)⟩
  rw [← List.append_assoc]
  refine h.add fun hnone => .inl ?_
  rw [Part.isClosed, Bool.or_eq_true]
  refine .inr (Bool.of_not_eq_false fun habsent => ?_)
  have hraw := hends.2 habsent
  omega

namespace Grammar

/-! ## Skipping -/

/-- What is skipped from behind an opening bracket on. -/
structure Skipped (W : Concern) (opener : Token) (c : Option Token) (us : List Token) (ps : List Part)
    (s : Session) : Prop where
  /-- It is level together with the bracket. -/
  level : Level W ps (opener :: us)
  /-- It is level by itself unless the bracket is a brace. -/
  inner : opener.kind ≠ .openCurly → Level W ps us
  /-- The closing bracket is missing only if there was a fault. -/
  bracket : .bracket opener (c.getD .absent) ∈ ps
  /-- With braces it is a block. -/
  block : opener.kind = .openCurly → .block opener (c.getD .absent) ∈ ps

theorem closer_spec {kind closer : TokenKind} (h : kind.closer? = some closer) :
    closer ≠ .invalid ∧ closer ≠ .openCurly ∧ kind ≠ .closeCurly ∧
      (closer = .closeCurly ↔ kind = .openCurly) := by
  cases kind <;> cases h <;> decide

/-- What is skipped is a level stretch behind the bracket. -/
theorem skipScope_leads (hcall : Effects W call) (h : s.Fit W) {opener : Token}
    (hopener : opener.kind.closer?.isSome = true) :
    Leads (skipScope call opener) s (Brings W s (Skipped W opener)) := by
  unfold skipScope
  split
  next hnone =>
    rw [hnone] at hopener
    cases hopener
  next closer hcloser =>
    refine .within (R := Finds W opener closer) h.past (Accept.inside_closeCurly _) ?_ ?_
    · intro s₁ h₁ _ haccept
      refine hcall.leads _ s₁ h₁ ⟨hcloser, ?_⟩
      intro hclose
      rw [haccept, (closer_spec hcloser).2.2.2.1 hclose]
      rfl
    · rintro c us ps s₁ h₁ ⟨hmem, hlevel⟩
      split at hlevel
      next hclose =>
        have hopen := (closer_spec hcloser).2.2.2.1 hclose
        refine ⟨_, _, h₁.add (p := .block opener (c.getD .absent)) fun hnone => ?_,
          hlevel.block hopen, absurd hopen, by simp [hmem], by simp⟩
        exact h₁.ended hnone (.bracket opener (c.getD .absent)) hmem
      next hother =>
        have hplain : opener.isBrace = false := by
          simp [Token.isBrace, mt (closer_spec hcloser).2.2.2.2 hother, (closer_spec hcloser).2.2.1]
        refine ⟨_, _, h₁, (h.level.plain hplain).append hlevel, fun _ => hlevel, hmem, ?_⟩
        intro hopen
        simp [Token.isBrace, hopen] at hplain

/-- What is skipped from behind a token on, the token included. -/
theorem skipNested_leads (hcall : Effects W call) (h : s.Fit W) {token : Token}
    (htoken : W.asked → token.kind ≠ .closeCurly) :
    Leads (skipNested call token) s (Brings W s fun _ us ps _ => Level W ps (token :: us)) := by
  have hskip : token.kind.closer?.isSome = true →
      Leads (skipScope call token) s (Brings W s fun _ us ps _ => Level W ps (token :: us)) :=
    fun hopener => .mono (skipScope_leads hcall h hopener) fun _ _ ⟨us, ps, h', hskipped⟩ =>
      ⟨us, ps, h', hskipped.level⟩
  have hstay : token.kind ≠ .openCurly → Leads (Pure.pure none : Parse (Option Token)) s
      (Brings W s fun _ us ps _ => Level W ps (token :: us)) := by
    intro hopen
    refine .pure ⟨[], [], h.past, .of_imp fun hW => h.level.plain ?_⟩
    simp [Token.isBrace, hopen, htoken hW]
  unfold skipNested
  split
  next hkind =>
    refine .bind (.get (.ite (fun _ => hskip (by rw [hkind]; rfl)) fun _ => hstay ?_))
    rw [hkind]
    decide
  next hkind => exact hskip (by rw [hkind]; rfl)
  next hkind => exact hskip (by rw [hkind]; rfl)
  next hkind => exact hskip (by rw [hkind]; rfl)
  next _ hcurly _ _ => exact hstay hcurly

/-- Skipping stops in front of a closing bracket that is left to a rule further out.  A block is
closed by its brace if anything is behind it. -/
theorem skipTo_leads (hcall : Effects W call) (h : s.Fit W) (opener : Token) (closer : TokenKind)
    (hpre : (Rule.skipTo opener closer).Pre s) :
    Leads (skipTo call opener closer) s ((Rule.skipTo opener closer).Effect W s) := by
  obtain ⟨hcloser, hbraces⟩ := hpre
  refine .bind (.read h.past ?_)
  intro token s₁ h₁ _
  split
  next hkind =>
    obtain ⟨hpresent, hopen, -, -⟩ := closer_spec hcloser
    have hclosed : Part.Ended (.bracket opener token) := .inl (by
      simp [Part.isClosed, Token.isPresent, hkind, hpresent])
    refine .pure ⟨_, _, h₁.add fun _ => hclosed, by simp, ?_⟩
    split
    next hcurly =>
      exact (h.level.add (by trivial)).closes (hkind.trans hcurly) (List.forall_mem_nil _)
    next hcurly =>
      exact (h.level.plain (by simp [Token.isBrace, hkind, hopen, hcurly])).add (by trivial)
  next hother =>
    refine .bind (.mayStay h₁ ?_ ?_)
    · intro s₂ h₂ hmore hstay
      refine .bind (.part h₂ (skipNested_leads hcall h₂.left (h₂.not_closeCurly hstay)) ?_)
      intro _ us ps s₃ h₃ hlevel
      have hfront := h.level.span hlevel
      refine .part h₃ (hcall.leads _ s₃ h₃.left ⟨hcloser, fun hcurly => ?_⟩) ?_
      · rw [h₃.advance.accept]
        exact hbraces hcurly
      · rintro c vs qs s₄ h₄ ⟨hmem, hrest⟩
        refine ⟨_, _, h₄, by simp [hmem], ?_⟩
        split at hrest
        next hcurly =>
          rw [if_pos hcurly]
          exact h₄.closes hfront hrest
        next hcurly =>
          rw [if_neg hcurly]
          exact hfront.append hrest
    · intro vs s₂ h₂ hleft _
      refine .bind (.fault h₂ ?_)
      intro s₃ h₃ _ hraw
      refine .pure ⟨_, _, h₃.add (p := .bracket opener .absent) fun hnone => by omega, by simp, ?_⟩
      have hlevel := (hleft.level h.level).add (p := .bracket opener .absent) (by trivial)
      split
      next hcurly =>
        exact hlevel.closes_of_end fun _ => hleft.ended_inBraces (hbraces hcurly) (hcurly ▸ hother)
      next => exact hlevel

/-- Stepping over a token, or leaving it alone. -/
theorem stepOver_leads {Q : Option Token → Session → Prop} (hcall : Effects W call)
    (h : Past W s₀ (us ++ [t]) sc ps s)
    (hnone : ∀ vs s', Past W s₀ (us ++ vs) sc ps s' → Left s₀ t vs s' →
      s'.rawErrors = s.rawErrors → Q none s')
    (hsome : ∀ last vs qs s', Past W s₀ (us ++ [t] ++ vs) sc (ps ++ qs) s' →
      Level W qs (t :: vs) → Q (some last) s') :
    Leads (stepOver call t) s Q := by
  refine .bind (.mayStay h ?_ ?_)
  · intro s₁ h₁ _ hstay
    refine .bind (.part h₁ (skipNested_leads hcall h₁.left (h₁.not_closeCurly hstay)) ?_)
    intro closer vs qs s₂ h₂ hlevel
    exact .pure (hsome _ vs qs s₂ h₂ hlevel)
  · intro vs s₁ h₁ hleft hraw
    exact .pure (hnone vs s₁ h₁ hleft hraw)

/-- The closer of a parenthesis or a square bracket is missing only if there was a fault. -/
theorem closeScope_leads (hcall : Effects W call) (h : s.Fit W) {opener : Token}
    (hopener : opener.kind = .openParen ∨ opener.kind = .openSquare) :
    Leads (closeScope call opener) s (Brings W s fun c us ps _ =>
      Level W ps us ∧ .bracket opener (c.getD .absent) ∈ ps) := by
  have hcloser : opener.kind.closer?.isSome = true := by
    rcases hopener with hkind | hkind <;> rw [hkind] <;> rfl
  refine .bind (.read h.past ?_)
  intro token s₁ h₁ _
  split
  next hkind =>
    have hclosed : Part.Ended (.bracket opener token) := .inl (by
      simp [Part.isClosed, Token.isPresent, (closer_spec hkind.symm).1])
    refine .pure ⟨_, _, h₁.add fun _ => hclosed, .add (h.level.plain ?_) (by trivial), by simp⟩
    rcases hopener with hopen | hopen <;> rw [hopen] at hkind <;>
      simp [Token.isBrace, Option.some.inj hkind]
  next =>
    refine .bind (.still (Parse.still_faultExpected _ _) h₁ ?_)
    intro s₂ h₂ _
    refine .bind (.pushBack h₂ ?_)
    intro s₃ h₃ _ _
    refine .bind (.part h₃ (skipScope_leads hcall h₃.left hcloser) ?_)
    intro c us ps s₄ h₄ hskipped
    have hinner := hskipped.inner (by rcases hopener with hopen | hopen <;> rw [hopen] <;> decide)
    split
    next => exact .pure ⟨_, _, h₄, hinner, hskipped.bracket⟩
    next =>
      refine .bind (.still Parse.still_unmute h₄ ?_)
      intro s₅ h₅ _
      exact .pure ⟨_, _, h₅, hinner, hskipped.bracket⟩

end Grammar

end CppDecl
