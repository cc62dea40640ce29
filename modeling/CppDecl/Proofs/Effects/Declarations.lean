import CppDecl.Proofs.Effects.Specifiers

/-!
# What the rules leave: declarations

Declarations are collected in the innermost scope.  Only at the outermost level a closing brace may
be passed over, and all blocks are matched all the same.

The token behind the word `using` is read whatever it is.
-/

namespace CppDecl.Grammar

open Parse (Brings Collects Leads Left)
open Session (Collecting Fit Past)

variable {W : Concern} {call : Call} {α : Type} {s₀ s s' : Session} {t : Token}
variable {ts us : List Token} {sc : List OpenScope} {ps qs : List Part}

/-! ## Kinds of declarations -/

/-- The semicolon is missing only if there was a fault. -/
theorem requiredSemicolon_leads (h : s.Fit W) :
    Leads requiredSemicolon s (Brings W s fun semicolon us ps s' =>
      Level W ps us ∧ (semicolon.isPresent = true ∨ 0 < s'.rawErrors)) := by
  refine .bind (.read h.past ?_)
  intro token s₁ h₁ _
  split
  next hkind =>
    refine .bind (.still Parse.still_unmute h₁ ?_)
    intro s₂ h₂ _
    exact .pure ⟨_, _, h₂, h.level.kind hkind (by decide), .inl (Token.isPresent_of_kind hkind (by decide))⟩
  next =>
    refine .bind (.fault h₁ ?_)
    intro s₂ h₂ _ hraw
    refine .bind (.pushBack h₂ ?_)
    intro s₃ h₃ _ heq
    exact .pure ⟨_, _, h₃, h.level, .inr (by omega)⟩

/-- A declaration is collected at the end. -/
theorem declare_leads (hsc : Collecting s.scopes) (h : Past W s us s.scopes ps s')
    (hlevel : Level W ps us) {d : Declaration} (hd : d.parts ⊆ ps) :
    Leads (Parse.declare d) s' (Collects W s (Levels W)) :=
  .declare h hsc fun _ h' => ⟨_, _, _, h', (grown_collectIn d s.scopes).mono hd, hlevel⟩

/-- The end of an action that leaves the last token alone. -/
theorem pushBack_leads (h : Past W s (us ++ [t]) s.scopes ps s') (hlevel : Level W ps us) :
    Leads (Parse.pushBack t) s' (Collects W s (Levels W)) :=
  .pushBack h fun _ h' _ _ => ⟨_, _, _, h', (Grown.refl _).mono (by simp), hlevel⟩

/-- A part that comes last. -/
theorem collecting {p : Parse α} (h : Past W s us s.scopes ps s') (hlevel : Level W ps us)
    (hp : Leads p s' (Collects W s' (Levels W))) : Leads p s' (Collects W s (Levels W)) :=
  .collected h hp fun _ _ _ _ _ h' _ hgrown hlevel' =>
    ⟨_, _, _, h', hgrown.mono (by simp), hlevel.append hlevel'⟩

/-- Specifiers and declarators with their semicolon. -/
theorem simpleDeclaration_leads (hcall : Effects W call) (h : s.Fit W) (hsc : Collecting s.scopes)
    (className : String) :
    Leads (simpleDeclaration call className) s (Collects W s (Levels W)) := by
  refine .bind (.peek h.past ?_)
  intro start s₁ h₁ _ _
  refine .bind (.beginActivity h₁ ?_)
  intro activity s₂ h₂ _
  refine .bind (.part h₂ (specified_leads hcall h₂.left _) ?_)
  rintro simple us ps s₃ h₃ ⟨hlevel, hsimple⟩
  refine .bind (.failedSince _ ?_)
  extract_lets hasBody rest
  have hrest : ∀ {s'}, Past W s us s.scopes ps s' →
      Leads (rest ()) s' (Collects W s (Levels W)) := by
    intro s' h'
    refine .ite ?_ ?_
    · intro hbody
      have hended : Part.Ended (.declaration simple.isBodied simple.semicolon) :=
        .inl (by rw [Part.isClosed, show simple.isBodied = true from hbody]; rfl)
      refine declare_leads hsc (h'.add fun _ => hended) (hlevel.add (by trivial)) ?_
      rw [Declaration.parts_simple]
      grind
    · intro hbody
      refine .bind (.part h' (requiredSemicolon_leads h'.left) ?_)
      rintro semicolon vs qs s₄ h₄ ⟨hlevel', hpresent⟩
      have hended : s₄.rawErrors = 0 → Part.Ended (.declaration
          ({ simple with semicolon } : SimpleDeclaration).isBodied semicolon) := by
        intro hnone
        refine .inl ?_
        rw [Part.isClosed, hpresent.resolve_right (by omega), Bool.or_true]
      refine declare_leads hsc (h₄.add hended) ((hlevel.append hlevel').add (by trivial)) ?_
      simp only [Declaration.parts_simple, SimpleDeclaration.parts_eq] at hsimple ⊢
      grind
  refine .ite ?_ fun _ => hrest h₃
  intro _
  refine .bind (.still Parse.still_unmute h₃ ?_)
  intro s₄ h₄ _
  exact .stillIf (Parse.still_fault _ _) h₄ fun s₅ h₅ _ => hrest h₅

/-- Declarations in braces, and what is made of them. -/
theorem scope_leads {opener : Token} (hcall : Effects W call)
    (h : Past W s (us ++ [opener]) s.scopes ps s') (hlevel : Level W ps us)
    (hopen : opener.kind = .openCurly) (hsc : Collecting s.scopes) {scope : Scope}
    (hscope : scope.gathers = true) {make : Token → List Declaration → Declaration}
    (hmake : ∀ closer inner, (make closer inner).parts ⊆
      .block opener closer :: (ps ++ inner.flatMap Declaration.parts)) :
    Leads (do
      Parse.enterScope scope
      let closer ← declarationList call true ""
      let inner ← Parse.members
      Parse.leaveScope scope inner.length
      Parse.declare (make closer inner)) s' (Collects W s (Levels W)) := by
  have hother := Scope.isEnumeration_of_gathers hscope
  refine .bind (.enterScope h hother ?_)
  intro s₁ h₁
  refine .bind (declarationList_leads hcall h₁ hscope "" ?_)
  intro closer inner vs qs s₂ h₂ hends hinner
  obtain ⟨h₂, hl₂⟩ := h₂.block hlevel hopen hends
  refine .bind (.members h₂ ?_)
  refine .bind (.leaveScope h₂ hother (.inr rfl) ?_)
  intro s₃ h₃
  have hparts := hmake closer inner
  exact declare_leads hsc h₃ hl₂ (by grind)

theorem namespaceDeclaration_leads (hcall : Effects W call) (h : s.Fit W)
    (hsc : Collecting s.scopes) (keyword : Token) :
    Leads (namespaceDeclaration call keyword) s (Collects W s (Levels W)) := by
  refine .bind (.read h.past ?_)
  intro first s₁ h₁ _
  extract_lets rest
  have hrest : ∀ {qid token us ps s'}, Past W s (us ++ [token]) s.scopes ps s' → Level W ps us →
      qid.parts ⊆ ps → Leads (rest (qid, token)) s' (Collects W s (Levels W)) := by
    intro qid token us ps s' h' hl hqid
    refine .ite (fun hopen => scope_leads hcall h' hl hopen hsc rfl ?_) ?_
    · intro closer inner
      simp only [Declaration.parts, declarationsParts_eq]
      grind
    · intro _
      refine .bind (.still (Parse.still_faultExpected _ _) h' ?_)
      intro s₂ h₂ _
      refine .bind (.pushBack h₂ ?_)
      intro s₃ h₃ _ _
      refine declare_leads hsc (h₃.add (p := .block .absent .absent) fun _ => .inl rfl)
        (hl.add (Part.matched_of_absent rfl)) ?_
      simp only [Declaration.parts, declarationsParts]
      grind
  split
  · refine .bind (.pushBack h₁ ?_)
    intro s₂ h₂ _ _
    refine .bind (.part h₂ (qualifiedId_leads hcall h₂.left _) ?_)
    rintro qid us ps s₃ h₃ ⟨hlevel, hqid⟩
    refine .bind (.read h₃ ?_)
    intro token s₄ h₄ _
    exact .bind (.pure (hrest h₄ hlevel hqid))
  · exact .bind (.pure (hrest h₁ h.level (by simp)))

theorem templateDeclaration_leads (hcall : Effects W call) (h : s.Fit W)
    (hsc : Collecting s.scopes) (keyword : Token) (className : String) :
    Leads (templateDeclaration call keyword className) s (Collects W s (Levels W)) := by
  refine .bind (.peek h.past ?_)
  intro opener s₁ h₁ hopen _
  extract_lets rest
  have hrest : ∀ {params us ps s'}, Past W s us s.scopes ps s' → Level W ps us →
      params.parts ⊆ ps → Leads (rest params) s' (Collects W s (Levels W)) := by
    intro params us ps s' h' hl hparams
    refine .bind (.enterScope h' rfl ?_)
    intro s₂ h₂
    have hfirst : Collecting s₂.scopes := ⟨_, _, h₂.scopes, rfl⟩
    refine .bind (.collected h₂ (hcall.leads (.declaration className) s₂ h₂.left hfirst) ?_)
    rintro _ vs sc qs s₃ h₃ - ⟨members, rfl, hmembers, hone⟩ ⟨hlevel, -⟩
    have hcount : members.head?.toList.length = members.length := by
      have hle := hone rfl (Nat.zero_le 1)
      cases members with
      | nil => rfl
      | cons d rest => simp_all
    refine .bind (.members h₃ ?_)
    refine .bind (.leaveScope h₃ rfl (.inr hcount) ?_)
    intro s₄ h₄
    refine declare_leads hsc h₄ (hl.append hlevel) ?_
    have hdeclared : declaredParts members.head? ⊆ members.flatMap Declaration.parts := by
      cases members <;> simp [declaredParts]
    simp only [Declaration.parts, List.flatMap_nil, List.nil_append] at hmembers ⊢
    grind
  split
  next hangle =>
    have hplain : opener.isBrace = false := by simp [Token.isBrace, hangle]
    refine .bind (.within (R := Yields W [] ParameterList.parts) h₁ id ?_ ?_)
    · intro s₂ h₂ hqueue _
      exact parameterList_leads hcall h₂ (hopen.of_queue_eq hqueue) hplain true
    · rintro params us ps s₂ h₂ ⟨hlevel, hparams⟩
      exact hrest h₂ hlevel hparams
  next =>
    refine .bind (.pure (hrest (h₁.add (p := .bracket .absent .absent) fun _ => .inl rfl)
      (h.level.add (by trivial)) ?_))
    simp [ParameterList.empty, ParameterList.parts_eq]

/-- The token behind the word is read whatever it is. -/
theorem usingDeclaration_leads (hcall : Effects W call) (h : s.Fit W)
    (hsc : Collecting s.scopes) {usingToken : Token} (husing : usingToken.isWord "using" = true) :
    Leads (usingDeclaration call usingToken) s
      (Collects W s fun _ us ps _ => Level W ps (usingToken :: us)) := by
  -- what is collected behind a semicolon
  have hdeclare : ∀ {d : Declaration} {us ps s'}, Past W s us s.scopes ps s' →
      Level W ps (usingToken :: us) → d.parts ⊆ ps → Leads (Parse.declare d) s'
        (Collects W s fun _ us ps _ => Level W ps (usingToken :: us)) :=
    fun h' hlevel hd => .declare h' hsc fun _ h'' =>
      ⟨_, _, _, h'', (grown_collectIn _ s.scopes).mono hd, hlevel⟩
  refine .bind (.read h.past ?_)
  intro second s₁ h₁ _
  have hl₁ : Level W [] (usingToken :: ([] ++ [second])) :=
    Level.nil.blind (by rw [Token.isBlind, husing, Bool.true_or])
  split
  · refine .bind (.part h₁ (qualifiedId_leads hcall h₁.left _) ?_)
    rintro qid us ps s₂ h₂ ⟨hlevel, hqid⟩
    refine .bind (.part h₂ (requiredSemicolon_leads h₂.left) ?_)
    rintro semicolon vs qs s₃ h₃ ⟨hlevel', -⟩
    refine hdeclare h₃ ((hl₁.append hlevel).append hlevel') ?_
    simp only [Declaration.parts]
    grind
  · refine .bind (.read h₁ ?_)
    intro equals s₂ h₂ _
    split
    next =>
      refine .bind (.still (Parse.still_fault _ _) h₂ ?_)
      intro s₃ h₃ _
      exact .pushBack h₃ fun _ h' _ _ => ⟨_, _, _, h', Grown.refl _, hl₁⟩
    next hequals =>
      have hl₂ := hl₁.kind (not_not.1 hequals) (by decide)
      refine .bind (.part h₂ (specified_leads hcall h₂.left _) ?_)
      rintro ⟨specifiers, declarators, last⟩ us ps s₃ h₃ ⟨hlevel, hsimple⟩
      refine .bind (.part h₃ (requiredSemicolon_leads h₃.left) ?_)
      rintro semicolon vs qs s₄ h₄ ⟨hlevel', -⟩
      refine hdeclare h₄ ((hl₂.append hlevel).append hlevel') ?_
      simp only [SimpleDeclaration.parts] at hsimple
      cases declarators with
      | nil =>
        simp only [Declaration.parts, Declarator.empty, Declarator.parts, QualifiedId.empty,
          QualifiedId.parts, Unqualified.parts, chainParts, nestedNamesParts]
        grind
      | cons d rest =>
        obtain ⟨declarator, init, comma⟩ := d
        simp only [initDeclaratorsParts, InitDeclarator.parts] at hsimple
        simp only [Declaration.parts]
        grind

theorem accessLabel_leads (h : s.Fit W) (hsc : Collecting s.scopes) (keyword : Token) :
    Leads (accessLabel keyword) s (Collects W s (Levels W)) := by
  refine .bind (.read h.past ?_)
  intro colon s₁ h₁ _
  split
  next hcolon => exact declare_leads hsc h₁ (h.level.kind hcolon (by decide)) (by simp [Declaration.parts])
  next =>
    refine .bind (.still (Parse.still_fault _ _) h₁ ?_)
    intro s₂ h₂ _
    exact pushBack_leads h₂ h.level

theorem staticAssert_leads (hcall : Effects W call) (h : s.Fit W) (hsc : Collecting s.scopes)
    (keyword : Token) :
    Leads (staticAssert call keyword) s (Collects W s (Levels W)) := by
  refine .bind (.read h.past ?_)
  intro opener s₁ h₁ _
  split
  next =>
    refine .bind (.still (Parse.still_fault _ _) h₁ ?_)
    intro s₂ h₂ _
    exact pushBack_leads h₂ h.level
  next hparen =>
    have hopener : opener.kind.closer?.isSome = true := by rw [not_not.1 hparen]; rfl
    refine .bind (.part h₁ (skipScope_leads hcall h₁.left hopener) ?_)
    rintro (_ | closer) us ps s₂ h₂ hskipped
    · exact .pure ⟨_, _, _, h₂, (Grown.refl _).mono (by simp), h.level.span hskipped.level⟩
    · refine .bind (.part h₂ (requiredSemicolon_leads h₂.left) ?_)
      rintro semicolon vs qs s₃ h₃ ⟨hlevel, -⟩
      have hbracket := hskipped.bracket
      refine declare_leads hsc h₃ ((h.level.span hskipped.level).append hlevel) ?_
      simp only [Declaration.parts, callArgumentsParts, Option.getD_some] at hbracket ⊢
      grind

/-- A declaration that begins with `extern` is read again from there if it is no block. -/
theorem externDeclaration_leads {first : Token} (hcall : Effects W call)
    (h : Past W s ([] ++ [first]) s.scopes [] s') (hsc : Collecting s.scopes)
    (hfirst : first.isBrace = false) (className : String) :
    Leads (externDeclaration call first className) s' (Collects W s (Levels W)) := by
  refine .bind (.pushBack h ?_)
  intro s₁ h₁ hpending _
  refine .bind (.beginTrial ?_)
  intro trial s₂ hbegun
  have htrial := hbegun.past h₁
  extract_lets giveUp
  have hgiveUp : ∀ {us s'}, Past W s₂ us s.scopes [] s' →
      Leads giveUp s' (Collects W s (Levels W)) := by
    intro us s' h'
    refine .bind (.abandon h₁ hbegun h' ?_)
    intro s₃ h₃ _
    exact collecting h₃ h₁.fit.level (simpleDeclaration_leads hcall h₃.left (h₃.scopes ▸ hsc) className)
  refine .bind (.readEven htrial ?_)
  intro externToken s₃ h₃ hfirst' hraw₃
  obtain rfl := hfirst' first (hbegun.pending hpending)
  refine .bind (.readEven h₃ ?_)
  intro literal s₄ h₄ _ hraw₄
  refine .ite ?_ fun _ => hgiveUp h₄
  intro hliteral
  refine .bind (.readEven h₄ ?_)
  intro opener s₅ h₅ _ hraw₅
  refine .ite ?_ fun _ => hgiveUp h₅
  intro hopen
  refine .bind (.endTrial h₁ hbegun h₅ ?_ ?_)
  · rw [Session.rawErrorCount, hraw₅, hraw₄, hraw₃, hbegun.rawErrors_eq]
  intro s₆ h₆
  have hl₆ := (h.fit.level.plain hfirst).kind hliteral (by decide)
  refine scope_leads hcall h₆ hl₆ hopen hsc rfl ?_
  intro closer inner
  simp [Declaration.parts]

/-! ## Lists of declarations -/

theorem declaration_leads (hcall : Effects W call) (h : s.Fit W) (hsc : Collecting s.scopes)
    (className : String) :
    Leads (declaration call className) s ((Rule.declaration className).Effect W s) := by
  refine .bind (.read h.past ?_)
  intro token s₁ h₁ _
  -- a declaration that is found
  have hfound : ∀ {p : Parse Unit} {s'}, Leads p s' (Collects W s (Levels W)) →
      Leads (do p; return true) s' ((Rule.declaration className).Effect W s) := by
    intro p s' hp
    refine .bind (hp.mono ?_)
    rintro _ s'' ⟨us, sc, ps, h', hgrown, hlevel⟩
    exact .pure ⟨us, sc, ps, h', hgrown, hlevel, nofun⟩
  have hsimple : Leads (do Parse.pushBack token; simpleDeclaration call className) s₁
      (Collects W s (Levels W)) := by
    refine .bind (.pushBack h₁ ?_)
    intro s₂ h₂ _ _
    exact collecting h₂ h.level (simpleDeclaration_leads hcall h₂.left (h₂.scopes ▸ hsc) className)
  split
  next hname =>
    have hplain : token.isBrace = false := by simp [Token.isBrace, hname]
    -- a declaration behind its first word
    have hbehind : ∀ {p : Parse Unit}, (∀ s', s'.Fit W → Collecting s'.scopes →
        Leads p s' (Collects W s' (Levels W))) →
        Leads (do Parse.unmute; p) s₁ (Collects W s (Levels W)) := by
      intro p hp
      refine .bind (.still Parse.still_unmute h₁ ?_)
      intro s₂ h₂ _
      exact collecting h₂ (h.level.plain hplain) (hp s₂ h₂.left (h₂.scopes ▸ hsc))
    refine .ite ?_ ?_
    · intro _
      refine hfound (p := do Parse.unmute; externDeclaration call token className) ?_
      refine .bind (.still Parse.still_unmute h₁ ?_)
      intro s₂ h₂ _
      exact externDeclaration_leads hcall h₂ hsc hplain className
    intro _
    refine .ite (fun _ => hfound (hbehind fun s' h' hsc' => accessLabel_leads h' hsc' token)) ?_
    intro _
    refine .ite (fun _ => hfound (hbehind fun s' h' hsc' => staticAssert_leads hcall h' hsc' token)) ?_
    intro _
    refine .ite (fun _ => hfound (hbehind fun s' h' hsc' =>
      namespaceDeclaration_leads hcall h' hsc' token)) ?_
    intro _
    refine .ite (fun _ => hfound (hbehind fun s' h' hsc' =>
      templateDeclaration_leads hcall h' hsc' token className)) ?_
    intro _
    refine .ite ?_ fun _ => hfound hsimple
    intro htext
    refine .bind (.still Parse.still_unmute h₁ ?_)
    intro s₂ h₂ _
    refine .bind (.collected h₂ (usingDeclaration_leads hcall h₂.left (h₂.scopes ▸ hsc) ?_) ?_)
    · simp [Token.isWord, hname, htext]
    · intro _ us sc ps s₃ h₃ _ hgrown hlevel
      exact .pure ⟨_, _, _, h₃, hgrown, hlevel, nofun⟩
  next hsemicolon =>
    exact hfound (declare_leads hsc h₁ (h.level.kind hsemicolon (by decide)) (by simp [Declaration.parts]))
  next => exact hfound hsimple
  next =>
    refine .bind (.pushBack h₁ ?_)
    intro s₂ h₂ _ _
    exact .pure ⟨_, _, _, h₂, Grown.refl _, h.level, fun _ => rfl⟩

/-- A list of declarations ends at its closing brace.  Without it, what is in the list is matched. -/
theorem declarations_leads (hcall : Effects W call) (h : s.Fit W) (closeExpected : Bool)
    (className : String) (hbraces : s.accept.InBraces) (hsc : Gathering s.scopes) :
    Leads (declarations call closeExpected className) s
      ((Rule.declarations closeExpected className).Effect W s) := by
  refine .bind (.read h.past ?_)
  intro token s₁ h₁ _
  refine .ite ?_ ?_
  · intro hkind
    cases closeExpected with
    | true =>
      refine .pure ⟨_, _, _, h₁, Grown.refl _, h.level.closes hkind nofun, fun habsent => ?_⟩
      rw [Token.isPresent_of_kind hkind (by decide)] at habsent
      cases habsent
    | false =>
      refine .bind (.pushBack h₁ ?_)
      intro s₂ h₂ hpending _
      exact .pure ⟨_, _, _, h₂, Grown.refl _, fun _ => List.forall_mem_nil _, .inr ⟨_, hpending, hkind⟩⟩
  intro hkind
  refine .bind (.pushBack h₁ ?_)
  intro s₂ h₂ hpending _
  -- the rest of the list; in braces, what is in front of it is level
  have hlast : ∀ {us sc ps s'}, Past W s us sc ps s' → Grown ps s.scopes sc →
      (closeExpected = true → Level W ps us) → (W.asked → ∀ p ∈ ps, p.Matched W.closed us) →
      Leads (call (.declarations closeExpected className)) s'
        ((Rule.declarations closeExpected className).Effect W s) := by
    intro us sc ps s' h' hgrown hlevel hmatched
    have haccept : s'.accept.InBraces := h'.advance.accept ▸ hbraces
    have hsc' : Gathering s'.scopes := h'.scopes ▸ hsc.grown hgrown
    refine .collected h' (hcall.leads _ s' h'.left ⟨haccept, hsc'⟩) ?_
    intro closer vs sc' qs s'' h'' _ hgrown' hrest
    refine ⟨_, _, _, h'', hgrown.trans hgrown', ?_⟩
    cases closeExpected with
    | true => exact Ends.after h'' (hlevel rfl) hrest (Nat.le_refl _)
    | false =>
      refine ⟨fun hW => List.forall_mem_append.2 ⟨fun p hp => (hmatched hW p hp).left vs,
        fun p hp => (hrest.1 hW p hp).right us⟩, ?_⟩
      exact hrest.2.imp_left fun ⟨t, ht, hend⟩ => ⟨t, List.mem_append_right _ ht, hend⟩
  have hsc₂ : Collecting s₂.scopes := h₂.scopes ▸ hsc.collecting
  refine .bind (.collected h₂ (hcall.leads (.declaration className) s₂ h₂.left hsc₂) ?_)
  rintro (_ | _) us sc ps s₃ h₃ hadvance hgrown ⟨hlevel, hnone⟩
  · obtain rfl := hnone rfl
    refine .bind (.read h₃ ?_)
    intro token' s₄ h₄ hfirst
    obtain rfl := hfirst token (hpending.advance hadvance)
    refine .bind (.fault h₄ ?_)
    intro s₅ h₅ _ hraw
    refine .ite ?_ ?_
    · intro hclose
      refine hlast h₅ hgrown ?_ fun hW p hp => (hlevel.matched hW p hp).left _
      rintro rfl
      exact absurd hclose hkind
    intro hclose
    refine .bind (stepOver_leads hcall h₅ ?_ ?_)
    · intro vs s₆ h₆ hleft hraw'
      refine .pure ⟨_, _, _, h₆, hgrown, ?_⟩
      have hl₆ := hleft.level hlevel
      cases closeExpected with
      | true =>
        exact ⟨hl₆.closes_of_end fun _ => hleft.ended_inBraces hbraces hclose, fun _ => by omega⟩
      | false =>
        obtain ⟨u, hu, hend⟩ := hleft.ended_inBraces hbraces hclose
        exact ⟨hl₆.matched, .inl ⟨u, List.mem_append_right _ hu, hend⟩⟩
    · intro _ vs qs s₆ h₆ hlevel'
      have hl₆ := hlevel.span hlevel'
      exact hlast h₆ (hgrown.mono (by simp)) (fun _ => hl₆) hl₆.matched
  · exact hlast h₃ hgrown (fun _ => hlevel) hlevel.matched

end CppDecl.Grammar
