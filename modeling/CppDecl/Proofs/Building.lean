import CppDecl.Proofs.Arguments
import CppDecl.Proofs.Declares

/-!
# What the rules build

Each rule of the grammar builds from what it is given (`Grammar.run_builds`).
-/

namespace CppDecl

open Session (Tidy Gained Built Advance Declared Lists Pending Separated Opened ListsArguments)

namespace Parse

variable {α β : Type} [Itemed α] [Itemed β]

/-- The action builds from whatever the value is made of. -/
def BuildsFrom (b : β) (p : Parse α) : Prop := ∀ G : List Item, Among b G → Builds G p

end Parse

open Parse (Builds BuildsFrom BuildsBehind)

/-- What a rule builds. -/
def Rule.Builds : {α : Type} → Rule α → Parse α → Prop
  | _, .skipTo _ _, p | _, .nameTail, p | _, .expression _, p => BuildsFrom () p
  | _, .literals last, p | _, .expressions _ last, p => BuildsFrom last p
  | _, .nestedNames soFar, p => BuildsFrom soFar p
  | _, .templateArguments soFar, p => ∀ G : List Item, Among soFar G → ∀ s result s', s.Tidy →
      p s = .ok (result, s') → ListsArguments G s s' result
  | _, .templateSeparator start argument, p => ∀ s result s', s.Tidy → p s = .ok (result, s') →
      Separated start argument s s' result
  | _, .parameters _ soFar, p => BuildsFrom soFar p
  | _, .functionQualifiers soFar, p => BuildsFrom soFar p
  | _, .conversionSpecifiers soFar _, p => BuildsFrom soFar p
  | _, .conversionPointers soFar _, p => BuildsFrom soFar p
  | _, .declarator outer _ _, p => BuildsFrom outer p
  | _, .suffixes soFar _ _, p => BuildsFrom soFar p
  | _, .memberInitializers soFar, p => BuildsFrom soFar p
  | _, .initDeclarators soFar, p => BuildsFrom soFar p
  | _, .bases soFar, p => BuildsFrom soFar p
  | _, .virtSpecifiers soFar, p => ∀ s result s', s.Tidy → p s = .ok (result, s') →
      ∃ s₁, Built (items soFar) (items result.1) s s₁ ∧ s₁.Advance [result.2] s' ∧
        s'.scopes = s₁.scopes
  | _, .enumerators soFar, p => BuildsFrom soFar p
  | _, .specifiers _ soFar, p => BuildsFrom soFar.simple p
  | _, .declaration _, p => ∀ s found s', s.Tidy → p s = .ok (found, s') → Declared s s'
  | _, .declarations _ _, p => ∀ s closer s', s.Tidy → p s = .ok (closer, s') → Lists closer s s'

/-- Calls build what their rules do. -/
class Call.Builds (call : Call) : Prop where
  /-- What each call builds. -/
  builds : ∀ {α : Type} (rule : Rule α), rule.Builds (call rule)

namespace Grammar

open Parse

variable {call : Call} [hcall : Call.Builds call] {G : List Item}

-- there is an instance for each step of an action
set_option synthInstance.maxSize 1000

/-! ## Calls -/

instance {opener : Token} {closer : TokenKind} : Builds G (call (.skipTo opener closer)) :=
  hcall.builds (.skipTo opener closer) G inferInstance

instance : Builds G (call .nameTail) := hcall.builds .nameTail G inferInstance

instance {last : Token} [Among last G] : Builds G (call (.literals last)) :=
  hcall.builds (.literals last) G inferInstance

instance {opener : TokenKind} {last : Token} [Among last G] :
    Builds G (call (.expressions opener last)) :=
  hcall.builds (.expressions opener last) G inferInstance

instance {optional : Bool} : Builds G (call (.expression optional)) :=
  hcall.builds (.expression optional) G inferInstance

instance {soFar : List NestedName} [Among soFar G] : Builds G (call (.nestedNames soFar)) :=
  hcall.builds (.nestedNames soFar) G inferInstance

instance {forTemplate : Bool} {soFar : ParameterList} [Among soFar G] :
    Builds G (call (.parameters forTemplate soFar)) :=
  hcall.builds (.parameters forTemplate soFar) G inferInstance

instance {soFar : List Token} [Among soFar G] : Builds G (call (.functionQualifiers soFar)) :=
  hcall.builds (.functionQualifiers soFar) G inferInstance

instance {soFar : List Specifier} {hasType : Bool} [Among soFar G] :
    Builds G (call (.conversionSpecifiers soFar hasType)) :=
  hcall.builds (.conversionSpecifiers soFar hasType) G inferInstance

instance {soFar : Chain} {allowed : Bool} [Among soFar G] :
    Builds G (call (.conversionPointers soFar allowed)) :=
  hcall.builds (.conversionPointers soFar allowed) G inferInstance

instance {outer : Chain} {form : DeclaratorForm} {allowed : Bool} [Among outer G] :
    Builds G (call (.declarator outer form allowed)) :=
  hcall.builds (.declarator outer form allowed) G inferInstance

instance {soFar : Declarator} {depth : Nat} {nameMissing : Bool} [Among soFar G] :
    Builds G (call (.suffixes soFar depth nameMissing)) :=
  hcall.builds (.suffixes soFar depth nameMissing) G inferInstance

instance {soFar : List MemberInitializer} [Among soFar G] :
    Builds G (call (.memberInitializers soFar)) :=
  hcall.builds (.memberInitializers soFar) G inferInstance

instance {soFar : SimpleDeclaration} [Among soFar G] : Builds G (call (.initDeclarators soFar)) :=
  hcall.builds (.initDeclarators soFar) G inferInstance

instance {soFar : List BaseSpecifier} [Among soFar G] : Builds G (call (.bases soFar)) :=
  hcall.builds (.bases soFar) G inferInstance

instance {soFar : List Enumerator} [Among soFar G] : Builds G (call (.enumerators soFar)) :=
  hcall.builds (.enumerators soFar) G inferInstance

instance {mode : Mode} {soFar : SpecifierState} [Among soFar.simple G] :
    Builds G (call (.specifiers mode soFar)) :=
  hcall.builds (.specifiers mode soFar) G inferInstance

/-! ## Skipping -/

instance {opener : Token} : Builds G (skipScope call opener) := by
  unfold skipScope
  split <;> infer_instance

instance {token : Token} : Builds G (skipNested call token) := by
  unfold skipNested
  split <;> infer_instance

instance {opener : Token} {closer : TokenKind} : Builds G (skipTo call opener closer) := by
  have hstays : ∀ token : Token, BuildsBehind G token (do
      if !(← mayStay token) then
        fault true (.unclosed token opener)
        return none
      let _ ← skipNested call token
      call (.skipTo opener closer)) := by
    intro token
    refine .mayStay ?_ ?_ <;> infer_instance
  unfold skipTo
  infer_instance

/-- A token that makes no sense is left to a rule further out, or the list goes on behind it. -/
instance buildsBehind_stepOver {α : Type} [Itemed α] {token : Token} {p : Parse α}
    {f : Token → Parse α} [hp : Builds G p]
    [hf : ∀ last, Builds (G ++ items token ++ items last) (f last)] :
    BuildsBehind G token (do match ← stepOver call token with | none => p | some last => f last) := by
  unfold stepOver
  simp only [bind_assoc]
  refine .mayStay ?_ ?_
  · have hgoOn : ∀ closer : Option Token,
        Builds (G ++ items token ++ items closer) (f (closer.getD token)) := by
      rintro (_ | closer)
      · exact (hf token).mono (by simp [items])
      · exact (hf closer).mono (by simp [items])
    simp only [Bool.not_true, Bool.false_eq_true, ↓reduceIte, bind_assoc, pure_bind]
    infer_instance
  · simp only [Bool.not_false, ↓reduceIte]
    exact hp

instance {opener : Token} : Builds G (closeScope call opener) := by
  unfold closeScope
  have hskip : Builds G (do match ← skipScope call opener with
      | none => return none
      | some closer =>
        unmute
        return some closer) := by
    refine .seq inferInstance ?_
    rintro (_ | closer) <;> infer_instance
  infer_instance

/-! ## Names -/

instance {soFar : List NestedName} {component : NestedName} [Among soFar G] [Among component G] :
    Builds G (nestedSeparator call soFar component) := by
  unfold nestedSeparator
  infer_instance

/-- Template arguments that are closed lie between their brackets. -/
theorem buildsBehind_arguments {α : Type} [Itemed α] {openAngle : Token}
    {f : List TemplateArgument × Token → Parse α}
    (hf : ∀ args closer,
      Builds (G ++ items (ArgumentList.mk openAngle closer args, openAngle, closer)) (f (args, closer))) :
    BuildsBehind G openAngle (inside .openAngle (call (.templateArguments [])) >>= f) := by
  refine ⟨fun {s₀ s a s'} hs hopen hscopes heq => ?_⟩
  let inner := s.bracketed (s.accept.inside .openAngle)
    (closeAnglesInside .openAngle s.reader.closeAnglesOnly)
  obtain ⟨⟨⟨args, closer⟩, s₁⟩, hinside, hrest⟩ := Halt.bind_eq_ok heq
  obtain ⟨⟨_, s₂⟩, hrun, hdone⟩ := Halt.bind_eq_ok (show (call (.templateArguments []) inner >>= fun x =>
    .ok (x.1, x.2.bracketed s.accept s.reader.closeAnglesOnly)) = .ok ((args, closer), s₁) from hinside)
  cases hdone
  have hlists := hcall.builds (.templateArguments []) [] inferInstance inner _ s₂
    ((hs.advance hopen).bracketed _ _) hrun
  obtain ⟨us, hadvance, hscopes', hgained⟩ := hlists.built ((hs.advance hopen).bracketed _ _)
  have hall := hopen.trans (hadvance.of_bracketed (b := s.reader.closeAnglesOnly)
    (hs.advance hopen).orderly.sound) hs.orderly.sound
  have hbuilt : Built G (items (ArgumentList.mk openAngle closer args, openAngle, closer)) s₀
      (s₂.bracketed s.accept s.reader.closeAnglesOnly) := by
    refine ⟨_, hall, hscopes'.trans hscopes, fun i hi hcounts => .inr ?_⟩
    have hnew (hi : i ∈ items (args, closer)) : Gained ([openAngle] ++ us)
        (s₂.bracketed s.accept s.reader.closeAnglesOnly) i :=
      (((hgained i hi hcounts).resolve_left List.not_mem_nil).of_queue_eq rfl).append_left _
    rcases List.mem_append.1 hi with hi | hi
    · rcases List.mem_cons.1 hi with rfl | hi
      · exact hlists.enclosed hs hopen hcounts
      · exact hnew (List.mem_append_left _ hi)
    · rcases List.mem_append.1 hi with hi | hi
      · obtain rfl := List.mem_singleton.1 hi
        exact .inl List.mem_cons_self
      · exact hnew (List.mem_append_right _ hi)
  exact (hf args closer).andThen hs hbuilt hrest

instance {soFar : List NestedName} [Among soFar G] : Builds G (nestedNames call soFar) := by
  have hnamed : ∀ (H : List Item) (token punc : Token) [Among token H] [Among soFar H],
      BuildsBehind H punc (do
      if punc.kind = .openAngle && (← get).passNumber ≤ 1 then
        let (args, closer) ← inside .openAngle (call (.templateArguments []))
        let component := NestedName.named token punc closer args .absent
        if closer.isPresent then
          nestedSeparator call soFar component
        else
          return soFar ++ [component]
      else
        pushBack punc
        nestedSeparator call soFar (.named token .absent .absent [] .absent)) := by
    intro H token punc _ _
    have harguments : BuildsBehind H punc (do
        let (args, closer) ← inside .openAngle (call (.templateArguments []))
        let component := NestedName.named token punc closer args .absent
        if closer.isPresent then
          nestedSeparator call soFar component
        else
          return soFar ++ [component]) :=
      buildsBehind_arguments fun args closer => inferInstance
    infer_instance
  unfold nestedNames
  infer_instance

instance {mode : Mode} : Builds G (specified call mode) := by
  unfold specified
  infer_instance

instance {keyword : Token} [Among keyword G] : Builds G (operatorName keyword) := by
  unfold operatorName
  infer_instance

instance : Builds G specialName := by
  unfold specialName
  infer_instance

instance {need : Completeness} : Builds G (qualifiedId call need) := by
  unfold qualifiedId
  infer_instance

/-- A token that makes no sense has been stepped over, or it is gained where it is left alone. -/
theorem stepOver_cases {s₀ s s' : Session} {t : Token} {last? : Option Token} (hs : s₀.Tidy)
    (hadvance : s₀.Advance [t] s) (hscopes : s.scopes = s₀.scopes)
    (heq : stepOver call t s = .ok (last?, s')) :
    ∃ us, s₀.Advance us s' ∧ s'.scopes = s₀.scopes ∧
      ((∃ last, last? = some last ∧ (last.isPresent = true → Gained us s' (.token last)) ∧ t ∈ us) ∨
        last? = none ∧ (t.kind ≠ .closeAngle → Gained us s' (.token t))) := by
  obtain ⟨⟨stays, s₁⟩, hstays, heq⟩ := Halt.bind_eq_ok heq
  rcases mayStay_cases hstays with ⟨rfl, -⟩ | ⟨rfl, hleaves, hback⟩
  · cases stays with
    | false =>
      cases heq
      exact ⟨[t], hadvance, hscopes, .inr ⟨rfl, fun _ => .inl (by simp)⟩⟩
    | true =>
      obtain ⟨⟨closer, s₂⟩, hskip, hlast⟩ :=
        Halt.bind_eq_ok (show (skipNested call t s₁ >>= _) = _ from heq)
      cases hlast
      have hbuilds : Builds [] (skipNested call t) := inferInstance
      obtain ⟨vs, hadvance', hscopes', hgained⟩ := hbuilds.built (hs.advance hadvance) hskip
      refine ⟨[t] ++ vs, hadvance.trans hadvance' hs.orderly.sound, hscopes'.trans hscopes,
        .inl ⟨_, rfl, fun hpresent => ?_, by simp⟩⟩
      cases closer with
      | none => exact .inl List.mem_cons_self
      | some c =>
        exact ((hgained (.token c) (by simp [items]) hpresent).resolve_left List.not_mem_nil).append_left [t]
  · cases heq
    obtain ⟨hback', hpending⟩ := (show s₀.Advance ([] ++ [t]) s from hadvance).pushBack hs.orderly
    cases hback
    have hmore : t.kind ≠ .endOfFile := by
      intro hend
      rw [hend] at hleaves
      cases hleaves
    have hleft : Left s t [] { s with queue := s.queue.pushBack t } := .back hmore hpending hleaves
    exact ⟨[], hback', hscopes, .inr ⟨rfl, fun hangle => .inr ⟨hpending, hleft.cutOff hangle⟩⟩⟩

/-- What separates template arguments.  The token that comes next is gained, whatever becomes of it. -/
theorem templateSeparator_builds (start : Token) (argument : TemplateArgument) :
    (Rule.templateSeparator start argument).Builds (templateSeparator call start argument) := by
  intro s result s' hs heq
  obtain ⟨⟨sep, s₁⟩, hread, heq⟩ := Halt.bind_eq_ok heq
  obtain ⟨hadvance, hfirst⟩ := hs.orderly.read hread
  have hscopes := (Session.read_steady hs.orderly.sound hread).2.2
  dsimp only at heq
  split at heq
  next hkind =>
    cases heq
    have hstill : s₁.Advance [] { s₁ with muted := false } :=
      Session.Same.advance ⟨.refl _, rfl, rfl, rfl⟩
    have hsep := hadvance.trans hstill hs.orderly.sound
    rw [List.append_nil] at hsep
    exact .atOnce hsep hscopes (by simpa using hkind)
  next hother =>
    obtain ⟨⟨last?, s₂⟩, hstep, heq⟩ := Halt.bind_eq_ok heq
    have hangle : sep.kind ≠ .closeAngle := by
      rintro hkind
      exact hother (by simp [hkind])
    obtain ⟨us, hadvance', hscopes', ⟨last, rfl, hlast, hsep⟩ | ⟨rfl, hsep⟩⟩ :=
      stepOver_cases hs hadvance hscopes hstep
    · have hmore := hcall.builds (.templateSeparator start (.unknown start last .absent)) s₂ result s'
        (hs.advance hadvance') heq
      exact hmore.steppedOver hs hadvance' hscopes' (List.ne_nil_of_mem hsep) hlast
    · cases heq
      refine .cutOff hadvance' hscopes' (fun t ht => hfirst t ht ▸ hsep hangle) fun i hi hcounts => ?_
      obtain rfl | rfl | rfl : i = .token start ∨ i = .token sep ∨ i = .token .absent := by
        simpa [items, TemplateArgument.items] using hi
      · exact .inl (by simp [items])
      · exact .inr (hsep hangle)
      · cases hcounts

/-- What comes behind a template argument. -/
theorem templateArgumentRest_lists {soFar : List TemplateArgument} {start : Token}
    {argument : TemplateArgument} {s s' : Session} {result : List TemplateArgument × Token}
    [Among soFar G] (hs : s.Tidy) (hopened : Opened G start argument s)
    (heq : templateArgumentRest call soFar start argument s = .ok (result, s')) :
    ListsArguments G s s' result := by
  obtain ⟨⟨⟨argument', sep⟩, s₁⟩, hfirst, hrest⟩ := Halt.bind_eq_ok heq
  have hseparated := hcall.builds (.templateSeparator start argument) s _ s₁ hs hfirst
  dsimp only at hrest
  split at hrest
  next =>
    have hbuilt := hseparated.built hs hopened
    refine .after hs.orderly.sound hbuilt ?_
    exact hcall.builds (.templateArguments (soFar ++ [withComma sep argument'])) _ inferInstance
      s₁ result s' (hbuilt.tidy hs) hrest
  next hlast =>
    cases hrest
    exact hseparated.listed hs hopened hlast

theorem templateArguments_lists (soFar : List TemplateArgument) :
    (Rule.templateArguments soFar).Builds (templateArguments call soFar) := by
  intro G _ s result s' hs heq
  rw [templateArguments_eq] at heq
  obtain ⟨⟨start, s₁⟩, hpeek, hrest⟩ := Halt.bind_eq_ok heq
  obtain ⟨hbuilt, hpending⟩ := peek_built (G := G) hs hpeek
  refine .after hs.orderly.sound hbuilt ?_
  rw [List.append_nil]
  have hs₁ := hbuilt.tidy hs
  have hattempt : Builds G (argumentAttempt call soFar start).attempt := by
    unfold argumentAttempt
    infer_instance
  rcases speculation_built hattempt hs₁ hrest with
    ⟨simple, s₂, hsimple, hrest⟩ | ⟨s₂, hadvance, hscopes, hrest⟩
  · obtain ⟨us, hadvance, hscopes, hgained⟩ := id hsimple
    by_cases hus : us = []
    · subst hus
      refine .after hs₁.orderly.sound hsimple ?_
      exact templateArgumentRest_lists (hs₁.advance hadvance)
        ⟨.inr (hpending.advance hadvance), .inl inferInstance⟩ hrest
    · have hstart : Built G (items (simple, start)) s₁ s₂ := by
        refine ⟨_, hadvance, hscopes, fun i hi hcounts => ?_⟩
        rcases List.mem_append.1 hi with hi | hi
        · exact hgained i hi hcounts
        · obtain rfl := List.mem_singleton.1 hi
          exact .inr (hpending.gained hadvance hus)
      refine .after hs₁.orderly.sound hstart ?_
      exact templateArgumentRest_lists (hs₁.advance hadvance) ⟨.inl inferInstance, .inl inferInstance⟩
        hrest
  · have hback : Built G [] s₁ s₂ := ⟨[], hadvance, hscopes, List.forall_mem_nil _⟩
    refine .after hs₁.orderly.sound hback ?_
    rw [List.append_nil]
    exact templateArgumentRest_lists (hs₁.advance hadvance)
      ⟨.inr (hpending.advance hadvance), .inr rfl⟩ hrest

/-! ## Blocks -/

theorem declarationList_lists {s s' : Session} {closer : Token} {closeExpected : Bool}
    {className : String} (hs : s.Tidy)
    (heq : declarationList call closeExpected className s = .ok (closer, s')) :
    Lists closer s s' := by
  let inner := s.bracketed (s.accept.inside .openCurly)
    (closeAnglesInside .openCurly s.reader.closeAnglesOnly)
  obtain ⟨⟨a, s₁⟩, hrun, hrest⟩ := Halt.bind_eq_ok (show
    (call (.declarations closeExpected className) inner >>= fun x =>
      .ok (x.1, x.2.bracketed s.accept s.reader.closeAnglesOnly)) = .ok (closer, s') from heq)
  cases hrest
  intro top outer hscopes hgathers
  obtain ⟨us, new, hlisted, hmembers, hcloser⟩ := hcall.builds (.declarations closeExpected className)
    inner a s₁ (hs.bracketed _ _) hrun top outer hscopes hgathers
  refine ⟨us, new, ⟨hlisted.advance.of_bracketed hs.orderly.sound, fun i hi hcounts => ?_,
    hlisted.apart, hlisted.begins⟩, hmembers, hcloser⟩
  exact (hlisted.gained i hi hcounts).of_queue_eq rfl

theorem members_eq {s : Session} {top : OpenScope} {outer : List OpenScope}
    (hscopes : s.scopes = top :: outer) : members s = .ok (top.members, s) := by
  cases s
  cases hscopes
  rfl

/-- The declarations of a block are collected in a scope of its own. -/
theorem block_built {β : Type} {scope : Scope} {closeExpected : Bool} {className : String}
    {f : Token → List Declaration → Parse β} {s s' : Session} {b : β}
    (hgathers : scope.gathers = true) (hs : s.Tidy)
    (heq : (do
      enterScope scope
      let closer ← declarationList call closeExpected className
      let inner ← members
      leaveScope scope inner.length
      f closer inner) s = .ok (b, s')) :
    ∃ closer inner s₁, Built G (items (closer, Block.mk inner)) s s₁ ∧
      f closer inner s₁ = .ok (b, s') := by
  let s₁ : Session :=
    { s with scopes := ⟨scope, []⟩ :: s.scopes, log := .entered (scope :: s.path) :: s.log }
  obtain ⟨⟨closer, s₂⟩, hlist, hrest⟩ := Halt.bind_eq_ok (show
    (declarationList call closeExpected className s₁ >>= _) = _ from heq)
  have hthere : s.Advance [] s₁ := Session.Same.advance ⟨.refl _, rfl, rfl, rfl⟩
  obtain ⟨us, inner, hlisted, hscopes, hcloser⟩ :=
    declarationList_lists (hs.advance hthere) hlist ⟨scope, []⟩ s.scopes rfl hgathers
  let s₃ : Session := { s₂ with
    scopes := s.scopes, log := .left (scope :: s₂.path.drop 1) inner.length :: s₂.log }
  have hback : s₂.Advance [] s₃ := Session.Same.advance ⟨.refl _, rfl, rfl, rfl⟩
  have hall := (hthere.trans hlisted.advance hs.orderly.sound).trans hback hs.orderly.sound
  rw [List.nil_append, List.append_nil] at hall
  refine ⟨closer, inner, s₃, ⟨us, hall, rfl, fun i hi hcounts => .inr ?_⟩, ?_⟩
  · refine Session.Gained.of_queue_eq (s := s₂) ?_ rfl
    rcases List.mem_append.1 hi with hi | hi
    · cases List.mem_singleton.1 hi
      exact .inl (hcloser hcounts)
    · rcases List.mem_cons.1 hi with rfl | hi
      · exact hlisted.apart
      · exact hlisted.gained i hi hcounts
  · obtain ⟨⟨_, _⟩, hmembers', hrest⟩ := Halt.bind_eq_ok (show (members s₂ >>= _) = _ from hrest)
    rw [members_eq hscopes] at hmembers'
    cases hmembers'
    have hleft : f closer inner { s₂.record (.left (scope :: s₂.path.drop 1) inner.length) with
        scopes := s₂.scopes.drop 1 } = .ok (b, s') := hrest
    rw [hscopes] at hleft
    exact hleft

theorem builds_block {β : Type} [Itemed β] {scope : Scope} {closeExpected : Bool}
    {className : String} {f : Token → List Declaration → Parse β} (hgathers : scope.gathers = true)
    (hf : ∀ closer inner, Builds (G ++ items (closer, Block.mk inner)) (f closer inner)) :
    Builds G (do
      enterScope scope
      let closer ← declarationList call closeExpected className
      let inner ← members
      leaveScope scope inner.length
      f closer inner) := by
  refine ⟨fun hs heq => ?_⟩
  obtain ⟨closer, inner, s₁, hbuilt, hrest⟩ := block_built hgathers hs heq
  exact (hf closer inner).andThen hs hbuilt hrest

theorem declares_block {β : Type} {scope : Scope} {closeExpected : Bool} {className : String}
    {f : Token → List Declaration → Parse β} (hgathers : scope.gathers = true)
    (hf : ∀ closer inner, Declares (G ++ items (closer, Block.mk inner)) (f closer inner)) :
    Declares G (do
      enterScope scope
      let closer ← declarationList call closeExpected className
      let inner ← members
      leaveScope scope inner.length
      f closer inner) := by
  refine ⟨fun hs heq => ?_⟩
  obtain ⟨closer, inner, s₁, hbuilt, hrest⟩ := block_built hgathers hs heq
  exact (hf closer inner).andThen hs hbuilt hrest

/-! ## Parameters -/

instance {forTemplate : Bool} : Builds G (parameterList call forTemplate) := by
  unfold parameterList
  infer_instance

instance : Builds G (templateParameter call) := by
  unfold templateParameter
  infer_instance

instance {forTemplate : Bool} : Builds G (parameter call forTemplate) := by
  have hkept : ∀ (H : List Item) (simple : SimpleDeclaration) [Among simple H],
      Among (match simple.declarators with
        | d :: _ => some (⟨simple.specifiers, d.declarator, d.init, .absent⟩ : Parameter)
        | [] => none) H := by
    intro H simple _
    have h : Among simple.declarators H := inferInstance
    cases hdeclarators : simple.declarators with
    | nil => infer_instance
    | cons d _ =>
      rw [hdeclarators] at h
      have := h.head
      infer_instance
  unfold parameter
  infer_instance

instance {forTemplate : Bool} {soFar : ParameterList} [Among soFar G] :
    Builds G (parameters call forTemplate soFar) := by
  have hstay : ∀ (H : List Item) (list : ParameterList) (token : Token) [Among list H],
      BuildsBehind H token (do
        if ← mayStay token then
          pushBack token
          call (.parameters forTemplate list)
        else
          return list) := by
    intro H list token _
    refine .mayStay ?_ ?_
    · simp only [↓reduceIte]
      infer_instance
    · simp only [Bool.false_eq_true, ↓reduceIte]
      infer_instance
  unfold parameters
  refine .seq inferInstance ?_
  rintro ⟨kept, consumed⟩
  infer_instance

instance {soFar : List Token} [Among soFar G] : Builds G (functionQualifiers call soFar) := by
  unfold functionQualifiers
  infer_instance

instance : Builds G (functionDeclarator call) := by
  unfold functionDeclarator
  infer_instance

/-! ## Expressions -/

instance : Builds G (nameTail call) := by
  unfold nameTail
  infer_instance

instance {last : Token} [Among last G] : Builds G (literals call last) := by
  unfold literals
  infer_instance

instance {opener : TokenKind} {last : Token} [Among last G] :
    Builds G (expressions call opener last) := by
  unfold expressions
  split
  infer_instance

instance : Builds G (lambda call) := by
  unfold lambda
  refine .seq inferInstance fun captures => ?_
  have harrow : Builds G (do
      let arrow ← read
      let token ← if arrow.kind = .arrow then do
          let _ ← specified call .typeId
          read
        else
          pure arrow
      if token.kind ≠ .openCurly then
        faultExpected .openCurly token
        pushBack token
        return Token.absent
      return (← skipScope call token).getD .absent) := inferInstance
  infer_instance

theorem inside_map {α β : Type} (g : α → β) (opener : TokenKind) (p : Parse α) :
    inside opener (g <$> p) = g <$> inside opener p := by
  simp only [inside, within, map_eq_pure_bind, bind_assoc, pure_bind]

/-- What is read after a name that starts an operand. -/
def namedOperand (call : Call) (start : Token) : Parse Token := do
  call .nameTail
  let next ← read
  match next.kind with
  | .openParen => inside .openParen (call (.expressions .openParen .absent))
  | .openCurly => inside .openCurly (call (.expressions .openCurly .absent))
  | _ =>
    pushBack next
    return start

/-- What is read after a parenthesis that starts an operand, or a cast. -/
def enclosedOperand (call : Call) (start : Token) : Parse Token := do
  let _ ← call (.expression false)
  let closer ← read
  if closer.kind = .closeParen then
    let (castStart, castStop) ← call (.expression true)
    return if castStart.isPresent then castStop else closer
  else
    pushBack closer
    return (← closeScope call start).getD .absent

instance {start : Token} [Among start G] : Builds G (namedOperand call start) := by
  unfold namedOperand
  refine .seq inferInstance fun _ => .reading fun next => ?_
  split <;> infer_instance

instance {start : Token} [Among start G] : Builds G (enclosedOperand call start) := by
  unfold enclosedOperand
  have hcast : ∀ (H : List Item) (closer : Token) [Among closer H], Builds H (do
      let (castStart, castStop) ← call (.expression true)
      return if castStart.isPresent then castStop else closer) :=
    fun H closer _ => .seq inferInstance fun _ => inferInstance
  infer_instance

/-- Either no operand starts with a token, or something is built from it. -/
theorem operand_builds (call : Call) [Call.Builds call] (start : Token) :
    operand call start = pure none ∨ ∃ p : Parse Token, operand call start = some <$> p ∧
      ∀ G : List Item, Among start G → Builds G p := by
  unfold operand
  split
  · refine .inr ⟨namedOperand call start, ?_, fun _ _ => inferInstance⟩
    rw [namedOperand, map_bind]
    refine bind_congr fun _ => ?_
    rw [map_bind]
    refine bind_congr fun next => ?_
    split <;> simp_all
  · exact .inr ⟨pure start, rfl, fun _ _ => inferInstance⟩
  · exact .inr ⟨call (.literals start), by simp, fun _ _ => inferInstance⟩
  · refine .inr ⟨inside .openParen (enclosedOperand call start), ?_, fun _ _ => inferInstance⟩
    rw [← inside_map, enclosedOperand]
    simp only [map_bind, apply_ite (some <$> ·), map_pure]
  · exact .inr ⟨call (.expressions .openCurly .absent), by simp, fun _ _ => inferInstance⟩
  · exact .inr ⟨do return (← call (.expression false)).2, by simp, fun _ _ => inferInstance⟩
  · exact .inr ⟨do return (← call (.expression false)).2, by simp, fun _ _ => inferInstance⟩
  · exact .inr ⟨do return (← call (.expression false)).2, by simp, fun _ _ => inferInstance⟩
  · exact .inr ⟨lambda call, by simp, fun _ _ => inferInstance⟩
  · exact .inl rfl

instance {stop : Token} [Among stop G] : Builds G (continuation call stop) := by
  have hnext : ∀ (H : List Item) [Among stop H], Builds H (do
      let (nextStart, nextStop) ← call (.expression false)
      return if nextStart.isPresent then nextStop else stop) :=
    fun H _ => .seq inferInstance fun ⟨_, _⟩ => inferInstance
  unfold continuation
  infer_instance

instance {optional : Bool} : Builds G (expression call optional) := by
  have hstart : ∀ start, BuildsBehind G start (do
      match ← operand call start with
      | some stop => return (start, ← continuation call stop)
      | none =>
        if !optional then
          faultExpected .expression start
        pushBack start
        return (Token.absent, Token.absent)) := by
    intro start
    rcases operand_builds call start with hnone | ⟨p, hsome, hp⟩
    · rw [hnone, pure_bind]
      infer_instance
    · have := hp (G ++ items start) inferInstance
      rw [hsome, map_eq_pure_bind, bind_assoc]
      simp only [pure_bind]
      infer_instance
  unfold expression
  infer_instance

/-! ## Initializers -/

instance {soFar : List MemberInitializer} [Among soFar G] :
    Builds G (memberInitializers call soFar) := by
  unfold memberInitializers
  refine .seq inferInstance fun qid => ?_
  split
  · infer_instance
  · have hnext : ∀ (H : List Item) (opener next : Token) (closer : Option Token) [Among soFar H]
        [Among qid H] [Among opener H] [Among closer H],
        BuildsBehind H next (
          let item (comma : Token) : MemberInitializer := ⟨qid, opener, closer.getD .absent, comma⟩
          match next.kind with
          | .openCurly => do
            unmute
            pushBack next
            return soFar ++ [item .absent]
          | .comma => do
            unmute
            call (.memberInitializers (soFar ++ [item next]))
          | _ => do
            fault true (.noticed .missingFunctionBody next)
            pushBack next
            return soFar ++ [item .absent]) := by
      intro H opener next closer _ _ _ _
      dsimp only
      split <;> infer_instance
    infer_instance

instance {declared : Nat} : Builds G (functionBody call declared) := by
  unfold functionBody
  refine .reading fun first => ?_
  extract_lets rest
  have hrest : ∀ (H : List Item) (colon token : Token) (inits : List MemberInitializer)
      [Among colon H] [Among inits H], BuildsBehind H token (rest (colon, inits, token)) := by
    intro H colon token inits _ _
    have hbody : Builds (H ++ items token) (do
        enterScope .functionBody
        let closer ← skipScope call token
        leaveScope .functionBody declared
        return Initializer.functionBody colon inits token (closer.getD .absent)) :=
      .scoped inferInstance fun _ => inferInstance
    infer_instance
  infer_instance

instance : Builds G (typeInitializer call) := by
  have hvalue : ∀ (H : List Item) (equalSign : Token) [Among equalSign H], Builds H (do
      let token ← peek
      if token.kind = .numericLiteral then
        let _ ← read
        return Initializer.expression token token equalSign
      let activity ← beginActivity
      let simple ← specified call .typeId
      if ← failedSince activity.rawErrors then
        return .expression .absent .absent equalSign
      else
        return .typeId simple.specifiers (typeChain simple) equalSign) :=
    fun H equalSign _ => .peeked (fun _ => inferInstance) fun _ => inferInstance
  unfold typeInitializer
  infer_instance

instance {allowBraces : Bool} : Builds G (variableInitializer call allowBraces) := by
  unfold variableInitializer
  infer_instance

/-! ## Classes and enumerations -/

instance {soFar : List BaseSpecifier} [Among soFar G] : Builds G (bases call soFar) := by
  unfold bases
  refine .reading fun token => ?_
  extract_lets rest
  have hrest : ∀ (H : List Item) (access : Token) [Among access H] [Among soFar H],
      Builds H (rest access) := by
    intro H access _ _
    refine .seq inferInstance fun qid => ?_
    have hpunc : ∀ (J : List Item) (punc : Token) [Among access J] [Among qid J] [Among soFar J],
        BuildsBehind J punc (match punc.kind with
          | .openCurly => do
            pushBack punc
            return soFar ++ [⟨access, qid, .absent⟩]
          | .comma => call (.bases (soFar ++ [⟨access, qid, punc⟩]))
          | _ => do
            faultExpected .commaOrOpenCurly punc
            pushBack punc
            return soFar ++ [⟨access, qid, .absent⟩]) := by
      intro J punc _ _ _
      split <;> infer_instance
    infer_instance
  infer_instance

/-- The words behind the name of a class have been built before the token behind them is read. -/
theorem virtSpecifiers_builds (soFar : List Token) :
    (Rule.virtSpecifiers soFar).Builds (virtSpecifiers call soFar) := by
  intro s result s' hs heq
  obtain ⟨⟨token, s₁⟩, hread, heq⟩ := Halt.bind_eq_ok heq
  have hadvance := (hs.orderly.read hread).1
  have hscopes := (Session.read_steady hs.orderly.sound hread).2.2
  have htoken : Built [] (items token) s s₁ := by
    refine ⟨[token], hadvance, hscopes, fun i hi _ => .inr ?_⟩
    cases List.mem_singleton.1 hi
    exact .inl (by simp)
  dsimp only at heq
  split at heq
  · split at heq
    next =>
      obtain ⟨s₂, hbuilt, hlast⟩ := hcall.builds (.virtSpecifiers [token]) s₁ result s' (hs.advance hadvance) heq
      refine ⟨s₂, (htoken.trans hs.orderly.sound ?_).mono (List.nil_subset _), hlast⟩
      simpa [items] using hbuilt
    next =>
      obtain ⟨s₂, hstill, hscopes', hrest⟩ := (still_fault _ _).andThen heq
      obtain ⟨s₃, hbuilt, hlast⟩ := hcall.builds (.virtSpecifiers soFar) s₂ result s'
        ((hs.advance hadvance).advance hstill) hrest
      have hnone : Built (items soFar) [] s s₂ :=
        ⟨_, hadvance.trans hstill hs.orderly.sound, hscopes'.trans hscopes, List.forall_mem_nil _⟩
      refine ⟨s₃, hnone.trans hs.orderly.sound ?_, hlast⟩
      rwa [List.append_nil]
  · cases heq
    exact ⟨s, .refl s fun i hi _ => hi, hadvance, hscopes⟩

theorem builds_virtSpecifiers {β : Type} [Itemed β] {f : List Token × Token → Parse β}
    (hf : ∀ words first, BuildsBehind (G ++ items words) first (f (words, first))) :
    Builds G (call (.virtSpecifiers []) >>= f) := by
  refine ⟨fun {s b s'} hs heq => ?_⟩
  obtain ⟨⟨⟨words, first⟩, s₂⟩, hwords, hrest⟩ := Halt.bind_eq_ok heq
  obtain ⟨s₁, hbuilt, hadvance, hscopes⟩ := hcall.builds (.virtSpecifiers []) s _ s₂ hs hwords
  have hbuilt' : Built G (items words) s s₁ := hbuilt.mono (List.nil_subset G)
  exact hbuilt'.trans hs.orderly.sound ((hf words first).built (hbuilt'.tidy hs) hadvance hscopes hrest)

instance {classKey : Token} [Among classKey G] : Builds G (record call classKey) := by
  unfold record
  refine .seq inferInstance fun qid => builds_virtSpecifiers fun words first => ?_
  have hbody : ∀ (H : List Item) (colon token : Token) (bases : List BaseSpecifier) [Among classKey H]
      [Among qid H] [Among words H] [Among colon H] [Among bases H], BuildsBehind H token (do
        if token.kind = .openCurly then
          enterScope (.record qid.className)
          let closer ← declarationList call true qid.className
          let inner ← members
          leaveScope (.record qid.className) inner.length
          return Record.mk classKey qid words colon bases token closer inner
        else
          pushBack token
          return ⟨classKey, qid, words, colon, bases, .absent, .absent, []⟩) := by
    intro H colon token bases _ _ _ _ _
    have hblock : Builds (H ++ items token) (do
        enterScope (.record qid.className)
        let closer ← declarationList call true qid.className
        let inner ← members
        leaveScope (.record qid.className) inner.length
        return Record.mk classKey qid words colon bases token closer inner) :=
      builds_block rfl fun _ _ => inferInstance
    infer_instance
  infer_instance

instance {soFar : List Enumerator} [Among soFar G] : Builds G (enumerators call soFar) := by
  have hnext : ∀ (H : List Item) (token next : Token) (init : Initializer) [Among soFar H]
      [Among token H] [Among init H], BuildsBehind H next (match next.kind with
        | .comma => do
          unmute
          tell (.enumerated ⟨token, init, next⟩)
          call (.enumerators (soFar ++ [⟨token, init, next⟩]))
        | .closeCurly => do
          unmute
          tell (.enumerated ⟨token, init, .absent⟩)
          return (soFar ++ [⟨token, init, .absent⟩], next)
        | _ => do
          if next.kind = .identifier then
            fault true ((ParseError.noticed .missingCommaAfterEnumerator next).after token)
          pushBack next
          tell (.enumerated ⟨token, init, .absent⟩)
          call (.enumerators (soFar ++ [⟨token, init, .absent⟩]))) := by
    intro H token next init _ _ _
    split <;> infer_instance
  unfold enumerators
  refine .reading fun token => ?_
  split <;> infer_instance

instance {enumKey : Token} [Among enumKey G] : Builds G (enumeration call enumKey) := by
  unfold enumeration
  refine .reading fun word => ?_
  extract_lets rest
  have hrest : ∀ (H : List Item) (classKey : Token) [Among enumKey H] [Among classKey H],
      Builds H (rest classKey) := by
    intro H classKey _ _
    refine .seq inferInstance fun qid => .reading fun sep => ?_
    extract_lets body named
    have hbody : ∀ (J : List Item) (basePunc : Token) (base : QualifiedId) [Among enumKey J]
        [Among classKey J] [Among qid J] [Among basePunc J] [Among base J],
        Builds J (body (basePunc, base)) := by
      intro J basePunc base _ _ _ _ _
      refine .reading fun opener => ?_
      have hopen : Builds (J ++ items opener) (do
          enterScope (.enumeration qid.className)
          unmute
          let (items, closer) ← inside .openCurly (call (.enumerators []))
          leaveScope (.enumeration qid.className) items.length
          return Enumeration.mk enumKey classKey qid basePunc base opener closer items) := by
        have hscoped : Builds (J ++ items opener) (do
            enterScope (.enumeration qid.className)
            let x ← (do unmute; inside .openCurly (call (.enumerators [])))
            leaveScope (.enumeration qid.className) x.1.length
            return Enumeration.mk enumKey classKey qid basePunc base opener x.2 x.1) :=
          .scoped inferInstance fun _ => inferInstance
        simpa only [bind_assoc] using hscoped
      infer_instance
    infer_instance
  infer_instance

/-! ## Declarators -/

instance {f : FunctionDeclarator} [Among f G] : Builds G (trailingReturn call f) := by
  unfold trailingReturn
  infer_instance

instance {β : Type} [Itemed β] {nameMissing : Bool} {token t : Token} {f : Unit → Parse β}
    [BuildsBehind G t (f ())] : BuildsBehind G t (checkName nameMissing token >>= f) := by
  unfold checkName
  cases nameMissing <;> simp only [bind_assoc, Bool.false_eq_true, ↓reduceIte, pure_bind] <;>
    infer_instance

instance {d : Declarator} {depth : Nat} {nameMissing : Bool} [Among d G] :
    Builds G (suffixes call d depth nameMissing) := by
  have htoken : ∀ token : Token, BuildsBehind G token (match token.kind with
      | .openSquare => do
        checkName nameMissing token
        let (start, stop) ← call (.expression true)
        let closer ← closeScope call token
        let array := Production.arrayOf token (closer.getD .absent) (.between start stop)
        let d := { d with chain := Chain.insertAt d.chain depth array }
        if closer.isSome then call (.suffixes d (depth + 1) false) else return d
      | .openParen => do
        checkName nameMissing token
        pushBack token
        match ← functionDeclarator call with
        | some f =>
          let f ← trailingReturn call f
          let d := { d with chain := Chain.insertAt d.chain depth (.function f) }
          call (.suffixes d (depth + 1) false)
        | none => call (.suffixes d depth false)
      | _ => do
        pushBack token
        return d) := by
    intro token
    split
    · have hsize : ∀ (H : List Item) [Among d H] [Among token H], Builds H (do
          let (start, stop) ← call (.expression true)
          let closer ← closeScope call token
          let array := Production.arrayOf token (closer.getD .absent) (.between start stop)
          let d := { d with chain := Chain.insertAt d.chain depth array }
          if closer.isSome then call (.suffixes d (depth + 1) false) else return d) := by
        intro H _ _
        refine .seq inferInstance ?_
        rintro ⟨start, stop⟩
        infer_instance
      infer_instance
    · have hfunction : ∀ (H : List Item) [Among d H], Builds H (do
          match ← functionDeclarator call with
          | some f =>
            let f ← trailingReturn call f
            let d := { d with chain := Chain.insertAt d.chain depth (.function f) }
            call (.suffixes d (depth + 1) false)
          | none => call (.suffixes d depth false)) := by
        intro H _
        refine .seq inferInstance ?_
        rintro (_ | f) <;> infer_instance
      infer_instance
    · infer_instance
  unfold suffixes
  infer_instance

instance {outer : Chain} {form : DeclaratorForm} {opener : Token} [Among outer G] [Among opener G] :
    Builds G (innerDeclarator call outer form opener) := by
  unfold innerDeclarator
  infer_instance

instance {outer : Chain} {form : DeclaratorForm} {opener : Token} [Among outer G] :
    BuildsBehind G opener (functionOrInner call outer form opener) := by
  have hattempt : Builds G (functionAttempt call outer form).attempt := by
    unfold functionAttempt
    infer_instance
  have hgoOn : ∀ f?, Builds (G ++ items f?) ((functionAttempt call outer form).goOn f?) := by
    unfold functionAttempt
    rintro (_ | f) <;> infer_instance
  have hotherwise : Builds G (functionAttempt call outer form).otherwise := by
    unfold functionAttempt
    infer_instance
  rw [functionOrInner_eq]
  infer_instance

instance {chain : Chain} {form : DeclaratorForm} {allowQualifier : Bool} [Among chain G] :
    Builds G (declarator call chain form allowQualifier) := by
  unfold declarator
  infer_instance

/-! ## Specifiers -/

instance {simple : SimpleDeclaration} {d : Declarator} [Among simple G] [Among d G] :
    Builds G (addFunction call simple d) := by
  unfold addFunction
  infer_instance

instance {simple : SimpleDeclaration} {d : Declarator} {init : Initializer} [Among simple G]
    [Among d G] [Among init G] : Builds G (declaratorSeparator call simple d init) := by
  unfold declaratorSeparator
  infer_instance

instance {simple : SimpleDeclaration} [Among simple G] : Builds G (initDeclarators call simple) := by
  unfold initDeclarators
  infer_instance

instance {mode : Mode} {simple : SimpleDeclaration} [Among simple G] :
    Builds G (declarators call mode simple) := by
  unfold declarators
  infer_instance

instance {soFar : List Specifier} {hasType : Bool} [Among soFar G] :
    Builds G (conversionSpecifiers call soFar hasType) := by
  unfold conversionSpecifiers
  infer_instance

instance {soFar : Chain} {allowQualifier : Bool} [Among soFar G] :
    Builds G (conversionPointers call soFar allowQualifier) := by
  unfold conversionPointers
  infer_instance

instance {simple : SimpleDeclaration} {keyword : Token} [Among simple G] [Among keyword G] :
    Builds G (conversionFunction call simple keyword) := by
  unfold conversionFunction
  infer_instance

instance {simple : SimpleDeclaration} {keyword ellipsis : Token} {name : QualifiedId}
    [Among simple G] [Among keyword G] [Among ellipsis G] [Among name G] :
    Builds G (typeParameter call simple keyword ellipsis name) := by
  have hunqual : Among name.unqual G := inferInstance
  unfold typeParameter
  split
  next identifier hidentifier =>
    rw [hidentifier] at hunqual
    have : Among identifier G := ⟨hunqual.made⟩
    infer_instance
  all_goals infer_instance

instance {mode : Mode} {simple : SimpleDeclaration} {typename : Token} {qid : QualifiedId}
    [Among simple G] [Among typename G] [Among qid G] :
    Builds G (typeOrConstructor call mode simple typename qid) := by
  have htype : Builds G (typeName simple typename qid) := by
    unfold typeName
    infer_instance
  cases mode with
  | globalOrMember className =>
    have hattempt : Builds G (constructorAttempt call simple typename qid).attempt := by
      unfold constructorAttempt
      infer_instance
    have hgoOn : ∀ f?, Builds (G ++ items f?) ((constructorAttempt call simple typename qid).goOn f?) := by
      unfold constructorAttempt
      rintro (_ | f) <;> infer_instance
    have hotherwise : Builds G (constructorAttempt call simple typename qid).otherwise := htype
    rw [typeOrConstructor_eq]
    infer_instance
  | param | templateParam | typeId => exact htype

instance {mode : Mode} {simple : SimpleDeclaration} {token : Token} [Among simple G] :
    BuildsBehind G token (typeSpecifier call mode simple token) := by
  unfold typeSpecifier
  infer_instance

instance {mode : Mode} {soFar : SpecifierState} [Among soFar.simple G] :
    Builds G (specifiers call mode soFar) := by
  have hmissing : ∀ token, BuildsBehind G token (match mode.missing? with
      | some what => do
        faultExpected what token
        pushBack token
        declarators call mode soFar.simple
      | none => do
        pushBack token
        declarators call mode soFar.simple) := by
    intro token
    split <;> infer_instance
  have htype : ∀ token, BuildsBehind G token (do
      let (complete, simple) ← typeSpecifier call mode soFar.simple token
      if complete then return simple
      else call (.specifiers mode { soFar with simple, hasType := true })) := by
    refine fun token => .seq inferInstance ?_
    rintro ⟨complete, simple⟩
    infer_instance
  have hclose : ∀ (H : List Item) (opener : Token) [Among soFar.simple H], Builds H (do
      match ← closeScope call opener with
      | none => return soFar.simple
      | some _ => call (.specifiers mode soFar)) := by
    intro H opener _
    refine .seq inferInstance ?_
    rintro (_ | closer) <;> infer_instance
  unfold specifiers
  infer_instance

/-! ## Declarations -/

instance : Builds G requiredSemicolon := by
  unfold requiredSemicolon
  infer_instance

instance {className : String} : Declares G (simpleDeclaration call className) := by
  unfold simpleDeclaration
  infer_instance

instance {first : Token} {className : String} :
    DeclaresBehind G first (externDeclaration call first className) := by
  have hattempt : Builds G (linkageAttempt call className).attempt := by
    unfold linkageAttempt linkageHead
    infer_instance
  have hgoOn : ∀ head, Declares (G ++ items head) ((linkageAttempt call className).goOn head) := by
    unfold linkageAttempt
    rintro ⟨externToken, literal, opener⟩
    exact declares_block rfl fun _ _ => inferInstance
  have hotherwise : Declares G (linkageAttempt call className).otherwise := by
    unfold linkageAttempt
    infer_instance
  rw [externDeclaration_eq]
  infer_instance

instance {keyword : Token} [Among keyword G] : Declares G (namespaceDeclaration call keyword) := by
  unfold namespaceDeclaration
  refine .reading fun first => ?_
  extract_lets rest
  have hrest : ∀ (H : List Item) (qid : QualifiedId) (token : Token) [Among keyword H]
      [Among qid H], DeclaresBehind H token (rest (qid, token)) := by
    intro H qid token _ _
    have hblock : Declares (H ++ items token) (do
        enterScope (.namespaceScope qid.className)
        let closer ← declarationList call true ""
        let inner ← members
        leaveScope (.namespaceScope qid.className) inner.length
        declare (.namespaceBlock keyword qid token closer inner)) :=
      declares_block rfl fun _ _ => inferInstance
    infer_instance
  infer_instance

/-- The declaration that follows the parameters of a template is collected in a scope of its own. -/
theorem template_built {β : Type} {className : String} {f : Option Declaration → Parse β}
    {s s' : Session} {b : β} (hs : s.Tidy)
    (heq : (do
      enterScope .template
      let _ ← call (.declaration className)
      let declared := (← members).head?
      leaveScope .template declared.toList.length
      f declared) s = .ok (b, s')) :
    ∃ declared s₁, Built G (items declared) s s₁ ∧ f declared s₁ = .ok (b, s') := by
  let s₁ : Session :=
    { s with scopes := ⟨.template, []⟩ :: s.scopes, log := .entered (.template :: s.path) :: s.log }
  obtain ⟨⟨found, s₂⟩, hfound, hrest⟩ := Halt.bind_eq_ok (show
    (call (.declaration className) s₁ >>= _) = _ from heq)
  have hthere : s.Advance [] s₁ := Session.Same.advance ⟨.refl _, rfl, rfl, rfl⟩
  obtain ⟨us, hadvance, hdeclared⟩ :=
    hcall.builds (.declaration className) s₁ found s₂ (hs.advance hthere) hfound
  have hinner : ∃ inner : List Declaration, s₂.scopes = ⟨.template, inner⟩ :: s.scopes ∧
      ∀ i ∈ items inner.head?, i.counts = true → Gained us s₂ i := by
    rcases hdeclared with hscopes | ⟨d, t, hscopes, hgained, -⟩
    · exact ⟨[], hscopes, List.forall_mem_nil _⟩
    · exact ⟨[d], hscopes, by simpa [items] using hgained⟩
  obtain ⟨inner, hscopes, hgained⟩ := hinner
  let s₃ : Session := { s₂ with scopes := s.scopes,
                                log := .left (.template :: s₂.path.drop 1) inner.head?.toList.length :: s₂.log }
  have hback : s₂.Advance [] s₃ := Session.Same.advance ⟨.refl _, rfl, rfl, rfl⟩
  have hall := (hthere.trans hadvance hs.orderly.sound).trans hback hs.orderly.sound
  rw [List.nil_append, List.append_nil] at hall
  refine ⟨inner.head?, s₃, ⟨us, hall, rfl, fun i hi hcounts => .inr ?_⟩, ?_⟩
  · exact (hgained i hi hcounts).of_queue_eq rfl
  · obtain ⟨⟨_, _⟩, hmembers', hrest⟩ := Halt.bind_eq_ok (show (members s₂ >>= _) = _ from hrest)
    rw [members_eq hscopes] at hmembers'
    cases hmembers'
    have hleft : f inner.head? { s₂.record (.left (.template :: s₂.path.drop 1)
        inner.head?.toList.length) with scopes := s₂.scopes.drop 1 } = .ok (b, s') := hrest
    rw [hscopes] at hleft
    exact hleft

instance {keyword : Token} {className : String} [Among keyword G] :
    Declares G (templateDeclaration call keyword className) := by
  have hscoped : ∀ (H : List Item) (params : ParameterList) [Among keyword H] [Among params H],
      Declares H (do
        enterScope .template
        let _ ← call (.declaration className)
        let declared := (← members).head?
        leaveScope .template declared.toList.length
        declare (.templated keyword params declared)) := by
    refine fun H params _ _ => ⟨fun hs heq => ?_⟩
    obtain ⟨declared, s₁, hbuilt, hrest⟩ := template_built (G := H)
      (f := fun declared => declare (.templated keyword params declared)) hs heq
    have hdeclare : Declares (H ++ items declared) (declare (.templated keyword params declared)) :=
      inferInstance
    exact hdeclare.andThen hs hbuilt hrest
  unfold templateDeclaration
  infer_instance

instance {usingToken : Token} [Among usingToken G] :
    Declares G (usingDeclaration call usingToken) := by
  have hdeclarator : ∀ (H : List Item) (simple : SimpleDeclaration) [Among simple H],
      Among (match simple.declarators with | d :: _ => d.declarator | [] => .empty) H := by
    intro H simple _
    have h : Among simple.declarators H := inferInstance
    cases hdeclarators : simple.declarators with
    | nil => infer_instance
    | cons d _ =>
      rw [hdeclarators] at h
      have := h.head
      infer_instance
  unfold usingDeclaration
  infer_instance

instance {keyword : Token} [Among keyword G] : Declares G (accessLabel keyword) := by
  unfold accessLabel
  infer_instance

instance {keyword : Token} [Among keyword G] : Declares G (staticAssert call keyword) := by
  have hcloser : ∀ (H : List Item) (opener : Token) [Among keyword H] [Among opener H], Declares H (do
      match ← skipScope call opener with
      | none => return
      | some closer =>
        let semicolon ← requiredSemicolon
        declare (.staticAssert keyword opener closer [] semicolon)) := by
    intro H opener _ _
    refine .seq inferInstance ?_
    rintro (_ | closer) <;> infer_instance
  unfold staticAssert
  infer_instance

/-- What is declared behind a token that was just read. -/
def DeclaredBehind (t : Token) (q : Parse Bool) : Prop :=
  ∀ s₀ s found s', s₀.Tidy → s₀.Advance [t] s → s.scopes = s₀.scopes → q s = .ok (found, s') →
    Declared s₀ s'

/-- What is declared begins with the token. -/
theorem DeclaresBehind.begins {t : Token} {q : Parse Bool} (hq : DeclaresBehind [] t q)
    (hcuts : t.kind.cutsOff = false) : DeclaredBehind t q := by
  intro s₀ s found s' hs hadvance hscopes heq
  obtain ⟨us, hall, hlead, hsame | ⟨d, hcollected, hgained⟩⟩ := hq.declared hs hadvance hscopes heq
  · exact ⟨us, hall, .inl hsame⟩
  · exact ⟨us, hall, .inr ⟨d, t, hcollected, fun i hi hcounts =>
      (hgained i hi hcounts).resolve_left List.not_mem_nil, hlead, hcuts⟩⟩

/-- A declaration begins with a token that cuts nothing off. -/
theorem declaration_builds (className : String) :
    (Rule.declaration className).Builds (declaration call className) := by
  have hread : ∀ f : Token → Parse Bool, (∀ t, DeclaredBehind t (f t)) →
      (Rule.declaration className).Builds (read >>= f) := by
    intro f hf s found s' hs heq
    obtain ⟨⟨t, s₁⟩, hread, hrest⟩ := Halt.bind_eq_ok heq
    have hscopes := (Session.read_steady hs.orderly.sound hread).2.2
    exact hf t s s₁ found s' hs (hs.orderly.read hread).1 hscopes hrest
  refine hread _ fun token => ?_
  split
  next hkind => exact DeclaresBehind.begins inferInstance (by rw [hkind]; rfl)
  next hkind => exact DeclaresBehind.begins inferInstance (by rw [hkind]; rfl)
  next hkind => exact DeclaresBehind.begins inferInstance (by rw [hkind]; rfl)
  next =>
    intro s₀ s found s' hs hadvance hscopes heq
    have hback : BuildsBehind [] token (do pushBack token; return false) := inferInstance
    obtain ⟨us, hall, hsame, -⟩ := hback.built hs hadvance hscopes heq
    exact ⟨us, hall, .inl hsame⟩

/-- Declarations are collected, up to the closer of a block. -/
def Listing (q : Parse Token) : Prop :=
  ∀ s closer s', s.Tidy → q s = .ok (closer, s') → Lists closer s s'

/-- Declarations are collected behind a token that was just read. -/
def ListingBehind (t : Token) (q : Parse Token) : Prop :=
  ∀ s₀ s closer s', s₀.Tidy → s₀.Advance [t] s → s.scopes = s₀.scopes → q s = .ok (closer, s') →
    Lists closer s₀ s'

variable {t : Token} {q : Parse Token}

theorem listing_absent : Listing (pure .absent) := by
  rintro s _ _ - ⟨⟩
  exact .nil (.refl s) rfl nofun

theorem Listing.reading {f : Token → Parse Token} (hf : ∀ t, ListingBehind t (f t)) :
    Listing (read >>= f) := by
  intro s closer s' hs heq
  obtain ⟨⟨t, s₁⟩, hread, hrest⟩ := Halt.bind_eq_ok heq
  have hscopes := (Session.read_steady hs.orderly.sound hread).2.2
  exact hf t s s₁ closer s' hs (hs.orderly.read hread).1 hscopes hrest

/-- What is declared comes in front of the declarations that are collected later. -/
theorem Listing.declaring {className : String} {f : Bool → Parse Token}
    (hf : ∀ found, Listing (f found)) : Listing (call (.declaration className) >>= f) := by
  intro s closer s' hs heq
  obtain ⟨⟨found, s₁⟩, hfound, hrest⟩ := Halt.bind_eq_ok heq
  have hdeclared := hcall.builds (.declaration className) s found s₁ hs hfound
  obtain ⟨us, hadvance, -⟩ := id hdeclared
  exact (hf found s₁ closer s' (hs.advance hadvance) hrest).cons hs hdeclared

theorem Listing.behind (hq : Listing q) : ListingBehind t q :=
  fun _ s closer s' hs hadvance hscopes heq =>
    (hq s closer s' (hs.advance hadvance) heq).after hs hadvance hscopes

theorem listingBehind_pure : ListingBehind t (pure t) := by
  rintro s₀ s _ _ - hadvance hscopes ⟨⟩
  exact .nil hadvance hscopes fun _ => List.mem_singleton_self _

theorem ListingBehind.back {f : Unit → Parse Token} (hf : Listing (f ())) :
    ListingBehind t (pushBack t >>= f) := by
  intro s₀ s closer s' hs hadvance hscopes heq
  obtain ⟨hback, -⟩ := (show s₀.Advance ([] ++ [t]) s from hadvance).pushBack hs.orderly
  exact (hf _ closer s' (hs.advance hback) heq).after hs hback hscopes

theorem ListingBehind.still {r : Parse Unit} {f : Unit → Parse Token} (hr : Still r)
    (hf : ListingBehind t (f ())) : ListingBehind t (r >>= f) := by
  intro s₀ s closer s' hs hadvance hscopes heq
  obtain ⟨s₁, hstill, hscopes', hrest⟩ := hr.andThen heq
  have hall := hadvance.trans hstill hs.orderly.sound
  rw [List.append_nil] at hall
  exact hf s₀ s₁ closer s' hs hall (hscopes'.trans hscopes) hrest

theorem ListingBehind.stepOver {f : Option Token → Parse Token} (hf : ∀ last?, Listing (f last?)) :
    ListingBehind t (stepOver call t >>= f) := by
  intro s₀ s closer s' hs hadvance hscopes heq
  obtain ⟨⟨last?, s₁⟩, hstep, hrest⟩ := Halt.bind_eq_ok heq
  obtain ⟨us, hall, hscopes', -⟩ := stepOver_cases hs hadvance hscopes hstep
  exact (hf last? s₁ closer s' (hs.advance hall) hrest).after hs hall hscopes'

theorem declarations_builds (closeExpected : Bool) (className : String) :
    (Rule.declarations closeExpected className).Builds
      (declarations call closeExpected className) := by
  have hagain : Listing (call (.declarations closeExpected className)) :=
    hcall.builds (.declarations closeExpected className)
  have hmore : ∀ found : Bool, Listing (if found then call (.declarations closeExpected className)
      else do
        let token ← read
        faultExpected .declaration token
        if token.kind = .closeCurly then
          call (.declarations closeExpected className)
        else
          match ← stepOver call token with
          | none => return .absent
          | some _ => call (.declarations closeExpected className)) := by
    intro found
    split
    · exact hagain
    · refine .reading fun u => .still (still_faultExpected _ u) ?_
      split
      · exact hagain.behind
      · refine .stepOver ?_
        rintro (_ | last)
        · exact listing_absent
        · exact hagain
  have hrest : ∀ token, ListingBehind token (do
      pushBack token
      let found ← call (.declaration className)
      if found then call (.declarations closeExpected className)
      else do
        let token ← read
        faultExpected .declaration token
        if token.kind = .closeCurly then
          call (.declarations closeExpected className)
        else
          match ← stepOver call token with
          | none => return .absent
          | some _ => call (.declarations closeExpected className)) :=
    fun token => .back (.declaring hmore)
  unfold declarations
  refine Listing.reading fun token => ?_
  cases closeExpected with
  | true =>
    simp only [↓reduceIte]
    split
    · exact listingBehind_pure
    · exact hrest token
  | false =>
    simp only [Bool.false_eq_true, ↓reduceIte]
    split
    · exact .back listing_absent
    · exact hrest token

/-! ## Rules -/

/-- The body of a rule builds what the rule does if calls do. -/
theorem body_builds {α : Type} (rule : Rule α) : rule.Builds (body call rule) := by
  cases rule with
  | templateArguments soFar => exact templateArguments_lists soFar
  | templateSeparator start argument => exact templateSeparator_builds start argument
  | virtSpecifiers soFar => exact virtSpecifiers_builds soFar
  | declaration className => exact declaration_builds className
  | declarations closeExpected className => exact declarations_builds closeExpected className
  | _ => exact fun G _ => by simp only [body]; infer_instance

/-- Runs build what their rules do, however deep. -/
theorem run_builds (depth : Nat) : Call.Builds fun rule => run depth rule := by
  induction depth with
  | zero =>
    refine ⟨fun rule => ?_⟩
    cases rule with
    | templateArguments soFar => exact fun _ _ _ _ _ _ heq => nomatch heq
    | _ => first | exact fun _ _ => ⟨fun _ heq => nomatch heq⟩ | exact fun _ _ _ _ heq => nomatch heq
  | succ depth ih => exact ⟨fun rule => body_builds rule⟩

end Grammar

end CppDecl
