import CppDecl.Proofs.Builds
import CppDecl.Proofs.Effects

/-!
# What an expression spans

Of an expression only its first and its last token are kept.  The first one is the first token that
is consumed, unless there is a fault.  The last one is the last token that is consumed, with one
exception: where an expression ends with a name, the token that is kept is the first word of that
name, and template arguments and further words of it come behind (`NameTail`).

`Session.Faultless` carries what holds as long as there is no fault through an action.  `Rule.Spans`
says of each rule that takes part in reading an expression which of the tokens that it consumes it
gives.
-/

namespace CppDecl

open Parse (Leads Brings)
open Session (Fit Past Pending)

/-- Template arguments behind a name in an expression, if there are any. -/
inductive NameArguments : List Token → Prop
  /-- There are none. -/
  | none : NameArguments []
  /-- They go from the opening bracket to the closing one. -/
  | between {opener closer : Token} {inner : List Token} (hopener : opener.kind = .openAngle)
      (hcloser : closer.kind = .closeAngle) : NameArguments (opener :: (inner ++ [closer]))

/-- What belongs to a name in an expression behind its first word. -/
inductive NameTail : List Token → Prop
  /-- The name ends, perhaps with template arguments. -/
  | last {ts : List Token} (harguments : NameArguments ts) : NameTail ts
  /-- Another word follows. -/
  | word {ts us : List Token} {sep name : Token} (harguments : NameArguments ts)
      (hsep : sep.kind = .doubleColon) (hname : name.kind = .identifier) (hrest : NameTail us) :
      NameTail (ts ++ sep :: name :: us)

/-- The tokens of an expression whose last token is said to be `stop`.  If that is the first word of
a name, the rest of the name comes behind. -/
def EndsWith (stop : Token) (ts : List Token) : Prop :=
  ∃ before tail, ts = before ++ stop :: tail ∧ (tail = [] ∨ stop.kind = .identifier ∧ NameTail tail)

variable {ts us vs : List Token} {t start stop : Token}

theorem endsWith_concat (ts : List Token) (t : Token) : EndsWith t (ts ++ [t]) := ⟨ts, [], rfl, .inl rfl⟩

theorem EndsWith.after (h : EndsWith stop us) (ts : List Token) : EndsWith stop (ts ++ us) := by
  obtain ⟨before, tail, rfl, htail⟩ := h
  exact ⟨ts ++ before, tail, by rw [List.append_assoc], htail⟩

/-! ## Going on without a fault -/

namespace Session

/-- The tokens `us` have been consumed since the session `s₀`, and if there was no fault on the way,
then `P`. -/
structure Faultless (s₀ : Session) (us : List Token) (P : Prop) (s : Session) : Prop where
  /-- The tokens were consumed. -/
  past : ∃ ps, Past .nothing s₀ us s₀.scopes ps s
  /-- What holds without a fault. -/
  holds : s.rawErrors ≤ s₀.rawErrors → P

variable {P R : Prop} {s₀ s s' : Session}

theorem Fit.faultless (h : s.Fit .nothing) : s.Faultless [] True s := ⟨⟨[], h.past⟩, fun _ => trivial⟩

theorem Faultless.fit (h : s₀.Faultless us P s) : s.Fit .nothing := by
  obtain ⟨ps, hpast⟩ := h.past
  exact hpast.left

theorem Faultless.mono (h : s₀.Faultless us P s) (hP : P → R) : s₀.Faultless us R s :=
  ⟨h.past, fun hraw => hP (h.holds hraw)⟩

theorem Faultless.andThen (h : s₀.Faultless us P s) (h' : s.Faultless vs R s') :
    s₀.Faultless (us ++ vs) (P ∧ R) s' := by
  obtain ⟨ps, hpast⟩ := h.past
  obtain ⟨qs, hpast'⟩ := h'.past
  have hle := hpast.steady.rawErrors_le
  have hle' := hpast'.steady.rawErrors_le
  rw [hpast.scopes] at hpast'
  exact ⟨⟨_, hpast.append hpast'⟩, fun hraw => ⟨h.holds (hle'.trans hraw), h'.holds (hraw.trans hle)⟩⟩

end Session

namespace Parse

open Session (Faultless)

variable {α β : Type} {P : Prop} {s₀ s : Session} {p : Parse α} {Q : α → Session → Prop}

/-- A part of an action. -/
theorem Leads.through {R : α → List Token → Prop} (h : s₀.Faultless us P s)
    (hp : Leads p s fun a s' => ∃ vs, s.Faultless vs (R a vs) s')
    (hQ : ∀ a vs s', s₀.Faultless (us ++ vs) (P ∧ R a vs) s' → Q a s') : Leads p s Q := by
  refine hp.mono ?_
  rintro a s' ⟨vs, h'⟩
  exact hQ a vs s' (h.andThen h')

/-- A part of an action of which nothing is known but that it consumes tokens. -/
theorem Leads.passing {R : α → List Token → List Part → Session → Prop} (h : s₀.Faultless us P s)
    (hp : Leads p s (Brings .nothing s R))
    (hQ : ∀ a vs s', s₀.Faultless (us ++ vs) P s' → Q a s') : Leads p s Q := by
  refine hp.mono ?_
  rintro a s' ⟨vs, ps, hpast, -⟩
  exact hQ a vs s' ((h.andThen ⟨⟨ps, hpast⟩, fun _ => trivial⟩).mono And.left)

theorem Leads.next {Q : Token → Session → Prop} (h : s₀.Faultless us P s)
    (hQ : ∀ t s', s₀.Faultless (us ++ [t]) P s' → (∀ u, s.Pending u → t = u) → Q t s') :
    Leads Parse.read s Q := by
  obtain ⟨ps, hpast⟩ := h.past
  refine .readEven hpast fun t s' h' hfirst heven => ?_
  exact hQ t s' ⟨⟨ps, h'⟩, fun hraw => h.holds (heven ▸ hraw)⟩ hfirst

theorem Leads.giveBack {Q : Unit → Session → Prop} (h : s₀.Faultless (us ++ [t]) P s)
    (hQ : ∀ s', s₀.Faultless us P s' → s'.Pending t → Q () s') : Leads (Parse.pushBack t) s Q := by
  obtain ⟨ps, hpast⟩ := h.past
  refine .pushBack hpast fun s' h' hpending heven => ?_
  exact hQ s' ⟨⟨ps, h'⟩, fun hraw => h.holds (heven ▸ hraw)⟩ hpending

theorem Leads.look {Q : Token → Session → Prop} (h : s₀.Faultless us P s)
    (hQ : ∀ t s', s₀.Faultless us P s' → s'.Pending t → Q t s') : Leads Parse.peek s Q := by
  refine .bind (.next h fun t s₁ h₁ _ => ?_)
  exact .bind (.giveBack h₁ fun s₂ h₂ hpending => .pure (hQ t s₂ h₂ hpending))

theorem Leads.blame {mute : Bool} {e : ParseError} {Q : Unit → Session → Prop}
    (h : s₀.Faultless us P s)
    (hQ : ∀ s', s₀.Faultless us False s' → s'.queue = s.queue → Q () s') : 
    Leads (Parse.fault mute e) s Q := by
  obtain ⟨ps, hpast⟩ := h.past
  intro a s' heq
  obtain ⟨s₁, heq', hsame, hsteady, htold, hscopes, hraw⟩ := fault_steady mute e s
  rw [heq'] at heq
  cases heq
  have hle := hpast.steady.rawErrors_le
  exact hQ s' ⟨⟨ps, hpast.same hsame hsteady htold (hscopes.trans hpast.scopes)⟩, by omega⟩ hsame.queue

theorem Leads.keeping {p : Parse Unit} {Q : Unit → Session → Prop} (hp : Still p)
    (h : s₀.Faultless us P s) (hQ : ∀ s', s₀.Faultless us P s' → Q () s') : Leads p s Q := by
  obtain ⟨ps, hpast⟩ := h.past
  intro a s' heq
  obtain ⟨s₁, heq', hsame, hsteady, htold, hscopes⟩ := hp s
  rw [heq'] at heq
  cases heq
  exact hQ s' ⟨⟨ps, hpast.same hsame hsteady htold (hscopes.trans hpast.scopes)⟩,
    fun hraw => h.holds (hsteady.rawErrors_le.trans hraw)⟩

/-- Staying behind a token, or leaving it to a rule further out. -/
theorem Leads.staying {Q : Bool → Session → Prop} (h : s₀.Faultless (us ++ [t]) P s) (hstay : Q true s)
    (hleave : ∀ vs s', s₀.Faultless (us ++ vs) P s' → Q false s') : 
    Leads (Parse.mayStay t) s Q := by
  unfold Parse.mayStay
  split
  next => exact .pure (hleave [t] s h)
  next =>
    refine .bind (.get ?_)
    split
    next =>
      refine .bind (.giveBack h fun s₁ h₁ _ => ?_)
      rw [← List.append_nil us] at h₁
      exact .pure (hleave [] s₁ h₁)
    next => exact .pure hstay

/-- Inside of a bracket, where the result has the property `U` whether there is a fault or not. -/
theorem Leads.enclosed {accept : Accept → Accept} {angles : Bool → Bool} {R : α → List Token → Prop}
    {U : α → Prop} (h : s₀.Faultless us P s)
    (hp : ∀ s₁, s₁.Fit .nothing → s₁.accept = accept s.accept →
      Leads p s₁ fun a s' => ∃ vs, s₁.Faultless vs (R a vs) s' ∧ U a)
    (hQ : ∀ a vs s', s₀.Faultless (us ++ vs) (P ∧ R a vs) s' → U a → Q a s') :
    Leads (Parse.within accept angles p) s Q := by
  let inner := s.bracketed (accept s.accept) (angles s.reader.closeAnglesOnly)
  have hfit : inner.Fit .nothing := ⟨h.fit.orderly.bracketed _ _, False.elim⟩
  intro a s' heq
  obtain ⟨⟨b, s₁⟩, hrun, hdone⟩ := Halt.bind_eq_ok (show (p inner >>= fun x =>
    .ok (x.1, x.2.bracketed s.accept s.reader.closeAnglesOnly)) = .ok (a, s') from heq)
  cases hdone
  obtain ⟨vs, h', hU⟩ := hp inner hfit rfl b s₁ hrun
  obtain ⟨qs, hpast⟩ := h'.past
  exact hQ _ vs _ (h.andThen ⟨⟨qs, hpast.of_bracketed h.fit⟩, h'.holds⟩) hU

/-- Inside of a bracket. -/
theorem Leads.bounded {accept : Accept → Accept} {angles : Bool → Bool} {R : α → List Token → Prop}
    (h : s₀.Faultless us P s)
    (hp : ∀ s₁, s₁.Fit .nothing → s₁.accept = accept s.accept →
      Leads p s₁ fun a s' => ∃ vs, s₁.Faultless vs (R a vs) s')
    (hQ : ∀ a vs s', s₀.Faultless (us ++ vs) (P ∧ R a vs) s' → Q a s') :
    Leads (Parse.within accept angles p) s Q := by
  refine .enclosed (U := fun _ => True) h (fun s₁ h₁ haccept => (hp s₁ h₁ haccept).mono ?_)
    fun a vs s' h' _ => hQ a vs s' h'
  rintro a s' ⟨vs, h'⟩
  exact ⟨vs, h', trivial⟩

end Parse

/-! ## What rules give -/

/-- The last of some tokens. -/
def IsLast (t : Token) (ts : List Token) : Prop := ∃ before, ts = before ++ [t]

theorem IsLast.endsWith (h : IsLast t us) (ts : List Token) : EndsWith t (ts ++ us) := by
  obtain ⟨before, rfl⟩ := h
  exact (endsWith_concat before t).after ts

theorem isLast_concat (ts : List Token) (t : Token) : IsLast t (ts ++ [t]) := ⟨ts, rfl⟩

theorem IsLast.after (h : IsLast t us) (ts : List Token) : IsLast t (ts ++ us) := by
  obtain ⟨before, rfl⟩ := h
  exact ⟨ts ++ before, by rw [List.append_assoc]⟩

/-- Which of the tokens that it consumes a rule gives, if there is no fault. -/
def Rule.Spans (s : Session) : {α : Type} → Rule α → α → Session → Prop
  | _, .skipTo _ closer => fun c s' => ∃ us, s.Faultless us
      (∃ t, c = some t ∧ t.kind = closer ∧ IsLast t us) s'
  | _, .nameTail => fun _ s' => ∃ us, s.Faultless us (NameTail us) s'
  | _, .literals last => fun t s' => ∃ us, s.Faultless us (IsLast t (last :: us)) s'
  | _, .expressions _ _ => fun t s' => ∃ us, s.Faultless us (IsLast t us) s'
  | _, .expression optional => fun range s' => ∃ us, s.Faultless us
      (if range.1.isPresent then us.head? = some range.1 ∧ EndsWith range.2 us
        else optional = true ∧ us = []) s'
  | _, _ => fun _ _ => True

/-- What calls give is what their rules do. -/
structure Spanning (call : Call) : Prop where
  /-- The effects of rules. -/
  effects : Effects .nothing call
  /-- What each rule gives. -/
  spans : ∀ {α : Type} (rule : Rule α) (s : Session), s.Fit .nothing → rule.Pre s →
    Leads (call rule) s (rule.Spans s)

namespace Grammar

variable {call : Call} {s s₀ : Session} {P : Prop}

/-! ### Skipping -/

/-- Skipping ends with the closing bracket, or with a fault. -/
theorem skipScope_spans (hcall : Spanning call) (h : s.Fit .nothing) {opener : Token} {closer : TokenKind}
    (hcloser : opener.kind.closer? = some closer) :
    Leads (skipScope call opener) s fun c s' => ∃ us, s.Faultless us
      (∃ t, c = some t ∧ t.kind = closer ∧ IsLast t us) s' := by
  unfold skipScope
  rw [hcloser]
  refine .bounded (R := fun c us => ∃ t, c = some t ∧ t.kind = closer ∧ IsLast t us) h.faultless ?_
    fun c us s' h' => ⟨us, h'.mono And.right⟩
  intro s₁ h₁ haccept
  refine hcall.spans (.skipTo opener closer) s₁ h₁ ⟨hcloser, fun hclose => ?_⟩
  rw [haccept, (closer_spec hcloser).2.2.2.1 hclose]
  rfl

theorem skipTo_spans (hcall : Spanning call) (h : s.Fit .nothing) (opener : Token) (closer : TokenKind)
    (hpre : (Rule.skipTo opener closer).Pre s) :
    Leads (skipTo call opener closer) s ((Rule.skipTo opener closer).Spans s) := by
  obtain ⟨hcloser, hbraces⟩ := hpre
  refine .bind (.next h.faultless ?_)
  intro token s₁ h₁ _
  split
  next hkind => exact .pure ⟨_, h₁.mono fun _ => ⟨token, rfl, hkind, isLast_concat [] token⟩⟩
  refine .bind (.staying h₁ ?_ ?_)
  · refine .bind (.passing h₁ (skipNested_leads hcall.effects h₁.fit False.elim) ?_)
    intro _ vs s₃ h₃
    have hpre : (Rule.skipTo opener closer).Pre s₃ := by
      obtain ⟨qs, hpast₃⟩ := h₃.past
      exact ⟨hcloser, fun hcurly => hpast₃.advance.accept ▸ hbraces hcurly⟩
    refine .through h₃ (hcall.spans (.skipTo opener closer) s₃ h₃.fit hpre) ?_
    rintro c us s₄ h₄
    refine ⟨_, h₄.mono ?_⟩
    rintro ⟨-, t, rfl, hkind, hlast⟩
    exact ⟨t, rfl, hkind, hlast.after _⟩
  · intro vs s₂ h₂
    refine .bind (.blame h₂ ?_)
    intro s₃ h₃ _
    exact .pure ⟨_, h₃.mono False.elim⟩

theorem stepOver_spans (hcall : Spanning call) (h : s₀.Faultless (us ++ [t]) P s) :
    Leads (stepOver call t) s fun _ s' => ∃ vs, s₀.Faultless (us ++ vs) P s' := by
  refine .bind (.staying h ?_ fun vs s' h' => .pure ⟨vs, h'⟩)
  refine .bind (.passing h (skipNested_leads hcall.effects h.fit False.elim) ?_)
  intro _ vs s' h'
  rw [List.append_assoc] at h'
  exact .pure ⟨_, h'⟩

/-- Another token than the closing bracket is a fault. -/
theorem closeScope_spans (hcall : Spanning call) (h : s₀.Faultless us P s) {opener : Token}
    (hopener : opener.kind.closer?.isSome = true) (hnext : s.Pending t)
    (hother : some t.kind ≠ opener.kind.closer?) :
    Leads (closeScope call opener) s fun _ s' => ∃ vs, s₀.Faultless (us ++ vs) False s' := by
  refine .bind (.next h ?_)
  intro token s₁ h₁ hfirst
  obtain rfl := hfirst t hnext
  rw [if_neg hother]
  refine .bind (.blame h₁ ?_)
  intro s₂ h₂ _
  refine .bind (.giveBack h₂ ?_)
  intro s₃ h₃ _
  refine .bind (.passing h₃ (skipScope_leads hcall.effects h₃.fit hopener) ?_)
  intro closer vs s₄ h₄
  split
  next => exact .pure ⟨_, h₄⟩
  next =>
    refine .bind (.keeping Parse.still_unmute h₄ ?_)
    intro s₅ h₅
    exact .pure ⟨_, h₅⟩

/-! ### Names and literals -/

theorem nameTail_spans (hcall : Spanning call) (h : s.Fit .nothing) :
    Leads (nameTail call) s (Rule.nameTail.Spans s) := by
  refine .bind (.next h.faultless ?_)
  intro first s₁ h₁ _
  extract_lets rest
  have hrest : ∀ {token us P s'}, s.Faultless (us ++ [token]) P s' → (P → NameArguments us) →
      Leads (rest token) s' (Rule.nameTail.Spans s) := by
    intro token us P s' h' hus
    refine .ite ?_ ?_
    · intro _
      refine .bind (.giveBack h' ?_)
      intro s₂ h₂ _
      exact .pure ⟨_, h₂.mono fun hP => .last (hus hP)⟩
    · intro hkind
      refine .bind (.next h' ?_)
      intro name s₂ h₂ _
      refine .ite ?_ ?_
      · intro _
        refine .bind (.blame h₂ ?_)
        intro s₃ h₃ _
        refine .giveBack h₃ ?_
        intro s₄ h₄ _
        exact ⟨_, h₄.mono False.elim⟩
      · intro hname
        refine .through h₂ (hcall.spans .nameTail s₂ h₂.fit trivial) ?_
        intro _ vs s₃ h₃
        refine ⟨_, h₃.mono ?_⟩
        rintro ⟨hP, htail⟩
        have hword := NameTail.word (hus hP) (not_not.1 hkind) (not_not.1 hname) htail
        simpa using hword
  split
  next hangle =>
    refine .bind (.bounded (R := fun c us => ∃ t, c = some t ∧ t.kind = .closeAngle ∧ IsLast t us)
      h₁ ?_ ?_)
    · intro s₂ h₂ _
      exact skipScope_spans hcall h₂ (by rw [hangle]; rfl)
    · intro c us s₂ h₂
      refine .bind (.next h₂ ?_)
      intro token s₃ h₃ _
      refine hrest h₃ ?_
      rintro ⟨-, t, -, hkind, before, rfl⟩
      exact .between hangle hkind
  next =>
    exact .bind (.pure (hrest h₁ fun _ => .none))

theorem literals_spans (hcall : Spanning call) (h : s.Fit .nothing) (last : Token) :
    Leads (literals call last) s ((Rule.literals last).Spans s) := by
  refine .bind (.next h.faultless ?_)
  intro token s₁ h₁ _
  split
  next hkind =>
    refine .through h₁ (hcall.spans (.literals token) s₁ h₁.fit trivial) ?_
    intro t vs s₂ h₂
    exact ⟨_, h₂.mono fun hP => hP.2.after [last]⟩
  next =>
    refine .bind (.giveBack h₁ ?_)
    intro s₂ h₂ _
    exact .pure ⟨_, h₂.mono fun _ => isLast_concat [] last⟩

/-! ### Lists of expressions -/

/-- What an expression that is not optional consumes, if there is no fault. -/
def Spanned (range : Token × Token) (us : List Token) : Prop :=
  range.1.isPresent = true ∧ us.head? = some range.1 ∧ EndsWith range.2 us

/-- An expression that has to be there. -/
theorem required_spans (hcall : Spanning call) (h : s.Fit .nothing) :
    Leads (call (.expression false)) s fun range s' => ∃ us, s.Faultless us (Spanned range us) s' := by
  refine (hcall.spans (.expression false) s h trivial).mono ?_
  rintro range s' ⟨us, h'⟩
  refine ⟨us, h'.mono fun hspan => ?_⟩
  split at hspan
  next hpresent => exact ⟨hpresent, hspan⟩
  next => cases hspan.1

/-- A list ends with its closing bracket, or with a fault. -/
theorem expressions_spans (hcall : Spanning call) (h : s.Fit .nothing) (opener : TokenKind)
    (last : Token) (hpre : (Rule.expressions opener last).Pre s) :
    Leads (expressions call opener last) s ((Rule.expressions opener last).Spans s) := by
  unfold expressions
  split
  next closeKind missing hclose =>
  refine .bind (.next h.faultless ?_)
  intro token s₁ h₁ _
  split
  next => exact .pure ⟨_, h₁.mono fun _ => isLast_concat [] token⟩
  refine .bind (.giveBack h₁ ?_)
  intro s₂ h₂ _
  refine .bind (.through h₂ (required_spans hcall h₂.fit) ?_)
  intro _ us s₃ h₃
  refine .bind (.next h₃ ?_)
  intro sep s₄ h₄ _
  -- the list goes on
  have hnext : ∀ {us P s'}, s.Faultless us P s' → ∀ last' : Token,
      (opener ≠ .openParen → last'.kind ≠ .closeCurly) →
      Leads (call (.expressions opener last')) s' fun t s'' => ∃ vs, s.Faultless (us ++ vs)
        (P ∧ IsLast t vs) s'' := by
    intro us P s' h' last' hlast'
    refine .through h' (hcall.spans (.expressions opener last') s' h'.fit hlast') ?_
    exact fun t vs s'' h'' => ⟨vs, h''⟩
  split
  next =>
    refine (hnext h₄ last hpre).mono ?_
    rintro t s₅ ⟨vs, h₅⟩
    exact ⟨_, h₅.mono fun hP => hP.2.after _⟩
  split
  next => exact .pure ⟨_, h₄.mono fun _ => isLast_concat _ sep⟩
  next hother =>
    have hcurly : opener ≠ .openParen → sep.kind ≠ .closeCurly := by
      intro hopen hkind
      rw [if_neg hopen] at hclose
      cases hclose
      exact hother hkind
    refine .bind (.blame h₄ ?_)
    intro s₅ h₅ _
    refine .bind ((stepOver_spans hcall h₅).mono ?_)
    rintro last? s₆ ⟨vs, h₆⟩
    split
    next => exact .pure ⟨_, h₆.mono False.elim⟩
    next =>
      refine (hnext h₆ sep hcurly).mono ?_
      rintro t s₇ ⟨ws, h₇⟩
      exact ⟨_, h₇.mono fun hP => hP.1.elim⟩

/-! ### Expressions -/

/-- A lambda expression ends with the closing brace of its body, or with a fault. -/
theorem lambda_spans (hcall : Spanning call) (h : s.Fit .nothing) :
    Leads (lambda call) s fun t s' => ∃ us, s.Faultless us (IsLast t us) s' := by
  refine .bind (.next h.faultless ?_)
  intro captures s₁ h₁ _
  extract_lets body type
  have hbody : ∀ {token us P s'}, s.Faultless (us ++ [token]) P s' →
      Leads (body token) s' fun t s'' => ∃ us, s.Faultless us (IsLast t us) s'' := by
    intro token us P s' h'
    refine .ite ?_ ?_
    · intro _
      refine .bind (.blame h' ?_)
      intro s₂ h₂ _
      refine .bind (.giveBack h₂ ?_)
      intro s₃ h₃ _
      exact .pure ⟨_, h₃.mono False.elim⟩
    · intro hkind
      have hcloser : token.kind.closer? = some .closeCurly := by
        rw [not_not.1 hkind]
        rfl
      refine .bind (.through h' (skipScope_spans hcall h'.fit hcloser) ?_)
      intro c vs s₂ h₂
      refine .pure ⟨_, h₂.mono ?_⟩
      rintro ⟨-, t, rfl, -, hlast⟩
      exact hlast.after _
  have htype : ∀ {us P s'}, s.Faultless us P s' →
      Leads (type ()) s' fun t s'' => ∃ us, s.Faultless us (IsLast t us) s'' := by
    intro us P s' h'
    refine .bind (.next h' ?_)
    intro arrow s₂ h₂ _
    split
    next =>
      refine .bind (.passing h₂ (specified_leads hcall.effects h₂.fit _) ?_)
      intro _ vs s₃ h₃
      refine .bind (.next h₃ ?_)
      intro token s₄ h₄ _
      exact hbody h₄
    next => exact .bind (.pure (hbody h₂))
  have hopener : ∀ {us P s'}, s.Faultless us P s' → Leads (do
      let opener ← Parse.peek
      if opener.kind = .openParen then do
        let _ ← parameterList call false
        type ()
      else do
        Parse.faultExpected .openParen opener
        type ()) s' fun t s'' => ∃ us, s.Faultless us (IsLast t us) s'' := by
    intro us P s' h'
    refine .bind (.look h' ?_)
    intro opener s₂ h₂ hopen
    split
    next hparen =>
      have hplain : opener.isBrace = false := by simp [Token.isBrace, hparen]
      refine .bind (.passing h₂ (parameterList_leads hcall.effects h₂.fit hopen hplain false) ?_)
      exact fun _ vs s₃ h₃ => htype h₃
    next =>
      refine .bind (.keeping (Parse.still_faultExpected _ _) h₂ ?_)
      exact fun s₃ h₃ => htype h₃
  split
  next =>
    refine .bind (.keeping (Parse.still_faultExpected _ _) h₁ ?_)
    exact fun s₂ h₂ => hopener h₂
  next => exact hopener h₁

/-- The last token of an operand that starts with a given token.  Where there is no operand, nothing
is consumed. -/
structure GivesOperand (start : Token) (s : Session) (stop? : Option Token) (s' : Session) : Prop where
  /-- The operand ends with its last token. -/
  ends : ∃ us, s.Faultless us (∀ stop, stop? = some stop → EndsWith stop (start :: us)) s' ∧
    (stop? = none → us = [])
  /-- It starts with a token that is there. -/
  starts : stop? ≠ none → start.isPresent = true

/-- The rest of an operand whose last token is what a part of it gives. -/
theorem givesOperand_of {β : Type} {p : Parse β} {f : β → Token} {kind : TokenKind}
    (hstart : start.kind = kind) (hkind : kind ≠ .invalid)
    (hp : Leads p s fun b s' => ∃ us, s₀.Faultless us (EndsWith (f b) (start :: us)) s') :
    Leads (do return some (f (← p))) s (GivesOperand start s₀) := by
  refine .bind (hp.mono ?_)
  rintro b s₁ ⟨us, h₁⟩
  refine .pure ⟨⟨us, h₁.mono ?_, nofun⟩, fun _ => Token.isPresent_of_kind hstart hkind⟩
  rintro hends stop ⟨⟩
  exact hends

/-- An operand in parentheses, and what is cast if it is a type. -/
theorem parenthesized_spans (hcall : Spanning call) (h : s.Fit .nothing) (hstart : start.kind = .openParen) :
    Leads (do
      let _ ← call (.expression false)
      let closer ← Parse.read
      if closer.kind = .closeParen then
        let (castStart, castStop) ← call (.expression true)
        return some (if castStart.isPresent then castStop else closer)
      else
        Parse.pushBack closer
        return some ((← closeScope call start).getD .absent)) s
      fun stop? s' => ∃ us, s.Faultless us (∃ stop, stop? = some stop ∧ EndsWith stop us) s' ∧
        stop? ≠ none := by
  refine .bind (.through h.faultless (required_spans hcall h) ?_)
  intro _ us s₁ h₁
  refine .bind (.next h₁ ?_)
  intro closer s₂ h₂ _
  split
  next =>
    refine .bind (.through h₂ (hcall.spans (.expression true) s₂ h₂.fit trivial) ?_)
    rintro ⟨castStart, castStop⟩ vs s₃ h₃
    refine .pure ⟨_, h₃.mono ?_, nofun⟩
    rintro ⟨-, hcast⟩
    dsimp only at hcast ⊢
    split at hcast
    next hpresent =>
      rw [if_pos hpresent]
      exact ⟨castStop, rfl, hcast.2.after _⟩
    next habsent =>
      obtain ⟨-, rfl⟩ := hcast
      rw [if_neg habsent, List.append_nil]
      exact ⟨closer, rfl, endsWith_concat _ closer⟩
  next hother =>
    refine .bind (.giveBack h₂ ?_)
    intro s₃ h₃ hpending
    have hcloser : start.kind.closer? = some .closeParen := by
      rw [hstart]
      rfl
    refine .bind ((closeScope_spans hcall h₃ (by rw [hcloser]; rfl) hpending ?_).mono ?_)
    · rw [hcloser]
      exact fun heq => hother (Option.some.inj heq)
    · rintro _ s₄ ⟨vs, h₄⟩
      exact .pure ⟨_, h₄.mono False.elim, nofun⟩

theorem operand_spans (hcall : Spanning call) (h : s.Fit .nothing) (start : Token) :
    Leads (operand call start) s (GivesOperand start s) := by
  -- the brackets of a call, and those of a list in braces behind a type
  have hlist : ∀ {us s₁ P} {opener : TokenKind}, s.Faultless us P s₁ →
      (opener ≠ .openParen → Token.absent.kind ≠ .closeCurly) →
      Leads (Parse.inside opener (call (.expressions opener .absent))) s₁ fun stop s' =>
        ∃ vs, s.Faultless vs (EndsWith stop (start :: vs)) s' := by
    intro us s₁ P opener h₁ hpre
    refine .bounded (R := fun t vs => IsLast t vs) h₁ ?_ ?_
    · exact fun s₂ h₂ _ => hcall.spans (.expressions opener .absent) s₂ h₂ hpre
    · exact fun t vs s₂ h₂ => ⟨_, h₂.mono fun hP => hP.2.endsWith (start :: us)⟩
  -- the operand of a unary operator
  have hunary : Leads (call (.expression false)) s fun range s' =>
      ∃ us, s.Faultless us (EndsWith range.2 (start :: us)) s' := by
    refine (required_spans hcall h).mono ?_
    rintro range s₁ ⟨us, h₁⟩
    exact ⟨us, h₁.mono fun hspan => hspan.2.2.after [start]⟩
  unfold operand
  split
  next hkind =>
    refine .bind (.through h.faultless (hcall.spans .nameTail s h trivial) ?_)
    intro _ us s₁ h₁
    refine .bind (.next h₁ ?_)
    intro next s₂ h₂ _
    split
    next => exact givesOperand_of (f := id) hkind (by decide) (hlist h₂ (by decide))
    next => exact givesOperand_of (f := id) hkind (by decide) (hlist h₂ (by decide))
    next =>
      refine .bind (.giveBack h₂ ?_)
      intro s₃ h₃ _
      refine .pure ⟨⟨_, h₃.mono ?_, fun hnone => absurd hnone (Option.some_ne_none _)⟩,
        fun _ => Token.isPresent_of_kind hkind (by decide)⟩
      rintro ⟨-, htail⟩ stop ⟨⟩
      exact ⟨[], us, rfl, .inr ⟨hkind, htail⟩⟩
  next hkind =>
    refine .pure ⟨⟨[], h.faultless.mono ?_, fun hnone => absurd hnone (Option.some_ne_none _)⟩,
      fun _ => Token.isPresent_of_kind hkind (by decide)⟩
    rintro - stop ⟨⟩
    exact endsWith_concat [] start
  next hkind =>
    refine givesOperand_of (f := id) hkind (by decide)
      ((hcall.spans (.literals start) s h trivial).mono ?_)
    rintro t s₁ ⟨us, h₁⟩
    exact ⟨us, h₁.mono fun hlast => hlast.endsWith []⟩
  next hkind =>
    refine .enclosed (R := fun stop? us => ∃ stop, stop? = some stop ∧ EndsWith stop us)
      (U := fun stop? => stop? ≠ none) h.faultless ?_ ?_
    · exact fun s₁ h₁ _ => parenthesized_spans hcall h₁ hkind
    · intro stop? us s₁ h₁ hsome
      refine ⟨⟨us, h₁.mono ?_, fun hnone => absurd hnone hsome⟩,
        fun _ => Token.isPresent_of_kind hkind (by decide)⟩
      rintro ⟨-, _, rfl, hends⟩ stop ⟨⟩
      exact hends.after [start]
  next hkind =>
    refine givesOperand_of (f := id) hkind (by decide)
      ((hcall.spans (.expressions .openCurly .absent) s h fun _ => by decide).mono ?_)
    rintro t s₁ ⟨us, h₁⟩
    exact ⟨us, h₁.mono fun hlast => hlast.endsWith [start]⟩
  next hkind => exact givesOperand_of (f := Prod.snd) hkind (by decide) hunary
  next hkind => exact givesOperand_of (f := Prod.snd) hkind (by decide) hunary
  next hkind => exact givesOperand_of (f := Prod.snd) hkind (by decide) hunary
  next hkind =>
    refine givesOperand_of (f := id) hkind (by decide) ((lambda_spans hcall h).mono ?_)
    rintro t s₁ ⟨us, h₁⟩
    exact ⟨us, h₁.mono fun hlast => hlast.endsWith [start]⟩
  next =>
    refine .pure ⟨⟨[], h.faultless.mono fun _ stop hsome => ?_, fun _ => rfl⟩, absurd rfl⟩
    exact absurd hsome.symm (Option.some_ne_none stop)

theorem continuation_spans (hcall : Spanning call) (h : s₀.Faultless us (EndsWith stop us) s) :
    Leads (continuation call stop) s fun last s' =>
      ∃ vs, s₀.Faultless (us ++ vs) (EndsWith last (us ++ vs)) s' := by
  refine .bind (.next h ?_)
  intro token s₁ h₁ _
  refine .bind (.get ?_)
  -- the expression ends in front of the token
  have hback : Leads (do Parse.pushBack token; return stop) s₁ fun last s' =>
      ∃ vs, s₀.Faultless (us ++ vs) (EndsWith last (us ++ vs)) s' := by
    refine .bind (.giveBack h₁ ?_)
    intro s₂ h₂ _
    exact .pure ⟨[], by rwa [List.append_nil]⟩
  -- it ends with another one
  have hgoOn : ∀ {vs s' P}, s₀.Faultless (us ++ vs) P s' → Leads (do
      let (nextStart, nextStop) ← call (.expression false)
      return if nextStart.isPresent then nextStop else stop) s' fun last s'' =>
      ∃ vs, s₀.Faultless (us ++ vs) (EndsWith last (us ++ vs)) s'' := by
    intro vs s' P h'
    refine .bind (.through h' (required_spans hcall h'.fit) ?_)
    rintro ⟨nextStart, nextStop⟩ ws s₂ h₂
    refine .pure ⟨vs ++ ws, ?_⟩
    rw [← List.append_assoc]
    refine h₂.mono ?_
    rintro ⟨-, hpresent, -, hends⟩
    dsimp only at hpresent ⊢
    rw [if_pos hpresent]
    exact hends.after _
  split
  next => exact hback
  split
  next => exact hgoOn h₁
  split
  next =>
    refine .bind (.through h₁ (required_spans hcall h₁.fit) ?_)
    intro _ vs s₂ h₂
    refine .bind (.next h₂ ?_)
    intro colon s₃ h₃ _
    rw [List.append_assoc] at h₃
    split
    next =>
      rw [← List.append_assoc] at h₃
      refine .bind (.blame h₃ ?_)
      intro s₄ h₄ _
      refine .bind (.giveBack h₄ ?_)
      intro s₅ h₅ _
      rw [List.append_assoc] at h₅
      exact .pure ⟨_, h₅.mono False.elim⟩
    next =>
      rw [List.append_assoc] at h₃
      exact hgoOn h₃
  next => exact hback

theorem expression_spans (hcall : Spanning call) (h : s.Fit .nothing) (optional : Bool) :
    Leads (expression call optional) s ((Rule.expression optional).Spans s) := by
  refine .bind (.next h.faultless ?_)
  intro start s₁ h₁ _
  refine .bind ((operand_spans hcall h₁.fit start).mono ?_)
  rintro (_ | stop) s₂ ⟨⟨us, h₂, hnone⟩, hstarts⟩
  · obtain rfl := hnone rfl
    have h₂ := h₁.andThen h₂
    rw [List.append_nil] at h₂
    have hback : ∀ {P s'}, s.Faultless [start] P s' → (P → optional = true) → Leads (do
        Parse.pushBack start
        return (.absent, .absent)) s' ((Rule.expression optional).Spans s) := by
      intro P s' h' hP
      have h' : s.Faultless ([] ++ [start]) P s' := h'
      refine .bind (.giveBack h' ?_)
      intro s₃ h₃ _
      exact .pure ⟨_, h₃.mono fun hholds => ⟨hP hholds, rfl⟩⟩
    refine .ite ?_ ?_
    · intro _
      refine .bind (.blame h₂ ?_)
      exact fun s₃ h₃ _ => hback h₃ False.elim
    · intro hoptional
      exact hback h₂ fun _ => by simpa using hoptional
  · have h₂ : s.Faultless (start :: us) (EndsWith stop (start :: us)) s₂ :=
      (h₁.andThen h₂).mono fun hP => hP.2 stop rfl
    refine .bind ((continuation_spans hcall h₂).mono ?_)
    rintro last s₃ ⟨vs, h₃⟩
    refine .pure ⟨_, h₃.mono fun hends => ?_⟩
    rw [if_pos (hstarts nofun)]
    exact ⟨rfl, hends⟩

/-! ### Runs -/

theorem body_spans {α : Type} (rule : Rule α) (hcall : Spanning call) (h : s.Fit .nothing)
    (hpre : rule.Pre s) : Leads (body call rule) s (rule.Spans s) := by
  cases rule with
  | skipTo opener closer => exact skipTo_spans hcall h opener closer hpre
  | nameTail => exact nameTail_spans hcall h
  | literals last => exact literals_spans hcall h last
  | expressions opener last => exact expressions_spans hcall h opener last hpre
  | expression optional => exact expression_spans hcall h optional
  | _ => exact fun _ _ _ => trivial

/-- Every run gives what its rule does, however deep. -/
theorem run_spans (depth : Nat) : Spanning fun rule => run depth rule := by
  refine ⟨run_effects depth, ?_⟩
  induction depth with
  | zero => exact fun _ _ _ _ _ _ hrun => nomatch hrun
  | succ depth ih => exact fun rule s h hpre => body_spans rule ⟨run_effects depth, ih⟩ h hpre

end Grammar

/-- An expression that is read without a fault begins with the first token that is consumed.  It
ends with the last token that is consumed, or with the first word of a name of which the rest comes
behind. -/
theorem expression_range (depth : Nat) (optional : Bool) {s s' : Session} (hs : s.Orderly)
    (hrun : Grammar.run depth (.expression optional) s = .ok ((start, stop), s'))
    (hclean : s'.rawErrors = s.rawErrors) (hstart : start.isPresent = true) :
    ∃ us, s.Advance us s' ∧ us.head? = some start ∧ ∃ before tail, us = before ++ stop :: tail ∧
      (tail = [] ∨ stop.kind = .identifier ∧ NameTail tail) := by
  obtain ⟨us, hspan⟩ := (Grammar.run_spans depth).spans (.expression optional) s ⟨hs, False.elim⟩ trivial
    (start, stop) s' hrun
  obtain ⟨ps, hpast⟩ := hspan.past
  have hends := hspan.holds (Nat.le_of_eq hclean)
  rw [if_pos hstart] at hends
  exact ⟨us, hpast.advance, hends⟩

/-- A session before a source. -/
def Session.onSource (source : String) : Session :=
  Session.new ((Reader.new .empty {}).push "test.h" source).2 60 1

theorem Session.orderly_onSource (source : String) : (onSource source).Orderly :=
  Session.orderly_new (Reader.sound_pushed {} "test.h" source) 60 1

/-- A call, a list in braces and a name of many words. -/
def longExpression : String := "f(a::b<1>, -x) + T\x7b1, \"s\"\x7d * c::d<(2)>::e;"

theorem expression_range_long : ∃ s' start stop us,
    Grammar.run 60 (.expression false) (.onSource longExpression) = .ok ((start, stop), s') ∧
    start.text = "f" ∧ stop.text = "c" ∧ (Session.onSource longExpression).Advance us s' ∧
    us.head? = some start ∧ ∃ before tail, us = before ++ stop :: tail ∧
      (tail = [] ∨ stop.kind = .identifier ∧ NameTail tail) := by
  have hall : (Grammar.run 60 (.expression false) (.onSource longExpression)).toOption.map
      (fun result => (result.1.1.text, result.1.2.text, result.1.1.isPresent, result.2.rawErrors)) =
      some ("f", "c", true, 0) := by
    decide +kernel
  obtain ⟨⟨⟨start, stop⟩, s'⟩, hrun, hvalues⟩ := Halt.of_toOption_map hall
  obtain ⟨hfirst, hvalues⟩ := Prod.mk.inj hvalues
  obtain ⟨hlast, hvalues⟩ := Prod.mk.inj hvalues
  obtain ⟨hstart, hclean⟩ := Prod.mk.inj hvalues
  obtain ⟨us, hadvance, hspan⟩ :=
    expression_range 60 false (Session.orderly_onSource longExpression) hrun hclean hstart
  exact ⟨s', start, stop, us, hrun, hfirst, hlast, hadvance, hspan⟩

/-- A name of two words. -/
def twoWords : String := "a::b;"

theorem Reader.Gives.of_plain {r r' : Reader} {n : Nat} {kind : TokenKind} (h : r.Gives n t r')
    (hkind : r.readToken.toOption.map (·.1.kind) = some kind) (hplain : kind.isAside = false) :
    r.readToken = .ok (t, r') := by
  cases h with
  | ended hread => exact hread
  | plain hread => exact hread
  | aside hread haside =>
    rw [hread] at hkind
    obtain rfl := Option.some.inj hkind
    rw [hplain] at haside
    cases haside

/-- The second token of a name of two words is no semicolon, in whatever way it is read. -/
theorem second_twoWords {r : Reader} {k : Nat} {u : Token} {ts : List Token}
    (h : (Session.onSource twoWords).reader.Draws k (t :: u :: ts) r) : u.kind = .doubleColon := by
  have hfirst : ∀ a, ((Session.onSource twoWords).reader.withAngles a).readToken.toOption.map
      (·.1.kind) = some .identifier := by
    decide +kernel
  have hsecond : ∀ a b, (((Session.onSource twoWords).reader.withAngles a).readToken.toOption.bind
      fun x => (x.2.withAngles b).readToken.toOption).map (·.1.kind) = some .doubleColon := by
    decide +kernel
  cases h with
  | @cons _ r₁ _ a _ _ _ _ hgives hrest =>
    cases hrest with
    | @cons _ _ _ b _ _ _ _ hgives' =>
      have hread := hgives.of_plain (hfirst a) rfl
      have hthen : (r₁.withAngles b).readToken.toOption.map (·.1.kind) = some .doubleColon := by
        have hboth := hsecond a b
        rw [hread] at hboth
        exact hboth
      rw [hgives'.of_plain hthen rfl] at hthen
      exact Option.some.inj hthen

/-- The name has two words, but the expression is said to end with the first one. -/
theorem expression_range_short : ∃ s' start stop,
    Grammar.run 60 (.expression false) (.onSource twoWords) = .ok ((start, stop), s') ∧
    s'.rawErrors = (Session.onSource twoWords).rawErrors ∧ start.isPresent = true ∧
    ¬ ∃ us, (Session.onSource twoWords).Advance us s' ∧ us.head? = some start ∧
      us.getLast? = some stop := by
  have hall : (Grammar.run 60 (.expression false) (.onSource twoWords)).toOption.map
      (fun result => (result.1.1.kind, result.2.rawErrors, decide (result.1.2 = result.1.1),
        result.2.queue.ahead.map Token.kind)) =
      some (TokenKind.identifier, 0, true, [TokenKind.semicolon]) := by
    decide +kernel
  obtain ⟨⟨⟨start, stop⟩, s'⟩, hrun, hvalues⟩ := Halt.of_toOption_map hall
  obtain ⟨hkind, hvalues⟩ := Prod.mk.inj hvalues
  obtain ⟨hclean, hvalues⟩ := Prod.mk.inj hvalues
  obtain ⟨hsame, hahead⟩ := Prod.mk.inj hvalues
  obtain rfl : stop = start := of_decide_eq_true hsame
  refine ⟨s', stop, stop, hrun, hclean, Token.isPresent_of_kind hkind (by decide), ?_⟩
  rintro ⟨us, hadvance, hfirst, hlast⟩
  obtain ⟨k, pulled, hdraws, -, hqueue⟩ := hadvance.drawn
  obtain ⟨semicolon, hnext, hsemicolon⟩ := List.map_eq_singleton_iff.1 hahead
  obtain ⟨rest, rfl⟩ := List.head?_eq_some_iff.1 hfirst
  cases rest with
  | nil =>
    rw [hnext, show (Session.onSource twoWords).queue.ahead ++ pulled = pulled from rfl] at hqueue
    rw [hqueue] at hdraws
    rw [second_twoWords hdraws] at hsemicolon
    cases hsemicolon
  | cons word words =>
    have htidy : (Session.onSource twoWords).Tidy := Session.tidy_new
      (Reader.sound_pushed {} "test.h" twoWords) (Reader.ordered_pushed {} "test.h" twoWords) 60 1
    have hmem : stop ∈ word :: words := by
      rw [List.getLast?_cons_cons] at hlast
      exact List.mem_of_getLast? hlast
    have hmore : stop.kind ≠ .endOfFile := by
      rw [show stop.kind = _ from hkind]
      decide
    have hall : (Session.onSource twoWords).Advance ([] ++ stop :: (word :: words)) s' := hadvance
    exact absurd (htidy.loc_lt hall hmem hmem hmore) (lt_irrefl stop.loc)

end CppDecl
