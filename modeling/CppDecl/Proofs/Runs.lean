import CppDecl.Proofs.Advance

/-!
# What actions do to tokens

Rules to show that an action has a result and what tokens it consumes.  `Parse.Runs` is the total
correctness of an action from a given session.  The rules take what holds after the action as the
rest of the argument, so that an action is gone through in the order in which it is carried out.

What is known about the session on the way is `Session.Since`: which tokens have been consumed since
some earlier session, and with what number that one was ready.
-/

namespace CppDecl

namespace Session

/-- The tokens `ts` have been consumed since the session `s₀`, which was ready with `n`. -/
structure Since (n : Nat) (s₀ : Session) (ts : List Token) (s : Session) : Prop where
  /-- The earlier session was ready. -/
  ready : s₀.Ready n
  /-- It has advanced. -/
  advance : s₀.Advance ts s

variable {n : Nat} {s₀ s s' : Session} {t : Token} {ts us : List Token}

theorem Ready.since (h : s.Ready n) : Since n s [] s := ⟨h, .refl s⟩

theorem Since.live_le (h : Since n s₀ ts s) : live ts ≤ n := (h.ready.advance h.advance).1

/-- The session is ready with what is left. -/
theorem Since.left (h : Since n s₀ ts s) : s.Ready (n - live ts) := (h.ready.advance h.advance).2

theorem Since.append (h : Since n s₀ ts s) (hadvance : s.Advance us s') :
    Since n s₀ (ts ++ us) s' :=
  ⟨h.ready, h.advance.trans hadvance h.ready.sound⟩

theorem Since.same (h : Since n s₀ ts s) (hsame : s.Same s') : Since n s₀ ts s' := by
  have hsince := h.append hsame.advance
  rwa [List.append_nil] at hsince

end Session

namespace Parse

open Session (Since Ready Advance Same Pending Begun)

variable {α β : Type} {n : Nat} {s₀ s s' : Session} {t : Token} {ts us : List Token}
variable {p : Parse α} {f : α → Parse β} {Q : α → Session → Prop} {P : β → Session → Prop}

/-! ## Actions in general -/

/-- An action has a result, and the result and the session then are as they should be. -/
def Runs (p : Parse α) (s : Session) (Q : α → Session → Prop) : Prop :=
  ∃ a s', p s = .ok (a, s') ∧ Q a s'

/-- A result is as it should be, given the tokens that were consumed since `s` and the queue. -/
abbrev Consumed (s : Session) (R : α → List Token → TokenQueue → Prop) (a : α) (s' : Session) :
    Prop := ∃ us, s.Advance us s' ∧ R a us s'.queue

/-- An action has a result, and it is as it should be, given the tokens that the action consumes and
the queue that it leaves. -/
def Consumes (p : Parse α) (s : Session) (R : α → List Token → TokenQueue → Prop) : Prop :=
  Runs p s (Consumed s R)

theorem Runs.bind (h : Runs p s fun a s' => Runs (f a) s' P) : Runs (p >>= f) s P := by
  obtain ⟨a, s₁, hp, b, s₂, hf, hP⟩ := h
  refine ⟨b, s₂, ?_, hP⟩
  simp only [Bind.bind, StateT.bind, hp, Except.bind]
  exact hf

theorem Runs.pure {a : α} (h : Q a s) : Runs (pure a) s Q := ⟨a, s, rfl, h⟩

theorem Runs.mono {Q' : α → Session → Prop} (h : Runs p s Q) (hQ : ∀ a s', Q a s' → Q' a s') :
    Runs p s Q' := by
  obtain ⟨a, s', hp, hq⟩ := h
  exact ⟨a, s', hp, hQ a s' hq⟩

theorem Runs.ite {q : Parse α} {c : Prop} [Decidable c] (hp : c → Runs p s Q)
    (hq : ¬ c → Runs q s Q) : Runs (if c then p else q) s Q := by
  split
  next hc => exact hp hc
  next hc => exact hq hc

theorem Runs.get {Q : Session → Session → Prop} (h : Q s s) : Runs get s Q := ⟨s, s, rfl, h⟩

theorem Runs.set {Q : Unit → Session → Prop} (h : Q () s') : Runs (set s') s Q :=
  ⟨(), s', rfl, h⟩

theorem Runs.modify {g : Session → Session} {Q : Unit → Session → Prop} (h : Q () (g s)) :
    Runs (modify g) s Q := ⟨(), g s, rfl, h⟩

/-- A part of an action, by what it consumes. -/
theorem Runs.part {R : α → List Token → TokenQueue → Prop} (h : Since n s₀ ts s)
    (hp : Consumes p s R)
    (hQ : ∀ a us s', Since n s₀ (ts ++ us) s' → R a us s'.queue → Q a s') : Runs p s Q := by
  obtain ⟨a, s', hp, us, hadvance, hR⟩ := hp
  exact ⟨a, s', hp, hQ a us s' (h.append hadvance) hR⟩

/-! ## Tokens -/

theorem Runs.read {Q : Token → Session → Prop} (h : Since n s₀ ts s)
    (hQ : ∀ t s', Since n s₀ (ts ++ [t]) s' → (∀ u, s.Pending u → t = u) → Q t s') :
    Runs read s Q := by
  obtain ⟨t, s', hread, hadvance, hpending⟩ := h.left.read
  exact ⟨t, s', hread, hQ t s' (h.append hadvance) hpending⟩

theorem Runs.pushBack {Q : Unit → Session → Prop} (h : Since n s₀ (ts ++ [t]) s)
    (hQ : ∀ s', Since n s₀ ts s' → s'.Pending t → Q () s') : Runs (pushBack t) s Q := by
  obtain ⟨hadvance, hpending⟩ := h.advance.pushBack h.ready.toOrderly
  exact ⟨(), _, rfl, hQ _ ⟨h.ready, hadvance⟩ hpending⟩

theorem Runs.peek {Q : Token → Session → Prop} (h : Since n s₀ ts s)
    (hQ : ∀ t s', Since n s₀ ts s' → s'.Pending t → (∀ u, s.Pending u → t = u) → Q t s') :
    Runs peek s Q := by
  refine .bind (.read h ?_)
  intro t s₁ h₁ hfirst
  refine .bind (.pushBack h₁ ?_)
  intro s₂ h₂ hpending
  exact .pure (hQ t s₂ h₂ hpending hfirst)

/-! ## Actions that leave tokens alone -/

/-- An action that does nothing to tokens. -/
def Quiet (p : Parse Unit) : Prop := ∀ s, ∃ s', p s = .ok ((), s') ∧ s.Same s'

theorem Runs.quiet {p : Parse Unit} {Q : Unit → Session → Prop} (hp : Quiet p)
    (h : Since n s₀ ts s) (hQ : ∀ s', Since n s₀ ts s' → s'.queue = s.queue → Q () s') :
    Runs p s Q := by
  obtain ⟨s', heq, hsame⟩ := hp s
  exact ⟨(), s', heq, hQ s' (h.same hsame) hsame.queue⟩

/-- An action that does nothing to tokens and is carried out under a condition. -/
theorem Runs.quietIf {p : Parse Unit} {f : Unit → Parse α} {c : Prop} [Decidable c] (hp : Quiet p)
    (h : Since n s₀ ts s) (hf : ∀ s', Since n s₀ ts s' → s'.queue = s.queue → Runs (f ()) s' Q) :
    Runs (if c then p >>= f else f ()) s Q := by
  split
  · exact .bind (.quiet hp h hf)
  · exact hf s h rfl

theorem quiet_unmute : Quiet unmute := fun _ => ⟨_, rfl, .refl _, rfl, rfl, rfl⟩

theorem quiet_fault (mute : Bool) (e : ParseError) : Quiet (fault mute e) := by
  intro s
  refine ⟨_, rfl, ?_⟩
  simp only
  split <;> split <;> exact ⟨.refl _, rfl, rfl, rfl⟩

theorem quiet_faultExpected (what : Expected) (token : Token) : Quiet (faultExpected what token) :=
  quiet_fault true _

theorem quiet_enterScope (scope : Scope) : Quiet (enterScope scope) :=
  fun _ => ⟨_, rfl, .refl _, rfl, rfl, rfl⟩

theorem quiet_leaveScope (scope : Scope) (count : Nat) : Quiet (leaveScope scope count) :=
  fun _ => ⟨_, rfl, .refl _, rfl, rfl, rfl⟩

theorem quiet_declare (d : Declaration) : Quiet (declare d) := by
  intro s
  refine ⟨_, rfl, ?_⟩
  simp only
  split <;> exact ⟨.refl _, rfl, rfl, rfl⟩

theorem quiet_tell (e : Event) : Quiet (tell e) := fun _ => ⟨_, rfl, .refl _, rfl, rfl, rfl⟩

theorem Runs.members {Q : List Declaration → Session → Prop} (hQ : ∀ ds, Q ds s) :
    Runs members s Q := by
  refine .bind (.get ?_)
  cases s.scopes with
  | nil => exact .pure (hQ [])
  | cons top outer => exact .pure (hQ top.members)

theorem Runs.failedSince {Q : Bool → Session → Prop} (before : Nat) (hQ : ∀ failed, Q failed s) :
    Runs (failedSince before) s Q := .bind (.get (.pure (hQ _)))

theorem Runs.unmuteUnlessFailed {Q : Unit → Session → Prop} (a : Activity) (h : Since n s₀ ts s)
    (hQ : ∀ s', Since n s₀ ts s' → s'.queue = s.queue → Q () s') :
    Runs (unmuteUnlessFailed a) s Q := by
  refine .bind (.failedSince _ ?_)
  intro failed
  split
  · exact .quiet quiet_unmute h hQ
  · exact .pure (hQ s h rfl)

theorem Runs.beginActivity {Q : Activity → Session → Prop} (h : Since n s₀ ts s)
    (hQ : ∀ (a : Activity) s' t, Since n s₀ ts s' → s'.Pending t → a.loc = t.loc →
      (∀ u, s.Pending u → t = u) → Q a s') : Runs beginActivity s Q := by
  refine .bind (.peek h ?_)
  intro t s₁ h₁ hpending hfirst
  exact .bind (.get (.pure (hQ _ s₁ t h₁ hpending rfl hfirst)))

/-- If a token has been consumed, another one waits now. -/
theorem Runs.consumedSince {Q : Bool → Session → Prop} (a : Activity) (h : Since n s₀ ts s)
    (hQ : ∀ consumed s', Since n s₀ ts s' →
      (consumed = true → ∀ t, a.loc = t.loc → ¬ s.Pending t) → Q consumed s') :
    Runs (consumedSince a) s Q := by
  refine .bind (.peek h ?_)
  intro t s₁ h₁ _ hfirst
  refine .pure (hQ _ s₁ h₁ ?_)
  intro hconsumed u hloc hu
  rw [hfirst u hu, hloc] at hconsumed
  simp at hconsumed

/-! ## Recovery -/

/-- Whether the parse stays behind a token.  If not, the token is pushed back or is the end of the
file. -/
theorem Runs.mayStay {Q : Bool → Session → Prop} (h : Since n s₀ (ts ++ [t]) s)
    (hstay : ∀ s', Since n s₀ (ts ++ [t]) s' → t.kind ≠ .endOfFile → Q true s')
    (hleave : ∀ vs s', Since n s₀ (ts ++ vs) s' →
      t.kind = .endOfFile ∨ s₀.accept.leaves? t.kind = some true → Q false s') :
    Runs (mayStay t) s Q := by
  unfold Parse.mayStay
  split
  next hend => exact .pure (hleave [t] s h (.inl hend))
  next hmore =>
    refine .bind (.get ?_)
    rw [h.advance.accept]
    split
    next hleaves =>
      refine .bind (.pushBack h ?_)
      intro s₁ h₁ _
      rw [← List.append_nil ts] at h₁
      exact .pure (hleave [] s₁ h₁ (.inr hleaves))
    next => exact .pure (hstay s h hmore)

/-! ## Brackets -/

/-- Inside of a bracket, other tokens end what is being parsed, and `>` may be read in another way. -/
theorem Runs.within {accept : Accept → Accept} {angles : Bool → Bool}
    {R : α → List Token → TokenQueue → Prop} (h : Since n s₀ ts s)
    (hp : ∀ s₁, s₁.Ready (n - live ts) → s₁.queue = s.queue → s₁.accept = accept s.accept →
      Consumes p s₁ R)
    (hQ : ∀ a us s', Since n s₀ (ts ++ us) s' → R a us s'.queue → Q a s') :
    Runs (within accept angles p) s Q := by
  obtain ⟨a, s₁, hrun, us, hadvance, hR⟩ := hp
    (s.bracketed (accept s.accept) (angles s.reader.closeAnglesOnly)) (h.left.bracketed _ _) rfl rfl
  have hsince := h.append (hadvance.of_bracketed (b := s.reader.closeAnglesOnly) h.left.sound)
  refine .bind (.get (.bind (.set (.bind ⟨a, s₁, hrun, .bind (.modify ?_)⟩))))
  exact .pure (hQ a us _ hsince hR)

/-! ## Trials -/

theorem Runs.beginTrial {Q : Trial → Session → Prop}
    (hQ : ∀ trial s', Begun s trial s' → Q trial s') : Runs beginTrial s Q :=
  ⟨_, _, rfl, hQ _ _ ⟨rfl, rfl, rfl, rfl, rfl⟩⟩

variable {trial : Trial} {m : Nat} {s₁ : Session}

theorem Runs.endTrial {Q : Unit → Session → Prop} (h : Since n s₀ ts s) (hbegun : Begun s trial s₁)
    (htrial : Since m s₁ us s') (hQ : ∀ s'', Since n s₀ (ts ++ us) s'' → Q () s'') :
    Runs (endTrial trial) s' Q := by
  obtain ⟨s'', hend, hadvance⟩ := hbegun.endTrial h.left.toOrderly htrial.advance
  exact ⟨(), s'', hend, hQ s'' (h.append hadvance)⟩

/-- After a trial that is given up, the token waits again that waited before. -/
theorem Runs.abandon {Q : Unit → Session → Prop} (h : Since n s₀ ts s) (hbegun : Begun s trial s₁)
    (htrial : Since m s₁ us s')
    (hQ : ∀ s'', Since n s₀ ts s'' → (∀ t, s.Pending t → s''.Pending t) → Q () s'') :
    Runs (abandon trial) s' Q := by
  obtain ⟨s'', hback, hadvance⟩ := hbegun.abandon h.left.toOrderly htrial.advance
  have hsince := h.append hadvance
  rw [List.append_nil] at hsince
  exact ⟨(), s'', hback, hQ s'' hsince fun t ht => ht.advance hadvance⟩

end Parse

end CppDecl
