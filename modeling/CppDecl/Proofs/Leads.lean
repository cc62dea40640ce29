import CppDecl.Proofs.Delivery
import CppDecl.Proofs.Level
import CppDecl.Proofs.News
import CppDecl.Proofs.Runs

/-!
# What actions lead to

Rules to show what holds after an action if it has a result.  `Parse.Leads` is the partial
correctness of an action from a given session.  As with `Parse.Runs`, what holds after the action is
taken as the rest of the argument.

What is known about the session on the way is `Session.Past`: the tokens that have been consumed
since some earlier session, the scopes that are open now, and parts of the tree that have been read
since.  As long as there are no faults, these parts are ended.
-/

namespace CppDecl

/-- The outermost of the given scopes are the same, and the innermost has the declarations that it
had and others, with parts among the given ones.  A template has no more than one. -/
def Grown (ps : List Part) : List OpenScope → List OpenScope → Prop
  | [], sc => sc = []
  | top :: outer, sc => ∃ members, sc = ⟨top.scope, members⟩ :: outer ∧
      members.flatMap Declaration.parts ⊆ top.members.flatMap Declaration.parts ++ ps ∧
      (top.scope = .template → top.members.length ≤ 1 → members.length ≤ 1)

theorem Grown.refl (sc : List OpenScope) : Grown [] sc sc := by
  cases sc with
  | nil => exact rfl
  | cons top outer => exact ⟨top.members, rfl, by simp, fun _ => id⟩

theorem Grown.trans {ps qs : List Part} {sc₁ sc₂ sc₃ : List OpenScope} (h : Grown ps sc₁ sc₂)
    (h' : Grown qs sc₂ sc₃) : Grown (ps ++ qs) sc₁ sc₃ := by
  cases sc₁ with
  | nil =>
    obtain rfl : sc₂ = [] := h
    exact h'
  | cons top outer =>
    obtain ⟨members, rfl, hmembers, hone⟩ := h
    obtain ⟨members', rfl, hmembers', hone'⟩ := h'
    exact ⟨members', rfl, by grind, fun hscope hle => hone' hscope (hone hscope hle)⟩

theorem Grown.mono {ps qs : List Part} {sc sc' : List OpenScope} (h : Grown ps sc sc')
    (hsub : ps ⊆ qs) : Grown qs sc sc' := by
  cases sc with
  | nil => exact h
  | cons top outer =>
    obtain ⟨members, rfl, hmembers, hone⟩ := h
    exact ⟨members, rfl, by grind, hone⟩

/-- The open scopes with a declaration in the innermost one. -/
def collectIn (d : Declaration) : List OpenScope → List OpenScope
  | [] => []
  | top :: outer => top.collect d :: outer

theorem grown_collectIn (d : Declaration) (sc : List OpenScope) :
    Grown d.parts sc (collectIn d sc) := by
  cases sc with
  | nil => exact rfl
  | cons top outer =>
    obtain ⟨scope, members⟩ := top
    cases scope <;> exact ⟨_, rfl, by simp, by simp⟩

/-- The innermost scope collects any number of declarations. -/
def Gathering (sc : List OpenScope) : Prop :=
  ∃ top outer, sc = top :: outer ∧ top.scope.gathers = true

theorem Gathering.collecting {sc : List OpenScope} (h : Gathering sc) : Session.Collecting sc := by
  obtain ⟨top, outer, hsc, hgathers⟩ := h
  exact ⟨top, outer, hsc, by rw [Scope.takes, hgathers, Bool.true_or]⟩

theorem Gathering.grown {ps : List Part} {sc sc' : List OpenScope} (h : Gathering sc)
    (hgrown : Grown ps sc sc') : Gathering sc' := by
  obtain ⟨top, outer, rfl, hgathers⟩ := h
  obtain ⟨members, rfl, -⟩ := hgrown
  exact ⟨⟨top.scope, members⟩, outer, rfl, hgathers⟩

theorem Scope.isEnumeration_of_gathers {scope : Scope} (h : scope.gathers = true) :
    scope.isEnumeration = false := by
  cases scope <;> first | rfl | cases h

namespace Session

/-- A session in order.  If braces are watched, the closing brace is left to a rule further out. -/
structure Fit (W : Concern) (s : Session) : Prop where
  /-- The session is in order. -/
  orderly : s.Orderly
  /-- The closing brace is left alone. -/
  guarded : W.asked → s.accept.closeCurly = true

/-- The tokens `ts` have been consumed since the session `s₀`, the scopes `sc` are open now, and the
parts `ps` have been read.  In the innermost enumeration `k` enumerators have come up. -/
structure Past (W : Concern) (s₀ : Session) (ts : List Token) (sc : List OpenScope) (ps : List Part)
    (s : Session) (k : Nat := 0) : Prop where
  /-- The earlier session was fit. -/
  fit : s₀.Fit W
  /-- It has advanced. -/
  advance : s₀.Advance ts s
  /-- The tokens were read. -/
  delivered : s₀.Delivers ts s
  /-- Nothing was forgotten. -/
  steady : s₀.Steady s
  /-- These scopes are open. -/
  scopes : s.scopes = sc
  /-- Without faults, all parts are ended. -/
  ended : s.rawErrors = 0 → ∀ p ∈ ps, p.Ended
  /-- It was told of. -/
  told : s₀.Told k s

variable {W : Concern} {s₀ s s' : Session} {t : Token} {ts us vs : List Token}
variable {sc sc' : List OpenScope} {ps qs : List Part}

theorem Fit.past (h : s.Fit W) : Past W s [] s.scopes [] s :=
  ⟨h, .refl s, .refl s, .refl s, rfl, fun _ => List.forall_mem_nil _, .refl s⟩

theorem Fit.level (_ : s.Fit W) : Level W [] [] := .nil

/-- The session is fit. -/
theorem Past.left {k : Nat} (h : Past W s₀ us sc ps s k) : s.Fit W :=
  ⟨h.fit.orderly.advance h.advance, fun hW => h.advance.accept ▸ h.fit.guarded hW⟩

theorem Past.append {k l : Nat} (h : Past W s₀ us sc ps s k) (h' : Past W s vs sc' qs s' l) :
    Past W s₀ (us ++ vs) sc' (ps ++ qs) s' (k + l) := by
  refine ⟨h.fit, h.advance.trans h'.advance h.fit.orderly.sound, h.delivered.trans h'.delivered,
    h.steady.trans h'.steady, h'.scopes, ?_, h.told.trans h'.told⟩
  intro hnone
  have hle := h'.steady.rawErrors_le
  exact List.forall_mem_append.2 ⟨h.ended (by omega), h'.ended hnone⟩

theorem Past.step {k l : Nat} (h : Past W s₀ us sc ps s k) (hadvance : s.Advance vs s')
    (hdelivered : s.Delivers vs s') (hsteady : s.Steady s') (htold : s.Told l s')
    (hscopes : s'.scopes = sc') : Past W s₀ (us ++ vs) sc' ps s' (k + l) := by
  have hpast := h.append
    ⟨h.left, hadvance, hdelivered, hsteady, hscopes, fun _ => List.forall_mem_nil _, htold⟩
  rwa [List.append_nil] at hpast

theorem Past.same {k l : Nat} (h : Past W s₀ us sc ps s k) (hsame : s.Same s')
    (hsteady : s.Steady s') (htold : s.Told l s') (hscopes : s'.scopes = sc') :
    Past W s₀ us sc' ps s' (k + l) := by
  have hpast := h.step hsame.advance (.same hsame) hsteady htold hscopes
  rwa [List.append_nil] at hpast

/-- One more part. -/
theorem Past.add (h : Past W s₀ us sc ps s) {p : Part} (hp : s.rawErrors = 0 → p.Ended) :
    Past W s₀ us sc (ps ++ [p]) s :=
  ⟨h.fit, h.advance, h.delivered, h.steady, h.scopes, fun hnone =>
    List.forall_mem_append.2 ⟨h.ended hnone, List.forall_mem_singleton.2 (hp hnone)⟩, h.told⟩

/-- What is in front of a token is not the end of the file, unless the token is. -/
theorem Past.more {k : Nat} (h : Past W s₀ (us ++ [t]) sc ps s k) (ht : t.kind ≠ .endOfFile) :
    ∀ u ∈ us, u.kind ≠ .endOfFile := by
  have hall := h.fit.orderly.trailing_advance h.advance
  rw [List.append_assoc] at hall
  intro u hu hend
  exact ht ((List.pairwise_append.1 hall).2.2 u hu t (by simp) hend)

/-- Once the end of the file has been consumed, nothing is left to be read. -/
theorem Past.frames_nil (h : Past W s₀ us sc ps s) (hend : ∃ t ∈ us, t.kind = .endOfFile) :
    s.reader.frames = [] := by
  obtain ⟨t, ht, hkind⟩ := hend
  obtain ⟨k, pulled, hdraws, -, hqueue⟩ := h.advance.drawn
  have horderly := h.fit.orderly
  have hmem : t ∈ s₀.queue.ahead ++ pulled := by
    rw [hqueue]
    exact List.mem_append_left _ ht
  rcases List.mem_append.1 hmem with hmem | hmem
  · exact (hdraws.ended_of_frames_nil (horderly.ended t hmem hkind)).1
  · exact (hdraws.trailing horderly.sound).2 t hmem hkind

/-- What is past inside of a bracket is past outside of it. -/
theorem Past.of_bracketed {W' : Concern} {k : Nat} {accept : Accept} {a : Bool} (hfit : s.Fit W)
    (h : Past W' (s.bracketed accept a) us sc ps s' k) :
    Past W s us sc ps (s'.bracketed s.accept s.reader.closeAnglesOnly) k := by
  have hfirst : s.Delivers [] (s.bracketed accept a) := .aside (.refl _) rfl
  have hlast : s'.Delivers [] (s'.bracketed s.accept s.reader.closeAnglesOnly) :=
    .aside (.refl _) rfl
  have hdelivered := (hfirst.trans h.delivered).trans hlast
  rw [List.nil_append, List.append_nil] at hdelivered
  have hsteady : s.Steady (s'.bracketed s.accept s.reader.closeAnglesOnly) :=
    ⟨rfl, h.steady.saving, h.steady.rawErrors_le, h.steady.reportedErrors_le, h.steady.noted,
      h.steady.counted, h.steady.muted, h.steady.reported, h.steady.log⟩
  have hinner : s.Told 0 (s.bracketed accept a) := Session.told_of_log_eq rfl rfl rfl
  have houter : s'.Told 0 (s'.bracketed s.accept s.reader.closeAnglesOnly) :=
    Session.told_of_log_eq rfl rfl rfl
  have htold := (hinner.trans h.told).trans houter
  rw [Nat.zero_add, Nat.add_zero] at htold
  exact ⟨hfit, h.advance.of_bracketed hfit.orderly.sound, hdelivered, hsteady, h.scopes, h.ended,
    htold⟩

variable {trial : Parse.Trial} {s₁ : Session}

theorem Begun.rawErrors_eq (h : s.Begun trial s₁) : s₁.rawErrors = trial.rawErrors := by
  rw [h.session]
  exact h.rawErrors.symm

/-- No token is read when a trial begins. -/
theorem Begun.delivers (h : s.Begun trial s₁) : s.Delivers [] s₁ := by
  obtain ⟨saving, pos, rawErrors, muted⟩ := trial
  obtain ⟨rfl, rfl, rfl, rfl, rfl⟩ := h
  exact .beginTrial rfl

theorem Begun.past (h : s.Begun trial s₁) (hpast : Past W s₀ us sc ps s) :
    Past W s₁ [] sc [] s₁ := by
  have hfit : s₁.Fit W := by
    refine ⟨h.orderly hpast.left.orderly, fun hW => ?_⟩
    rw [h.session]
    exact hpast.left.guarded hW
  have hscopes : s₁.scopes = sc := by
    rw [h.session]
    exact hpast.scopes
  exact hscopes ▸ hfit.past

end Session

namespace Parse

open Session (Advance Same Pending Begun Past Fit Steady Even Delivers)

variable {α β : Type} {W : Concern} {s₀ s s' : Session} {t : Token} {ts us : List Token}
variable {sc sc' : List OpenScope} {ps qs : List Part}
variable {p : Parse α} {f : α → Parse β} {Q : α → Session → Prop} {P : β → Session → Prop}

/-! ## Actions in general -/

/-- If an action has a result, the result and the session then are as they should be. -/
def Leads (p : Parse α) (s : Session) (Q : α → Session → Prop) : Prop :=
  ∀ a s', p s = .ok (a, s') → Q a s'

/-- A result is as it should be, given the tokens that were consumed since `s` and the parts that
were read.  The same scopes are open as before. -/
def Brings (W : Concern) (s : Session) (R : α → List Token → List Part → Session → Prop) (a : α)
    (s' : Session) : Prop := ∃ us ps, Past W s us s.scopes ps s' ∧ R a us ps s'

/-- A result is as it should be, and declarations may have been collected. -/
def Collects (W : Concern) (s : Session) (R : α → List Token → List Part → Session → Prop) (a : α)
    (s' : Session) : Prop :=
  ∃ us sc ps, Past W s us sc ps s' ∧ Grown ps s.scopes sc ∧ R a us ps s'

theorem Leads.bind (h : Leads p s fun a s' => Leads (f a) s' P) : Leads (p >>= f) s P := by
  intro b s₂ heq
  simp only [Bind.bind, StateT.bind] at heq
  obtain ⟨⟨a, s₁⟩, hp, hf⟩ := Halt.bind_eq_ok heq
  exact h a s₁ hp b s₂ hf

theorem Leads.pure {a : α} (h : Q a s) : Leads (pure a) s Q := by
  rintro b s' ⟨⟩
  exact h

theorem Leads.mono {Q' : α → Session → Prop} (h : Leads p s Q) (hQ : ∀ a s', Q a s' → Q' a s') :
    Leads p s Q' := fun a s' heq => hQ a s' (h a s' heq)

theorem Leads.ite {q : Parse α} {c : Prop} [Decidable c] (hp : c → Leads p s Q)
    (hq : ¬ c → Leads q s Q) : Leads (if c then p else q) s Q := by
  split
  next hc => exact hp hc
  next hc => exact hq hc

theorem Leads.get {Q : Session → Session → Prop} (h : Q s s) : Leads get s Q := by
  rintro a s' ⟨⟩
  exact h

theorem Leads.set {Q : Unit → Session → Prop} (h : Q () s') : Leads (set s') s Q := by
  rintro a s' ⟨⟩
  exact h

theorem Leads.modify {g : Session → Session} {Q : Unit → Session → Prop} (h : Q () (g s)) :
    Leads (modify g) s Q := by
  rintro a s' ⟨⟩
  exact h

/-- A part of an action, by what it brings. -/
theorem Leads.part {R : α → List Token → List Part → Session → Prop} (h : Past W s₀ us sc ps s)
    (hp : Leads p s (Brings W s R))
    (hQ : ∀ a vs qs s', Past W s₀ (us ++ vs) sc (ps ++ qs) s' → R a vs qs s' → Q a s') :
    Leads p s Q := by
  intro a s' heq
  obtain ⟨vs, qs, hpast, hR⟩ := hp a s' heq
  rw [h.scopes] at hpast
  exact hQ a vs qs s' (h.append hpast) hR

/-- A part of an action that may collect declarations. -/
theorem Leads.collected {R : α → List Token → List Part → Session → Prop}
    (h : Past W s₀ us sc ps s) (hp : Leads p s (Collects W s R))
    (hQ : ∀ a vs sc' qs s', Past W s₀ (us ++ vs) sc' (ps ++ qs) s' → s.Advance vs s' →
      Grown qs sc sc' → R a vs qs s' → Q a s') : Leads p s Q := by
  intro a s' heq
  obtain ⟨vs, sc', qs, hpast, hgrown, hR⟩ := hp a s' heq
  rw [h.scopes] at hgrown
  exact hQ a vs sc' qs s' (h.append hpast) hpast.advance hgrown hR

/-! ## Tokens -/

/-- Reading a token adds no fault. -/
theorem Leads.readEven {Q : Token → Session → Prop} (h : Past W s₀ us sc ps s)
    (hQ : ∀ t s', Past W s₀ (us ++ [t]) sc ps s' → (∀ u, s.Pending u → t = u) →
      s'.rawErrors = s.rawErrors → Q t s') : Leads read s Q := by
  intro t s' heq
  have horderly := h.left.orderly
  obtain ⟨hadvance, hpending⟩ := horderly.read heq
  obtain ⟨hsteady, heven, hscopes⟩ := Session.read_steady horderly.sound heq
  have htold := Session.told_of_read horderly.sound heq
  exact hQ t s' (h.step hadvance (.read heq) hsteady htold (hscopes.trans h.scopes)) hpending
    heven.rawErrors

theorem Leads.read {Q : Token → Session → Prop} (h : Past W s₀ us sc ps s)
    (hQ : ∀ t s', Past W s₀ (us ++ [t]) sc ps s' → (∀ u, s.Pending u → t = u) → Q t s') :
    Leads read s Q :=
  .readEven h fun t s' h' hpending _ => hQ t s' h' hpending

theorem Leads.pushBack {Q : Unit → Session → Prop} (h : Past W s₀ (us ++ [t]) sc ps s)
    (hQ : ∀ s', Past W s₀ us sc ps s' → s'.Pending t → s'.rawErrors = s.rawErrors → Q () s') :
    Leads (pushBack t) s Q := by
  refine .modify ?_
  obtain ⟨hadvance, hpending⟩ := h.advance.pushBack h.fit.orderly
  have hsaving : (s.queue.pushBack t).saving = s.queue.saving := by
    rw [TokenQueue.pushBack]
    split <;> rfl
  have hsteady : s.Steady { s with queue := s.queue.pushBack t } :=
    (show s.Even { s with queue := s.queue.pushBack t } from ⟨rfl, rfl, id⟩).steady rfl hsaving
      ⟨[], rfl, List.forall_mem_nil _⟩ rfl
  have htold : s.Told 0 { s with queue := s.queue.pushBack t } :=
    Session.told_of_log_eq (a := s.reader.closeAnglesOnly) rfl rfl rfl
  exact hQ _ ⟨h.fit, hadvance, h.delivered.pushBack rfl, h.steady.trans hsteady, h.scopes, h.ended,
    h.told.trans htold⟩ hpending rfl

theorem Leads.peek {Q : Token → Session → Prop} (h : Past W s₀ us sc ps s)
    (hQ : ∀ t s', Past W s₀ us sc ps s' → s'.Pending t → (∀ u, s.Pending u → t = u) → Q t s') :
    Leads peek s Q := by
  refine .bind (.read h ?_)
  intro t s₁ h₁ hfirst
  refine .bind (.pushBack h₁ ?_)
  intro s₂ h₂ hpending _
  exact .pure (hQ t s₂ h₂ hpending hfirst)

/-! ## Actions that leave tokens alone -/

/-- An action that does nothing to tokens and scopes. -/
def Still (p : Parse Unit) : Prop :=
  ∀ s, ∃ s', p s = .ok ((), s') ∧ s.Same s' ∧ s.Steady s' ∧ s.Told 0 s' ∧ s'.scopes = s.scopes

theorem Leads.still {p : Parse Unit} {Q : Unit → Session → Prop} (hp : Still p)
    (h : Past W s₀ us sc ps s) (hQ : ∀ s', Past W s₀ us sc ps s' → s'.queue = s.queue → Q () s') :
    Leads p s Q := by
  intro a s' heq
  obtain ⟨s₁, heq', hsame, hsteady, htold, hscopes⟩ := hp s
  rw [heq'] at heq
  cases heq
  exact hQ s' (h.same hsame hsteady htold (hscopes.trans h.scopes)) hsame.queue

theorem Leads.stillIf {p : Parse Unit} {f : Unit → Parse α} {c : Prop} [Decidable c] (hp : Still p)
    (h : Past W s₀ us sc ps s)
    (hf : ∀ s', Past W s₀ us sc ps s' → s'.queue = s.queue → Leads (f ()) s' Q) :
    Leads (if c then p >>= f else f ()) s Q := by
  split
  · exact .bind (.still hp h hf)
  · exact hf s h rfl

theorem still_unmute : Still unmute := by
  intro s
  obtain ⟨s', heq, hsame⟩ := quiet_unmute s
  cases heq
  have heven : s.Even { s with muted := false } := ⟨rfl, rfl, nofun⟩
  exact ⟨_, rfl, hsame, heven.steady rfl rfl ⟨[], rfl, List.forall_mem_nil _⟩ rfl,
    Session.told_of_log_eq (a := s.reader.closeAnglesOnly) rfl rfl rfl, rfl⟩

/-- What a fault does: it counts, and outside of trials it is reported unless faults are muted. -/
theorem fault_counts (mute : Bool) (e : ParseError) (s : Session) :
    ∃ s', fault mute e s = .ok ((), s') ∧ s'.rawErrors = s.rawErrors + 1 ∧
      s'.reader = s.reader ∧ s'.queue = s.queue ∧ s'.scopes = s.scopes ∧
      if !s.muted && !s.queue.saving then
        s'.reportedErrors = s.reportedErrors + 1 ∧ s'.log = .diagnosed (.grammatical e) :: s.log
      else s'.reportedErrors = s.reportedErrors ∧ s'.log = s.log := by
  refine ⟨_, rfl, ?_⟩
  simp only
  split <;> split <;> exact ⟨rfl, rfl, rfl, rfl, rfl, rfl⟩

theorem fault_steady (mute : Bool) (e : ParseError) (s : Session) :
    ∃ s', fault mute e s = .ok ((), s') ∧ s.Same s' ∧ s.Steady s' ∧ s.Told 0 s' ∧
      s'.scopes = s.scopes ∧ s'.rawErrors = s.rawErrors + 1 := by
  obtain ⟨s', heq, hsame⟩ := quiet_fault mute e s
  obtain ⟨s₁, heq', hraw, hreader, hqueue, hscopes, hreport⟩ := fault_counts mute e s
  obtain rfl : s' = s₁ := by
    rw [heq] at heq'
    cases heq'
    rfl
  have htold : s.Told 0 s' := by
    have hangles : s'.reader = s.reader.withAngles s.reader.closeAnglesOnly := hreader
    split at hreport
    next =>
      refine Session.told_of_event hreport.2 hreader rfl rfl fun n outer => ?_
      rw [hscopes]
      rfl
    next => exact Session.told_of_log_eq hreport.2 hscopes hangles
  refine ⟨s', heq, hsame, ⟨by rw [hreader], by rw [hqueue], by omega, ?_, ?_, ?_, ?_, ?_, ?_⟩, htold,
    hscopes, hraw⟩
  · split at hreport <;> omega
  · split at hreport <;> omega
  · have hlexical : s'.lexErrors = s.lexErrors := by
      cases heq
      simp only
      split <;> split <;> rfl
    rw [Session.allErrors, Session.allErrors, hlexical]
    split at hreport
    next =>
      have hone : s'.reports = s.reports + 1 := by
        rw [Session.reports, hreport.2]
        exact List.countP_cons_of_pos rfl
      omega
    next => rw [hreport.1, Session.reports, Session.reports, hreport.2]
  · intro hraw'
    omega
  · intro _ hsaving hmuted hreported
    rw [hsaving, hmuted] at hreport
    exact absurd (hreport.1.symm.trans hreported) (Nat.succ_ne_self _)
  · split at hreport
    next hloud =>
      refine ⟨[_], hreport.2, ?_⟩
      intro hsaving
      simp [hsaving] at hloud
    next =>
      exact ⟨[], hreport.2, fun _ => ⟨hreport.1, List.forall_mem_nil _⟩⟩

theorem still_fault (mute : Bool) (e : ParseError) : Still (fault mute e) := by
  intro s
  obtain ⟨s', heq, hsame, hsteady, htold, hscopes, -⟩ := fault_steady mute e s
  exact ⟨s', heq, hsame, hsteady, htold, hscopes⟩

theorem still_faultExpected (what : Expected) (token : Token) : Still (faultExpected what token) :=
  still_fault true _

/-- After a fault, parts may be missing. -/
theorem Leads.fault {mute : Bool} {e : ParseError} {Q : Unit → Session → Prop}
    (h : Past W s₀ us sc ps s)
    (hQ : ∀ s', Past W s₀ us sc ps s' → s'.queue = s.queue → 0 < s'.rawErrors → Q () s') :
    Leads (fault mute e) s Q := by
  intro a s' heq
  obtain ⟨s₁, heq', hsame, hsteady, htold, hscopes, hraw⟩ := fault_steady mute e s
  rw [heq'] at heq
  cases heq
  exact hQ s' (h.same hsame hsteady htold (hscopes.trans h.scopes)) hsame.queue (by omega)

theorem Leads.failedSince {Q : Bool → Session → Prop} (before : Nat)
    (hQ : Q (s.rawErrorCount != before % countRange) s) : Leads (failedSince before) s Q :=
  .bind (.get (.pure hQ))

theorem Leads.unmuteUnlessFailed {Q : Unit → Session → Prop} (a : Activity)
    (h : Past W s₀ us sc ps s) (hQ : ∀ s', Past W s₀ us sc ps s' → Q () s') :
    Leads (unmuteUnlessFailed a) s Q := by
  refine .bind (.failedSince _ ?_)
  split
  · exact .still still_unmute h fun s' h' _ => hQ s' h'
  · exact .pure (hQ s h)

theorem Leads.beginActivity {Q : Activity → Session → Prop} (h : Past W s₀ us sc ps s)
    (hQ : ∀ a s', Past W s₀ us sc ps s' → (∀ u, s.Pending u → s'.Pending u) → Q a s') :
    Leads beginActivity s Q := by
  refine .bind (.peek h ?_)
  intro t s₁ h₁ hpending hfirst
  exact .bind (.get (.pure (hQ _ s₁ h₁ fun u hu => hfirst u hu ▸ hpending)))

theorem Leads.consumedSince {Q : Bool → Session → Prop} (a : Activity) (h : Past W s₀ us sc ps s)
    (hQ : ∀ consumed s', Past W s₀ us sc ps s' → Q consumed s') : Leads (consumedSince a) s Q := by
  refine .bind (.peek h ?_)
  intro t s₁ h₁ _ _
  exact .pure (hQ _ s₁ h₁)

/-! ## Scopes -/

/-- What is done to the scopes and to the log alone. -/
theorem Leads.scoped {p : Parse Unit} {k : Nat} {sc' : List OpenScope} {s' : Session}
    {Q : Unit → Session → Prop} (h : Past W s₀ us sc ps s) (heq : p s = .ok ((), s'))
    (hsame : s.Same s') (heven : s.Even s')
    (hangles : s'.reader.closeAnglesOnly = s.reader.closeAnglesOnly)
    (hlog : ∃ e, s'.log = e :: s.log ∧ e.isReport = false) (hlexical : s'.lexErrors = s.lexErrors)
    (htold : s.Told k s')
    (hscopes : s'.scopes = sc') (hQ : ∀ s', Past W s₀ us sc' ps s' (0 + k) → Q () s') :
    Leads p s Q := by
  intro a s'' heq'
  rw [heq] at heq'
  cases heq'
  obtain ⟨e, hlog, he⟩ := hlog
  have hreports : s'.reports = s.reports := by
    rw [Session.reports, hlog]
    exact List.countP_cons_of_neg (by simp [he])
  have hsteady := heven.steady hangles (by rw [hsame.queue])
    ⟨[e], hlog, List.forall_mem_singleton.2 (Event.isFault_of_not_isReport he)⟩
    (by rw [hreports, hlexical])
  exact hQ s' (h.same hsame hsteady htold hscopes)

theorem Leads.enterScope {scope : Scope} {Q : Unit → Session → Prop} (h : Past W s₀ us sc ps s)
    (hscope : scope.isEnumeration = false)
    (hQ : ∀ s', Past W s₀ us (⟨scope, []⟩ :: sc) ps s' → Q () s') :
    Leads (enterScope scope) s Q :=
  .scoped h rfl ⟨.refl _, rfl, rfl, rfl⟩ ⟨rfl, rfl, id⟩ rfl ⟨_, rfl, rfl⟩ rfl
    (Session.told_of_enterScope hscope rfl) (congrArg (OpenScope.mk scope [] :: ·) h.scopes) hQ

/-- A scope is left with as many parts as declarations were collected in it. -/
theorem Leads.leaveScope {count : Nat} {top : OpenScope} {Q : Unit → Session → Prop}
    (h : Past W s₀ us (top :: sc) ps s) (hscope : top.scope.isEnumeration = false)
    (hcount : top.scope = .functionBody ∨ count = top.members.length)
    (hQ : ∀ s', Past W s₀ us sc ps s' → Q () s') :
    Leads (leaveScope top.scope count) s Q :=
  .scoped h rfl ⟨.refl _, rfl, rfl, rfl⟩ ⟨rfl, rfl, id⟩ rfl ⟨_, rfl, rfl⟩ rfl
    (Session.told_of_leaveScope h.scopes hscope hcount rfl) (congrArg (List.drop 1) h.scopes) hQ

theorem Leads.declare {d : Declaration} {Q : Unit → Session → Prop} (h : Past W s₀ us sc ps s)
    (hcollecting : Session.Collecting sc) (hQ : ∀ s', Past W s₀ us (collectIn d sc) ps s' → Q () s') :
    Leads (declare d) s Q := by
  obtain ⟨s', heq, hsame⟩ := quiet_declare d s
  have htold := Session.told_of_declare (h.scopes ▸ hcollecting) heq
  have hrest : s.Even s' ∧ s'.reader = s.reader ∧ s'.log = .declared d s.path :: s.log ∧
      s'.lexErrors = s.lexErrors ∧ s'.scopes = collectIn d s.scopes := by
    cases heq
    simp only [Session.record, collectIn]
    split <;> simp_all <;> exact ⟨rfl, rfl, id⟩
  obtain ⟨heven, hreader, hlog, hlexical, hscopes⟩ := hrest
  exact .scoped h heq hsame heven (by rw [hreader]) ⟨_, hlog, rfl⟩ hlexical htold
    (hscopes.trans (by rw [h.scopes])) hQ

/-- One more enumerator comes up. -/
theorem Leads.tell (e : Enumerator) {Q : Unit → Session → Prop} (h : Past W s₀ us sc ps s)
    (hQ : ∀ s', Past W s₀ us sc ps s' 1 → Q () s') : Leads (tell (.enumerated e)) s Q :=
  .scoped h rfl ⟨.refl _, rfl, rfl, rfl⟩ ⟨rfl, rfl, id⟩ rfl ⟨_, rfl, rfl⟩ rfl
    (Session.told_of_tell e rfl) h.scopes hQ

/-- An enumeration is opened.  What is in it is gone through from there on. -/
theorem Leads.enterEnumeration {name : String} {Q : Unit → Session → Prop}
    (h : Past W s₀ us sc ps s)
    (hQ : ∀ s₁, Parse.enterScope (.enumeration name) s = .ok ((), s₁) →
      Past W s₁ [] (⟨.enumeration name, []⟩ :: sc) [] s₁ → Q () s₁) :
    Leads (Parse.enterScope (.enumeration name)) s Q := by
  rintro a s₁ heq
  have hsame : s.Same s₁ ∧ s₁.scopes = ⟨.enumeration name, []⟩ :: sc := by
    cases heq
    exact ⟨⟨.refl _, rfl, rfl, rfl⟩, congrArg (OpenScope.mk (.enumeration name) [] :: ·) h.scopes⟩
  have hfit : s₁.Fit W := ⟨h.left.orderly.advance hsame.1.advance,
    fun hW => hsame.1.accept ▸ h.left.guarded hW⟩
  exact hQ s₁ heq (hsame.2 ▸ hfit.past)

/-- An enumeration is left with as many parts as enumerators have come up in it. -/
theorem Leads.leaveEnumeration {name : String} {count : Nat} {s₁ : Session}
    {members : List Declaration} {vs : List Token} {Q : Unit → Session → Prop}
    (h : Past W s₀ us sc ps s) (henter : Parse.enterScope (.enumeration name) s = .ok ((), s₁))
    (hinner : Past W s₁ vs (⟨.enumeration name, members⟩ :: sc) qs s' count)
    (hQ : ∀ s'', Past W s₀ (us ++ vs) sc (ps ++ qs) s'' → s''.rawErrors = s'.rawErrors → Q () s'') :
    Leads (Parse.leaveScope (.enumeration name) count) s' Q := by
  rintro a s'' heq
  have htold : s.Told 0 s'' := Session.told_of_enumeration henter hinner.told
    (by rw [hinner.scopes, h.scopes]) heq
  have hfirst : s.Same s₁ ∧ s.Steady s₁ := by
    cases henter
    exact ⟨⟨.refl _, rfl, rfl, rfl⟩, Even.steady ⟨rfl, rfl, id⟩ rfl rfl ⟨[_], rfl, by simp; rfl⟩ rfl⟩
  have hlast : s'.Same s'' ∧ s'.Steady s'' ∧ s''.scopes = sc ∧ s''.rawErrors = s'.rawErrors := by
    cases heq
    exact ⟨⟨.refl _, rfl, rfl, rfl⟩, Even.steady ⟨rfl, rfl, id⟩ rfl rfl ⟨[_], rfl, by simp; rfl⟩ rfl,
      congrArg (List.drop 1) hinner.scopes, rfl⟩
  have hsound := h.left.orderly.sound
  have hadvance := (hfirst.1.advance.trans hinner.advance hsound).trans hlast.1.advance hsound
  have hdelivered := ((Delivers.same hfirst.1).trans hinner.delivered).trans (.same hlast.1)
  rw [List.nil_append, List.append_nil] at hadvance hdelivered
  have hsteady := (hfirst.2.trans hinner.steady).trans hlast.2.1
  refine hQ s'' (h.append ⟨h.left, hadvance, hdelivered, hsteady, hlast.2.2.1, ?_, htold⟩)
    hlast.2.2.2
  rw [hlast.2.2.2]
  exact hinner.ended

theorem Leads.members {top : OpenScope} {Q : List Declaration → Session → Prop}
    (h : Past W s₀ us (top :: sc) ps s) (hQ : Q top.members s) : Leads members s Q := by
  refine .bind (.get ?_)
  rw [h.scopes]
  exact .pure hQ

/-! ## Recovery -/

/-- How a token is left alone: it is the end of the file, or it is pushed back for a rule further
out. -/
inductive Left (s₀ : Session) (t : Token) : List Token → Session → Prop
  | ended {s : Session} (ended : t.kind = .endOfFile) : Left s₀ t [t] s
  | back {s : Session} (more : t.kind ≠ .endOfFile) (pending : s.Pending t)
      (leaves : s₀.accept.leaves? t.kind = some true) : Left s₀ t [] s

theorem Left.level {vs : List Token} (h : Left s₀ t vs s) (hlevel : Level W ps us) :
    Level W ps (us ++ vs) := by
  cases h with
  | ended hend => exact hlevel.kind hend (by decide)
  | back _ _ _ => rwa [List.append_nil]

/-- Whether the parse stays behind a token. -/
theorem Leads.mayStay {Q : Bool → Session → Prop} (h : Past W s₀ (us ++ [t]) sc ps s)
    (hstay : ∀ s', Past W s₀ (us ++ [t]) sc ps s' → t.kind ≠ .endOfFile →
      s₀.accept.leaves? t.kind ≠ some true → Q true s')
    (hleave : ∀ vs s', Past W s₀ (us ++ vs) sc ps s' → Left s₀ t vs s' → s'.rawErrors = s.rawErrors →
      Q false s') : Leads (mayStay t) s Q := by
  unfold Parse.mayStay
  split
  next hend => exact .pure (hleave [t] s h (.ended hend) rfl)
  next hmore =>
    refine .bind (.get ?_)
    rw [h.advance.accept]
    split
    next hleaves =>
      refine .bind (.pushBack h ?_)
      intro s₁ h₁ hpending hraw
      rw [← List.append_nil us] at h₁
      exact .pure (hleave [] s₁ h₁ (.back hmore hpending hleaves) hraw)
    next hnot => exact .pure (hstay s h hmore hnot)

/-! ## Brackets -/

/-- Inside of a bracket.  It may be the one from which on braces are watched. -/
theorem Leads.bracketed {W' : Concern} {accept : Accept → Accept} {angles : Bool → Bool} {k : α → Nat}
    {R : α → List Token → List OpenScope → List Part → Session → Prop} (h : Past W s₀ us sc ps s)
    (haccept : W'.asked → (accept s.accept).closeCurly = true)
    (hp : ∀ s₁, s₁.Fit W' → s₁.scopes = sc → s₁.queue = s.queue → s₁.accept = accept s.accept →
      Leads p s₁ fun a s' => ∃ vs sc' qs, Past W' s₁ vs sc' qs s' (k a) ∧ R a vs sc' qs s')
    (hQ : ∀ a vs sc' qs s', Past W s₀ (us ++ vs) sc' (ps ++ qs) (s'.bracketed s.accept
      s.reader.closeAnglesOnly) (0 + k a) → R a vs sc' qs s' →
        Q a (s'.bracketed s.accept s.reader.closeAnglesOnly)) :
    Leads (within accept angles p) s Q := by
  let inner := s.bracketed (accept s.accept) (angles s.reader.closeAnglesOnly)
  have hfit : inner.Fit W' := ⟨h.left.orderly.bracketed _ _, haccept⟩
  refine .bind (.get (.bind (.set (.bind ((hp inner hfit h.scopes rfl rfl).mono ?_)))))
  rintro a s₁ ⟨vs, sc', qs, hpast, hR⟩
  exact .bind (.modify (.pure (hQ a vs sc' qs s₁ (h.append (hpast.of_bracketed h.left)) hR)))

/-- Inside of a bracket, by what that brings. -/
theorem Leads.within {accept : Accept → Accept} {angles : Bool → Bool}
    {R : α → List Token → List Part → Session → Prop} (h : Past W s₀ us sc ps s)
    (haccept : s.accept.closeCurly = true → (accept s.accept).closeCurly = true)
    (hp : ∀ s₁, s₁.Fit W → s₁.queue = s.queue → s₁.accept = accept s.accept →
      Leads p s₁ (Brings W s₁ R))
    (hQ : ∀ a vs qs s', Past W s₀ (us ++ vs) sc (ps ++ qs) (s'.bracketed s.accept
      s.reader.closeAnglesOnly) → R a vs qs s' →
        Q a (s'.bracketed s.accept s.reader.closeAnglesOnly)) :
    Leads (within accept angles p) s Q := by
  refine .bracketed (k := fun _ => 0) (R := fun a vs sc' qs s' => sc' = sc ∧ R a vs qs s') h
    (fun hW => haccept (h.left.guarded hW)) ?_ ?_
  · intro s₁ h₁ hscopes hqueue haccept'
    refine (hp s₁ h₁ hqueue haccept').mono ?_
    rintro a s' ⟨vs, qs, hpast, hR⟩
    exact ⟨vs, _, qs, hpast, hscopes, hR⟩
  · rintro a vs _ qs s' hpast ⟨rfl, hR⟩
    exact hQ a vs qs s' hpast hR

/-! ## Trials -/

theorem Leads.beginTrial {Q : Trial → Session → Prop}
    (hQ : ∀ trial s', Begun s trial s' → Q trial s') : Leads beginTrial s Q := by
  rintro a s' ⟨⟩
  exact hQ _ _ ⟨rfl, rfl, rfl, rfl, rfl⟩

variable {trial : Trial} {s₁ : Session} {vs : List Token}

theorem Leads.endTrial {Q : Unit → Session → Prop} (h : Past W s₀ us sc ps s)
    (hbegun : Begun s trial s₁) (htrial : Past W s₁ vs sc qs s')
    (hcount : s'.rawErrorCount = trial.rawErrors % countRange)
    (hQ : ∀ s'', Past W s₀ (us ++ vs) sc (ps ++ qs) s'' → Q () s'') :
    Leads (endTrial trial) s' Q := by
  intro a s'' heq
  obtain ⟨s₂, heq', hadvance⟩ := hbegun.endTrial h.left.orderly htrial.advance
  obtain rfl : s'' = s₂ := by
    rw [heq'] at heq
    cases heq
    rfl
  obtain ⟨hsteady, hscopes⟩ := hbegun.steady_endTrial htrial.steady hcount heq
  have htold := (hbegun.told.trans htrial.told).trans (Session.told_of_endTrial heq)
  have hdelivered := (hbegun.delivers.trans htrial.delivered).trans (.endTrial heq)
  rw [List.nil_append, List.append_nil] at hdelivered
  refine hQ s'' (h.append
    ⟨h.left, hadvance, hdelivered, hsteady, hscopes.trans htrial.scopes, ?_, htold⟩)
  rw [Session.endTrial_eq heq]
  exact htrial.ended

/-- After a trial that is given up, the token waits again that waited before. -/
theorem Leads.abandon {Q : Unit → Session → Prop} (h : Past W s₀ us sc ps s)
    (hbegun : Begun s trial s₁) (htrial : Past W s₁ vs sc qs s')
    (hQ : ∀ s'', Past W s₀ us sc ps s'' → (∀ t, s.Pending t → s''.Pending t) → Q () s'') :
    Leads (abandon trial) s' Q := by
  intro a s'' heq
  obtain ⟨s₂, heq', hadvance⟩ := hbegun.abandon h.left.orderly htrial.advance
  obtain rfl : s'' = s₂ := by
    rw [heq'] at heq
    cases heq
    rfl
  obtain ⟨hsteady, heven, -, hscopes⟩ := hbegun.steady_abandon htrial.steady heq
  have htold := (hbegun.told.trans htrial.told).trans (Session.told_of_abandon heq)
  have hdelivered := (hbegun.delivers.trans htrial.delivered).abandon heq
  have hpast := h.step hadvance hdelivered hsteady htold (hscopes.trans htrial.scopes)
  rw [List.append_nil] at hpast
  exact hQ s'' hpast fun t ht => ht.advance hadvance

end Parse

end CppDecl
