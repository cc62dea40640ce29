import CppDecl.Proofs.Leads

/-!
# The tokens that come next

`Session.Upcoming` says which tokens a session will read, as long as a `>` is read as it stands:
first those that wait in its queue, then those that its reader delivers.  An action that is given
these tokens can be followed step by step.  `Session.Onward` is what is known on the way: the tokens
that have been consumed since some earlier session, and those that still come.  Where faults are
excluded, none of the grammar has come up (`Session.Calm`).

The rules are those of `Parse.Runs` for this knowledge.
-/

namespace CppDecl

namespace Reader

variable {r r' q : Reader} {n : Nat} {ts : List Token}

theorem Gives.closeAnglesOnly_eq {t : Token} (h : r.Gives n t r') (hsound : r.Sound) :
    r'.closeAnglesOnly = r.closeAnglesOnly := by
  induction h with
  | ended hread _ | plain hread _ _ => exact hsound.readToken_closeAnglesOnly hread
  | aside hread _ _ ih =>
    exact (ih (hsound.of_readToken hread)).trans (hsound.readToken_closeAnglesOnly hread)

theorem withAngles_eq_self {a : Bool} (h : r.closeAnglesOnly = a) : r.withAngles a = r := by
  subst h
  rfl

theorem Alike.delivers (h : r.Alike q) (hsound : r.Sound) (hdelivers : r.Delivers n ts r') :
    ∃ q', q.Delivers n ts q' := by
  induction hdelivers generalizing q with
  | nil _ => exact ⟨q, .nil q⟩
  | cons hgives _ ih =>
    obtain ⟨q₁, hfirst, hlike⟩ := h.gives hsound hgives
    obtain ⟨q', hrest⟩ := ih hlike (hgives.sound hsound)
    exact ⟨q', .cons hfirst hrest⟩

end Reader

theorem TokenQueue.ahead_pushBack {q : TokenQueue} {t : Token}
    (h : (q.pushBack t).ahead.head? = some t) : (q.pushBack t).ahead = t :: q.ahead := by
  unfold TokenQueue.pushBack at *
  cases hbehind : q.behind with
  | nil => rfl
  | cons last behind =>
    simp only [hbehind, List.head?_cons, Option.some.injEq] at h
    rw [h]

/-- Whether an event is a report, but not that of a fault of the text. -/
def Event.isOther (e : Event) : Bool := e.isReport && e.lexical?.isNone

namespace Session

variable {E : Prop} {s₀ s s' : Session} {t : Token} {us vs ts rest : List Token}

/-- These tokens come next if a `>` is read as it stands, and they can all be taken. -/
def Upcoming (ts : List Token) (s : Session) : Prop :=
  ∃ k pulled r, s.queue.ahead ++ pulled = ts ∧
    (s.reader.withAngles false).Delivers k pulled r ∧ k ≤ s.allowance

/-- No fault of the grammar has come up, and nothing was reported but faults of the text. -/
structure Calm (s s' : Session) : Prop extends Even s s' where
  /-- There are as many other reports in the log. -/
  reports : s'.log.countP Event.isOther = s.log.countP Event.isOther

/-- The tokens `us` have been consumed since the session `s₀`, and the tokens `ts` come next.  If `E`
holds, there have been no faults. -/
structure Onward (E : Prop) (s₀ : Session) (us ts : List Token) (s : Session) : Prop where
  /-- The earlier session was in order. -/
  orderly : s₀.Orderly
  /-- It has advanced. -/
  advance : s₀.Advance us s
  /-- The other tokens come next. -/
  upcoming : s.Upcoming ts
  /-- A `>` is read as it stands. -/
  plain : s.reader.closeAnglesOnly = false
  /-- There have been no faults. -/
  calm : E → s₀.Calm s

theorem Calm.refl (s : Session) : s.Calm s := ⟨.refl s, rfl⟩

theorem Calm.trans {s'' : Session} (h₁ : s.Calm s') (h₂ : s'.Calm s'') : s.Calm s'' :=
  ⟨⟨h₂.rawErrors.trans h₁.rawErrors, h₂.reportedErrors.trans h₁.reportedErrors,
    fun h => h₁.muted (h₂.muted h)⟩, h₂.reports.trans h₁.reports⟩

theorem drain_others (s : Session) :
    s.drain.log.countP Event.isOther = s.log.countP Event.isOther := by
  have hlexical : (s.reader.errors.map fun e => Event.diagnosed (.lexical e)).countP
      Event.isOther = 0 := by
    rw [List.countP_map]
    exact List.countP_eq_zero.2 fun _ _ => by simp [Event.isOther, Event.lexical?]
  have hincluded : (s.reader.inclusions.map Event.included).countP Event.isOther = 0 := by
    rw [List.countP_map]
    exact List.countP_eq_zero.2 fun _ _ => by simp [Event.isOther, Event.isReport, Event.diagnostic?]
  simp only [drain, Reader.takeErrors, Reader.takeInclusions, List.reverse_append,
    List.countP_append, List.countP_reverse, hlexical, hincluded, Nat.zero_add]

/-- What is drawn from the reader brings no report but those of faults of the text. -/
theorem Draws.others (h : s.Draws t s') :
    s'.log.countP Event.isOther = s.log.countP Event.isOther := by
  induction h with
  | last n _ _ _ => exact drain_others _
  | @aside s s' t u r n _ _ _ _ ih =>
    exact ih.trans (drain_others { s with reader := r, allowance := n })

/-- Reading a token is calm. -/
theorem read_calm (hsound : s.reader.Sound) (h : Parse.read s = .ok (t, s')) : s.Calm s' := by
  refine ⟨(read_steady hsound h).2.1, ?_⟩
  unfold Parse.read at h
  split at h
  · cases h
    rfl
  · obtain ⟨⟨u, s₁⟩, hpull, h⟩ := Halt.bind_eq_ok h
    cases h
    exact ((draws_of_pull hsound hpull).others :)

/-- What comes next does not depend on the brackets that the session is in. -/
theorem Upcoming.bracketed {accept : Accept} {a : Bool} (h : s.Upcoming ts) :
    (s.bracketed accept a).Upcoming ts := h

theorem Upcoming.onward (h : s.Upcoming ts) (horderly : s.Orderly)
    (hplain : s.reader.closeAnglesOnly = false) : Onward E s [] ts s :=
  ⟨horderly, .refl s, h, hplain, fun _ => .refl s⟩

/-- The session is in order. -/
theorem Onward.left (h : Onward E s₀ us ts s) : s.Orderly := h.orderly.advance h.advance

/-- From here on. -/
theorem Onward.here (h : Onward E s₀ us ts s) : Onward E s [] ts s :=
  h.upcoming.onward h.left h.plain

theorem Onward.append (h : Onward E s₀ us ts s) (h' : Onward E s vs rest s') :
    Onward E s₀ (us ++ vs) rest s' :=
  ⟨h.orderly, h.advance.trans h'.advance h.orderly.sound, h'.upcoming, h'.plain,
    fun hE => (h.calm hE).trans (h'.calm hE)⟩

/-- A session whose reader delivers a token takes it from there. -/
theorem pull_delivered {k : Nat} {r : Reader} (hsound : s.reader.Sound)
    (hplain : s.reader.closeAnglesOnly = false) (hdelivers : s.reader.Delivers k (t :: ts) r)
    (hk : k ≤ s.allowance) :
    ∃ s', s.pull s.allowance = .ok (t, s') ∧ s'.queue = s.queue ∧
      ∃ l q, (s'.reader.withAngles false).Delivers l ts q ∧ l ≤ s'.allowance := by
  cases hdelivers with
  | @cons _ r₁ _ m n _ _ hgives hrest =>
    rcases pull_spec (.refl s.reader) hsound rfl with
      ⟨-, hfew⟩ | ⟨m', u, r', s', hpull, hgives', hlike, hcount, htook⟩
    · exact absurd (hfew _ _ _ hgives) (by omega)
    obtain ⟨rfl, rfl, rfl⟩ := hgives.unique hgives'
    have hangles := Reader.withAngles_eq_self ((hgives.closeAnglesOnly_eq hsound).trans hplain)
    obtain ⟨q, hq⟩ := (hlike.symm.kin.withAngles false).delivers
      ((hgives.sound hsound).withAngles false) (hangles.symm ▸ hrest)
    exact ⟨s', hpull, by rw [htook], n, q, hq, by omega⟩

/-- What does nothing to tokens leaves the same ones to come. -/
theorem Onward.same (h : Onward E s₀ us ts s) (hsame : s.Same s')
    (hangles : s'.reader.closeAnglesOnly = s.reader.closeAnglesOnly) (hcalm : E → s.Calm s') :
    Onward E s₀ us ts s' := by
  obtain ⟨k, pulled, r, hqueue, hdelivers, hk⟩ := h.upcoming
  obtain ⟨q, hq⟩ := (hsame.reader.withAngles false).delivers (h.left.sound.withAngles false) hdelivers
  have hupcoming : s'.Upcoming ts :=
    ⟨k, pulled, q, by rw [hsame.queue, hqueue], hq, by rw [hsame.allowance]; exact hk⟩
  have hstill : Onward E s [] ts s' :=
    ⟨h.left, hsame.advance, hupcoming, hangles.trans h.plain, hcalm⟩
  have hthere := h.append hstill
  rwa [List.append_nil] at hthere

/-- The token that comes next is read. -/
theorem Upcoming.read (h : s.Upcoming (t :: ts)) (hsound : s.reader.Sound)
    (hplain : s.reader.closeAnglesOnly = false) :
    ∃ s', Parse.read s = .ok (t, s') ∧ s'.Upcoming ts := by
  obtain ⟨k, pulled, r, hqueue, hdelivers, hk⟩ := h
  unfold Parse.read TokenQueue.next?
  cases hahead : s.queue.ahead with
  | cons u ahead =>
    rw [hahead] at hqueue
    cases hqueue
    refine ⟨_, rfl, k, pulled, r, ?_, hdelivers, hk⟩
    simp only [TokenQueue.passed]
    split <;> rfl
  | nil =>
    rw [hahead, List.nil_append] at hqueue
    rw [Reader.withAngles_eq_self hplain, hqueue] at hdelivers
    obtain ⟨s', hpull, hsame, l, q, hrest, hl⟩ := pull_delivered hsound hplain hdelivers hk
    refine ⟨{ s' with queue := s'.queue.passed t }, ?_, l, ts, q, ?_, hrest, hl⟩
    · simp only [hpull]
      rfl
    · simp only [TokenQueue.passed, hsame]
      split <;> simp [hahead]

theorem Onward.read (h : Onward E s₀ us (t :: ts) s) :
    ∃ s', Parse.read s = .ok (t, s') ∧ Onward E s₀ (us ++ [t]) ts s' := by
  obtain ⟨s', hread, hupcoming⟩ := h.upcoming.read h.left.sound h.plain
  have hsteady := (read_steady h.left.sound hread).1
  exact ⟨s', hread, h.append ⟨h.left, (h.left.read hread).1, hupcoming,
    hsteady.closeAnglesOnly.trans h.plain, fun _ => read_calm h.left.sound hread⟩⟩

/-- The token that was read last comes next again. -/
theorem Onward.pushBack (h : Onward E s₀ (us ++ [t]) ts s) :
    Onward E s₀ us (t :: ts) { s with queue := s.queue.pushBack t } := by
  obtain ⟨hadvance, hpending⟩ := h.advance.pushBack h.orderly
  have hahead := TokenQueue.ahead_pushBack hpending
  obtain ⟨k, pulled, r, hqueue, hdelivers, hk⟩ := h.upcoming
  refine ⟨h.orderly, hadvance, ⟨k, pulled, r, ?_, hdelivers, hk⟩, h.plain, fun hE =>
    ⟨⟨(h.calm hE).rawErrors, (h.calm hE).reportedErrors, (h.calm hE).muted⟩, (h.calm hE).reports⟩⟩
  rw [← hqueue, ← List.cons_append, ← hahead]

end Session

namespace Parse

open Session (Onward Upcoming)

variable {α : Type} {E : Prop} {s₀ s s' : Session} {t : Token} {us ts : List Token}
variable {p : Parse α} {Q : α → Session → Prop}

/-! ## Tokens -/

theorem Runs.take {Q : Token → Session → Prop} (h : Onward E s₀ us (t :: ts) s)
    (hQ : ∀ s', Onward E s₀ (us ++ [t]) ts s' → Q t s') : Runs Parse.read s Q := by
  obtain ⟨s', hread, h'⟩ := h.read
  exact ⟨t, s', hread, hQ s' h'⟩

theorem Runs.giveBack {Q : Unit → Session → Prop} (h : Onward E s₀ (us ++ [t]) ts s)
    (hQ : ∀ s', Onward E s₀ us (t :: ts) s' → Q () s') : Runs (Parse.pushBack t) s Q :=
  ⟨(), _, rfl, hQ _ h.pushBack⟩

theorem Runs.look {Q : Token → Session → Prop} (h : Onward E s₀ us (t :: ts) s)
    (hQ : ∀ s', Onward E s₀ us (t :: ts) s' → Q t s') : Runs Parse.peek s Q := by
  refine .bind (.take h ?_)
  intro s₁ h₁
  refine .bind (.giveBack h₁ ?_)
  intro s₂ h₂
  exact .pure (hQ s₂ h₂)

/-! ## Faults -/

/-- An action that does nothing to tokens may come up where faults are not excluded. -/
theorem Runs.astray {p : Parse Unit} {Q : Unit → Session → Prop} (hp : Still p) (hE : ¬ E)
    (h : Onward E s₀ us ts s) (hQ : ∀ s', Onward E s₀ us ts s' → Q () s') : Runs p s Q := by
  obtain ⟨s', heq, hsame, hsteady, -⟩ := hp s
  exact ⟨(), s', heq, hQ s' (h.same hsame hsteady.closeAnglesOnly fun hE' => absurd hE' hE)⟩

theorem Runs.unmute {Q : Unit → Session → Prop} (h : Onward E s₀ us ts s)
    (hQ : ∀ s', Onward E s₀ us ts s' → Q () s') : Runs Parse.unmute s Q :=
  .modify (hQ _ (h.same ⟨.refl _, rfl, rfl, rfl⟩ rfl fun _ => ⟨⟨rfl, rfl, nofun⟩, rfl⟩))

/-- A scope is opened. -/
theorem Runs.entering {scope : Scope} {Q : Unit → Session → Prop} (h : Onward E s₀ us ts s)
    (hQ : ∀ s', Onward E s₀ us ts s' → Q () s') : Runs (Parse.enterScope scope) s Q := by
  refine .modify (hQ _ (h.same ⟨.refl _, rfl, rfl, rfl⟩ rfl fun _ => ⟨⟨rfl, rfl, id⟩, ?_⟩))
  exact List.countP_cons_of_neg (by simp [Event.isOther, Event.isReport, Event.diagnostic?])

/-- The parse goes on behind a token that nobody further out waits for. -/
theorem Runs.stay {Q : Bool → Session → Prop} (hmore : t.kind ≠ .endOfFile)
    (hstay : s.accept.leaves? t.kind ≠ some true) (hQ : Q true s) : Runs (Parse.mayStay t) s Q := by
  unfold Parse.mayStay
  rw [if_neg hmore]
  refine .bind (.get ?_)
  split
  next hleaves => exact absurd hleaves hstay
  next => exact .pure hQ

/-- A token that is waited for further out comes next again. -/
theorem Runs.leave {Q : Bool → Session → Prop} (h : Onward E s₀ (us ++ [t]) ts s)
    (hleave : s.accept.leaves? t.kind = some true)
    (hQ : ∀ s', Onward E s₀ us (t :: ts) s' → Q false s') : Runs (Parse.mayStay t) s Q := by
  unfold Parse.mayStay
  rw [if_neg ?_]
  · refine .bind (.get ?_)
    simp only [hleave]
    refine .bind (.giveBack h ?_)
    intro s₁ h₁
    exact .pure (hQ s₁ h₁)
  · intro hend
    rw [hend] at hleave
    cases hleave

/-! ## Brackets -/

/-- In a bracket that is no angle bracket. -/
theorem Runs.inside {opener : TokenKind} {R : α → List Token → List Token → Prop}
    (horderly : s.Orderly) (hupcoming : s.Upcoming ts)
    (hopener : ∀ angles, closeAnglesInside opener angles = false)
    (hp : ∀ s₁, Onward E s₁ [] ts s₁ → s₁.accept = Accept.inside opener s.accept →
      Runs p s₁ fun a s' => ∃ vs rest, Onward E s₁ vs rest s' ∧ R a vs rest)
    (hQ : ∀ a vs rest s', s.Advance vs s' → s'.Upcoming rest → (E → s.Calm s') →
      s'.reader.closeAnglesOnly = s.reader.closeAnglesOnly → R a vs rest → Q a s') :
    Runs (Parse.inside opener p) s Q := by
  let inner := s.bracketed (Accept.inside opener s.accept) false
  have hinner : Onward E inner [] ts inner :=
    hupcoming.bracketed.onward (horderly.bracketed _ _) rfl
  obtain ⟨a, s₁, hrun, vs, rest, h₁, hR⟩ := hp inner hinner rfl
  refine .bind (.get (.bind (.set (.bind ⟨a, s₁, ?_, .bind (.modify (.pure ?_))⟩))))
  · rw [hopener]
    exact hrun
  · exact hQ a vs rest _ (h₁.advance.of_bracketed horderly.sound) h₁.upcoming.bracketed
      (fun hE => ⟨⟨(h₁.calm hE).rawErrors, (h₁.calm hE).reportedErrors, (h₁.calm hE).muted⟩,
        (h₁.calm hE).reports⟩) rfl hR

end Parse

end CppDecl
