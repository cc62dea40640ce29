import CppDecl.Parsing
import CppDecl.Proofs.Sequence
import CppDecl.Proofs.Shift.Reader

/-!
# Sessions at another place

A session is shifted with its reader, its queue, its scopes and its log.  An action *shifts to*
another one if the other one does from the shifted session what the one does from the session
itself, with the result changed along (`Parse.Shifts`).

The actions that the grammar is made of look at the kinds and the words of tokens only, with one
exception: to tell whether anything has been consumed, the places of two tokens are compared.  Both
of them have been read from the queue.  So the tokens in the queue have to be there, and a token
that is pushed back has to be there as well.  What an action is known to result in is said by the
condition `E`, for tokens that are read.
-/

namespace CppDecl

/-- The queue at a place that is further along. -/
def TokenQueue.shift (k : LinearLoc) (q : TokenQueue) : TokenQueue :=
  { q with behind := q.behind.map (Token.shift k), ahead := q.ahead.map (Token.shift k) }

/-- The session at a place that is further along. -/
def Session.shift (k : LinearLoc) (s : Session) : Session :=
  { s with
    reader := s.reader.shift k
    queue := s.queue.shift k
    scopes := s.scopes.map (OpenScope.shift k)
    log := s.log.map (Event.shift k) }

/-- The start of a stretch at a place that is further along. -/
def Parse.Activity.shift (k : LinearLoc) (a : Parse.Activity) : Parse.Activity :=
  { a with loc := a.loc + k }

variable {k : LinearLoc}

/-! ## Queues -/

namespace TokenQueue

/-- The tokens of a queue are there. -/
def Present (q : TokenQueue) : Prop := ∀ t, t ∈ q.behind ∨ t ∈ q.ahead → t.isPresent = true

theorem passed_shift (q : TokenQueue) (t : Token) :
    (q.shift k).passed (t.shift k) = (q.passed t).shift k := by
  cases h : q.saving <;> simp [passed, shift, h]

theorem next?_shift (q : TokenQueue) :
    (q.shift k).next? = q.next?.map (Prod.map (Token.shift k) (shift k)) := by
  obtain ⟨behind, _ | ⟨t, ahead⟩, saving⟩ := q
  · rfl
  · exact congrArg (fun q => some (t.shift k, q)) (passed_shift ⟨behind, ahead, saving⟩ t)

theorem pushBack_shift (q : TokenQueue) (t : Token) :
    (q.shift k).pushBack (t.shift k) = (q.pushBack t).shift k := by
  obtain ⟨_ | ⟨last, behind⟩, ahead, saving⟩ := q <;> rfl

theorem seek_shift (q : TokenQueue) (pos : Nat) :
    (q.shift k).seek pos = (q.seek pos).shift k := by
  simp [seek, shift, ← List.map_reverse, ← List.map_append, ← List.map_take, ← List.map_drop]

theorem pos_shift (q : TokenQueue) : (q.shift k).pos = q.pos := List.length_map _

variable {q q' : TokenQueue} {t : Token}

theorem Present.passed (h : q.Present) (ht : t.isPresent = true) : (q.passed t).Present := by
  unfold TokenQueue.passed
  split
  · rintro u (hu | hu)
    · rcases List.mem_cons.1 hu with rfl | hu
      · exact ht
      · exact h u (.inl hu)
    · exact h u (.inr hu)
  · exact h

theorem Present.next? (h : q.Present) (hnext : q.next? = some (t, q')) :
    t.isPresent = true ∧ q'.Present := by
  obtain ⟨behind, _ | ⟨t', ahead⟩, saving⟩ := q
  · cases hnext
  · cases hnext
    have ht : t.isPresent = true := h t (.inr List.mem_cons_self)
    exact ⟨ht, Present.passed (fun u hu => h u (hu.imp_right (List.mem_cons_of_mem t))) ht⟩

theorem Present.pushBack (h : q.Present) (ht : t.isPresent = true) : (q.pushBack t).Present := by
  obtain ⟨_ | ⟨last, behind⟩, ahead, saving⟩ := q
  · rintro u (hu | hu)
    · cases hu
    · rcases List.mem_cons.1 hu with rfl | hu
      · exact ht
      · exact h u (.inr hu)
  · rintro u (hu | hu)
    · exact h u (.inl (List.mem_cons_of_mem last hu))
    · rcases List.mem_cons.1 hu with rfl | hu
      · exact h u (.inl List.mem_cons_self)
      · exact h u (.inr hu)

theorem Present.seek (h : q.Present) (pos : Nat) : (q.seek pos).Present := by
  have hall : ∀ u ∈ q.behind.reverse ++ q.ahead, u.isPresent = true :=
    fun u hu => h u ((List.mem_append.1 hu).imp_left List.mem_reverse.1)
  rintro u (hu | hu)
  · exact hall u (List.mem_of_mem_take (List.mem_reverse.1 hu))
  · exact hall u (List.mem_of_mem_drop hu)

theorem Present.settle (h : q.Present) : q.settle.Present :=
  fun t ht => h t (.inr (ht.resolve_left List.not_mem_nil))

end TokenQueue

/-! ## Sessions -/

namespace Session

/-- A session whose reader is in order and whose queue has only tokens that are there. -/
structure Placed (s : Session) : Prop where
  /-- The reader is in order. -/
  sound : s.reader.Sound
  /-- The places that the reader knows are in order. -/
  ordered : s.reader.Ordered
  /-- The tokens of the queue are there. -/
  queue : s.queue.Present

variable {s s' : Session} {t : Token}

theorem drain_shift (s : Session) : (s.shift k).drain = s.drain.shift k := by
  simp [drain, shift, Reader.shift, Reader.takeErrors, Reader.takeInclusions, Function.comp_def]

theorem Placed.drain (h : s.Placed) : s.drain.Placed := by
  have hordered : s.drain.reader.Ordered ∧ _ := h.ordered.congr rfl rfl rfl
  exact ⟨h.sound.congr rfl rfl rfl, hordered.1, h.queue⟩

/-- A session in order reads a token that is there, and the shifted session reads that token,
shifted. -/
theorem Placed.readToken (h : s.Placed) : ∃ t r, s.reader.readToken = .ok (t, r) ∧
    (s.shift k).reader.readToken = .ok (t.shift k, r.shift k) ∧
    (∀ allowance, Placed { s with reader := r, allowance }) ∧ t.isPresent = true := by
  obtain ⟨t, r, hread, hsound⟩ := h.sound.readToken
  have hordered := (h.ordered.readToken h.sound hread).1
  have hshift : (s.shift k).reader.readToken = _ := Reader.readToken_shift h.sound h.ordered
  rw [hread] at hshift
  exact ⟨t, r, hread, hshift, fun _ => ⟨hsound, hordered, h.queue⟩,
    Reader.isPresent_of_readToken h.sound h.ordered hread⟩

/-- One result is the other one shifted, with what it gives changed by `m`.  What is given fulfils
`E`. -/
structure Outcome {α : Type} (k : LinearLoc) (m : α → α) (E : α → Prop)
    (e e' : Except Halt (α × Session)) : Prop where
  /-- The result is shifted. -/
  eq : e' = e.map (Prod.map m (Session.shift k))
  /-- The session stays in order. -/
  placed : ∀ a s, e = .ok (a, s) → s.Placed ∧ E a

section

variable {α β : Type} {m : α → α} {n : β → β} {E : α → Prop} {F : β → Prop}
  {e e' : Except Halt (α × Session)}

theorem Outcome.ok {a : α} (h : s.Placed) (ha : E a) :
    Outcome k m E (.ok (a, s)) (.ok (m a, s.shift k)) :=
  ⟨rfl, fun a' s' heq => by cases heq; exact ⟨h, ha⟩⟩

theorem Outcome.error (halt : Halt) : Outcome k m E (.error halt) (.error halt) :=
  ⟨rfl, fun _ _ heq => by cases heq⟩

theorem Outcome.bind {f f' : α × Session → Except Halt (β × Session)} (h : Outcome k m E e e')
    (hf : ∀ a s, s.Placed → E a → Outcome k n F (f (a, s)) (f' (m a, s.shift k))) :
    Outcome k n F (e >>= f) (e' >>= f') := by
  rw [h.eq]
  cases e with
  | error halt => exact .error halt
  | ok result => exact hf _ _ (h.placed _ _ rfl).1 (h.placed _ _ rfl).2

end

theorem afterAside_shift (s : Session) (t : Token) (r : Reader) (n : Nat) :
    (s.shift k).afterAside (t.shift k) (r.shift k) n = (s.afterAside t r n).shift k := by
  have hargs : (if t.kind = .macroUse then (r.shift k).args else []) =
      (if t.kind = .macroUse then r.args else []).map (Token.shift k) := by
    split <;> rfl
  have hdrain := drain_shift (k := k) { s with reader := r, allowance := n }
  exact congrArg₂ (fun q args => q.record (.aside (t.shift k) args)) hdrain hargs

/-- The next token that a session takes does not depend on its place. -/
theorem Placed.pull (n : Nat) (h : s.Placed) :
    Outcome k (Token.shift k) (·.isPresent = true) (s.pull n) ((s.shift k).pull n) := by
  induction n generalizing s with
  | zero =>
    obtain ⟨t, r, hread, hread', hafter, ht⟩ := h.readToken
    by_cases hend : t.kind = .endOfFile
    · rw [pull_end hread hend, pull_end hread' hend]
      exact drain_shift { s with reader := r } ▸ .ok (hafter s.allowance).drain ht
    · rw [pull_zero hread hend, pull_zero hread' hend]
      exact .error _
  | succ n ih =>
    obtain ⟨t, r, hread, hread', hafter, ht⟩ := h.readToken
    by_cases hend : t.kind = .endOfFile
    · rw [pull_end hread hend, pull_end hread' hend]
      exact drain_shift { s with reader := r } ▸ .ok (hafter s.allowance).drain ht
    cases haside : t.kind.isAside with
    | true =>
      rw [pull_aside hread haside, pull_aside hread' haside, afterAside_shift]
      exact ih ⟨(hafter n).drain.sound, (hafter n).drain.ordered, h.queue⟩
    | false =>
      rw [pull_plain hread hend haside, pull_plain hread' hend haside]
      exact drain_shift { s with reader := r, allowance := n } ▸ .ok (hafter n).drain ht

end Session

namespace Parse

variable {α β : Type}

/-- From the shifted session, the action `q` does what `p` does from the session itself, with the
result changed by `m`.  The session stays in order, and what `p` results in fulfils `E`. -/
def Shifts (k : LinearLoc) (m : α → α) (E : α → Prop) (p q : Parse α) : Prop :=
  ∀ s : Session, s.Placed → Session.Outcome k m E (p s) (q (s.shift k))

/-- Nothing is said about a result. -/
def Any (_ : α) : Prop := True

variable {m : α → α} {n : β → β} {E : α → Prop} {F : β → Prop} {p q : Parse α}
  {f g : α → Parse β}

/-! ## Actions one after the other -/

/-- The other action may be written in another way. -/
theorem Shifts.of_eq {q' : Parse α} (h : Shifts k m E p q) (heq : q' = q) : Shifts k m E p q' :=
  heq ▸ h

theorem Shifts.pure {a b : α} (ha : E a) (h : b = m a) :
    Shifts k m E (Pure.pure a) (Pure.pure b) :=
  fun _ hs => h ▸ .ok hs ha

theorem Shifts.bind (hp : Shifts k m E p q) (hf : ∀ a, E a → Shifts k n F (f a) (g (m a))) :
    Shifts k n F (p >>= f) (q >>= g) :=
  fun s hs => (hp s hs).bind fun a s' hs' ha => hf a ha s' hs'

theorem Shifts.ite {c : Prop} [Decidable c] {p' q' : Parse α} (h : c → Shifts k m E p q)
    (h' : ¬ c → Shifts k m E p' q') :
    Shifts k m E (if c then p else p') (if c then q else q') := by
  split
  next hc => exact h hc
  next hc => exact h' hc

/-- The other action may ask in another way. -/
theorem Shifts.iteOf {c c' : Prop} [Decidable c] [Decidable c'] {p' q' : Parse α} (hc : c' ↔ c)
    (h : c → Shifts k m E p q) (h' : ¬ c → Shifts k m E p' q') :
    Shifts k m E (if c then p else p') (if c' then q else q') :=
  (Shifts.ite h h').of_eq (if_congr hc rfl rfl)

/-- Something may come first. -/
theorem Shifts.afterIf {c : Prop} [Decidable c] {p q : Parse Unit} {f g : Unit → Parse β}
    (hp : Shifts k id Any p q) (hf : Shifts k n F (f ()) (g ())) :
    Shifts k n F (if c then p >>= f else f ()) (if c then q >>= g else g ()) :=
  .ite (fun _ => hp.bind fun _ _ => hf) fun _ => hf

theorem Shifts.get : Shifts k (Session.shift k) Session.Placed MonadState.get MonadState.get :=
  fun _ hs => .ok hs hs

theorem Shifts.set {s : Session} (hs : s.Placed) :
    Shifts k id Any (MonadStateOf.set s) (MonadStateOf.set (s.shift k)) :=
  fun _ _ => .ok hs trivial

theorem Shifts.modify {f g : Session → Session} (hcomm : ∀ s, g (s.shift k) = (f s).shift k)
    (hplaced : ∀ s, s.Placed → (f s).Placed) : Shifts k id Any (modify f) (modify g) := by
  intro s hs
  show Session.Outcome k id Any (.ok ((), f s)) (.ok ((), g (s.shift k)))
  rw [hcomm]
  exact .ok (hplaced s hs) trivial

/-! ## Tokens -/

variable {t : Token}

theorem read_shifts : Shifts k (Token.shift k) (·.isPresent = true) read read := by
  intro s hs
  have hnext : (s.shift k).queue.next? =
      s.queue.next?.map (Prod.map (Token.shift k) (TokenQueue.shift k)) :=
    TokenQueue.next?_shift s.queue
  unfold read
  rw [hnext]
  cases hqueue : s.queue.next? with
  | some next =>
    obtain ⟨t, queue⟩ := next
    obtain ⟨ht, hpresent⟩ := hs.queue.next? hqueue
    exact .ok (s := { s with queue }) ⟨hs.sound, hs.ordered, hpresent⟩ ht
  | none =>
    refine (hs.pull s.allowance).bind fun t s₁ hs₁ ht => ?_
    have hpassed : (s₁.shift k).queue.passed (t.shift k) = (s₁.queue.passed t).shift k :=
      TokenQueue.passed_shift s₁.queue t
    dsimp only
    rw [hpassed]
    exact .ok (s := { s₁ with queue := s₁.queue.passed t })
      ⟨hs₁.sound, hs₁.ordered, hs₁.queue.passed ht⟩ ht

theorem pushBack_shifts (ht : t.isPresent = true) :
    Shifts k id Any (pushBack t) (pushBack (t.shift k)) := by
  refine .modify (fun s => ?_) fun s hs => ⟨hs.sound, hs.ordered, hs.queue.pushBack ht⟩
  rw [show (s.shift k).queue.pushBack (t.shift k) = (s.queue.pushBack t).shift k from
    TokenQueue.pushBack_shift s.queue t]
  rfl

/-- A token that is not wanted is pushed back, and the action ends. -/
theorem pushBack_pure_shifts (ht : t.isPresent = true) {a b : α} (h : b = m a) :
    Shifts k m Any (do pushBack t; return a) (do pushBack (t.shift k); return b) :=
  (pushBack_shifts ht).bind fun _ _ => .pure trivial h

theorem peek_shifts : Shifts k (Token.shift k) (·.isPresent = true) peek peek :=
  read_shifts.bind fun _ ht => (pushBack_shifts ht).bind fun _ _ => .pure ht rfl

/-! ## Errors -/

theorem fault_shifts (mute : Bool) (e : ParseError) :
    Shifts k id Any (fault mute e) (fault mute (e.shift k)) := by
  refine .modify (fun s => ?_) fun s hs => ?_
  · cases hmuted : s.muted <;> cases hsaving : s.queue.saving <;> cases mute <;>
      simp [Session.shift, TokenQueue.shift, Session.record, hmuted, hsaving]
  · dsimp only
    split <;> split <;> exact ⟨hs.sound, hs.ordered, hs.queue⟩

theorem faultExpected_shifts (what : Expected) (t : Token) :
    Shifts k id Any (faultExpected what t) (faultExpected what (t.shift k)) :=
  fault_shifts true (.expected what t)

theorem unmute_shifts : Shifts k id Any unmute unmute :=
  .modify (fun _ => rfl) fun _ hs => ⟨hs.sound, hs.ordered, hs.queue⟩

/-! ## Trials -/

theorem beginTrial_shifts : Shifts k id Any beginTrial beginTrial := by
  intro s hs
  have hpos : (s.shift k).queue.pos = s.queue.pos := TokenQueue.pos_shift s.queue
  unfold beginTrial
  rw [hpos]
  exact .ok (s := { s with queue := { s.queue with saving := true } })
    ⟨hs.sound, hs.ordered, hs.queue⟩ trivial

theorem failedSince_shifts (before : Nat) :
    Shifts k id Any (failedSince before) (failedSince before) :=
  .bind .get fun _ _ => .pure trivial rfl

theorem backtrack_shifts (trial : Trial) : Shifts k id Any (backtrack trial) (backtrack trial) := by
  refine .modify (fun s => ?_) fun s hs => ⟨hs.sound, hs.ordered, hs.queue.seek trial.pos⟩
  rw [show (s.shift k).queue.seek trial.pos = (s.queue.seek trial.pos).shift k from
    TokenQueue.seek_shift s.queue trial.pos]
  rfl

theorem endTrial_shifts (trial : Trial) : Shifts k id Any (endTrial trial) (endTrial trial) :=
  .ite (fun _ => .pure trivial rfl) fun _ =>
    .modify (fun _ => rfl) fun _ hs => ⟨hs.sound, hs.ordered, hs.queue.settle⟩

theorem abandon_shifts (trial : Trial) : Shifts k id Any (abandon trial) (abandon trial) :=
  (backtrack_shifts trial).bind fun _ _ => endTrial_shifts trial

theorem beginActivity_shifts : Shifts k (Activity.shift k) Any beginActivity beginActivity :=
  peek_shifts.bind fun t ht => .bind .get fun s _ => .pure trivial (by
    rw [Activity.shift, Token.shift_loc ht]
    rfl)

/-- Both places are those of tokens that are there. -/
theorem consumedSince_shifts (a : Activity) :
    Shifts k id Any (consumedSince a) (consumedSince (a.shift k)) :=
  peek_shifts.bind fun t ht => .pure trivial (by
    rw [Token.shift_loc ht, Activity.shift, Bool.eq_iff_iff]
    simp)

theorem unmuteUnlessFailed_shifts (a : Activity) :
    Shifts k id Any (unmuteUnlessFailed a) (unmuteUnlessFailed (a.shift k)) :=
  (failedSince_shifts a.rawErrors).bind fun _ _ =>
    .ite (fun _ => unmute_shifts) fun _ => .pure trivial rfl

/-! ## Brackets -/

theorem within_shifts {accept : Accept → Accept} {angles : Bool → Bool}
    (hp : Shifts k m E p q) : Shifts k m E (within accept angles p) (within accept angles q) := by
  refine .bind .get fun outside hs => .bind (.set (s := { outside with
    accept := accept outside.accept
    reader := outside.reader.withAngles (angles outside.reader.closeAnglesOnly) })
      ⟨hs.sound.withAngles _, (hs.ordered.withAngles _).1, hs.queue⟩) fun _ _ => ?_
  refine hp.bind fun a ha => .bind (.modify (fun _ => rfl) fun s hs => ?_) fun _ _ => .pure ha rfl
  exact ⟨hs.sound.withAngles _, (hs.ordered.withAngles _).1, hs.queue⟩

theorem inside_shifts (opener : TokenKind) (hp : Shifts k m E p q) :
    Shifts k m E (inside opener p) (inside opener q) := within_shifts hp

theorem withCloseAngles_shifts (hp : Shifts k m E p q) :
    Shifts k m E (withCloseAngles p) (withCloseAngles q) := within_shifts hp

theorem leavingOpenCurly_shifts (hp : Shifts k m E p q) :
    Shifts k m E (leavingOpenCurly p) (leavingOpenCurly q) := within_shifts hp

theorem mayStay_shifts (ht : t.isPresent = true) :
    Shifts k id Any (mayStay t) (mayStay (t.shift k)) := by
  refine .ite (fun _ => .pure trivial rfl) fun _ => .bind .get fun s _ => ?_
  rw [show (s.shift k).accept.leaves? (t.shift k).kind = s.accept.leaves? t.kind from rfl]
  rcases s.accept.leaves? t.kind with _ | _ | _
  · exact .pure trivial rfl
  · exact .pure trivial rfl
  · exact pushBack_pure_shifts ht rfl

/-! ## Scopes -/

theorem path_shift (s : Session) : (s.shift k).path = s.path := by
  simp [Session.path, Session.shift, OpenScope.shift, Function.comp_def]

theorem enterScope_shifts (scope : Scope) :
    Shifts k id Any (enterScope scope) (enterScope scope) := by
  refine .modify (fun s => ?_) fun _ hs => ⟨hs.sound, hs.ordered, hs.queue⟩
  simp [Session.path, Session.shift, Session.record, OpenScope.shift, Function.comp_def]

theorem members_shifts : Shifts k (List.map (Declaration.shift k)) Any members members := by
  refine .bind .get fun s _ => ?_
  rw [show (s.shift k).scopes = s.scopes.map (OpenScope.shift k) from rfl]
  cases s.scopes with
  | nil => exact .pure trivial rfl
  | cons top outer => exact .pure trivial rfl

theorem leaveScope_shifts (scope : Scope) (count : Nat) :
    Shifts k id Any (leaveScope scope count) (leaveScope scope count) := by
  refine .modify (fun s => ?_) fun _ hs => ⟨hs.sound, hs.ordered, hs.queue⟩
  rw [path_shift]
  simp [Session.shift, Session.record]

theorem collect_shift (s : OpenScope) (d : Declaration) :
    (s.shift k).collect (d.shift k) = (s.collect d).shift k := by
  obtain ⟨scope, members⟩ := s
  cases scope <;> simp [OpenScope.collect, OpenScope.shift]

theorem declare_shifts (d : Declaration) :
    Shifts k id Any (declare d) (declare (d.shift k)) := by
  refine .modify (fun s => ?_) fun s hs => ?_
  · rw [path_shift]
    cases hscopes : s.scopes with
    | nil => simp [Session.shift, Session.record, hscopes]
    | cons top outer => simp [Session.shift, Session.record, hscopes, collect_shift]
  · dsimp only
    split <;> exact ⟨hs.sound, hs.ordered, hs.queue⟩

theorem tell_shifts (e : Event) : Shifts k id Any (tell e) (tell (e.shift k)) :=
  .modify (fun _ => rfl) fun _ hs => ⟨hs.sound, hs.ordered, hs.queue⟩

end Parse

end CppDecl
