import CppDecl.Proofs.Drawing

/-!
# How a session gets on

A session is *orderly* if its reader is sound and its queue holds nothing that it should not.  It is
*ready* with a number if, besides, at most that many tokens are left before the end of the file, in
its queue and in its reader, and its allowance is enough for them.  It *advances* by some tokens
to another session if these were read and not pushed back.  In between, more tokens may have been
drawn from the reader, and they wait in the queue.

A trial that is given up leaves a session that has advanced by nothing.  So what the number of a
ready session loses is the number of tokens that it has advanced by (`Session.Ready.advance`),
whatever trials there were.
-/

namespace CppDecl

namespace Session

variable {n : Nat} {s s' s'' : Session} {t : Token} {ts us : List Token}

/-- A session whose reader and queue are in order. -/
structure Orderly (s : Session) : Prop where
  /-- The reader is in order. -/
  sound : s.reader.Sound
  /-- Behind the end of the file nothing else is in the queue. -/
  trailing : Trailing s.queue.ahead
  /-- If the end of the file is in the queue, nothing else comes from the reader. -/
  ended : ∀ t ∈ s.queue.ahead, t.kind = .endOfFile → s.reader.frames = []
  /-- Outside of a trial nothing is kept behind. -/
  settled : s.queue.saving = false → s.queue.behind = []

/-- At most `n` tokens are left before the end of the file, and they can all be taken. -/
structure Ready (n : Nat) (s : Session) : Prop extends Orderly s where
  /-- The tokens of the reader and of the queue are no more than that. -/
  within : ∃ w, Reader.Within w s.reader ∧ w ≤ s.allowance ∧ live s.queue.ahead + w ≤ n

/-- The tokens `ts` have been read and not pushed back. -/
structure Advance (s : Session) (ts : List Token) (s' : Session) : Prop where
  /-- They come from the front of the queue and then from the reader. -/
  drawn : ∃ k pulled, s.reader.Draws k pulled s'.reader ∧ s'.allowance + k = s.allowance ∧
    s.queue.ahead ++ pulled = ts ++ s'.queue.ahead
  /-- During a trial they are kept. -/
  behind : s'.queue.behind =
    if s.queue.saving then ts.reverse ++ s.queue.behind else s.queue.behind
  /-- The same trials are on. -/
  saving : s'.queue.saving = s.queue.saving
  /-- The same brackets end what is being parsed. -/
  accept : s'.accept = s.accept

/-- Sessions that differ in nothing that concerns tokens. -/
structure Same (s s' : Session) : Prop where
  /-- The reader is the same, but for the way to read `>`. -/
  reader : s.reader.Kin s'.reader
  /-- The queue is the same. -/
  queue : s'.queue = s.queue
  /-- The allowance is the same. -/
  allowance : s'.allowance = s.allowance
  /-- The same brackets end what is being parsed. -/
  accept : s'.accept = s.accept

theorem Same.advance (h : s.Same s') : s.Advance [] s' := by
  refine ⟨⟨0, [], .nil h.reader, h.allowance, ?_⟩, ?_, by rw [h.queue], h.accept⟩
  · rw [h.queue, List.append_nil, List.nil_append]
  · rw [h.queue]
    simp

theorem Advance.refl (s : Session) : s.Advance [] s := Same.advance ⟨.refl _, rfl, rfl, rfl⟩

theorem Advance.trans (h₁ : s.Advance ts s') (h₂ : s'.Advance us s'') (hsound : s.reader.Sound) :
    s.Advance (ts ++ us) s'' := by
  obtain ⟨k, pulled, hdraws, hallowance, hqueue⟩ := h₁.drawn
  obtain ⟨l, pulled', hdraws', hallowance', hqueue'⟩ := h₂.drawn
  refine ⟨⟨k + l, pulled ++ pulled', hdraws.trans hdraws' hsound, by omega, ?_⟩, ?_,
    h₂.saving.trans h₁.saving, h₂.accept.trans h₁.accept⟩
  · rw [← List.append_assoc, hqueue, List.append_assoc, hqueue', List.append_assoc]
  · rw [h₂.behind, h₁.saving, h₁.behind]
    split
    · rw [List.reverse_append, List.append_assoc]
    · rfl

/-- Behind the end of the file nothing else is in the queue or was drawn. -/
theorem Orderly.trailing_append (h : s.Orderly) {k : Nat} {pulled : List Token} {r : Reader}
    (hdraws : s.reader.Draws k pulled r) : Trailing (s.queue.ahead ++ pulled) := by
  refine List.pairwise_append.2 ⟨h.trailing, (hdraws.trailing h.sound).1, ?_⟩
  intro t ht u hu hend
  exact (hdraws.ended_of_frames_nil (h.ended t ht hend)).2 u hu

/-- Behind the end of the file nothing else is read or waits. -/
theorem Orderly.trailing_advance (h : s.Orderly) (hadvance : s.Advance ts s') :
    Trailing (ts ++ s'.queue.ahead) := by
  obtain ⟨k, pulled, hdraws, -, hqueue⟩ := hadvance.drawn
  rw [← hqueue]
  exact h.trailing_append hdraws

/-- A session stays in order while it advances. -/
theorem Orderly.advance (h : s.Orderly) (hadvance : s.Advance ts s') : s'.Orderly := by
  obtain ⟨k, pulled, hdraws, -, hqueue⟩ := hadvance.drawn
  refine ⟨hdraws.sound h.sound, (List.pairwise_append.1 (h.trailing_advance hadvance)).2.1, ?_, ?_⟩
  · intro t ht hend
    have hmem : t ∈ s.queue.ahead ++ pulled := by
      rw [hqueue]
      exact List.mem_append_right _ ht
    rcases List.mem_append.1 hmem with hmem | hmem
    · exact (hdraws.ended_of_frames_nil (h.ended t hmem hend)).1
    · exact (hdraws.trailing h.sound).2 t hmem hend
  · intro hsaving
    rw [hadvance.saving] at hsaving
    rw [hadvance.behind, hsaving]
    exact h.settled hsaving

/-- A new session is in order. -/
theorem orderly_new {reader : Reader} (hsound : reader.Sound) (allowance passNumber : Nat) :
    (Session.new reader allowance passNumber).Orderly where
  sound := hsound
  trailing := .nil
  ended := List.forall_mem_nil _
  settled _ := rfl

/-- What a session has advanced by comes off the number that it is ready with. -/
theorem Ready.advance (h : s.Ready n) (hadvance : s.Advance ts s') :
    live ts ≤ n ∧ s'.Ready (n - live ts) := by
  obtain ⟨w, hwithin, hallowance, hle⟩ := h.within
  obtain ⟨k, pulled, hdraws, hcount, hqueue⟩ := hadvance.drawn
  obtain ⟨hlive, hk, hwithin'⟩ := hdraws.within h.sound hwithin
  have hcounts := congrArg live hqueue
  rw [live_append, live_append] at hcounts
  exact ⟨by omega, h.toOrderly.advance hadvance, w - k, hwithin', by omega, by omega⟩

/-- Only the end of the file comes behind the end of the file. -/
theorem Ready.live_of_advance (h : s.Ready n) (hadvance : s.Advance (ts ++ [t]) s')
    (hmore : t.kind ≠ .endOfFile) : live ts = ts.length := by
  have hall := h.trailing_advance hadvance
  rw [List.append_assoc] at hall
  refine List.countP_eq_length.2 ?_
  intro u hu
  have hlater := (List.pairwise_append.1 hall).2.2 u hu t (by simp)
  simp only [bne_iff_ne, ne_eq]
  exact fun hend => hmore (hlater hend)

/-! ## The next token -/

/-- The token that comes next waits in the queue. -/
def Pending (t : Token) (s : Session) : Prop := s.queue.ahead.head? = some t

theorem Pending.of_queue_eq (h : s.Pending t) (hqueue : s'.queue = s.queue) : s'.Pending t := by
  rwa [Pending, hqueue]

theorem Pending.advance (h : s.Pending t) (hadvance : s.Advance [] s') : s'.Pending t := by
  obtain ⟨k, pulled, -, -, hqueue⟩ := hadvance.drawn
  rw [List.nil_append] at hqueue
  rw [Pending, ← hqueue, List.head?_append, h]
  rfl

/-- The first token that is consumed is the one that waits. -/
theorem Pending.first (h : s.Pending t) (hadvance : s.Advance ts s') (hne : ts ≠ []) :
    ∃ rest, ts = t :: rest := by
  obtain ⟨k, pulled, -, -, hqueue⟩ := hadvance.drawn
  cases ts with
  | nil => exact absurd rfl hne
  | cons u rest =>
    have hhead := congrArg List.head? hqueue
    rw [List.head?_append, h] at hhead
    cases hhead
    exact ⟨rest, rfl⟩

/-- What reading a token does.  A token that waits in the queue is the one that is read. -/
theorem Orderly.read (h : s.Orderly) (hread : Parse.read s = .ok (t, s')) :
    s.Advance [t] s' ∧ ∀ u, s.Pending u → t = u := by
  unfold Parse.read TokenQueue.next? at hread
  cases hahead : s.queue.ahead with
  | cons t ahead =>
    simp only [hahead] at hread
    cases hread
    refine ⟨⟨⟨0, [], .nil (.refl _), rfl, ?_⟩, ?_, ?_, rfl⟩, ?_⟩
    · rw [hahead, TokenQueue.passed]
      split <;> simp
    · rw [TokenQueue.passed]
      simp only
      split <;> rfl
    · rw [TokenQueue.passed]
      split <;> rfl
    · intro u hu
      rw [Pending, hahead] at hu
      exact Option.some.inj hu
  | nil =>
    simp only [hahead] at hread
    obtain ⟨⟨t, s'⟩, hpull, hread⟩ := Halt.bind_eq_ok hread
    cases hread
    rcases pull_spec (.refl _) h.sound rfl with
      ⟨herror, -⟩ | ⟨m, t, r', s', hpull', hgives, hlike, hcount, htook⟩
    · rw [herror] at hpull
      cases hpull
    · rw [hpull'] at hpull
      cases hpull
      have hqueue : s'.queue = s.queue := by rw [htook]
      have haccept : s'.accept = s.accept := by rw [htook]
      refine ⟨⟨⟨m, [t], ?_, hcount, ?_⟩, ?_, ?_, haccept⟩, ?_⟩
      · exact .cons (a := s.reader.closeAnglesOnly) hgives (.nil hlike.symm.kin)
      · simp only [TokenQueue.passed, hqueue, hahead]
        split <;> simp [hahead]
      · simp only [TokenQueue.passed, hqueue]
        split <;> rfl
      · simp only [TokenQueue.passed, hqueue]
        split <;> rfl
      · intro u hu
        rw [Pending, hahead] at hu
        cases hu

/-- A session that is ready has a next token. -/
theorem Ready.read (h : s.Ready n) : ∃ t s', Parse.read s = .ok (t, s') ∧ s.Advance [t] s' ∧
    ∀ u, s.Pending u → t = u := by
  suffices hread : ∃ t s', Parse.read s = .ok (t, s') by
    obtain ⟨t, s', hread⟩ := hread
    exact ⟨t, s', hread, h.toOrderly.read hread⟩
  unfold Parse.read TokenQueue.next?
  cases s.queue.ahead with
  | cons t ahead => exact ⟨t, _, rfl⟩
  | nil =>
    obtain ⟨w, hwithin, hallowance, -⟩ := h.within
    obtain ⟨k, t, r, hgives⟩ := hwithin.gives h.sound
    have hk := (hgives.within h.sound hwithin).2.1
    rcases pull_spec (.refl _) h.sound rfl with ⟨-, hfew⟩ | ⟨m, t, r', s', hpull, -⟩
    · exact absurd (hfew k t r hgives) (by omega)
    · exact ⟨t, _, by rw [hpull]; rfl⟩

/-- Pushing the last token back that was consumed. -/
theorem Advance.pushBack (h : s.Advance (ts ++ [t]) s') (horderly : s.Orderly) :
    s.Advance ts { s' with queue := s'.queue.pushBack t } ∧
      Pending t { s' with queue := s'.queue.pushBack t } := by
  obtain ⟨k, pulled, hdraws, hallowance, hqueue⟩ := h.drawn
  rw [List.append_assoc] at hqueue
  cases hsaving : s.queue.saving with
  | true =>
    have hbehind := h.behind
    rw [hsaving, if_pos rfl, List.reverse_append] at hbehind
    have hback : s'.queue.pushBack t = { s'.queue with
        behind := ts.reverse ++ s.queue.behind, ahead := t :: s'.queue.ahead } := by
      rw [TokenQueue.pushBack, hbehind]
      rfl
    rw [hback]
    exact ⟨⟨⟨k, pulled, hdraws, hallowance, hqueue⟩, by rw [hsaving]; rfl, h.saving, h.accept⟩, rfl⟩
  | false =>
    have hbehind := h.behind
    rw [hsaving, if_neg Bool.false_ne_true, horderly.settled hsaving] at hbehind
    have hback : s'.queue.pushBack t = { s'.queue with ahead := t :: s'.queue.ahead } := by
      simp only [TokenQueue.pushBack, hbehind]
    rw [hback]
    refine ⟨⟨⟨k, pulled, hdraws, hallowance, hqueue⟩, ?_, h.saving, h.accept⟩, rfl⟩
    rw [hsaving, if_neg Bool.false_ne_true, horderly.settled hsaving]
    exact hbehind

/-! ## Brackets -/

/-- The session inside of a bracket, or outside of it again. -/
def bracketed (s : Session) (accept : Accept) (angles : Bool) : Session :=
  { s with accept, reader := s.reader.withAngles angles }

variable {accept : Accept} {a b : Bool}

theorem Orderly.bracketed (h : s.Orderly) (accept : Accept) (a : Bool) :
    (s.bracketed accept a).Orderly :=
  ⟨h.sound.withAngles a, h.trailing, h.ended, h.settled⟩

theorem Ready.bracketed (h : s.Ready n) (accept : Accept) (a : Bool) :
    (s.bracketed accept a).Ready n :=
  ⟨h.toOrderly.bracketed accept a,
    h.within.imp fun _ hw => ⟨Reader.within_withAngles.2 hw.1, hw.2⟩⟩

theorem Advance.of_bracketed (h : (s.bracketed accept a).Advance ts s') (hsound : s.reader.Sound) :
    s.Advance ts (s'.bracketed s.accept b) := by
  obtain ⟨k, pulled, hdraws, hallowance, hqueue⟩ := h.drawn
  exact ⟨⟨k, pulled, hdraws.of_withAngles hsound, hallowance, hqueue⟩, h.behind, h.saving, rfl⟩

/-! ## Trials -/

/-- A trial that is begun, and the session then. -/
structure Begun (s : Session) (trial : Parse.Trial) (s' : Session) : Prop where
  /-- The trial knows if another one was on. -/
  saving : trial.saving = s.queue.saving
  /-- The trial knows its place in the queue. -/
  pos : trial.pos = s.queue.behind.length
  /-- The trial knows the number of raw errors. -/
  rawErrors : trial.rawErrors = s.rawErrors
  /-- The trial knows whether errors were muted. -/
  muted : trial.muted = s.muted
  /-- Tokens are kept from now on. -/
  session : s' = { s with queue := { s.queue with saving := true } }

variable {s₁ s₂ : Session} {trial : Parse.Trial}

theorem Begun.orderly (h : s.Begun trial s₁) (horderly : s.Orderly) : s₁.Orderly := by
  rw [h.session]
  exact ⟨horderly.sound, horderly.trailing, horderly.ended, nofun⟩

theorem Begun.ready (h : s.Begun trial s₁) (hready : s.Ready n) : s₁.Ready n := by
  refine ⟨h.orderly hready.toOrderly, ?_⟩
  rw [h.session]
  exact hready.within

theorem Begun.pending (h : s.Begun trial s₁) (hpending : s.Pending t) : s₁.Pending t := by
  rw [h.session]
  exact hpending

/-- What is in the queue after a stretch of a trial. -/
theorem Begun.queue (h : s.Begun trial s₁) (hadvance : s₁.Advance ts s₂) :
    s₂.queue.behind = ts.reverse ++ s.queue.behind ∧ s₂.queue.saving = true := by
  have hbehind := hadvance.behind
  have hsaving := hadvance.saving
  rw [h.session] at hbehind hsaving
  exact ⟨hbehind, hsaving⟩

/-- Going back to where a trial began. -/
theorem Begun.seek (h : s.Begun trial s₁) (hadvance : s₁.Advance ts s₂) :
    s₂.queue.seek trial.pos = ⟨s.queue.behind, ts ++ s₂.queue.ahead, true⟩ := by
  obtain ⟨hbehind, hsaving⟩ := h.queue hadvance
  have hall : s₂.queue.behind.reverse ++ s₂.queue.ahead =
      s.queue.behind.reverse ++ (ts ++ s₂.queue.ahead) := by
    rw [hbehind, List.reverse_append, List.reverse_reverse, List.append_assoc]
  rw [TokenQueue.seek, hall, h.pos, List.take_left' List.length_reverse,
    List.drop_left' List.length_reverse, List.reverse_reverse, hsaving]

/-- A trial that ends where the parse now is. -/
theorem Begun.endTrial (h : s.Begun trial s₁) (horderly : s.Orderly)
    (hadvance : s₁.Advance ts s₂) :
    ∃ s₃, Parse.endTrial trial s₂ = .ok ((), s₃) ∧ s.Advance ts s₃ := by
  obtain ⟨hbehind, hsaving⟩ := h.queue hadvance
  have haccept := hadvance.accept
  obtain ⟨k, pulled, hdraws, hallowance, hqueue⟩ := hadvance.drawn
  rw [h.session] at hdraws hallowance hqueue haccept
  unfold Parse.endTrial
  rw [h.saving]
  cases hon : s.queue.saving with
  | true =>
    refine ⟨s₂, rfl, ⟨k, pulled, hdraws, hallowance, hqueue⟩, ?_, ?_, haccept⟩
    · rw [hon]
      exact hbehind
    · rw [hsaving, hon]
  | false =>
    refine ⟨{ s₂ with queue := s₂.queue.settle }, rfl, ⟨k, pulled, hdraws, hallowance, hqueue⟩,
      ?_, ?_, haccept⟩
    · rw [hon]
      exact (horderly.settled hon).symm
    · rw [hon]
      rfl

/-- A trial that is given up. -/
theorem Begun.abandon (h : s.Begun trial s₁) (horderly : s.Orderly)
    (hadvance : s₁.Advance ts s₂) :
    ∃ s₃, Parse.abandon trial s₂ = .ok ((), s₃) ∧ s.Advance [] s₃ := by
  -- going back leaves a session that has advanced by nothing since the trial began
  have hback : s₁.Advance [] { s₂ with
      queue := s₂.queue.seek trial.pos, rawErrors := trial.rawErrors, muted := trial.muted } := by
    obtain ⟨k, pulled, hdraws, hallowance, hqueue⟩ := hadvance.drawn
    rw [h.seek hadvance]
    refine ⟨⟨k, pulled, hdraws, hallowance, hqueue⟩, ?_, ?_, hadvance.accept⟩
    · rw [h.session]
      rfl
    · rw [h.session]
  exact h.endTrial horderly hback

end Session

end CppDecl
