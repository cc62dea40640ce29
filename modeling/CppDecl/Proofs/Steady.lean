import CppDecl.Proofs.Advance

/-!
# What a session keeps

Whatever is done in a parse, the counts of faults do not go down, a fault that is neither muted nor
in a trial is reported, and in a trial nothing is reported at all.  No more is reported than comes
up, and the log has one report for each error that is counted.  Once it is done, a `>` is read as it
was before.  `Session.Steady` says so.

It holds of each action by itself, of actions one after the other, and of a trial as a whole: one
that is given up puts the counts back, and one that goes on has not failed.
-/

namespace CppDecl

/-- Whether an event is the report of a fault of the grammar. -/
def Event.isFault : Event → Bool
  | .diagnosed (.grammatical _) => true
  | _ => false

/-- Whether an event is a report. -/
def Event.isReport (e : Event) : Bool := e.diagnostic?.isSome

theorem Event.isFault_of_not_isReport {e : Event} (h : e.isReport = false) : e.isFault = false := by
  cases e with
  | diagnosed d => cases h
  | _ => rfl

/-- Reading a token does not change how a `>` is read. -/
theorem Reader.Sound.readToken_closeAnglesOnly {r r' : Reader} {t : Token} (h : r.Sound)
    (hread : r.readToken = .ok (t, r')) : r'.closeAnglesOnly = r.closeAnglesOnly := by
  obtain ⟨before, hskips, hstep⟩ := Reader.readToken_eq_ok_iff.1 hread
  obtain ⟨hsound, hbefore⟩ := hskips.keeps (P := fun q => q.closeAnglesOnly = r.closeAnglesOnly)
    (fun _ hmove hq => hmove.closeAnglesOnly_eq.trans hq) h rfl
  obtain ⟨t?, r₁, heq, -, hmove⟩ := hsound.step
  rw [hstep] at heq
  cases heq
  exact hmove.closeAnglesOnly_eq.trans hbefore

namespace Session

/-- How many reports there are in the log. -/
def reports (s : Session) : Nat := s.log.countP Event.isReport

/-- What becomes of the counts of a session and of its log. -/
structure Steady (s s' : Session) : Prop where
  /-- A `>` is read in the same way. -/
  closeAnglesOnly : s'.reader.closeAnglesOnly = s.reader.closeAnglesOnly
  /-- The same trials are on. -/
  saving : s'.queue.saving = s.queue.saving
  /-- Faults are not forgotten. -/
  rawErrors_le : s.rawErrors ≤ s'.rawErrors
  /-- Nor are reports. -/
  reportedErrors_le : s.reportedErrors ≤ s'.reportedErrors
  /-- No more faults are reported than come up. -/
  noted : s'.reportedErrors + s.rawErrors ≤ s'.rawErrors + s.reportedErrors
  /-- For each error that is counted there is a report in the log. -/
  counted : s'.reports + s.allErrors = s.reports + s'.allErrors
  /-- Only a fault mutes. -/
  muted : s'.rawErrors = s.rawErrors → s'.muted = true → s.muted = true
  /-- Outside of a trial the first fault is reported if faults are not muted.  In a trial that goes
  on, enough faults to wrap their count around would stay silent. -/
  reported : s'.rawErrors < countRange → s.queue.saving = false → s.muted = false →
    s'.reportedErrors = s.reportedErrors → s'.rawErrors = s.rawErrors
  /-- The log grows, and in a trial no fault is reported. -/
  log : ∃ news, s'.log = news ++ s.log ∧ (s.queue.saving = true →
    s'.reportedErrors = s.reportedErrors ∧ ∀ e ∈ news, e.isFault = false)

/-- The counts of two sessions are the same. -/
structure Even (s s' : Session) : Prop where
  /-- There are as many faults. -/
  rawErrors : s'.rawErrors = s.rawErrors
  /-- There are as many reports. -/
  reportedErrors : s'.reportedErrors = s.reportedErrors
  /-- Faults are muted only if they were. -/
  muted : s'.muted = true → s.muted = true

variable {s s' s'' : Session} {t : Token} {n : Nat}

theorem Even.refl (s : Session) : s.Even s := ⟨rfl, rfl, id⟩

theorem Even.steady (h : s.Even s')
    (hangles : s'.reader.closeAnglesOnly = s.reader.closeAnglesOnly)
    (hsaving : s'.queue.saving = s.queue.saving)
    (hlog : ∃ news, s'.log = news ++ s.log ∧ ∀ e ∈ news, e.isFault = false)
    (hreports : s'.reports + s.lexErrors = s.reports + s'.lexErrors) : s.Steady s' := by
  obtain ⟨news, hnews, hnone⟩ := hlog
  have hraw := h.rawErrors
  have hreported := h.reportedErrors
  refine ⟨hangles, hsaving, hraw.ge, hreported.ge, by omega, ?_, fun _ => h.muted,
    fun _ _ _ _ => hraw, news, hnews, fun _ => ⟨hreported, hnone⟩⟩
  rw [allErrors, allErrors]
  omega

theorem Steady.refl (s : Session) : s.Steady s :=
  (Even.refl s).steady rfl rfl ⟨[], rfl, List.forall_mem_nil _⟩ rfl

theorem Steady.trans (h₁ : s.Steady s') (h₂ : s'.Steady s'') : s.Steady s'' := by
  have hraw₁ := h₁.rawErrors_le
  have hraw₂ := h₂.rawErrors_le
  have hreported₁ := h₁.reportedErrors_le
  have hreported₂ := h₂.reportedErrors_le
  have hnoted₁ := h₁.noted
  have hnoted₂ := h₂.noted
  have hcounted₁ := h₁.counted
  have hcounted₂ := h₂.counted
  refine ⟨h₂.closeAnglesOnly.trans h₁.closeAnglesOnly, h₂.saving.trans h₁.saving,
    hraw₁.trans hraw₂, hreported₁.trans hreported₂, by omega, by omega, ?_, ?_, ?_⟩
  · intro heq hmuted
    exact h₁.muted (by omega) (h₂.muted (by omega) hmuted)
  · intro hcount hsaving hmuted heq
    have hsame := h₁.reported (hraw₂.trans_lt hcount) hsaving hmuted (by omega)
    have hmuted' : s'.muted = false := by
      refine Bool.eq_false_iff.2 fun h => ?_
      rw [h₁.muted hsame h] at hmuted
      cases hmuted
    exact (h₂.reported hcount (h₁.saving.trans hsaving) hmuted' (by omega)).trans hsame
  · obtain ⟨news₁, hlog₁, hnone₁⟩ := h₁.log
    obtain ⟨news₂, hlog₂, hnone₂⟩ := h₂.log
    refine ⟨news₂ ++ news₁, by rw [hlog₂, hlog₁, List.append_assoc], ?_⟩
    intro hsaving
    obtain ⟨hcount₁, hall₁⟩ := hnone₁ hsaving
    obtain ⟨hcount₂, hall₂⟩ := hnone₂ (h₁.saving.trans hsaving)
    refine ⟨hcount₂.trans hcount₁, ?_⟩
    intro e he
    rcases List.mem_append.1 he with he | he
    · exact hall₂ e he
    · exact hall₁ e he

/-! ## Tokens -/

theorem drain_closeAnglesOnly (s : Session) :
    s.drain.reader.closeAnglesOnly = s.reader.closeAnglesOnly := rfl

theorem drain_log (s : Session) :
    ∃ news, s.drain.log = news ++ s.log ∧ ∀ e ∈ news, e.isFault = false := by
  refine ⟨_, rfl, ?_⟩
  intro e he
  rw [List.mem_reverse, List.mem_append, List.mem_map, List.mem_map] at he
  rcases he with ⟨_, _, rfl⟩ | ⟨_, _, rfl⟩ <;> rfl

/-- The faults of the text that come up are reported. -/
theorem drain_reports (s : Session) :
    s.drain.reports + s.lexErrors = s.reports + s.drain.lexErrors := by
  have hlexical : (s.reader.errors.map fun e => Event.diagnosed (.lexical e)).countP
      Event.isReport = s.reader.errors.length := by
    rw [List.countP_map]
    exact List.countP_eq_length.2 fun _ _ => rfl
  have hincluded : (s.reader.inclusions.map Event.included).countP Event.isReport = 0 := by
    rw [List.countP_map]
    exact List.countP_eq_zero.2 fun _ _ => by simp [Event.isReport, Event.diagnostic?]
  simp only [reports, drain, Reader.takeErrors, Reader.takeInclusions, List.reverse_append,
    List.countP_append, List.countP_reverse, hlexical, hincluded]
  omega

/-- What is drawn from the reader shows in the log, and no fault of the grammar does. -/
theorem Draws.log (h : s.Draws t s') :
    s'.reader.closeAnglesOnly = s.reader.closeAnglesOnly ∧
      (∃ news, s'.log = news ++ s.log ∧ ∀ e ∈ news, e.isFault = false) ∧
      s'.reports + s.lexErrors = s.reports + s'.lexErrors := by
  induction h with
  | last n hsound hread _ =>
    exact ⟨(drain_closeAnglesOnly _).trans (hsound.readToken_closeAnglesOnly hread), drain_log _,
      drain_reports _⟩
  | @aside s s' t u r n hsound hread _ _ ih =>
    obtain ⟨hangles, ⟨news, hlog, hnone⟩, hreports⟩ := ih
    obtain ⟨before, hbefore, hall⟩ := drain_log { s with reader := r, allowance := n }
    have hfirst : (s.afterAside u r n).reports + s.lexErrors =
        s.reports + (s.afterAside u r n).lexErrors :=
      drain_reports { s with reader := r, allowance := n }
    have hsame : r.closeAnglesOnly = s.reader.closeAnglesOnly := hsound.readToken_closeAnglesOnly hread
    refine ⟨hangles.trans hsame,
      ⟨news ++ .aside u (if u.kind = .macroUse then r.args else []) :: before, ?_, ?_⟩, by omega⟩
    · rw [hlog, List.append_assoc, List.cons_append, ← hbefore]
      rfl
    · intro e he
      rcases List.mem_append.1 he with he | he
      · exact hnone e he
      rcases List.mem_cons.1 he with rfl | he
      · rfl
      · exact hall e he

theorem read_steady (hsound : s.reader.Sound) (h : Parse.read s = .ok (t, s')) :
    s.Steady s' ∧ s.Even s' ∧ s'.scopes = s.scopes := by
  unfold Parse.read TokenQueue.next? at h
  cases hahead : s.queue.ahead with
  | cons u ahead =>
    simp only [hahead] at h
    cases h
    have heven : s.Even { s with queue := { s.queue with ahead }.passed t } := ⟨rfl, rfl, id⟩
    refine ⟨heven.steady rfl ?_ ⟨[], rfl, List.forall_mem_nil _⟩ rfl, heven, rfl⟩
    simp only [TokenQueue.passed]
    split <;> rfl
  | nil =>
    simp only [hahead] at h
    obtain ⟨⟨t, s₁⟩, hpull, h⟩ := Halt.bind_eq_ok h
    cases h
    obtain ⟨hangles, hlog, hreports⟩ := (draws_of_pull hsound hpull).log
    have htook : s.Took s₁ := by
      rcases pull_spec (.refl _) hsound rfl with ⟨herror, -⟩ | ⟨_, _, _, _, hpull', -, -, -, htook⟩
      · rw [herror] at hpull
        cases hpull
      · rw [hpull'] at hpull
        cases hpull
        exact htook
    have hraw : s₁.rawErrors = s.rawErrors := by rw [htook]
    have hreported : s₁.reportedErrors = s.reportedErrors := by rw [htook]
    have hmuted : s₁.muted = s.muted := by rw [htook]
    have hscopes : s₁.scopes = s.scopes := by rw [htook]
    have hqueue : s₁.queue = s.queue := by rw [htook]
    have heven : s.Even { s₁ with queue := s₁.queue.passed t } :=
      ⟨hraw, hreported, fun h => hmuted.symm.trans h⟩
    refine ⟨heven.steady hangles ?_ hlog hreports, heven, hscopes⟩
    simp only [TokenQueue.passed, hqueue]
    split <;> rfl

/-! ## Trials -/

variable {s₁ s₂ : Session} {trial : Parse.Trial} {ts : List Token}

/-- What is reported and logged in a trial. -/
theorem Begun.silent (h : s.Begun trial s₁) (hsteady : s₁.Steady s₂) :
    s₂.reportedErrors = s.reportedErrors ∧
      ∃ news, s₂.log = news ++ s.log ∧ ∀ e ∈ news, e.isFault = false := by
  obtain ⟨news, hlog, hsilent⟩ := hsteady.log
  have hsaving : s₁.queue.saving = true := by rw [h.session]
  obtain ⟨hreported, hnone⟩ := hsilent hsaving
  rw [h.session] at hlog hreported
  exact ⟨hreported, news, hlog, hnone⟩

/-- All reports of a trial are of faults of the text. -/
theorem Begun.reports (h : s.Begun trial s₁) (hsteady : s₁.Steady s₂) :
    s₂.reports + s.lexErrors = s.reports + s₂.lexErrors := by
  have hfirst : s₁.reports = s.reports ∧ s₁.allErrors = s.allErrors := by
    rw [h.session]
    exact ⟨rfl, rfl⟩
  have hcounted := hsteady.counted
  have hreported := (h.silent hsteady).1
  rw [hfirst.1, hfirst.2, allErrors, allErrors] at hcounted
  omega

/-- Where a trial ends, `>` is read as where it began. -/
theorem Begun.closeAnglesOnly (h : s.Begun trial s₁) (hsteady : s₁.Steady s₂) :
    s₂.reader.closeAnglesOnly = s.reader.closeAnglesOnly := by
  have hangles := hsteady.closeAnglesOnly
  rwa [h.session] at hangles

/-- At the end of a trial the same trials are on as before. -/
theorem Begun.saving_endTrial (h : s.Begun trial s₁) (hsaving : s₂.queue.saving = true)
    (hend : Parse.endTrial trial s₂ = .ok ((), s')) : s'.queue.saving = s.queue.saving := by
  unfold Parse.endTrial at hend
  rw [h.saving] at hend
  cases hon : s.queue.saving with
  | true =>
    rw [hon] at hend
    cases hend
    exact hsaving
  | false =>
    rw [hon] at hend
    cases hend
    rfl

theorem endTrial_eq (hend : Parse.endTrial trial s₂ = .ok ((), s')) :
    s' = { s₂ with queue := s'.queue } := by
  unfold Parse.endTrial at hend
  split at hend <;> cases hend <;> rfl

/-- A trial that goes on reports nothing, and as far as the count of faults tells, it has none. -/
theorem Begun.steady_endTrial (h : s.Begun trial s₁) (hsteady : s₁.Steady s₂)
    (hcount : s₂.rawErrors % countRange = trial.rawErrors % countRange)
    (hend : Parse.endTrial trial s₂ = .ok ((), s')) : s.Steady s' ∧ s'.scopes = s₂.scopes := by
  obtain ⟨hreported, hlog⟩ := h.silent hsteady
  have hreports := h.reports hsteady
  have hangles := h.closeAnglesOnly hsteady
  have hsaving := h.saving_endTrial (hsteady.saving.trans (by rw [h.session])) hend
  have hraw := hsteady.rawErrors_le
  have hmuted := hsteady.muted
  rw [h.session] at hraw hmuted
  rw [h.rawErrors] at hcount
  rw [endTrial_eq hend]
  refine ⟨⟨hangles, hsaving, hraw, hreported.ge, ?_, ?_, hmuted, ?_, ?_⟩, rfl⟩
  · show s₂.reportedErrors + s.rawErrors ≤ s₂.rawErrors + s.reportedErrors
    rw [hreported, Nat.add_comm]
    exact Nat.add_le_add_right hraw _
  · show s₂.reports + (s.reportedErrors + s.lexErrors) = s.reports + (s₂.reportedErrors + s₂.lexErrors)
    omega
  · intro hfew _ _ _
    rw [Nat.mod_eq_of_lt hfew, Nat.mod_eq_of_lt (hraw.trans_lt hfew)] at hcount
    exact hcount
  · obtain ⟨news, hnews, hnone⟩ := hlog
    exact ⟨news, hnews, fun _ => ⟨hreported, hnone⟩⟩

/-- A trial that is given up leaves the counts alone. -/
theorem Begun.steady_abandon (h : s.Begun trial s₁) (hsteady : s₁.Steady s₂)
    (habandon : Parse.abandon trial s₂ = .ok ((), s')) :
    s.Steady s' ∧ s.Even s' ∧ s'.muted = s.muted ∧ s'.scopes = s₂.scopes := by
  obtain ⟨hreported, hlog⟩ := h.silent hsteady
  have hreports := h.reports hsteady
  have hangles := h.closeAnglesOnly hsteady
  have hon : s₂.queue.saving = true := hsteady.saving.trans (by rw [h.session])
  have hend : Parse.endTrial trial { s₂ with
      queue := s₂.queue.seek trial.pos, rawErrors := trial.rawErrors, muted := trial.muted } =
        .ok ((), s') := habandon
  have hsaving := h.saving_endTrial (by exact hon) hend
  have heq := endTrial_eq hend
  have heven : s.Even s' := by
    rw [heq]
    exact ⟨h.rawErrors, hreported, fun hmuted => h.muted ▸ hmuted⟩
  refine ⟨heven.steady ?_ hsaving ?_ ?_, heven, ?_, ?_⟩
  · rw [heq]
    exact hangles
  · rw [heq]
    exact hlog
  · rw [heq]
    exact hreports
  · rw [heq]
    exact h.muted
  · rw [heq]

end Session

end CppDecl
