import CppDecl.Proofs.Drawing
import CppDecl.Tokens

/-!
# Asides and faults of the text

A parse shows the asides that it reads past and the faults of the text, and it reads a `>` now this
way, now that way.  Neither asides nor faults depend on that.  A run of `>` and `=` holds none of
them, and everything else is read in only one way.

`Reader.Holds` says which asides and which faults there are in what a reader has yet to read.
However `>` is read, a step gives the first of them (`Reader.Holds.step`).
-/

namespace CppDecl

/-- The asides among some tokens. -/
def asides (ts : List Token) : List Token := ts.filter fun t => t.kind.isAside

@[simp] theorem asides_nil : asides [] = [] := rfl

@[simp] theorem asides_append (ts us : List Token) : asides (ts ++ us) = asides ts ++ asides us :=
  List.filter_append ..

theorem asides_cons (t : Token) (ts : List Token) : asides (t :: ts) = asides [t] ++ asides ts :=
  asides_append [t] ts

theorem asides_singleton {t : Token} (h : t.kind.isAside = false) : asides [t] = [] := by
  simp [asides, h]

theorem asides_end {t : Token} (h : t.kind = .endOfFile) : asides [t] = [] :=
  asides_singleton (by rw [h]; rfl)

namespace Reader

variable {r r' q : Reader} {a : Bool} {t : Token} {t? : Option Token}
variable {ts us : List Token} {es : List LexError}

/-- The asides and the faults in what is yet to be read, if `>` is read in some way at each step. -/
inductive Holds : Reader → List Token → List LexError → Prop
  /-- There is nothing left. -/
  | done {r : Reader} (frames : r.frames = []) : Holds r [] []
  /-- A step comes first, and then the rest. -/
  | step {r r' : Reader} {a : Bool} {t? : Option Token} {ts : List Token} {es : List LexError}
      (step : (r.collected.withAngles a).step = .ok (t?, r')) (rest : Holds r' ts es) :
      Holds r (asides t?.toList ++ ts) (r'.errors ++ es)

theorem Kin.collected_withAngles (h : r.Kin q) (a : Bool) :
    r.collected.withAngles a = q.collected.withAngles a := by
  have hall : r.collected.withAngles false = q.collected.withAngles false := h
  show (r.collected.withAngles false).withAngles a = (q.collected.withAngles false).withAngles a
  rw [hall]

theorem Kin.trans {q' : Reader} (h : r.Kin q) (h' : q.Kin q') : r.Kin q' := Alike.trans h h'

theorem kin_withAngles (r : Reader) (a : Bool) : (r.withAngles a).Kin r := .refl r

theorem kin_collected_withAngles (r : Reader) (a : Bool) : (r.collected.withAngles a).Kin r := .refl r

/-- It does not depend on the way to read `>`, nor on what was not collected. -/
theorem Holds.of_kin (h : r.Holds ts es) (hkin : r.Kin q) : q.Holds ts es := by
  cases h with
  | done hframes => exact .done (hkin.frames.symm.trans hframes)
  | step hstep hrest => exact .step (hkin.collected_withAngles _ ▸ hstep) hrest

/-! ## Runs of `>` and `=` -/

theorem Kin.behindRun (h : r.Kin q) : r.behindRun.Kin q.behindRun := by
  unfold Reader.behindRun
  rw [← h.frames]
  cases r.frames with
  | nil => exact h
  | cons top below =>
    simp only
    split
    · exact h
    · exact congrArg (fun r => r.passed top below (runLength top))
        (show (r.withAngles false).collected = (q.withAngles false).collected from h)

/-- A step at the front of a run gives a token that is no aside, and the run ends at the same place
as before. -/
theorem Sound.step_in_run (h : r.Sound) {top : Frame} {below : List Frame}
    (hframes : r.frames = top :: below) (hrun : runLength top ≠ 0) (a : Bool) :
    ∃ t r' n, (r.collected.withAngles a).step = .ok (some t, r') ∧ asides [t] = [] ∧
      r'.errors = [] ∧ r'.Sound ∧ r'.frames = top.advance n :: below ∧
      runLength (top.advance n) < runLength top ∧ r'.behindRun.Kin r.behindRun := by
  have hsound : (r.collected.withAngles a).Sound := h.collected.withAngles a
  obtain ⟨t, n, hplain, hpos, hshorter, hsound', hstep⟩ := hsound.step_run hframes hrun a
  refine ⟨t, _, n, hstep, asides_singleton hplain, rfl, hsound'.withAngles a, rfl, by omega, ?_⟩
  have hpassed : ((r.collected.withAngles a).passed top below n).behindRun.Kin r.behindRun := by
    rw [hsound.behindRun_passed hframes hpos hshorter]
    exact (kin_collected_withAngles r a).behindRun
  exact (kin_withAngles _ a).behindRun.trans hpassed

/-- There are no runs at the front of what a reader has to read. -/
def Plain (r : Reader) : Prop := ∀ top below, r.frames = top :: below → runLength top = 0

theorem Plain.behindRun_eq (h : r.Plain) : r.behindRun = r := by
  cases hframes : r.frames with
  | nil => rw [behindRun, hframes]
  | cons top below => rw [Reader.behindRun_eq hframes, if_pos (h top below hframes)]

theorem plain_or_run (r : Reader) :
    r.Plain ∨ ∃ top below, r.frames = top :: below ∧ runLength top ≠ 0 := by
  by_cases hrun : ∃ top below, r.frames = top :: below ∧ runLength top ≠ 0
  · exact .inr hrun
  · exact .inl fun top below hframes => by_contra fun hne => hrun ⟨top, below, hframes, hne⟩

/-- A run in front holds nothing. -/
theorem Holds.behindRun (h : r.Holds ts es) (hsound : r.Sound) : r.behindRun.Holds ts es := by
  induction h with
  | done hframes =>
    rw [Plain.behindRun_eq fun top below h => by simp [hframes] at h]
    exact .done hframes
  | @step r r' a t? ts es hstep hrest ih =>
    rcases r.plain_or_run with hplain | ⟨top, below, hframes, hrun⟩
    · rw [hplain.behindRun_eq]
      exact .step hstep hrest
    · obtain ⟨t, _, n, hstep', hnone, herrors, hsound', -, -, hkin⟩ := hsound.step_in_run hframes hrun a
      rw [hstep] at hstep'
      cases hstep'
      rw [Option.toList_some, hnone, herrors]
      exact (ih hsound').of_kin hkin

/-- Nor is there more in front of the end of a run than behind it. -/
theorem Holds.of_behindRun (h : r.behindRun.Holds ts es) (hsound : r.Sound) : r.Holds ts es := by
  rcases r.plain_or_run with hplain | ⟨top, below, hframes, hrun⟩
  · rwa [hplain.behindRun_eq] at h
  · induction hlength : runLength top using Nat.strongRecOn generalizing r top with
    | ind k ih =>
      subst hlength
      obtain ⟨t, r', n, hstep, hnone, herrors, hsound', hframes', hless, hkin⟩ :=
        hsound.step_in_run hframes hrun false
      have hbehind : r'.behindRun.Holds ts es := h.of_kin hkin.symm
      have hrest : r'.Holds ts es := by
        by_cases hzero : runLength (top.advance n) = 0
        · rwa [Reader.behindRun_eq hframes', if_pos hzero] at hbehind
        · exact ih _ hless hbehind hsound' _ hframes' hzero rfl
      have hall := Holds.step hstep hrest
      rwa [Option.toList_some, hnone, herrors] at hall

/-! ## Steps -/

/-- However `>` is read, a step gives the first of the asides and of the faults. -/
theorem Holds.next (h : r.Holds ts es) (hsound : r.Sound)
    (hstep : (r.collected.withAngles a).step = .ok (t?, r')) :
    ∃ ts' es', r'.Holds ts' es' ∧ ts = asides t?.toList ++ ts' ∧ es = r'.errors ++ es' := by
  rcases r.plain_or_run with hplain | ⟨top, below, hframes, hrun⟩
  · cases h with
    | done hframes =>
      rw [step_of_frames_nil (r := r.collected.withAngles a) hframes] at hstep
      cases hstep
      exact ⟨[], [], .done hframes, rfl, rfl⟩
    | @step _ r₁ b t?₁ ts es hstep₁ hrest =>
      have hvary := (hsound.collected.withAngles b).step_withAngles hstep₁ hplain a
      rw [show (r.collected.withAngles b).withAngles a = r.collected.withAngles a from rfl, hstep] at hvary
      cases hvary
      exact ⟨ts, es, hrest.of_kin (.refl r₁), rfl, rfl⟩
  · obtain ⟨t, _, n, hstep', hnone, herrors, hsound', -, -, hkin⟩ := hsound.step_in_run hframes hrun a
    rw [hstep] at hstep'
    cases hstep'
    refine ⟨ts, es, ((h.behindRun hsound).of_kin hkin.symm).of_behindRun hsound', ?_, ?_⟩
    · rw [Option.toList_some, hnone]
      rfl
    · rw [herrors]
      rfl

/-- The asides that are still to come, and the faults with those that have come up already. -/
def Forwards (r : Reader) (ts : List Token) (es : List LexError) : Prop :=
  ∃ es', r.Holds ts es' ∧ es = r.errors ++ es'

theorem Sound.step_collected (h : r.Sound) (hstep : r.step = .ok (t?, r')) :
    ∃ q, (r.collected.withAngles r.closeAnglesOnly).step = .ok (t?, q) ∧ q.Kin r' ∧
      r'.errors = r.errors ++ q.errors := by
  have hvary := h.collected.step_vary (v := r.reports) fun _ _ _ _ _ _ => rfl
  rw [collected_vary, hstep] at hvary
  obtain ⟨t?', q, hq, -⟩ := h.collected.step
  rw [hq] at hvary
  cases hvary
  exact ⟨q, hq, .refl q, rfl⟩

theorem Forwards.step (h : r.Forwards ts es) (hsound : r.Sound) (hstep : r.step = .ok (t?, r')) :
    ∃ ts', r'.Forwards ts' es ∧ ts = asides t?.toList ++ ts' := by
  obtain ⟨es', hholds, rfl⟩ := h
  obtain ⟨q, hq, hkin, herrors⟩ := hsound.step_collected hstep
  obtain ⟨ts', es'', hrest, rfl, rfl⟩ := hholds.next hsound hq
  exact ⟨ts', ⟨es'', hrest.of_kin hkin, by rw [herrors, List.append_assoc]⟩, rfl⟩

theorem Forwards.of_step (h : r'.Forwards ts es) (hsound : r.Sound) (hstep : r.step = .ok (t?, r')) :
    r.Forwards (asides t?.toList ++ ts) es := by
  obtain ⟨es', hholds, rfl⟩ := h
  obtain ⟨q, hq, hkin, herrors⟩ := hsound.step_collected hstep
  refine ⟨q.errors ++ es', .step hq (hholds.of_kin hkin.symm), ?_⟩
  rw [herrors, List.append_assoc]

/-! ## Tokens -/

theorem Forwards.readToken (h : r.Forwards ts es) (hsound : r.Sound) (hread : r.readToken = .ok (t, r')) :
    ∃ ts', r'.Forwards ts' es ∧ ts = asides [t] ++ ts' := by
  obtain ⟨before, hskips, hstep⟩ := readToken_eq_ok_iff.1 hread
  induction hskips with
  | refl r => exact h.step hsound hstep
  | step hfirst _ ih =>
    obtain ⟨ts', hforwards, rfl⟩ := h.step hsound hfirst
    obtain ⟨_, _, heq, hsound', -⟩ := hsound.step
    rw [hfirst] at heq
    cases heq
    exact ih hforwards hsound' (by rwa [readToken_of_step hfirst] at hread) hstep

theorem Forwards.of_readToken (h : r'.Forwards ts es) (hsound : r.Sound)
    (hread : r.readToken = .ok (t, r')) : r.Forwards (asides [t] ++ ts) es := by
  obtain ⟨before, hskips, hstep⟩ := readToken_eq_ok_iff.1 hread
  induction hskips with
  | refl r => exact h.of_step hsound hstep
  | step hfirst _ ih =>
    obtain ⟨_, _, heq, hsound', -⟩ := hsound.step
    rw [hfirst] at heq
    cases heq
    exact (ih hsound' (by rwa [readToken_of_step hfirst] at hread) hstep).of_step hsound hfirst

theorem Forwards.withAngles (h : r.Forwards ts es) (a : Bool) : (r.withAngles a).Forwards ts es :=
  h.imp fun _ hholds => ⟨hholds.1.of_kin (.refl r), hholds.2⟩

/-- What has come up is collected. -/
theorem Forwards.collected (h : r.Forwards ts es) :
    ∃ es', r.collected.Forwards ts es' ∧ es = r.errors ++ es' := by
  obtain ⟨es', hholds, rfl⟩ := h
  exact ⟨es', ⟨es', hholds.of_kin (.refl r), rfl⟩, rfl⟩

/-- At the end nothing is left, but for faults that have come up already. -/
theorem forwards_of_frames_nil (h : r.frames = []) : r.Forwards [] r.errors :=
  ⟨[], .done h, (List.append_nil _).symm⟩

theorem Holds.eq_nil_of_frames_nil (h : r.Holds ts es) (hframes : r.frames = []) :
    ts = [] ∧ es = [] := by
  induction h with
  | done _ => exact ⟨rfl, rfl⟩
  | @step r r' a _ _ _ hstep _ ih =>
    rw [step_of_frames_nil (r := r.collected.withAngles a) hframes] at hstep
    cases hstep
    obtain ⟨rfl, rfl⟩ := ih hframes
    exact ⟨rfl, rfl⟩

/-- What a reader forwards if it reads to its end. -/
theorem Sound.forwards_of_readAll (h : r.Sound) {budget : Nat}
    (hall : r.readAll budget = .ok (ts, r')) :
    ∃ init last, ts = init ++ [last] ∧ r.Forwards (asides init) r'.errors := by
  induction budget generalizing r ts with
  | zero => cases hall
  | succ budget ih =>
    rw [Reader.readAll] at hall
    obtain ⟨⟨t, r₁⟩, hread, hall⟩ := Halt.bind_eq_ok hall
    dsimp only at hall
    split at hall
    next hend =>
      cases hall
      have hforwards := (forwards_of_frames_nil (h.readToken_end hread hend).1).of_readToken h hread
      rw [asides_end hend] at hforwards
      exact ⟨[], t, rfl, hforwards⟩
    next =>
      obtain ⟨⟨us, r₂⟩, hrest, hall⟩ := Halt.bind_eq_ok hall
      cases hall
      obtain ⟨init, last, rfl, hforwards⟩ := ih (h.of_readToken hread) hrest
      refine ⟨t :: init, last, rfl, ?_⟩
      rw [asides_cons]
      exact hforwards.of_readToken h hread

end Reader

end CppDecl
