import CppDecl.Proofs.Ending
import CppDecl.Proofs.Variation

/-!
# Reading `>` now this way, now that way

Between the angle brackets of a template a `>` is always a token of its own, elsewhere it may be
part of a longer one.  The grammar changes the way it is read while tokens are read.  So the tokens
of a source are not fixed before it is parsed.

What is fixed is where a run of `>` and `=` ends.  Such a run is cut into one to as many tokens as it
has bytes, and behind it the reader is in the same state, however it was cut.  Everything else is
read in only one way.  Therefore, if reading a source ends, then it ends however `>` is read, and
there is a bound for the number of tokens (`Reader.Sound.within_of_ends`).
-/

namespace CppDecl

namespace Reader

open Lexeme (isAngleByte)

variable {r r' : Reader} {top : Frame} {below : List Frame} {a : Bool} {n m : Nat}

/-- The reader with a way to read `>`. -/
def withAngles (a : Bool) (r : Reader) : Reader := { r with closeAnglesOnly := a }

theorem Sound.withAngles (h : r.Sound) (a : Bool) : (r.withAngles a).Sound := h.congr rfl rfl rfl

/-- There are at most so many tokens before the end of the file, however `>` is read. -/
def Within : Nat → Reader → Prop
  | 0, r => ∀ a t r', (r.withAngles a).readToken = .ok (t, r') → t.kind = .endOfFile
  | n + 1, r => ∀ a t r', (r.withAngles a).readToken = .ok (t, r') →
      t.kind = .endOfFile ∨ Within n r'

theorem within_withAngles : Within n (r.withAngles a) ↔ Within n r := by
  cases n <;> rfl

theorem Within.succ (h : Within n r) : Within (n + 1) r := by
  induction n generalizing r with
  | zero => exact fun a t r' hread => .inl (h a t r' hread)
  | succ n ih =>
    intro a t r' hread
    rcases h a t r' hread with hend | hrest
    · exact .inl hend
    · exact .inr (ih hrest)

theorem Within.mono (h : Within n r) (hle : n ≤ m) : Within m r := by
  induction hle with
  | refl => exact h
  | step _ ih => exact ih.succ

/-- A step that gives no token, however `>` is read, leaves as many tokens. -/
theorem Within.of_step_none (hstep : ∀ a, (r.withAngles a).step = .ok (none, r'.withAngles a))
    (h : Within n r') : Within n r := by
  have hread : ∀ a, (r.withAngles a).readToken = (r'.withAngles a).readToken := by
    intro a
    rw [readToken_eq, hstep a]
  cases n with
  | zero =>
    intro a t r'' hr
    exact h a t r'' (by rw [← hread a, hr])
  | succ n =>
    intro a t r'' hr
    exact h a t r'' (by rw [← hread a, hr])

/-- A step that gives a token leaves one less. -/
theorem Within.of_step_some
    (hstep : ∀ a, ∃ t q, (r.withAngles a).step = .ok (some t, q) ∧ Within n q) :
    Within (n + 1) r := by
  intro a t r' hread
  obtain ⟨t', q, hq, hwithin⟩ := hstep a
  rw [readToken_eq, hq] at hread
  cases hread
  exact .inr hwithin

theorem within_zero_of_frames_nil (h : r.frames = []) : Within 0 r := by
  intro a t r' hread
  rw [readToken_of_frames_nil (r := r.withAngles a) h] at hread
  cases hread
  rfl

/-! ## Runs of `>` and `=` -/

/-- The reader behind some bytes of a run. -/
def passed (r : Reader) (top : Frame) (below : List Frame) (n : Nat) : Reader :=
  { r with frames := top.advance n :: below, lineStart := false }

/-- How long the run at the front of a frame is. -/
def runLength (top : Frame) : Nat := (top.rest.takeWhile isAngleByte).length

theorem runLength_advance (hle : n ≤ top.rest.length)
    (hall : (top.rest.take n).all isAngleByte = true) :
    runLength top = n + runLength (top.advance n) := by
  have hsplit : top.rest.takeWhile isAngleByte =
      top.rest.take n ++ (top.rest.drop n).takeWhile isAngleByte := by
    rw [← List.takeWhile_append_of_pos (List.all_eq_true.1 hall), List.take_append_drop]
  rw [runLength, hsplit, List.length_append, List.length_take, Nat.min_eq_left hle]
  rfl

/-- A step at the front of a run passes some bytes of it and gives a token that is no aside. -/
theorem Sound.step_run (h : r.Sound) (hframes : r.frames = top :: below)
    (hrun : runLength top ≠ 0) (a : Bool) : ∃ t n, t.kind.isAside = false ∧ 0 < n ∧
      runLength top = n + runLength (top.advance n) ∧ (r.passed top below n).Sound ∧
      (r.withAngles a).step = .ok (some t, (r.passed top below n).withAngles a) := by
  obtain ⟨w, -, hreads⟩ := h.window hframes
  cases hrest : top.rest with
  | nil => exact absurd (by rw [runLength, hrest]; rfl) hrun
  | cons b bs =>
    have hb : isAngleByte b = true := by
      by_contra hb
      exact hrun (by rw [runLength, hrest, List.takeWhile_cons_of_neg hb]; rfl)
    obtain ⟨kind, hkind, hname, haside, hfaults, hline, heffect, hall⟩ :=
      Lexeme.scanFrom_angle a r.lineStart bs hb
    have hfits := Lexeme.fits_scanFrom a r.lineStart b bs
    have hdeal := step_eq_deal (r := r.withAngles a) hframes hrest hreads.missing_eq
      (show Lexeme.scanFrom a r.lineStart 0 b bs = _ from rfl)
    generalize Lexeme.scanFrom a r.lineStart 0 b bs = scan at *
    rw [← hrest] at hfits hall
    obtain ⟨htaken, hafter⟩ := hreads.whole.cut hfits.cut
    obtain ⟨text, htext, -⟩ := htaken.ofBytes?
    refine ⟨⟨r.locOf top, kind, text⟩, scan.len, haside, hfits.pos, runLength_advance hfits.le hall,
      h.advance hframes hfits.le hafter rfl rfl rfl, ?_⟩
    have hbehind : (r.withAngles a).behind scan top below =
        (r.passed top below scan.len).withAngles a := by
      simp only [behind, hfaults, hline, List.map_nil, List.append_nil]
      rfl
    rw [hdeal, Reader.deal, hkind, heffect, htext, hbehind]
    simp only [Halt.require_some, bind, Except.bind, perform, if_neg hname]
    rfl

/-- The reader behind the run at the front of what it has to read, if there is one. -/
def behindRun (r : Reader) : Reader :=
  match r.frames with
  | [] => r
  | top :: below => if runLength top = 0 then r else r.passed top below (runLength top)

theorem behindRun_eq (hframes : r.frames = top :: below) : r.behindRun =
    if runLength top = 0 then r else r.passed top below (runLength top) := by
  rw [behindRun, hframes]

/-- Passing some bytes of a run does not change where it ends. -/
theorem Sound.behindRun_passed (h : r.Sound) (hframes : r.frames = top :: below) (hpos : 0 < n)
    (hlength : runLength top = n + runLength (top.advance n)) :
    (r.passed top below n).behindRun = r.behindRun := by
  obtain ⟨w, -, hreads⟩ := h.window hframes
  rw [behindRun_eq hframes, behindRun_eq (r := r.passed top below n) rfl,
    if_neg (show runLength top ≠ 0 by omega), hlength]
  split
  next hzero => rw [hzero, Nat.add_zero]
  next => simp only [passed, Frame.advance_advance _ _ _ hreads.missing_eq]

/-- As many tokens as a run has bytes come before what follows it. -/
theorem Sound.within_of_behindRun (h : r.Sound) (hwithin : Within n r.behindRun) :
    ∃ m, Within m r := by
  cases hframes : r.frames with
  | nil => exact ⟨0, within_zero_of_frames_nil hframes⟩
  | cons top below =>
    refine ⟨n + runLength top, ?_⟩
    induction hlength : runLength top using Nat.strongRecOn generalizing r top with
    | ind k ih =>
      subst hlength
      by_cases hzero : runLength top = 0
      · rw [behindRun_eq hframes, if_pos hzero] at hwithin
        exact hwithin.mono (Nat.le_add_right _ _)
      · obtain ⟨k, hk⟩ : ∃ k, n + runLength top = k + 1 := ⟨n + runLength top - 1, by omega⟩
        rw [hk]
        refine Within.of_step_some ?_
        intro a
        obtain ⟨t, m, -, hpos, hshorter, hsound, hstep⟩ := h.step_run hframes hzero a
        refine ⟨t, _, hstep, within_withAngles.2 ?_⟩
        rw [← h.behindRun_passed hframes hpos hshorter] at hwithin
        have hless := ih (runLength (top.advance m)) (by omega) hsound hwithin _ rfl rfl
        exact hless.mono (by omega)

/-! ## Reading that ends -/

theorem Move.closeAnglesOnly_eq {t? : Option Token} (h : r.Move t? r') :
    r'.closeAnglesOnly = r.closeAnglesOnly := by
  cases h with
  | ended _ => rfl
  | @left top below _ _ => cases below <;> rfl
  | passed hpasses _ => exact hpasses.closeAnglesOnly_eq
  | entered henters _ => exact henters.closeAnglesOnly_eq

/-- Where no run comes next, it does not matter how `>` is read. -/
theorem Sound.step_withAngles (h : r.Sound) {t? : Option Token} (hstep : r.step = .ok (t?, r'))
    (hnone : ∀ top below, r.frames = top :: below → runLength top = 0) (a : Bool) :
    (r.withAngles a).step = .ok (t?, r'.withAngles a) := by
  have hvary := h.step_vary (v := ⟨fun _ => a, [], []⟩) fun top below b bs hframes hrest => by
    refine Lexeme.scanFrom_of_ne _ _ _ bs ?_
    rintro rfl
    have hzero := hnone top below hframes
    rw [runLength, hrest, List.takeWhile_cons_of_pos (by rfl)] at hzero
    cases hzero
  rw [hstep] at hvary
  exact hvary

/-- If reading ends, then it ends however `>` is read. -/
theorem Sound.within_of_ends (h : r.Sound) (hends : Ends r) : ∃ n, Within n r := by
  suffices hbehind : ∃ n, Within n r.behindRun by
    obtain ⟨n, hn⟩ := hbehind
    exact h.within_of_behindRun hn
  -- behind a run, since a run that comes next may be cut in another way than it was
  induction hends with
  | @done r hframes =>
    refine ⟨0, ?_⟩
    rw [behindRun, hframes]
    exact within_zero_of_frames_nil hframes
  | @step r r' t? hstep _ ih =>
    obtain ⟨_, _, heq, hsound, hmove⟩ := h.step
    rw [hstep] at heq
    cases heq
    by_cases hrun : ∃ top below, r.frames = top :: below ∧ runLength top ≠ 0
    · obtain ⟨top, below, hframes, hne⟩ := hrun
      obtain ⟨t, n, -, hpos, hshorter, -, hstep'⟩ := h.step_run hframes hne r.closeAnglesOnly
      rw [show r.withAngles r.closeAnglesOnly = r from rfl, hstep] at hstep'
      cases hstep'
      obtain ⟨m, hm⟩ := ih hsound
      rw [show (r.passed top below n).withAngles r.closeAnglesOnly = r.passed top below n from rfl,
        h.behindRun_passed hframes hpos hshorter] at hm
      exact ⟨m, hm⟩
    · have hnone : ∀ top below, r.frames = top :: below → runLength top = 0 := by
        intro top below hframes
        by_contra hne
        exact hrun ⟨top, below, hframes, hne⟩
      have hself : r.behindRun = r := by
        cases hframes : r.frames with
        | nil => rw [behindRun, hframes]
        | cons top below => rw [behindRun_eq hframes, if_pos (hnone top below hframes)]
      obtain ⟨n, hn⟩ := ih hsound
      obtain ⟨m, hm⟩ := hsound.within_of_behindRun hn
      rw [hself]
      cases t? with
      | none => exact ⟨m, .of_step_none (h.step_withAngles hstep hnone) hm⟩
      | some t =>
        refine ⟨m + 1, .of_step_some ?_⟩
        intro a
        exact ⟨t, _, h.step_withAngles hstep hnone a, within_withAngles.2 hm⟩

end Reader

end CppDecl
