import CppDecl.Proofs.Reader

/-!
# What reading does not depend on

Faults and requests for other files come up while a reader works, and they are collected from time
to time.  What is read does not depend on them.  Nor does it depend on the way in which `>` is to be
read, where the text goes on with anything else.

A *variation* of a reader differs in these respects only.  It takes the same steps, as long as the
way to read `>` does not matter (`Reader.Sound.step_vary`).  Readers that are *alike* differ in what
was not collected yet, and they read the same tokens.
-/

namespace CppDecl

/-- Another way to read `>`, and faults and requests that came up before. -/
structure Variation where
  /-- Whether a `>` is always a token of its own. -/
  angles : Bool → Bool
  /-- Faults that came up before those of the reader. -/
  errors : List LexError
  /-- Requests that came up before those of the reader. -/
  inclusions : List String

namespace Reader

/-- The reader with a variation. -/
def vary (v : Variation) (r : Reader) : Reader :=
  { r with
    closeAnglesOnly := v.angles r.closeAnglesOnly
    errors := v.errors ++ r.errors
    inclusions := v.inclusions ++ r.inclusions }

variable {r r' : Reader} {v : Variation}

@[simp] theorem vary_frames : (r.vary v).frames = r.frames := rfl

@[simp] theorem vary_visited : (r.vary v).visited = r.visited := rfl

@[simp] theorem vary_args : (r.vary v).args = r.args := rfl

@[simp] theorem vary_locOf (f : Frame) : (r.vary v).locOf f = r.locOf f := rfl

@[simp] theorem vary_activeMacro? (name : String) :
    (r.vary v).activeMacro? name = r.activeMacro? name := rfl

theorem Sound.vary (h : r.Sound) (v : Variation) : (r.vary v).Sound := h.congr rfl rfl rfl

/-! ## Reading -/

theorem leave_vary (below : List Frame) :
    (r.vary v).leave below =
      (r.leave below).vary v := by
  cases below <;> rfl

theorem register_vary (f : Frame) (base : Nat) (d : Definition) :
    (r.vary v).register f base d =
      (r.register f base d).map (vary v) := by
  unfold register
  simp only [bind, Except.bind, pure, Except.pure]
  cases Halt.require (Text.ofBytes? d.name) with
  | error e => rfl
  | ok name =>
    cases Halt.require ((d.params?.getD []).mapM Text.ofBytes?) with
    | error e => rfl
    | ok params =>
      simp only [show (r.vary v).fileOf? f = r.fileOf? f from rfl]
      split
      · rfl
      · cases Halt.require (Text.ofBytes? (Definition.joinLines d.body)) <;> rfl

theorem perform_vary (f : Frame) (text : String) (bs : Bytes) (effect : Effect) :
    (r.vary v).perform f text bs effect =
      (r.perform f text bs effect).map (vary v) := by
  cases effect with
  | nothing => rfl
  | inclusion =>
    simp only [perform, Except.map, vary, List.append_assoc]
  | undefine offset =>
    simp only [perform, bind, Except.bind, pure, Except.pure,
      show (r.vary v).registerDefines = r.registerDefines from rfl]
    split
    · cases Halt.require (Text.ofBytes? (bs.drop offset)) with
      | error e => rfl
      | ok rest =>
        simp only
        cases Text.firstWord? rest <;> rfl
    · rfl
  | define offset =>
    simp only [perform,
      show (r.vary v).registerDefines = r.registerDefines from rfl]
    split
    · cases Definition.parse? (bs.drop offset) with
      | none => rfl
      | some d => exact register_vary f _ d
    · rfl

/-- A result of reading, for a variation. -/
def mapVary {α : Type} (v : Variation) :
    Except Halt (α × Reader) → Except Halt (α × Reader) :=
  Except.map fun p => (p.1, p.2.vary v)

theorem mapVary_bind {α β : Type} (x : Except Halt α) (f : α → Except Halt (β × Reader)) :
    mapVary v (x >>= f) = x >>= fun a => mapVary v (f a) := by
  cases x <;> rfl

theorem expand_vary (body : Nat) (name : String) (loc : LinearLoc) (parent : Frame)
    (callSite : Nat) :
    (r.vary v).expand body name loc parent callSite =
      mapVary v (r.expand body name loc parent callSite) := by
  unfold expand
  simp only [mapVary_bind, vary_visited, vary_args]
  congr 1
  funext definition
  split
  · simp only [mapVary_bind]
    rfl
  · simp only [mapVary_bind]
    rfl

theorem readName_vary (top : Frame) (below : List Frame) (start : Nat) (loc : LinearLoc)
    (name : String) :
    (r.vary v).readName top below start loc name =
      mapVary v (r.readName top below start loc name) := by
  unfold readName
  simp only [vary_activeMacro?]
  split
  · rfl
  next body _ =>
    simp only [mapVary_bind, vary_visited]
    congr 1
    funext definition
    split
    · split
      · split <;> rfl
      · split
        · rfl
        · simp only [mapVary, Except.map, pure, Except.pure, vary, List.append_assoc]
          rfl
      next arguments stop _ =>
        simp only [mapVary_bind]
        congr 1
        funext args
        exact expand_vary (r := { r with args, frames := top.advance stop :: below })
          body name loc top (start - top.start)
    · exact expand_vary (r := { r with args := [] }) body name loc top (start - top.start)

theorem behind_vary (scan : Scan) (top : Frame) (below : List Frame) :
    (r.vary v).behind scan top below = (r.behind scan top below).vary v := by
  simp only [behind, vary, List.append_assoc]
  rfl

theorem deal_vary (scan : Scan) (top : Frame) (below : List Frame) :
    (r.vary v).deal scan top below = mapVary v (r.deal scan top below) := by
  unfold Reader.deal
  rw [behind_vary]
  cases scan.kind? with
  | none => rfl
  | some kind =>
    simp only [mapVary_bind, perform_vary, vary_locOf]
    congr 1
    funext text
    cases (r.behind scan top below).perform top text (top.rest.take scan.len) scan.effect with
    | error e => rfl
    | ok r' =>
      simp only [Except.map, bind, Except.bind]
      split
      · rw [readName_vary]
        cases r'.readName (top.advance scan.len) below top.pos (r.locOf top) text <;> rfl
      · rfl

/-- A variation takes the same steps, if the next lexeme is the same for it. -/
theorem Sound.step_vary (h : r.Sound)
    (hscan : ∀ top below b bs, r.frames = top :: below → top.rest = b :: bs →
      Lexeme.scanFrom (v.angles r.closeAnglesOnly) r.lineStart 0 b bs =
        Lexeme.scanFrom r.closeAnglesOnly r.lineStart 0 b bs) :
    (r.vary v).step = mapVary v r.step := by
  cases hframes : r.frames with
  | nil =>
    unfold Reader.step
    rw [vary_frames, hframes]
    rfl
  | cons top below =>
    obtain ⟨w, -, hreads⟩ := h.window hframes
    cases hrest : top.rest with
    | nil =>
      unfold Reader.step
      rw [vary_frames, hframes]
      simp only
      rw [hrest]
      simp only
      rw [if_pos hreads.missing_eq, if_pos hreads.missing_eq, leave_vary]
      rfl
    | cons b bs =>
      rw [step_eq_deal hframes hrest hreads.missing_eq rfl,
        step_eq_deal (r := r.vary v) hframes hrest hreads.missing_eq
          (hscan top below b bs hframes hrest)]
      exact deal_vary _ _ _

/-! ## Readers that are alike -/

/-- The reader once all that has come up is collected. -/
def collected (r : Reader) : Reader := { r with errors := [], inclusions := [] }

/-- Two readers differ at most in what has come up and was not collected. -/
def Alike (r q : Reader) : Prop := r.collected = q.collected

theorem Alike.refl (r : Reader) : r.Alike r := rfl

theorem Alike.trans {q p : Reader} (h₁ : r.Alike q) (h₂ : q.Alike p) : r.Alike p :=
  Eq.trans h₁ h₂

theorem Alike.symm {q : Reader} (h : r.Alike q) : q.Alike r := Eq.symm h

/-- What was not collected yet, as a variation. -/
def reports (r : Reader) : Variation := ⟨id, r.errors, r.inclusions⟩

theorem collected_vary (r : Reader) : r.collected.vary r.reports = r := by
  simp [vary, collected, reports]

theorem Sound.collected (h : r.Sound) : r.collected.Sound := h.congr rfl rfl rfl

theorem Alike.sound {q : Reader} (h : r.Alike q) (hsound : r.Sound) : q.Sound := by
  rw [← collected_vary q, ← show r.collected = q.collected from h]
  exact hsound.collected.vary _

/-- What was not collected does not matter for what is read. -/
theorem Sound.readToken_reports (h : r.Sound) (errors : List LexError) (inclusions : List String) :
    (r.vary ⟨id, errors, inclusions⟩).readToken =
      mapVary ⟨id, errors, inclusions⟩ r.readToken := by
  induction hunread : r.unread using Nat.strongRecOn generalizing r with
  | ind n ih =>
    obtain ⟨t?, r₁, hstep, hsound, -⟩ := h.step
    have hvary : (r.vary ⟨id, errors, inclusions⟩).step = mapVary ⟨id, errors, inclusions⟩ r.step :=
      h.step_vary fun _ _ _ _ _ _ => rfl
    rw [readToken_eq, readToken_eq r, hvary, hstep]
    cases t? with
    | some t => rfl
    | none =>
      have hlt := unread_lt_of_step hstep
      exact ih r₁.unread (by omega) hsound rfl

/-- What a reader reads is what it reads once everything is collected. -/
theorem Sound.readToken_collected (h : r.Sound) {t : Token} (hread : r.readToken = .ok (t, r')) :
    ∃ q, r.collected.readToken = .ok (t, q) ∧ r'.Alike q := by
  rw [← collected_vary r, reports, h.collected.readToken_reports] at hread
  obtain ⟨t', q, hq, -⟩ := h.collected.readToken
  rw [hq] at hread
  cases hread
  exact ⟨q, hq, rfl⟩

/-- Readers that are alike read the same. -/
theorem Alike.readToken {q : Reader} (h : r.Alike q) (hsound : r.Sound) {t : Token}
    (hread : r.readToken = .ok (t, r')) : ∃ q', q.readToken = .ok (t, q') ∧ r'.Alike q' := by
  obtain ⟨r₁, hr₁, halike⟩ := hsound.readToken_collected hread
  obtain ⟨t', q', hq', -⟩ := (h.sound hsound).readToken
  obtain ⟨q₁, hq₁, halike'⟩ := (h.sound hsound).readToken_collected hq'
  rw [show r.collected = q.collected from h, hq₁] at hr₁
  cases hr₁
  exact ⟨q', hq', halike.trans halike'.symm⟩

end Reader

end CppDecl
