import CppDecl.Proofs.Order
import CppDecl.Proofs.Shift.Tree

/-!
# Readers at another place

A reader is shifted with all the places it knows: where its frames end, the entries of its map, and
the faults it has noted.  What it does next does not depend on its place, so a step of the shifted
reader is the shifted step (`Reader.step_shift`), and so is a token that is read
(`Reader.readToken_shift`).

There is one thing to watch.  A fault that concerns no pair of places has a negative second place,
and that one is not shifted.  So the places of pairs must not be negative, which holds as long as
`Reader.nextLoc` is not.
-/

namespace CppDecl

/-- What was visited, with all places further along. -/
def Visited.shift (k : LinearLoc) (v : Visited) : Visited :=
  { v with entries := v.entries.map fun entry => { entry with loc := entry.loc + k } }

/-- The reader at a place that is further along. -/
def Reader.shift (k : LinearLoc) (r : Reader) : Reader :=
  { r with
    visited := r.visited.shift k
    endLoc := r.endLoc + k
    args := r.args.map (Token.shift k)
    errors := r.errors.map (LexError.shift k) }

variable {k : LinearLoc}

/-! ## Faults -/

theorem Fault.locate_shift {loc : LinearLoc} (h : 0 ≤ loc) (f : Fault) :
    f.locate (loc + k) = (f.locate loc).shift k := by
  have hsum : ∀ n : Nat, loc + k + n = loc + n + k := fun n => add_right_comm loc k n
  rw [locate, locate, LexError.shift]
  cases f.other? with
  | none => simp [hsum]
  | some n =>
    have hnonneg : ¬ loc + n < 0 := Int.not_lt.2 (Int.add_nonneg h (Int.natCast_nonneg n))
    simp [hsum, hnonneg]

/-! ## Results -/

namespace Halt

variable {α α' β β' : Type} {e : Except Halt α} {f : α → Except Halt β} {n : β → β'}

/-- What comes first gives the same, and the rest gives it changed. -/
theorem bind_map_right {f' : α → Except Halt β'} (h : ∀ a, f' a = (f a).map n) :
    (e >>= f') = (e >>= f).map n := by
  cases e with
  | error e => rfl
  | ok a => exact h a

/-- What comes first gives something changed, and so does the rest. -/
theorem bind_map {m : α → α'} {f' : α' → Except Halt β'}
    (h : ∀ a, e = .ok a → f' (m a) = (f a).map n) : (e.map m >>= f') = (e >>= f).map n := by
  cases e with
  | error e => rfl
  | ok a => exact h a rfl

theorem ite_map {c : Prop} [Decidable c] {e₁ e₂ : Except Halt β} {e₁' e₂' : Except Halt β'}
    (h₁ : c → e₁' = e₁.map n) (h₂ : ¬ c → e₂' = e₂.map n) :
    (if c then e₁' else e₂') = (if c then e₁ else e₂).map n := by
  split
  next h => exact h₁ h
  next h => exact h₂ h

/-- All of a list give something changed. -/
theorem mapM_map {g' : α → Except Halt β'} {g : α → Except Halt β} (h : ∀ a, g' a = (g a).map n)
    (l : List α) : l.mapM g' = (l.mapM g).map (List.map n) := by
  induction l with
  | nil => rfl
  | cons a l ih =>
    rw [List.mapM_cons, List.mapM_cons, h, ih]
    exact bind_map fun b _ => bind_map fun bs _ => rfl

end Halt

namespace Reader

variable {r r' : Reader} {top : Frame} {below : List Frame} {t : Token}

/-! ## Frames -/

theorem locOf_shift (r : Reader) (f : Frame) : (r.shift k).locOf f = r.locOf f + k :=
  add_sub_right_comm r.endLoc k f.remaining

theorem enter_shift (r : Reader) (f : Frame) (loc : LinearLoc) :
    (r.shift k).enter f (loc + k) = (r.enter f loc).shift k := by
  have hend : loc + k + f.remaining = loc + f.remaining + k := add_right_comm loc k f.remaining
  rw [enter, enter, hend]
  rfl

theorem leave_shift (r : Reader) (below : List Frame) :
    (r.shift k).leave below = (r.leave below).shift k := by
  cases below with
  | nil => rfl
  | cons parent below =>
    have hend : r.endLoc + k + parent.remaining = r.endLoc + parent.remaining + k :=
      add_right_comm r.endLoc k parent.remaining
    show { r.shift k with
      visited := (r.shift k).visited.addEntry
        ⟨r.endLoc + k, parent.visit, (parent.pos - parent.start) % offsetRange⟩
      frames := parent :: below
      endLoc := r.endLoc + k + parent.remaining } = _
    rw [hend]
    rfl

/-! ## Directives and macros -/

theorem register_shift (r : Reader) (f : Frame) (base : Nat) (d : Definition) :
    (r.shift k).register f base d = (r.register f base d).map (Reader.shift k) := by
  refine Halt.bind_map_right fun name => Halt.bind_map_right fun params => ?_
  extract_lets rest rest'
  have hrest : ∀ text, rest text = (rest' text).map (shift k) := fun _ => rfl
  rw [show (r.shift k).fileOf? f = r.fileOf? f from rfl]
  rcases r.fileOf? f with _ | file
  · exact Halt.bind_map_right fun _ => hrest _
  · cases d.body.contains Byte.backslash with
    | false => exact hrest _
    | true => exact Halt.bind_map_right fun _ => hrest _

theorem perform_shift (r : Reader) (f : Frame) (text : String) (bs : Bytes) (effect : Effect) :
    (r.shift k).perform f text bs effect = (r.perform f text bs effect).map (Reader.shift k) := by
  cases effect with
  | nothing | inclusion => rfl
  | undefine offset =>
    refine Halt.ite_map (fun _ => Halt.bind_map_right fun rest => ?_) fun _ => rfl
    cases Text.firstWord? rest <;> rfl
  | define offset =>
    refine Halt.ite_map (fun _ => ?_) fun _ => rfl
    cases Definition.parse? (bs.drop offset) with
    | none => rfl
    | some d => exact register_shift r f _ d

theorem expand_shift (r : Reader) (body : Nat) (name : String) (loc : LinearLoc) (parent : Frame)
    (callSite : Nat) : (r.shift k).expand body name (loc + k) parent callSite =
      (r.expand body name loc parent callSite).map (Prod.map (Token.shift k) (Reader.shift k)) := by
  have hargs : (r.shift k).args.map Token.text = r.args.map Token.text := by
    simp [shift, Function.comp_def]
  refine Halt.bind_map_right fun definition => ?_
  rw [hargs]
  extract_lets rest rest'
  have hrest : ∀ filled, rest filled =
      (rest' filled).map (Prod.map (Token.shift k) (Reader.shift k)) := by
    refine fun filled => Halt.bind_map_right fun w => congrArg Except.ok (Prod.ext rfl ?_)
    exact enter_shift
      { r with visited := (r.visited.addVisit (.expansion body parent.visit
        (callSite % offsetRange) filled)).2 }
      (Frame.ofWindow r.visited.visits.size (some body) w) loc
  refine Halt.ite_map (fun _ => hrest none) fun _ => ?_
  exact Halt.bind_map_right fun text => Halt.bind_map_right fun filled => hrest (some filled)

/-! ## Steps -/

/-- New faults are shifted with the ones noted before. -/
theorem errors_shift (r : Reader) (frames : List Frame) (lineStart : Bool) (new : List LexError) :
    ({ r.shift k with
      frames, lineStart, errors := (r.shift k).errors ++ new.map (LexError.shift k) } : Reader) =
    ({ r with frames, lineStart, errors := r.errors ++ new } : Reader).shift k := by
  simp [shift]

theorem readName_shift (r : Reader) (hloc : 0 ≤ r.locOf top) (start : Nat) (loc : LinearLoc)
    (name : String) : (r.shift k).readName top below start (loc + k) name =
      (r.readName top below start loc name).map (Prod.map (Token.shift k) (Reader.shift k)) := by
  unfold readName
  rw [show (r.shift k).activeMacro? name = r.activeMacro? name from rfl]
  cases r.activeMacro? name with
  | none => rfl
  | some body =>
    refine Halt.bind_map_right fun definition => ?_
    extract_lets r₁ base₁ r₂ base₂
    have hr : r₁ = r₂.shift k := rfl
    have hbase : base₁ = base₂ + k := locOf_shift r₂ top
    refine Halt.ite_map (fun _ => ?_) fun _ => hr ▸ expand_shift r₂ body name loc top _
    rw [hbase]
    cases Arguments.read top.missing top.rest with
    | missing looked => exact Halt.ite_map (fun _ => rfl) fun _ => rfl
    | unfinished fault looked =>
      refine Halt.ite_map (fun _ => rfl) fun _ => congrArg Except.ok (Prod.ext rfl ?_)
      rw [Fault.locate_shift (show 0 ≤ base₂ from hloc)]
      exact errors_shift r₂ (top.finish :: below) r₂.lineStart [fault.locate base₂]
    | found arguments stop =>
      have hargs : ∀ a : Nat × Bytes, (do
          let text ← Halt.require (Text.ofBytes? a.2)
          return (⟨base₂ + k + (a.1 : Nat), .macroArgument, text⟩ : Token)) = (do
          let text ← Halt.require (Text.ofBytes? a.2)
          return (⟨base₂ + (a.1 : Nat), .macroArgument, text⟩ : Token)).map (Token.shift k) := by
        refine fun a => Halt.bind_map_right fun text => congrArg Except.ok ?_
        rw [Token.shift_mk (by decide), add_right_comm]
      dsimp only
      rw [Halt.mapM_map hargs]
      refine Halt.bind_map fun args _ => ?_
      exact expand_shift { r₂ with args, frames := top.advance stop :: below } body name loc top _

theorem remaining_advance_le (f : Frame) (n : Nat) : (f.advance n).remaining ≤ f.remaining :=
  Nat.sub_le_sub_left (Nat.le_add_right f.pos n) f.stop

theorem behind_shift (r : Reader) (hloc : 0 ≤ r.locOf top) (scan : Scan) :
    (r.shift k).behind scan top below = (r.behind scan top below).shift k := by
  have hfaults : scan.faults.map (Fault.locate (r.locOf top + k)) =
      (scan.faults.map (Fault.locate (r.locOf top))).map (LexError.shift k) := by
    rw [List.map_map]
    exact List.map_congr_left fun f _ => Fault.locate_shift hloc f
  rw [behind, locOf_shift, hfaults]
  exact errors_shift r _ _ _

theorem deal_shift (r : Reader) (hloc : 0 ≤ r.locOf top) {scan : Scan} (hfits : scan.Fits top.rest)
    (hpresent : scan.kind? ≠ some .invalid) :
    (r.shift k).deal scan top below =
      (r.deal scan top below).map (Prod.map (Option.map (Token.shift k)) (Reader.shift k)) := by
  rw [deal, deal, behind_shift r hloc, locOf_shift]
  cases hkind : scan.kind? with
  | none => rfl
  | some kind =>
    refine Halt.bind_map_right fun text => ?_
    rw [perform_shift]
    refine Halt.bind_map fun r' hperform => Halt.ite_map (fun hname => ?_) fun _ => ?_
    · -- a name does nothing by itself, so the next byte stands behind it
      rw [hfits.passive (by rw [hkind, hname]; decide)] at hperform
      cases hperform
      have hloc' : 0 ≤ (r.behind scan top below).locOf (top.advance scan.len) :=
        hloc.trans (Int.sub_le_sub_left (Int.ofNat_le.2 (remaining_advance_le top scan.len)) _)
      rw [readName_shift _ hloc']
      exact Halt.bind_map fun _ _ => rfl
    · have hne : kind ≠ .invalid := fun heq => hpresent (by rw [hkind, heq])
      refine congrArg Except.ok (Prod.ext (congrArg some ?_) rfl)
      exact (Token.shift_mk hne _ _).symm

/-- What a reader in order does next does not depend on its place. -/
theorem step_shift (h : r.Sound) (hnext : 0 ≤ r.nextLoc) :
    (r.shift k).step =
      r.step.map (Prod.map (Option.map (Token.shift k)) (Reader.shift k)) := by
  cases hframes : r.frames with
  | nil =>
    rw [step_of_frames_nil hframes, step_of_frames_nil (show (r.shift k).frames = [] from hframes)]
    rfl
  | cons top below =>
    obtain ⟨w, -, hreads⟩ := h.window hframes
    rw [nextLoc_of_frames hframes] at hnext
    cases hrest : top.rest with
    | nil =>
      rw [step_of_rest_nil hframes hrest hreads.missing_eq,
        step_of_rest_nil (r := r.shift k) hframes hrest hreads.missing_eq, leave_shift]
      rfl
    | cons b bs =>
      have hfits := Lexeme.fits_scanFrom r.closeAnglesOnly r.lineStart b bs
      rw [step_eq_deal hframes hrest hreads.missing_eq rfl,
        step_eq_deal (r := r.shift k) hframes hrest hreads.missing_eq rfl]
      exact deal_shift r hnext (by rw [hrest]; exact hfits) (Lexeme.kind_ne_invalid _ _ _ _ _)

/-- The next token of a reader in order does not depend on its place. -/
theorem readToken_shift (h : r.Sound) (horder : r.Ordered) : (r.shift k).readToken =
    r.readToken.map (Prod.map (Token.shift k) (Reader.shift k)) := by
  induction hunread : r.unread using Nat.strongRecOn generalizing r with
  | ind n ih =>
    obtain ⟨t?, r₁, hstep, hsound, hmove⟩ := h.step
    rw [readToken_eq, readToken_eq r, step_shift h horder.nonneg, hstep]
    cases t? with
    | some t => rfl
    | none =>
      have hlt := unread_lt_of_step hstep
      exact ih r₁.unread (by omega) hsound (hmove.ordered h horder) rfl

/-- A token that is read is there. -/
theorem isPresent_of_step (h : r.Sound) (hstep : r.step = .ok (some t, r')) :
    t.isPresent = true := by
  cases h.stepped hstep with
  | ended => rfl
  | lexeme _ _ hdealt =>
    cases hdealt with
    | name _ _ hread => rcases hread.token_eq with rfl | rfl <;> rfl
    | token hkind _ _ =>
      exact Token.isPresent_of_kind rfl fun hinvalid =>
        Lexeme.kind_ne_invalid _ _ _ _ _ (hkind.trans (congrArg some hinvalid))

theorem isPresent_of_readToken (h : r.Sound) (horder : r.Ordered)
    (hread : r.readToken = .ok (t, r')) : t.isPresent = true := by
  obtain ⟨before, hskips, hstep⟩ := readToken_eq_ok_iff.1 hread
  exact isPresent_of_step (horder.skips h hskips).1 hstep

end Reader

end CppDecl
