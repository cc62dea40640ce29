import CppDecl.Proofs.Angles
import CppDecl.Proofs.Sequence

/-!
# Drawing tokens from a reader

A session draws tokens from its reader while the grammar changes the way in which `>` is read.
`Reader.Draws` is a run of this kind.  The tokens that are drawn are no asides, and what is
counted is all that was taken before the end of the file.

If there is a bound for the tokens of the reader, the count comes off the bound.  And once the end of
the file was drawn, nothing else comes.
-/

namespace CppDecl

/-! ## Tokens before the end of the file -/

/-- How many tokens are not the end of the file. -/
def live (ts : List Token) : Nat := ts.countP fun t => t.kind != .endOfFile

@[simp] theorem live_nil : live [] = 0 := rfl

@[simp] theorem live_append (ts us : List Token) : live (ts ++ us) = live ts + live us :=
  List.countP_append

theorem live_cons (t : Token) (ts : List Token) : live (t :: ts) = live [t] + live ts :=
  live_append [t] ts

theorem live_singleton_le (t : Token) : live [t] ≤ 1 := List.countP_le_length

/-- Behind the end of the file there is nothing else. -/
def Trailing (ts : List Token) : Prop :=
  ts.Pairwise fun t u => t.kind = .endOfFile → u.kind = .endOfFile

namespace Reader

variable {r r' r'' q : Reader} {a : Bool} {n m w : Nat} {t : Token} {ts us : List Token}

/-! ## Readers that differ in little -/

/-- Two readers differ at most in what was not collected and in the way to read `>`. -/
def Kin (r q : Reader) : Prop := (r.withAngles false).Alike (q.withAngles false)

theorem Kin.refl (r : Reader) : r.Kin r := Alike.refl _

theorem Kin.symm (h : r.Kin q) : q.Kin r := Alike.symm h

theorem Kin.withAngles (h : r.Kin q) (a : Bool) : (r.withAngles a).Alike (q.withAngles a) :=
  congrArg (Reader.withAngles a) (h : _ = _)

theorem Alike.kin (h : r.Alike q) : r.Kin q := congrArg (Reader.withAngles false) (h : _ = _)

theorem Alike.gives (h : r.Alike q) (hsound : r.Sound) (hgives : r.Gives n t r') :
    ∃ q', q.Gives n t q' ∧ r'.Alike q' := by
  induction hgives generalizing q with
  | ended hread hend =>
    obtain ⟨q', hq, hlike⟩ := h.readToken hsound hread
    exact ⟨q', .ended hq hend, hlike⟩
  | plain hread hmore hplain =>
    obtain ⟨q', hq, hlike⟩ := h.readToken hsound hread
    exact ⟨q', .plain hq hmore hplain, hlike⟩
  | aside hread haside _ ih =>
    obtain ⟨q₁, hq, hlike⟩ := h.readToken hsound hread
    obtain ⟨q', hrest, hlast⟩ := ih hlike (hsound.of_readToken hread)
    exact ⟨q', .aside hq haside hrest, hlast⟩

theorem Kin.sound (h : r.Kin q) (hsound : r.Sound) : q.Sound :=
  ((h.withAngles false).sound (hsound.withAngles false)).congr rfl rfl rfl

theorem Kin.frames (h : r.Kin q) : r.frames = q.frames := by
  have hframes := congrArg Reader.frames
    (show (r.withAngles false).collected = (q.withAngles false).collected from h)
  exact hframes

theorem Kin.within (h : r.Kin q) (hsound : r.Sound) (hwithin : Within n r) : Within n q := by
  induction n generalizing r q with
  | zero =>
    intro a t q' hread
    obtain ⟨r', hr, -⟩ :=
      (h.symm.withAngles a).readToken ((h.sound hsound).withAngles a) hread
    exact hwithin a t r' hr
  | succ n ih =>
    intro a t q' hread
    obtain ⟨r', hr, hlike⟩ :=
      (h.symm.withAngles a).readToken ((h.sound hsound).withAngles a) hread
    rcases hwithin a t r' hr with hend | hrest
    · exact .inl hend
    · exact .inr (ih hlike.symm.kin ((hsound.withAngles a).of_readToken hr) hrest)

/-! ## Runs -/

/-- Tokens that are no asides are drawn one after the other, with any way to read `>` for each.  The
number is that of the tokens taken before the end of the file. -/
inductive Draws : Reader → Nat → List Token → Reader → Prop
  | nil {r r' : Reader} (kin : r.Kin r') : Draws r 0 [] r'
  | cons {r r₁ r' : Reader} {a : Bool} {m n : Nat} {t : Token} {ts : List Token}
      (gives : (r.withAngles a).Gives m t r₁) (rest : Draws r₁ n ts r') :
      Draws r (m + n) (t :: ts) r'

theorem Draws.sound (h : r.Draws n ts r') (hsound : r.Sound) : r'.Sound := by
  induction h with
  | nil hkin => exact hkin.sound hsound
  | cons hgives _ ih => exact ih (hgives.sound (hsound.withAngles _))

theorem Draws.of_kin (h : q.Draws n ts r') (hkin : q.Kin r) (hsound : q.Sound) :
    r.Draws n ts r' := by
  induction h generalizing r with
  | nil hkin' => exact .nil (Alike.trans hkin.symm hkin')
  | cons hgives _ ih =>
    obtain ⟨r₁, hr₁, hlike⟩ := (hkin.withAngles _).gives (hsound.withAngles _) hgives
    exact .cons hr₁ (ih hlike.kin (hgives.sound (hsound.withAngles _)))

theorem Draws.trans (h₁ : r.Draws n ts r') (h₂ : r'.Draws m us r'') (hsound : r.Sound) :
    r.Draws (n + m) (ts ++ us) r'' := by
  induction h₁ with
  | nil hkin =>
    rw [Nat.zero_add]
    exact h₂.of_kin hkin.symm (hkin.sound hsound)
  | cons hgives _ ih =>
    rw [Nat.add_assoc]
    exact .cons hgives (ih h₂ (hgives.sound (hsound.withAngles _)))

/-- The way to read `>` at the start and at the end does not matter. -/
theorem Draws.of_withAngles {b : Bool} (h : (r.withAngles a).Draws n ts r') (hsound : r.Sound) :
    r.Draws n ts (r'.withAngles b) := by
  have hstart : (r.withAngles a).Kin r := .refl r
  have hend : r'.Kin (r'.withAngles b) := .refl r'
  have hdraws := (h.of_kin hstart (hsound.withAngles a)).trans (.nil hend) hsound
  rwa [Nat.add_zero, List.append_nil] at hdraws

/-- What is taken comes off the bound. -/
theorem Gives.within (h : r.Gives m t r') (hsound : r.Sound) (hwithin : Within w r) :
    live [t] ≤ m ∧ m ≤ w ∧ Within (w - m) r' := by
  induction h generalizing w with
  | ended hread hend =>
    have hnil := within_zero_of_frames_nil (hsound.readToken_end hread hend).1
    exact ⟨by simp [live, hend], Nat.zero_le w, hnil.mono (Nat.zero_le w)⟩
  | @plain r r' t hread hmore hplain =>
    cases w with
    | zero => exact absurd (hwithin r.closeAnglesOnly _ _ hread) hmore
    | succ w =>
      rcases hwithin r.closeAnglesOnly _ _ hread with hend | hrest
      · exact absurd hend hmore
      · exact ⟨live_singleton_le _, Nat.succ_le_succ (Nat.zero_le w), hrest⟩
  | @aside r r₁ r' a t n hread haside _ ih =>
    cases w with
    | zero => exact absurd (hwithin r.closeAnglesOnly _ _ hread) (not_end_of_aside haside)
    | succ w =>
      rcases hwithin r.closeAnglesOnly _ _ hread with hend | hrest
      · exact absurd hend (not_end_of_aside haside)
      · obtain ⟨hlive, hle, hlast⟩ := ih (hsound.of_readToken hread) hrest
        exact ⟨by omega, by omega, by rwa [Nat.succ_sub_succ]⟩

theorem Draws.within (h : r.Draws n ts r') (hsound : r.Sound) (hwithin : Within w r) :
    live ts ≤ n ∧ n ≤ w ∧ Within (w - n) r' := by
  induction h generalizing w with
  | nil hkin => exact ⟨Nat.le_refl 0, Nat.zero_le w, hkin.within hsound hwithin⟩
  | @cons r r₁ r' a m n t ts hgives _ ih =>
    obtain ⟨hlive, hle, hrest⟩ :=
      hgives.within (hsound.withAngles a) (within_withAngles.2 hwithin)
    obtain ⟨hlive', hle', hlast⟩ := ih (hgives.sound (hsound.withAngles a)) hrest
    rw [live_cons]
    exact ⟨by omega, by omega, by rwa [Nat.sub_sub] at hlast⟩

/-- A reader with a bound for its tokens gives a token that is no aside. -/
theorem Within.gives (h : Within w r) (hsound : r.Sound) : ∃ n t r', r.Gives n t r' := by
  induction w generalizing r with
  | zero =>
    obtain ⟨t, r', hread, -⟩ := hsound.readToken
    exact ⟨0, t, r', .ended hread (h r.closeAnglesOnly t r' hread)⟩
  | succ w ih =>
    obtain ⟨t, r', hread, hsound'⟩ := hsound.readToken
    by_cases hend : t.kind = .endOfFile
    · exact ⟨0, t, r', .ended hread hend⟩
    by_cases haside : t.kind.isAside = true
    · have hrest := (h r.closeAnglesOnly t r' hread).resolve_left hend
      obtain ⟨n, u, r'', hgives⟩ := ih hrest hsound'
      exact ⟨n + 1, u, r'', .aside hread haside hgives⟩
    · exact ⟨1, t, r', .plain hread hend (Bool.eq_false_iff.2 haside)⟩

/-! ## The end of the file -/

theorem Gives.ended_of_frames_nil (h : r.Gives n t r') (hframes : r.frames = []) :
    t.kind = .endOfFile ∧ r'.frames = [] := by
  have hread := readToken_of_frames_nil hframes
  cases h with
  | ended hread' _ | plain hread' _ _ =>
    rw [hread] at hread'
    cases hread'
    exact ⟨rfl, hframes⟩
  | aside hread' haside _ =>
    rw [hread] at hread'
    cases hread'
    cases haside

theorem Gives.frames_nil_of_end (h : r.Gives n t r') (hsound : r.Sound) (hend : t.kind = .endOfFile) :
    r'.frames = [] := by
  induction h with
  | ended hread _ => exact (hsound.readToken_end hread hend).1
  | plain _ hmore _ => exact absurd hend hmore
  | aside hread _ _ ih => exact ih (hsound.of_readToken hread) hend

/-- From a reader that is at its end only the end of the file is drawn. -/
theorem Draws.ended_of_frames_nil (h : r.Draws n ts r') (hframes : r.frames = []) :
    r'.frames = [] ∧ ∀ t ∈ ts, t.kind = .endOfFile := by
  induction h with
  | nil hkin => exact ⟨hkin.frames.symm.trans hframes, List.forall_mem_nil _⟩
  | cons hgives _ ih =>
    obtain ⟨hend, hnil⟩ := hgives.ended_of_frames_nil hframes
    obtain ⟨hlast, hall⟩ := ih hnil
    refine ⟨hlast, ?_⟩
    intro u hu
    rcases List.mem_cons.1 hu with rfl | hu
    · exact hend
    · exact hall u hu

/-- Once the end of the file is drawn, nothing else comes. -/
theorem Draws.trailing (h : r.Draws n ts r') (hsound : r.Sound) :
    Trailing ts ∧ ∀ t ∈ ts, t.kind = .endOfFile → r'.frames = [] := by
  induction h with
  | nil _ => exact ⟨.nil, List.forall_mem_nil _⟩
  | @cons r r₁ r' a m n t ts hgives hrest ih =>
    have hsound₁ := hgives.sound (hsound.withAngles a)
    obtain ⟨htrailing, hended⟩ := ih hsound₁
    have hnil : t.kind = .endOfFile → r'.frames = [] ∧ ∀ u ∈ ts, u.kind = .endOfFile := by
      intro hend
      exact hrest.ended_of_frames_nil (hgives.frames_nil_of_end (hsound.withAngles a) hend)
    refine ⟨.cons (fun u hu hend => (hnil hend).2 u hu) htrailing, ?_⟩
    intro u hu hend
    rcases List.mem_cons.1 hu with rfl | hu
    · exact (hnil hend).1
    · exact hended u hu hend

end Reader

end CppDecl
