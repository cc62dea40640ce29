import CppDecl.Proofs.Blind
import CppDecl.Proofs.Builds
import CppDecl.Proofs.Shift
import CppDecl.Proofs.Words

/-!
# Words in front of a text

A text begins with some words that are known, with a space behind each of them, and goes on with
whatever there is.  The words are read one by one, and the reader then *stands* in front of the rest
(`Reader.Stands.read`, `Reader.Stands.readBehind`).  Readers that stand in front of the same text at
different places read the same from there on, at places that are as far apart
(`Reader.Stands.moved`, `Parse.Shifts.moved`).
-/

namespace CppDecl

open Byte (isBlank)

/-- The word is read as one token in front of a space, whatever follows. -/
structure Token.Cut (w : Token) : Prop where
  /-- It is taken without faults, and what follows it is not at the start of a line. -/
  taken : ∃ b xs, Text.bytes w.text = b :: xs ∧ isBlank b = false ∧ ∀ lineStart bs, ∃ scan,
    Lexeme.scanFrom false lineStart 0 b (xs ++ Byte.space :: bs) = scan ∧
      scan.Takes w.kind (xs.length + 1) ∧ scan.lineStart = false
  /-- It is shown to the grammar. -/
  plain : w.kind.isAside = false
  /-- It is not the end of the file. -/
  more : w.kind ≠ .endOfFile

/-! ## Readers in a text -/

namespace Reader

variable {r q : Reader} {base : Nat} {lineStart : Bool} {bs : Bytes} {w : Token}

/-- A reader is in a text, in which nothing was defined, and nothing has come up. -/
structure Clean (r : Reader) (base : Nat) (lineStart : Bool) (bs : Bytes) : Prop
    extends r.Bare base lineStart bs where
  /-- Only the text itself is visited. -/
  visits : r.visited.visits = #[.file 0]
  /-- There are no macros. -/
  bodies : r.visited.bodies = #[]
  /-- The frame is that of the text. -/
  file : ∀ f ∈ r.frames, f.visit = 0 ∧ f.body? = none
  /-- No macro was used. -/
  args_eq : r.args = []
  /-- Definitions take effect. -/
  registerDefines_eq : r.registerDefines = true
  /-- There are no faults. -/
  errors_eq : r.errors = []
  /-- No file was requested. -/
  inclusions_eq : r.inclusions = []

/-- Readers that are in texts that go on in the same way are twins. -/
theorem Clean.twin (hr : r.Clean base lineStart bs) (hq : q.Clean base lineStart bs) : r.Twin q := by
  obtain ⟨f, hf, hrest, hloc⟩ := hr.frame
  obtain ⟨g, hg, hrest', hloc'⟩ := hq.frame
  obtain ⟨v, -, hfv⟩ := hr.sound.window hf
  obtain ⟨w, -, hgw⟩ := hq.sound.window hg
  have hfile := hr.file f (by simp [hf])
  have hfile' := hq.file g (by simp [hg])
  have hlength := hfv.length_eq
  have hlength' := hgw.length_eq
  have hremaining : g.remaining = f.remaining := by
    rw [hrest] at hlength
    rw [hrest'] at hlength'
    simp only [Frame.remaining]
    omega
  have htwin : f.Twin g :=
    { visit := hfile'.1.trans hfile.1.symm
      rest := hrest'.trans hrest.symm
      missing := hgw.missing_eq.trans hfv.missing_eq.symm
      remaining := hremaining
      body := hfile'.2.trans hfile.2.symm }
  exact
    { visited := ⟨by rw [hr.visits, hq.visits], by simp [Visited.SameMacros, hr.bodies, hq.bodies]⟩
      frames := by rw [hf, hg]; exact .cons htwin .nil
      endLoc := by
        rw [← hloc', locOf, locOf, hremaining] at hloc
        linarith
      macros := hq.macros_eq.trans hr.macros_eq.symm
      closeAnglesOnly := hq.closeAnglesOnly_eq.trans hr.closeAnglesOnly_eq.symm
      lineStart := hq.lineStart_eq.trans hr.lineStart_eq.symm
      args := hq.args_eq.trans hr.args_eq.symm
      registerDefines := hq.registerDefines_eq.trans hr.registerDefines_eq.symm
      errors := hq.errors_eq.trans hr.errors_eq.symm
      inclusions := hq.inclusions_eq.trans hr.inclusions_eq.symm }

theorem clean_pushed (path source : String) :
    ((new .empty {}).push path source).2.Clean 0 true (Text.bytes source) :=
  { bare_pushed path source with
    visits := by
      simp [push_eq, Reader.enter, new, Visited.addFile, Visited.empty, Visited.addEntry,
        Registry.register, Registry.find?, Registry.empty]
    bodies := rfl
    file := by simp [push_eq, Reader.enter, Frame.ofWindow, new, Visited.addFile, Visited.empty]
    args_eq := rfl
    registerDefines_eq := rfl
    errors_eq := rfl
    inclusions_eq := rfl }

theorem Clean.shift (h : r.Clean base lineStart bs) (k : Nat) :
    (r.shift k).Clean (base + k) lineStart bs := by
  obtain ⟨top, hframes, hrest, hloc⟩ := h.frame
  have hstacked : (r.shift k).visited.Stacked (r.shift k).frames := by
    have hstacked := h.sound.stacked
    rw [hframes] at hstacked
    show (r.shift k).visited.Stacked r.frames
    rw [hframes]
    cases hstacked with
    | file hvisit hbody hrest => exact .file hvisit hbody .nil
  exact
    { sound :=
        ⟨⟨h.sound.visited.bodies, h.sound.visited.files, h.sound.visited.expansions⟩, h.sound.reads,
          hstacked, h.sound.nodup, h.sound.active_lt, h.sound.macros⟩
      frame := ⟨top, hframes, hrest, by rw [locOf_shift, hloc]; push_cast; rfl⟩
      lineStart_eq := h.lineStart_eq
      closeAnglesOnly_eq := h.closeAnglesOnly_eq
      macros_eq := h.macros_eq
      visits := h.visits
      bodies := h.bodies
      file := h.file
      args_eq := by simp [Reader.shift, h.args_eq]
      registerDefines_eq := h.registerDefines_eq
      errors_eq := by simp [Reader.shift, h.errors_eq]
      inclusions_eq := h.inclusions_eq }

/-- A reader stays clean behind a lexeme in which nothing is wrong. -/
theorem Clean.step {b : UInt8} {scan : Scan} (h : r.Clean base lineStart (b :: bs))
    (hscan : Lexeme.scanFrom false lineStart 0 b bs = scan) (hkind : scan.kind? ≠ some .directive)
    (hfaults : scan.faults = []) :
    ∃ t? r', r.step = .ok (t?, r') ∧
      r'.Clean (base + scan.len) scan.lineStart ((b :: bs).drop scan.len) ∧
      t?.map Token.kind = scan.kind? ∧
      ∀ t ∈ t?, t.loc = base ∧ Text.bytes t.text = (b :: bs).take scan.len := by
  obtain ⟨top, t?, hframes, hstep, hsame⟩ := h.step_behind hscan hkind
  obtain ⟨hbehind, herrors⟩ := h.toBare.behind hscan hframes
  refine ⟨t?, _, hstep, ?_, hsame⟩
  have hfile := h.file top (by simp [hframes])
  exact { hbehind with
    visits := h.visits
    bodies := h.bodies
    file := List.forall_mem_singleton.2 hfile
    args_eq := h.args_eq
    registerDefines_eq := h.registerDefines_eq
    errors_eq := by rw [herrors, h.errors_eq, hfaults]; rfl
    inclusions_eq := h.inclusions_eq }

/-- A word is read. -/
theorem Clean.read (h : r.Clean base lineStart (Text.bytes w.text ++ Byte.space :: bs)) (hw : w.Cut) :
    ∃ r', r.readToken = .ok (⟨base, w.kind, w.text⟩, r') ∧
      r'.Clean (base + (Text.bytes w.text).length) false (Byte.space :: bs) := by
  obtain ⟨⟨b, xs, htext, -, hscan⟩, hplain, -⟩ := hw
  obtain ⟨scan, hscan, htakes, hline⟩ := hscan lineStart bs
  rw [htext, List.cons_append] at h
  have hkind : scan.kind? ≠ some .directive := by
    rintro hdirective
    rw [htakes.kind_eq, Option.some.injEq] at hdirective
    rw [hdirective] at hplain
    cases hplain
  obtain ⟨t?, r', hstep, hclean, hsome, ht⟩ := h.step hscan hkind htakes.faults_eq
  rw [htakes.len_eq, List.take_succ_cons, List.take_left] at ht
  rw [htakes.len_eq, hline, List.drop_succ_cons, List.drop_left] at hclean
  obtain rfl := Token.eq_some (hsome.trans htakes.kind_eq) ht htext
  refine ⟨r', readToken_eq_ok_iff.2 ⟨r, .refl r, hstep⟩, ?_⟩
  rwa [htext, List.length_cons]

/-- A word is read behind a space. -/
theorem Clean.readBehind
    (h : r.Clean base false (Byte.space :: (Text.bytes w.text ++ Byte.space :: bs))) (hw : w.Cut) :
    ∃ r', r.readToken = .ok (⟨base + 1, w.kind, w.text⟩, r') ∧
      r'.Clean (base + 1 + (Text.bytes w.text).length) false (Byte.space :: bs) := by
  obtain ⟨b, xs, htext, hblank, -⟩ := hw.taken
  have hfirst : ∀ c ∈ (Text.bytes w.text ++ Byte.space :: bs).head?, isBlank c = false := by
    simp [htext, hblank]
  have hscan := Lexeme.scanFrom_space false hfirst
  obtain ⟨t?, r₁, hstep, hclean, hnone, -⟩ := h.step hscan (by simp) rfl
  obtain rfl : t? = none := by simpa using hnone
  obtain ⟨r', hread, hclean'⟩ := hclean.read hw
  exact ⟨r', (readToken_of_step hstep).trans hread, hclean'⟩

end Reader

/-! ## Sessions in a text -/

namespace Parse

theorem bind_ok {α β : Type} {p : Parse α} {f : α → Parse β} {a : α} {s s' : Session}
    (h : p s = .ok (a, s')) : (p >>= f) s = f a s' := by
  simp only [Bind.bind, StateT.bind, h, Except.bind]

end Parse

namespace Session

open Parse (bind_ok)

variable {r r' : Reader} {t : Token} {ahead : List Token} {n passNumber : Nat}

/-- A session in which only a unit was opened so far, and the given tokens come next. -/
def opened (reader : Reader) (ahead : List Token) (allowance passNumber : Nat) : Session :=
  { new reader allowance passNumber with
    queue := ⟨[], ahead, false⟩, scopes := [⟨.unit, []⟩], log := [.entered [.unit]] }

theorem read_ahead : Parse.read (opened r (t :: ahead) n passNumber) =
    .ok (t, opened r ahead n passNumber) := rfl

theorem pushBack_opened : Parse.pushBack t (opened r ahead n passNumber) =
    .ok ((), opened r (t :: ahead) n passNumber) := rfl

theorem unmute_opened : Parse.unmute (opened r ahead n passNumber) =
    .ok ((), opened r ahead n passNumber) := rfl

/-- A token is read from the text. -/
theorem read_opened {base : Nat} {lineStart : Bool} {bs : Bytes} (hread : r.readToken = .ok (t, r'))
    (hclean : r'.Clean base lineStart bs) (hplain : t.kind.isAside = false)
    (hmore : t.kind ≠ .endOfFile) :
    Parse.read (opened r [] (n + 1) passNumber) = .ok (t, opened r' [] n passNumber) := by
  have hpull : (opened r [] (n + 1) passNumber).pull (n + 1) =
      .ok (t, { opened r [] (n + 1) passNumber with reader := r', allowance := n }.drain) :=
    pull_plain hread hmore hplain
  have hdrain : { opened r [] (n + 1) passNumber with reader := r', allowance := n }.drain =
      opened r' [] n passNumber := by
    have herrors := hclean.errors_eq
    have hinclusions := hclean.inclusions_eq
    cases r'
    simp_all [drain, opened, new, Reader.takeErrors, Reader.takeInclusions]
  show ((opened r [] (n + 1) passNumber).pull (n + 1) >>= fun x =>
    .ok (x.1, { x.2 with queue := x.2.queue.passed x.1 })) = _
  rw [hpull, hdrain]
  rfl

end Session

/-! ## The same further along -/

/-- A session that is in front of the same text as another one, which stands further along. -/
structure Session.Moved (k : LinearLoc) (s s' : Session) : Prop where
  /-- The session has places. -/
  placed : s.Placed
  /-- The text is the same. -/
  twin : (s.shift k).Twin s'

/-- What an action does further along. -/
theorem Parse.Shifts.moved {α : Type} {k : LinearLoc} {m : α → α} {E : α → Prop} {p p' : Parse α}
    {a : α} {s s₁ s' : Session} (hp : Parse.Shifts k m E p p') (hblind : Parse.Blind p') (h : s.Moved k s')
    (heq : p s = .ok (a, s₁)) : ∃ s₁', p' s' = .ok (m a, s₁') ∧ s₁.Moved k s₁' := by
  obtain ⟨hshift, hplaced⟩ := hp s h.placed
  have hagree := hblind.agree h.twin
  rw [hshift, heq] at hagree
  obtain ⟨⟨_, s₁'⟩, heq', rfl, htwin⟩ := hagree.of_ok
  exact ⟨s₁', heq', (hplaced a s₁ heq).1, htwin⟩

/-! ## Places in a text -/

/-- The reader of a text. -/
def textReader (source : String) : Reader := ((Reader.new .empty {}).push "(declaration)" source).2

/-- A reader at a place of a text, with a session in order. -/
structure Reader.Stands (r : Reader) (base : Nat) (lineStart : Bool) (bs : Bytes) : Prop
    extends r.Clean base lineStart bs where
  /-- The places that the reader knows are in order. -/
  ordered : r.Ordered

open Session (opened read_opened)

variable {r : Reader} {base n passNumber : Nat} {lineStart : Bool} {bs : Bytes} {w : Token}

theorem textReader_stands (source : String) : (textReader source).Stands 0 true (Text.bytes source) :=
  { Reader.clean_pushed "(declaration)" source with
    ordered := Reader.ordered_pushed {} "(declaration)" source }

/-- A word is read at the start of a text. -/
theorem Reader.Stands.read {m : Nat}
    (h : r.Stands base lineStart (Text.bytes w.text ++ Byte.space :: bs))
    (hw : w.Cut) (hloc : w.loc = base) (hm : base + (Text.bytes w.text).length = m) :
    ∃ r', r'.Stands m false (Byte.space :: bs) ∧ ∀ n passNumber,
      Parse.read (opened r [] (n + 1) passNumber) = .ok (w, opened r' [] n passNumber) := by
  obtain ⟨r', hread, hclean⟩ := h.toClean.read hw
  rw [← hloc] at hread
  refine ⟨r', ⟨hm ▸ hclean, (h.ordered.readToken h.sound hread).1⟩, fun n passNumber => ?_⟩
  exact read_opened hread hclean hw.plain hw.more

/-- A word is read behind a space. -/
theorem Reader.Stands.readBehind {m : Nat}
    (h : r.Stands base false (Byte.space :: (Text.bytes w.text ++ Byte.space :: bs)))
    (hw : w.Cut) (hloc : w.loc = base + 1) (hm : base + 1 + (Text.bytes w.text).length = m) :
    ∃ r', r'.Stands m false (Byte.space :: bs) ∧ ∀ n passNumber,
      Parse.read (opened r [] (n + 1) passNumber) = .ok (w, opened r' [] n passNumber) := by
  obtain ⟨r', hread, hclean⟩ := h.toClean.readBehind hw
  rw [← hloc] at hread
  refine ⟨r', ⟨hm ▸ hclean, (h.ordered.readToken h.sound hread).1⟩, fun n passNumber => ?_⟩
  exact read_opened hread hclean hw.plain hw.more

/-- Sessions in front of the same text at different places. -/
theorem Reader.Stands.moved {q : Reader} {k : Nat} (h : r.Stands base lineStart bs)
    (hq : q.Stands (base + k) lineStart bs) :
    (opened r [] n passNumber).Moved k (opened q [] n passNumber) := by
  have hshift := h.toClean.shift k
  refine ⟨⟨h.sound, h.ordered, ?_⟩, .intro hshift.sound hq.sound (hshift.twin hq.toClean)⟩
  rintro t (ht | ht) <;> cases ht

theorem Reader.Stands.tidy (h : r.Stands base lineStart bs) : (opened r [] n passNumber).Tidy := by
  obtain ⟨⟨hsound, htrailing, hended, hsettled⟩, hline⟩ :=
    Session.tidy_new h.sound h.ordered n passNumber
  exact ⟨⟨hsound, htrailing, hended, hsettled⟩, hline⟩

end CppDecl
