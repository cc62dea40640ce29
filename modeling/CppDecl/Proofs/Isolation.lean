import CppDecl.Proofs.Extent
import CppDecl.Proofs.Twins

/-!
# What a frame does not see

A frame is a window onto a buffer that may hold more text on both sides, such as the replacement
text of a macro that was defined in a file.  What is read from the frame depends on the bytes in the
window only.  Two readers whose top frames have the same text, the one as a window onto some buffer
and the other by itself, read the same from them until the frames are exhausted: the same tokens
with the same arguments of macros, and the same faults, each as far from the other as the frames are
(`Reader.readAbove_isolated`).

The readers may differ in all else but the macros that are defined and those that are being
expanded: in the files they have visited, in the frames below, and in what has come up before.  A
text with a `#` in it is left out, since a macro that it defines may be remembered as a stretch of
the file.
-/

namespace CppDecl

open Byte
open Halt (Agree)
open Text (Whole)

/-! ## Places further along -/

/-- The same token at a place `k` further along. -/
structure Token.Moved (k : LinearLoc) (t u : Token) : Prop where
  /-- The kinds are the same. -/
  kind : u.kind = t.kind
  /-- The texts are the same. -/
  text : u.text = t.text
  /-- The place is further along. -/
  loc : u.loc = t.loc + k

/-- The same fault at a place `k` further along. -/
structure LexError.Moved (k : LinearLoc) (e e' : LexError) : Prop where
  /-- The same is wrong. -/
  cause : e'.cause = e.cause
  /-- The place is further along. -/
  loc : e'.loc = e.loc + k
  /-- So is the other place, if the fault has one. -/
  other : e'.other = e.other + k ∨ e.other = -1 ∧ e'.other = -1

variable {k : LinearLoc}

theorem Fault.locate_moved (loc : LinearLoc) (f : Fault) :
    (f.locate loc).Moved k (f.locate (loc + k)) := by
  refine ⟨rfl, add_right_comm loc k f.offset, ?_⟩
  unfold Fault.locate
  cases f.other? with
  | none => exact .inr ⟨rfl, rfl⟩
  | some n => exact .inl (add_right_comm loc k n)

theorem Fault.forall₂_locate_moved (loc : LinearLoc) (faults : List Fault) :
    List.Forall₂ (LexError.Moved k) (faults.map (Fault.locate loc))
      (faults.map (Fault.locate (loc + k))) := by
  induction faults with
  | nil => exact .nil
  | cons f faults ih => exact .cons (f.locate_moved loc) ih

theorem Token.map_text_of_moved {ts us : List Token} (h : List.Forall₂ (Token.Moved k) ts us) :
    us.map Token.text = ts.map Token.text :=
  Token.map_text_of_forall₂ (h.imp fun _ _ hmoved => hmoved.text)

/-! ## Frames -/

namespace Frame

/-- The frames have the same bytes before them. -/
structure Like (f g : Frame) : Prop where
  /-- The same bytes are still to be read. -/
  rest : g.rest = f.rest
  /-- The same number of bytes lies past the end of the text. -/
  missing : g.missing = f.missing
  /-- As many bytes of the windows are still to be read. -/
  remaining : g.remaining = f.remaining

variable {f g : Frame}

theorem Like.advance (h : f.Like g) (n : Nat) : (f.advance n).Like (g.advance n) := by
  refine ⟨?_, ?_, ?_⟩
  · simp only [Frame.advance, h.rest]
  · simp only [Frame.advance, h.rest, h.missing]
  · have hremaining := h.remaining
    simp only [Frame.remaining, Frame.advance] at *
    omega

theorem Like.finish (_ : f.Like g) : f.finish.Like g.finish :=
  ⟨rfl, rfl, by simp [Frame.remaining, Frame.finish]⟩

theorem Like.lacks (h : f.Like g) (n : Nat) : g.lacks n = f.lacks n := by
  rw [Frame.lacks, h.missing, h.rest, Frame.lacks]

/-- Windows with the same text make frames that are alike. -/
theorem like_ofWindow (visit visit' : Nat) (body? body?' : Option Nat) {w x : Window} (hw : w.Sound)
    (hx : x.Sound) (hbytes : x.bytes = w.bytes) :
    (ofWindow visit body? w).Like (ofWindow visit' body?' x) := by
  have htwin := twin_ofWindow visit body? hw hx hbytes
  exact ⟨htwin.rest, htwin.missing, htwin.remaining⟩

end Frame

/-! ## Windows -/

namespace Window

/-- The window of a text that stands between two others. -/
def part (before text after : String) : Window :=
  ⟨before ++ text ++ after, before.utf8ByteSize, before.utf8ByteSize + text.utf8ByteSize⟩

variable (before text after : String)

theorem bytes_buffer_part : Text.bytes (part before text after).buffer =
    Text.bytes before ++ (Text.bytes text ++ Text.bytes after) := by
  rw [part, Text.bytes_append, Text.bytes_append, List.append_assoc]

theorem bytes_part : (part before text after).bytes = Text.bytes text := by
  have hbytes := bytes_of_append (bytes_buffer_part before text after)
  rwa [Text.length_bytes, Text.length_bytes] at hbytes

theorem sound_part : (part before text after).Sound := by
  have hsound := sound_of_append (bytes_buffer_part before text after) (Text.whole_bytes text)
    (Text.whole_bytes after)
  rwa [Text.length_bytes, Text.length_bytes] at hsound

end Window

namespace Reader

/-- The frames of two readers that have frames with the same text without a `#` above `below` and
`below'`.  Above these there are expansions of the same macros, with the same text left of them. -/
inductive Over (below below' : List Frame) : List Frame → List Frame → Prop
  /-- There are no expansions. -/
  | base {f g : Frame} (like : f.Like g) (plain : hash ∉ f.rest)
      (active : ∀ body, body ∈ active (g :: below') ↔ body ∈ active (f :: below)) :
      Over below below' (f :: below) (g :: below')
  /-- There is one more expansion. -/
  | expansion {f g : Frame} {fs gs : List Frame} {body : Nat} (like : f.Like g)
      (expands : f.body? = some body) (expands' : g.body? = some body)
      (rest : Over below below' fs gs) : Over below below' (f :: fs) (g :: gs)

variable {below below' fs gs : List Frame} {f g f' g' : Frame} {body : Nat}

theorem mem_active_cons {b : Nat} : b ∈ active (f :: fs) ↔ f.body? = some b ∨ b ∈ active fs := by
  unfold active
  cases hbody : f.body? with
  | none => simp [hbody]
  | some c => simp [hbody, eq_comm]

/-- The same macros are being expanded. -/
theorem Over.active (h : Over below below' fs gs) (b : Nat) :
    b ∈ Reader.active gs ↔ b ∈ Reader.active fs := by
  induction h with
  | base _ _ hactive => exact hactive b
  | expansion _ hbody hbody' _ ih => rw [mem_active_cons, mem_active_cons, hbody, hbody', ih]

/-- The top frames are alike. -/
theorem Over.like (h : Over below below' (f :: fs) (g :: gs)) : f.Like g := by
  cases h with
  | base hlike _ _ => exact hlike
  | expansion hlike _ _ _ => exact hlike

/-- The top frames are read further. -/
theorem Over.replace (h : Over below below' (f :: fs) (g :: gs)) (hlike : f'.Like g')
    (hrest : f'.rest ⊆ f.rest) (hbody : f'.body? = f.body?) (hbody' : g'.body? = g.body?) :
    Over below below' (f' :: fs) (g' :: gs) := by
  cases h with
  | base _ hplain hactive =>
    refine .base hlike (fun hmem => hplain (hrest hmem)) fun b => ?_
    have hsame := hactive b
    simp only [mem_active_cons] at hsame ⊢
    rwa [hbody, hbody']
  | expansion _ hexpands hexpands' hrest' =>
    exact .expansion hlike (hbody.trans hexpands) (hbody'.trans hexpands') hrest'

theorem Over.advance (h : Over below below' (f :: fs) (g :: gs)) (n : Nat) :
    Over below below' (f.advance n :: fs) (g.advance n :: gs) :=
  h.replace (h.like.advance n) (List.drop_subset n f.rest) rfl rfl

theorem Over.finish (h : Over below below' (f :: fs) (g :: gs)) :
    Over below below' (f.finish :: fs) (g.finish :: gs) :=
  h.replace h.like.finish (List.nil_subset f.rest) rfl rfl

/-- There is at least one frame above the given ones. -/
theorem Over.length_lt (h : Over below below' fs gs) :
    below.length < fs.length ∧ below'.length < gs.length := by
  induction h with
  | base _ _ _ => simp
  | expansion _ _ _ _ ih => simp only [List.length_cons]; omega

/-! ## Readers -/

/-- The faults that have come up since there were `E` and `E'` are the same. -/
def NewErrors (k : LinearLoc) (E E' : List LexError) (r q : Reader) : Prop :=
  ∃ new new', r.errors = E ++ new ∧ q.errors = E' ++ new' ∧ List.Forall₂ (LexError.Moved k) new new'

/-- The readers know the same macros, and read in the same way, the one at a place `k` further
along. -/
structure Beside (k : LinearLoc) (E E' : List LexError) (r q : Reader) : Prop where
  /-- The same macros were defined. -/
  bodies : r.visited.SameMacros q.visited
  /-- The top frame ends at a place that is further along. -/
  endLoc : q.endLoc = r.endLoc + k
  /-- Names stand for the same macros. -/
  macros : q.macros = r.macros
  /-- A `>` is read in the same way. -/
  closeAnglesOnly : q.closeAnglesOnly = r.closeAnglesOnly
  /-- The next lexeme stands at the start of a line for both or for none. -/
  lineStart : q.lineStart = r.lineStart
  /-- Definitions take effect for both or for none. -/
  registerDefines : q.registerDefines = r.registerDefines
  /-- The same faults have come up. -/
  errors : NewErrors k E E' r q

variable {E E' : List LexError} {r q r' q' : Reader}

theorem NewErrors.append (h : NewErrors k E E' r q) {new new' : List LexError}
    (hr : r'.errors = r.errors ++ new) (hq : q'.errors = q.errors ++ new')
    (hnew : List.Forall₂ (LexError.Moved k) new new') : NewErrors k E E' r' q' := by
  obtain ⟨old, old', hold, hold', hmoved⟩ := h
  refine ⟨old ++ new, old' ++ new', ?_, ?_, List.rel_append hmoved hnew⟩
  · rw [hr, hold, List.append_assoc]
  · rw [hq, hold', List.append_assoc]

theorem Beside.locOf (h : r.Beside k E E' q) (hf : f.Like g) : q.locOf g = r.locOf f + k := by
  rw [Reader.locOf, Reader.locOf, h.endLoc, hf.remaining]
  exact add_sub_right_comm r.endLoc k f.remaining

theorem Beside.activeMacro? (h : r.Beside k E E' q)
    (hover : Over below below' r.frames q.frames) (name : String) :
    q.activeMacro? name = r.activeMacro? name :=
  activeMacro?_congr h.macros hover.active name

theorem Beside.leave (h : r.Beside k E E' q) (hover : Over below below' fs gs) :
    (r.leave fs).Beside k E E' (q.leave gs) := by
  cases fs with
  | nil => cases hover
  | cons f fs =>
    cases gs with
    | nil => cases hover
    | cons g gs =>
      exact { h with
        endLoc := by
          simp only [Reader.leave, h.endLoc, hover.like.remaining]
          exact add_right_comm r.endLoc k f.remaining }

/-! ### Directives -/

/-- A definition that no file has is registered with its own text. -/
theorem Beside.register (h : r.Beside k E E' q) (hf : r.fileOf? f = none) (hg : q.fileOf? g = none)
    (base base' : Nat) (d : Definition) :
    Agree (fun r' q' => r'.Beside k E E' q' ∧ r'.frames = r.frames ∧ q'.frames = q.frames)
      (r.register f base d) (q.register g base' d) := by
  refine (agree_register (by rw [hf, hg]) fun file _ hfile => by rw [hf] at hfile; cases hfile).mono ?_
  rintro _ _ ⟨b, c, hname, hsame, rfl, rfl⟩
  refine ⟨{ h with bodies := h.bodies.addBody hsame, macros := ?_ }, rfl, rfl⟩
  simp only [addMacro, hname, h.macros, h.bodies.size]

/-- A directive of an expansion does the same for both. -/
theorem Beside.perform (h : r.Beside k E E' q) (hf : r.fileOf? f = none) (hg : q.fileOf? g = none)
    (text : String) (bs : Bytes) (effect : Effect) :
    Agree (fun r' q' => r'.Beside k E E' q' ∧ r'.frames = r.frames ∧ q'.frames = q.frames)
      (r.perform f text bs effect) (q.perform g text bs effect) := by
  refine agree_perform ⟨h, rfl, rfl⟩ h.registerDefines (fun _ => ⟨{ h with }, rfl, rfl⟩)
    (fun _ => ⟨{ h with macros := by rw [h.macros] }, rfl, rfl⟩)
    (fun offset d _ _ => h.register hf hg _ _ d) text

/-! ### Macros -/

/-- What a step gives, and what it leads to. -/
structure ReadsAlike (k : LinearLoc) (E E' : List LexError) (below below' : List Frame)
    (x y : Token × Reader) : Prop where
  /-- The tokens are the same. -/
  token : x.1.Moved k y.1
  /-- If a macro was used, its arguments are the same. -/
  args : x.1.kind = .macroUse → List.Forall₂ (Token.Moved k) x.2.args y.2.args
  /-- The readers go on in the same way. -/
  beside : x.2.Beside k E E' y.2
  /-- There is still more to be read of the frames. -/
  above : Over below below' x.2.frames y.2.frames

/-- The replacement texts that are put on top are the same. -/
theorem Beside.expand (h : r.Beside k E E' q) (hr : r.visited.Sound) (hq : q.visited.Sound)
    (hover : Over below below' r.frames q.frames)
    (hargs : List.Forall₂ (Token.Moved k) r.args q.args) (hbody : body < r.visited.bodies.size)
    (name : String) (loc : LinearLoc) (parent parent' : Frame) (callSite callSite' : Nat) :
    Agree (ReadsAlike k E E' below below') (r.expand body name loc parent callSite)
      (q.expand body name (loc + k) parent' callSite') := by
  refine (agree_expand h.bodies hr hq (Token.map_text_of_moved hargs) hbody name loc (loc + k) parent
    parent' callSite callSite').mono ?_
  rintro _ _ ⟨filled, w, z, hw, hz, hbytes, rfl, rfl⟩
  have hlike := Frame.like_ofWindow r.visited.visits.size q.visited.visits.size (some body) (some body)
    hw hz hbytes
  refine ⟨⟨rfl, rfl, rfl⟩, fun _ => hargs, { h with endLoc := ?_ }, .expansion hlike rfl rfl hover⟩
  show loc + k + (Frame.ofWindow q.visited.visits.size (some body) z).remaining = _
  rw [hlike.remaining]
  exact add_right_comm loc k _

/-- A name is read in the same way. -/
theorem Beside.readName (h : r.Beside k E E' q) (hr : r.Sound) (hq : q.Sound)
    (hframes : r.frames = f :: fs) (hframes' : q.frames = g :: gs)
    (hover : Over below below' (f :: fs) (g :: gs)) (start start' : Nat) (loc : LinearLoc)
    (name : String) :
    Agree (ReadsAlike k E E' below below') (r.readName f fs start loc name)
      (q.readName g gs start' (loc + k) name) := by
  have hover' : Over below below' r.frames q.frames := by rw [hframes, hframes']; exact hover
  have hf := hover.like
  unfold Reader.readName
  rw [h.activeMacro? hover']
  cases hactive : r.activeMacro? name with
  | none => exact .ok ⟨⟨rfl, rfl, rfl⟩, TokenKind.noConfusion, h, hover'⟩
  | some body =>
    obtain ⟨hlt, -⟩ := hr.activeMacro? hactive
    obtain ⟨b, c, -, -, hb, hc, -, -, -, -, htakes, -⟩ := h.bodies.body hr.visited hq.visited hlt
    refine .bind (R := fun b' c' => b' = b ∧ c' = c) (by rw [hb, hc]; exact .ok ⟨rfl, rfl⟩) ?_
    rintro _ _ ⟨rfl, rfl⟩
    have h₀ : { r with args := [] }.Beside k E E' { q with args := [] } := { h with }
    rw [htakes]
    refine .ite (fun _ => ?_) fun _ =>
      h₀.expand hr.visited hq.visited hover' .nil hlt name loc f g _ _
    rw [hf.missing, hf.rest]
    have hbase : { q with args := [] }.locOf g = { r with args := [] }.locOf f + k := h₀.locOf hf
    cases Arguments.read f.missing f.rest with
    | missing looked =>
      dsimp only
      rw [hf.lacks]
      exact .ite (fun _ => .error _) fun _ =>
        .ok ⟨⟨rfl, rfl, rfl⟩, TokenKind.noConfusion, h₀, hover'⟩
    | unfinished fault looked =>
      dsimp only
      rw [hf.lacks, hbase]
      refine .ite (fun _ => .error _) fun _ => .ok ⟨⟨rfl, rfl, rfl⟩, TokenKind.noConfusion,
        { h₀ with errors := h.errors.append rfl rfl ?_ }, hover.finish⟩
      exact .cons (fault.locate_moved _) .nil
    | found arguments stop =>
      dsimp only
      rw [hbase]
      have hmoved : ∀ (offset : Nat) (text : String),
          Token.Moved k ⟨{ r with args := [] }.locOf f + offset, .macroArgument, text⟩
            ⟨{ r with args := [] }.locOf f + k + offset, .macroArgument, text⟩ :=
        fun _ _ => ⟨rfl, rfl, add_right_comm _ _ _⟩
      refine (agree_arguments hmoved arguments).bind fun args args' hargs => ?_
      have h₁ : { r with args, frames := f.advance stop :: fs }.Beside k E E'
          { q with args := args', frames := g.advance stop :: gs } := { h with }
      exact h₁.expand hr.visited hq.visited (hover.advance stop) hargs hlt name loc f g _ _

/-! ### Steps -/

/-- What a step leads to: there is more to be read of the frames, or they are exhausted. -/
inductive StepsAlike (k : LinearLoc) (E E' : List LexError) (below below' : List Frame) :
    Option Token × Reader → Option Token × Reader → Prop
  /-- A token is read. -/
  | read {t u : Token} {r q : Reader} (alike : ReadsAlike k E E' below below' (t, r) (u, q)) :
      StepsAlike k E E' below below' (some t, r) (some u, q)
  /-- Something is skipped. -/
  | skipped {r q : Reader} (beside : r.Beside k E E' q)
      (above : Over below below' r.frames q.frames) :
      StepsAlike k E E' below below' (none, r) (none, q)
  /-- The frames are exhausted. -/
  | exhausted {r q : Reader} (frames : r.frames = below) (frames' : q.frames = below')
      (errors : NewErrors k E E' r q) : StepsAlike k E E' below below' (none, r) (none, q)

theorem Beside.behind (h : r.Beside k E E' q) (hf : f.Like g) (scan : Scan) :
    (r.behind scan f fs).Beside k E E' (q.behind scan g gs) :=
  { h with
    lineStart := rfl
    errors := h.errors.append rfl rfl (by
      rw [h.locOf hf]
      exact Fault.forall₂_locate_moved _ _) }

/-- An expansion reads no file directly. -/
theorem Sound.fileOf?_eq_none (h : r.Sound) (hframes : r.frames = f :: fs)
    (hbody : f.body? = some body) : r.fileOf? f = none := by
  have hstacked := h.stacked
  rw [hframes] at hstacked
  unfold Reader.fileOf?
  cases hstacked with
  | file _ hnone _ =>
    rw [hnone] at hbody
    cases hbody
  | expansion hvisit _ _ => rw [hvisit]

/-- What a lexeme says to do is done in the same way: in a frame without a `#` that is nothing, and
in an expansion no file comes into it. -/
theorem Beside.effect (h : r.Beside k E E' q) (hr : r.Sound) (hq : q.Sound)
    (hframes : r.frames = f :: fs) (hframes' : q.frames = g :: gs)
    (hover : Over below below' (f :: fs) (g :: gs)) {b : UInt8} {bs : Bytes} {scan : Scan}
    (hrest : f.rest = b :: bs)
    (hscan : Lexeme.scanFrom r.closeAnglesOnly r.lineStart 0 b bs = scan) (text : String) :
    Agree (fun r' q' => r'.Beside k E E' q' ∧ r'.frames = f.advance scan.len :: fs ∧
        q'.frames = g.advance scan.len :: gs)
      ((r.behind scan f fs).perform f text (f.rest.take scan.len) scan.effect)
      ((q.behind scan g gs).perform g text (f.rest.take scan.len) scan.effect) := by
  have hbehind : (r.behind scan f fs).Beside k E E' (q.behind scan g gs) := h.behind hover.like scan
  cases hover with
  | base hlike hplain _ =>
    have hkind : scan.kind? ≠ some .directive := by
      intro hdirective
      rw [← hscan] at hdirective
      rw [hrest, (Lexeme.directive_of_scanFrom hdirective).1] at hplain
      exact hplain List.mem_cons_self
    rw [← hscan] at hkind
    rw [← hscan, (Lexeme.fits_scanFrom _ _ b bs).passive hkind, hscan]
    exact .ok ⟨hbehind, rfl, rfl⟩
  | expansion _ hbody hbody' _ =>
    exact hbehind.perform (hr.fileOf?_eq_none hframes hbody) (hq.fileOf?_eq_none hframes' hbody')
      text _ _

/-- A lexeme is dealt with in the same way. -/
theorem Beside.deal (h : r.Beside k E E' q) (hr : r.Sound) (hq : q.Sound)
    (hframes : r.frames = f :: fs) (hframes' : q.frames = g :: gs)
    (hover : Over below below' (f :: fs) (g :: gs)) {b : UInt8} {bs : Bytes} {scan : Scan}
    (hrest : f.rest = b :: bs)
    (hscan : Lexeme.scanFrom r.closeAnglesOnly r.lineStart 0 b bs = scan) :
    Agree (StepsAlike k E E' below below') (r.deal scan f fs) (q.deal scan g gs) := by
  have hfits : scan.Fits f.rest := by
    rw [hrest, ← hscan]
    exact Lexeme.fits_scanFrom _ _ b bs
  have hlike := hover.like
  unfold Reader.deal
  cases hkind : scan.kind? with
  | none => exact .ok (.skipped (h.behind hlike scan) (hover.advance scan.len))
  | some kind =>
    rw [hlike.rest, h.locOf hlike]
    refine .after fun text => ?_
    by_cases hname : kind = .identifier
    · -- a name does nothing by itself
      rw [hfits.passive (by rw [hkind, hname]; decide)]
      refine .bind (R := fun r' q' => r' = r.behind scan f fs ∧ q' = q.behind scan g gs)
        (.ok ⟨rfl, rfl⟩) ?_
      rintro _ _ ⟨rfl, rfl⟩
      rw [if_pos hname, if_pos hname]
      have hsound : (r.behind scan f fs).Sound := by
        obtain ⟨w, -, hreads⟩ := hr.window hframes
        exact hr.advance hframes hfits.le (hreads.whole.cut hfits.cut).2 rfl rfl rfl
      have hsound' : (q.behind scan g gs).Sound := by
        obtain ⟨w, -, hreads⟩ := hq.window hframes'
        rw [← hlike.rest] at hfits
        exact hq.advance hframes' hfits.le (hreads.whole.cut hfits.cut).2 rfl rfl rfl
      refine ((h.behind hlike scan).readName hsound hsound' rfl rfl (hover.advance scan.len) _ _ _
        text).bind ?_
      rintro ⟨t, r'⟩ ⟨u, q'⟩ halike
      exact .ok (.read halike)
    · refine (h.effect hr hq hframes hframes' hover hrest hscan text).bind ?_
      rintro r' q' ⟨hbeside, hfs, hgs⟩
      rw [if_neg hname, if_neg hname]
      refine .ok (.read ⟨⟨rfl, rfl, rfl⟩, fun huse => ?_, hbeside, ?_⟩)
      · exact absurd huse (hfits.lexical kind hkind).2
      · show Over below below' r'.frames q'.frames
        rw [hfs, hgs]
        exact hover.advance scan.len

theorem errors_leave (r : Reader) (below : List Frame) : (r.leave below).errors = r.errors := by
  cases below <;> rfl

/-- A step is the same for both. -/
theorem Beside.step (h : r.Beside k E E' q) (hr : r.Sound) (hq : q.Sound)
    (hover : Over below below' r.frames q.frames) :
    Agree (StepsAlike k E E' below below') r.step q.step := by
  cases hframes : r.frames with
  | nil => exact absurd hover.length_lt.1 (by simp [hframes])
  | cons f fs =>
    cases hframes' : q.frames with
    | nil => exact absurd hover.length_lt.2 (by simp [hframes'])
    | cons g gs =>
      rw [hframes, hframes'] at hover
      obtain ⟨w, -, hreads⟩ := hr.window hframes
      obtain ⟨x, -, hreads'⟩ := hq.window hframes'
      cases hrest : f.rest with
      | nil =>
        rw [step_of_rest_nil hframes hrest hreads.missing_eq,
          step_of_rest_nil hframes' (hover.like.rest.trans hrest) hreads'.missing_eq]
        refine .ok ?_
        cases hover with
        | base _ _ _ =>
          refine .exhausted (frames_leave r below) (frames_leave q below') ?_
          rw [NewErrors, errors_leave, errors_leave]
          exact h.errors
        | expansion _ _ _ hmore =>
          refine .skipped (h.leave hmore) ?_
          rwa [frames_leave, frames_leave]
      | cons b bs =>
        rw [step_eq_deal hframes hrest hreads.missing_eq rfl,
          step_eq_deal hframes' (hover.like.rest.trans hrest) hreads'.missing_eq
            (by rw [h.closeAnglesOnly, h.lineStart])]
        exact h.deal hr hq hframes hframes' hover hrest rfl

/-! ### Reading a frame to its end -/

/-- All that is read, in at most so many steps, until no more than `depth` frames are left: the
tokens, each with the arguments if it is a macro use. -/
def readAbove (depth : Nat) : (budget : Nat) → Reader →
    Except Halt (List (Token × List Token) × Reader)
  | 0, r => .ok ([], r)
  | budget + 1, r =>
    if r.frames.length ≤ depth then .ok ([], r)
    else do
      let (token?, r) ← r.step
      let (more, last) ← readAbove depth budget r
      match token? with
      | none => return (more, last)
      | some t => return ((t, if t.kind = .macroUse then r.args else []) :: more, last)

/-- The same token with the same arguments. -/
def MovedUse (k : LinearLoc) (x y : Token × List Token) : Prop :=
  x.1.Moved k y.1 ∧ List.Forall₂ (Token.Moved k) x.2 y.2

/-- Both have read the same, and the frames are exhausted for both or for none. -/
structure ReadTheSame (k : LinearLoc) (E E' : List LexError) (depth depth' : Nat)
    (x y : List (Token × List Token) × Reader) : Prop where
  /-- The tokens are the same, with their arguments. -/
  tokens : List.Forall₂ (MovedUse k) x.1 y.1
  /-- The faults are the same. -/
  errors : NewErrors k E E' x.2 y.2
  /-- The frames are exhausted for both or for none. -/
  exhausted : y.2.frames.length ≤ depth' ↔ x.2.frames.length ≤ depth

theorem readAbove_of_le {depth : Nat} (h : r.frames.length ≤ depth) (budget : Nat) :
    r.readAbove depth budget = .ok ([], r) := by
  cases budget with
  | zero => rfl
  | succ budget =>
    unfold readAbove
    rw [if_pos h]

/-- Readers that are beside each other read the same until the frames are exhausted. -/
theorem Beside.readAbove (h : r.Beside k E E' q) (hr : r.Sound) (hq : q.Sound)
    (hover : Over below below' r.frames q.frames) (budget : Nat) :
    Agree (ReadTheSame k E E' below.length below'.length) (r.readAbove below.length budget)
      (q.readAbove below'.length budget) := by
  induction budget generalizing r q with
  | zero =>
    have hlt := hover.length_lt
    exact .ok ⟨.nil, h.errors, by dsimp only; omega⟩
  | succ budget ih =>
    have hlt := hover.length_lt
    unfold Reader.readAbove
    rw [if_neg (Nat.not_le.2 hlt.1), if_neg (Nat.not_le.2 hlt.2)]
    obtain ⟨x?, r₁, hstep, hr₁, -⟩ := hr.step
    obtain ⟨y?, q₁, hstep', hq₁, -⟩ := hq.step
    have hagree := h.step hr hq hover
    rw [hstep, hstep'] at hagree ⊢
    obtain ⟨_, ⟨⟩, halike⟩ := hagree.of_ok
    show Agree _ (r₁.readAbove below.length budget >>= _) (q₁.readAbove below'.length budget >>= _)
    cases halike with
    | read halike =>
      refine (ih halike.beside hr₁ hq₁ halike.above).bind ?_
      rintro ⟨more, last⟩ ⟨more', last'⟩ hmore
      refine .ok ⟨.cons ⟨halike.token, ?_⟩ hmore.tokens, hmore.errors, hmore.exhausted⟩
      dsimp only
      rw [halike.token.kind]
      split
      next huse => exact halike.args huse
      next => exact .nil
    | skipped hbeside habove =>
      exact (ih hbeside hr₁ hq₁ habove).bind fun _ _ hmore => .ok hmore
    | exhausted hframes hframes' herrors =>
      have hle : r₁.frames.length ≤ below.length := Nat.le_of_eq (congrArg List.length hframes)
      have hle' : q₁.frames.length ≤ below'.length := Nat.le_of_eq (congrArg List.length hframes')
      rw [readAbove_of_le hle, readAbove_of_le hle']
      exact .ok ⟨.nil, herrors, iff_of_true hle' hle⟩

/-- Reading from the frames of a reader always has an answer. -/
theorem Sound.readAbove (h : r.Sound) (depth budget : Nat) :
    ∃ result, r.readAbove depth budget = .ok result := by
  induction budget generalizing r with
  | zero => exact ⟨_, rfl⟩
  | succ budget ih =>
    unfold Reader.readAbove
    split
    · exact ⟨_, rfl⟩
    · obtain ⟨t?, r₁, hstep, hr₁, -⟩ := h.step
      obtain ⟨⟨more, last⟩, hmore⟩ := ih hr₁
      rw [hstep]
      simp only [bind, Except.bind, hmore]
      cases t? with
      | none => exact ⟨_, rfl⟩
      | some t => exact ⟨_, rfl⟩

/-- What is read from a frame does not depend on what stands around its window: the text `w` between
`p` and `s` is read as it is by itself, whatever macros are defined and being expanded, as long as
they are the same for both. -/
theorem readAbove_isolated (hr : r.Sound) (hq : q.Sound) {p w s : String} {visit visit' : Nat}
    {body? body?' : Option Nat}
    (hframes : r.frames = Frame.ofWindow visit body? (Window.part p w s) :: below)
    (hframes' : q.frames = Frame.ofWindow visit' body?' ⟨w, 0, w.utf8ByteSize⟩ :: below')
    (hplain : hash ∉ Text.bytes w) (hbodies : r.visited.SameMacros q.visited)
    (hmacros : q.macros = r.macros) (hangles : q.closeAnglesOnly = r.closeAnglesOnly)
    (hline : q.lineStart = r.lineStart) (hregister : q.registerDefines = r.registerDefines)
    (hactive : ∀ body, body ∈ active q.frames ↔ body ∈ active r.frames) (budget : Nat) :
    ∃ x y, r.readAbove below.length budget = .ok x ∧ q.readAbove below'.length budget = .ok y ∧
      ReadTheSame (q.nextLoc - r.nextLoc) r.errors q.errors below.length below'.length x y := by
  have hpart := Window.sound_part p w s
  have hbytes : (⟨w, 0, w.utf8ByteSize⟩ : Window).bytes = (Window.part p w s).bytes := by
    rw [Window.bytes_whole, Window.bytes_part]
  have hlike : (Frame.ofWindow visit body? (Window.part p w s)).Like
      (Frame.ofWindow visit' body?' ⟨w, 0, w.utf8ByteSize⟩) :=
    Frame.like_ofWindow visit visit' body? body?' hpart (Window.sound_whole w) hbytes
  have hover : Over below below' r.frames q.frames := by
    rw [hframes, hframes'] at hactive ⊢
    refine .base hlike ?_ hactive
    show hash ∉ (Window.part p w s).bytes
    rwa [Window.bytes_part]
  have hbeside : r.Beside (q.nextLoc - r.nextLoc) r.errors q.errors q :=
    { bodies := hbodies
      endLoc := by
        rw [nextLoc_of_frames hframes, nextLoc_of_frames hframes', locOf, locOf, hlike.remaining]
        ring
      macros := hmacros
      closeAnglesOnly := hangles
      lineStart := hline
      registerDefines := hregister
      errors := ⟨[], [], by simp, by simp, .nil⟩ }
  obtain ⟨x, hx⟩ := hr.readAbove below.length budget
  have hagree := hbeside.readAbove hr hq hover budget
  rw [hx] at hagree
  obtain ⟨y, hy, hsame⟩ := hagree.of_ok
  exact ⟨x, y, hx, hy, hsame⟩

/-- A use of a macro, and the start of another use that is not ended. -/
def brokenUse : String := "N(b, c)+N(d, \""

/-- A definition with the broken use, and a use of it with more text behind. -/
def brokenUseInSource : String := "#define M " ++ brokenUse ++ "\nM+= c)"

/-- A macro that takes arguments and keeps them. -/
def keptUse : Predefined := ⟨"N", "n", true⟩

theorem readAbove_isolated_brokenUse : ∃ (r q : Reader) (x y : List (Token × List Token) × Reader),
    r.frames.head? = some (.ofWindow 1 (some 1) (.part "#define M " brokenUse "\nM+= c)")) ∧
    q.frames.head? = some (.ofWindow 1 (some 1) ⟨brokenUse, 0, brokenUse.utf8ByteSize⟩) ∧
    r.readAbove 1 20 = .ok x ∧ q.readAbove 1 20 = .ok y ∧ y.1.length = 4 ∧ y.2.errors.length = 1 ∧
    ReadTheSame (q.nextLoc - r.nextLoc) r.errors q.errors 1 1 x y := by
  let start := ((Reader.new .empty ⟨[keptUse], true⟩).push "a.h" brokenUseInSource).2
  let start' := ((Reader.new .empty ⟨[keptUse, ⟨"M", brokenUse, false⟩], true⟩).push "b.h" "M").2
  -- both readers are in an expansion of `M`
  obtain ⟨_, r, hread, -, hr, -⟩ := (Reader.sound_pushed _ _ _ : start.Sound).readChoosing [false, false]
  obtain ⟨_, q, hread', -, hq, -⟩ := (Reader.sound_pushed _ _ _ : start'.Sound).readChoosing [false]
  have hall {α : Type} (f : Reader → α) : (start.readChoosing [false, false]).toOption.map (f ·.2) =
      some (f r) := by
    rw [hread]
    rfl
  have hall' {α : Type} (f : Reader → α) : (start'.readChoosing [false]).toOption.map (f ·.2) =
      some (f q) := by
    rw [hread']
    rfl
  have hframes : r.frames = [.ofWindow 1 (some 1) (.part "#define M " brokenUse "\nM+= c)"),
      ⟨0, 0, 26, 31, Text.spelled "+= c)".toList, 0, none⟩] :=
    Option.some.inj ((hall Reader.frames).symm.trans (by decide +kernel))
  have hframes' : q.frames = [.ofWindow 1 (some 1) ⟨brokenUse, 0, brokenUse.utf8ByteSize⟩,
      ⟨0, 0, 1, 1, [], 0, none⟩] :=
    Option.some.inj ((hall' Reader.frames).symm.trans (by decide +kernel))
  have hmacros : q.macros = r.macros :=
    Option.some.inj ((hall' Reader.macros).symm.trans (.trans (by decide +kernel) (hall Reader.macros)))
  have hflags : (q.closeAnglesOnly, q.lineStart, q.registerDefines) =
      (r.closeAnglesOnly, r.lineStart, r.registerDefines) :=
    Option.some.inj ((hall' fun q => (q.closeAnglesOnly, q.lineStart, q.registerDefines)).symm.trans
      (.trans (by decide +kernel) (hall fun r => (r.closeAnglesOnly, r.lineStart, r.registerDefines))))
  have hbodies : r.visited.bodies =
      #[⟨"N", .literal "n", true, []⟩, ⟨"M", .fileRange 0 10 24, false, []⟩] :=
    Option.some.inj ((hall fun r => r.visited.bodies).symm.trans (by decide +kernel))
  have hbodies' : q.visited.bodies =
      #[⟨"N", .literal "n", true, []⟩, ⟨"M", .literal brokenUse, false, []⟩] :=
    Option.some.inj ((hall' fun q => q.visited.bodies).symm.trans (by decide +kernel))
  have hfile : (r.visited.files.get? 0).map SourceFile.contents = some brokenUseInSource :=
    Option.some.inj ((hall fun r => (r.visited.files.get? 0).map SourceFile.contents).symm.trans
      (by decide +kernel))
  obtain ⟨file, hget, hcontents⟩ := Option.map_eq_some_iff.1 hfile
  have hsame : r.visited.SameMacros q.visited := by
    have hbytes : (⟨brokenUse, 0, brokenUse.utf8ByteSize⟩ : Window).bytes =
        (⟨file.contents, 10, 24⟩ : Window).bytes := by
      rw [hcontents]
      decide +kernel
    rw [Visited.SameMacros, hbodies, hbodies']
    simp [Visited.macroOf, Visited.bodyWindow, hget, Halt.require, bind, Except.bind, pure, Except.pure,
      Except.map, hbytes]
  have hactive (body : Nat) : body ∈ active q.frames ↔ body ∈ active r.frames := by
    rw [hframes, hframes']
    rfl
  obtain ⟨x, y, hx, hy, hreads⟩ := readAbove_isolated hr hq hframes hframes' (by decide +kernel) hsame
    hmacros (Prod.mk.inj hflags).1 (Prod.mk.inj (Prod.mk.inj hflags).2).1
    (Prod.mk.inj (Prod.mk.inj hflags).2).2 hactive 20
  have hresult : (q.readAbove 1 20).toOption.map (fun y => (y.1.length, y.2.errors.length)) =
      some (4, 1) :=
    Option.some.inj ((hall' fun q => (q.readAbove 1 20).toOption.map
      (fun y => (y.1.length, y.2.errors.length))).symm.trans (by decide +kernel))
  obtain ⟨_, hy', hcounts⟩ := Halt.of_toOption_map hresult
  rw [show q.readAbove 1 20 = .ok y from hy] at hy'
  cases hy'
  obtain ⟨hlength, herrors⟩ := Prod.mk.inj hcounts
  exact ⟨r, q, x, y, congrArg List.head? hframes, congrArg List.head? hframes', hx, hy, hlength, herrors,
    hreads⟩

end Reader

end CppDecl
