import CppDecl.Proofs.Angles
import CppDecl.Proofs.Chart
import CppDecl.Proofs.Widths
import CppDecl.Tokens

/-!
# Places in texts

Reading cuts texts at byte offsets: where a frame starts, stands and ends, where a token is taken,
and where a definition lies in the file that has it.  A reader is *in range* if all of these offsets
lie in their texts and between two characters.

A new reader of one source is in range and stays so, however many tokens are read and however `>` is
read for each of them.  No place is ever asked for that does not exist
(`Reader.readChoosing_inRange`).
-/

namespace CppDecl

open Text (Whole)

/-! ## Definitions -/

/-- A frame stands in a window: its offsets are in order, lie in the text of the window and between
two characters, and what is still to be read is the text between two of them. -/
structure Frame.Placed (f : Frame) (w : Window) : Prop where
  /-- The frame starts with the window. -/
  start_eq : f.start = w.start
  /-- The frame ends with the window. -/
  stop_eq : f.stop = w.stop
  /-- The next byte is not before the start. -/
  start_le : f.start ≤ f.pos
  /-- The next byte is not behind the end. -/
  le_stop : f.pos ≤ f.stop
  /-- The end lies in the text. -/
  inside : f.stop ≤ (Text.bytes w.buffer).length
  /-- What is still to be read goes from the next byte to the end. -/
  rest_eq : f.rest = ((Text.bytes w.buffer).drop f.pos).take (f.stop - f.pos)
  /-- No offset lies in the middle of a character. -/
  boundaries : ∀ offset ∈ [f.start, f.pos, f.stop],
    Text.isBoundary (Text.bytes w.buffer) offset = true

/-- A token has the text between two offsets of something that was visited, or it is the end of the
file. -/
def Token.TakenFrom (v : Visited) (t : Token) : Prop :=
  t.kind = .endOfFile ∧ t.text = "" ∨
    ∃ visit w start stop, v.window visit = .ok w ∧ Text.slice? w.buffer start stop = some t.text

/-- Reads one token for each choice whether a `>` is always a token of its own. -/
def Reader.readChoosing : List Bool → Reader → Except Halt (List Token × Reader)
  | [], r => .ok ([], r)
  | choice :: choices, r => do
    let (token, r) ← (r.withAngles choice).readToken
    let (tokens, r) ← r.readChoosing choices
    return (token :: tokens, r)

/-- What was taken from something stays so while nothing is forgotten. -/
theorem Token.TakenFrom.mono {v v' : Visited} {t : Token} (h : t.TakenFrom v)
    (hextends : v.Extends v') : t.TakenFrom v' := by
  rcases h with hend | ⟨visit, w, start, stop, hw, hslice⟩
  · exact .inl hend
  · exact .inr ⟨visit, w, start, stop, hextends.window hw, hslice⟩

/-! ## Frames -/

namespace Frame

variable {f : Frame} {w : Window}

/-- The text behind a frame's next byte is what is left of the frame and what lies behind it. -/
theorem Reads.drop_pos (h : f.Reads w) : (Text.bytes w.buffer).drop f.pos =
    f.rest ++ (Text.bytes w.buffer).drop f.stop := by
  have hstart := h.start_le
  have hlength := h.length_eq
  have hrest : f.rest = ((Text.bytes w.buffer).drop f.pos).take (f.stop - f.pos) := by
    rw [h.rest_eq, Window.bytes, ← h.start_eq, ← h.stop_eq, List.drop_take, List.drop_drop]
    congr 1
    · omega
    · congr 1
      omega
  have hdrop : (Text.bytes w.buffer).drop f.stop =
      ((Text.bytes w.buffer).drop f.pos).drop (f.stop - f.pos) := by
    rw [List.drop_drop]
    congr 1
    omega
  rw [hdrop]
  conv_lhs => rw [← List.take_append_drop (f.stop - f.pos) ((Text.bytes w.buffer).drop f.pos)]
  rw [← hrest]

theorem Reads.placed (h : f.Reads w) (hw : w.Sound) : f.Placed w := by
  have hlength := h.length_eq
  have hinside : f.stop ≤ (Text.bytes w.buffer).length := h.stop_eq ▸ hw.inside
  have hback : Whole ((Text.bytes w.buffer).drop f.stop) := h.stop_eq ▸ hw.back
  refine ⟨h.start_eq, h.stop_eq, h.start_le, by omega, hinside, ?_, ?_⟩
  · rw [h.drop_pos, show f.stop - f.pos = f.rest.length by omega, List.take_left]
  · have hpos : Whole ((Text.bytes w.buffer).drop f.pos) := by
      rw [h.drop_pos]
      exact h.whole.append hback
    have hstart := h.start_le
    intro offset hoffset
    simp only [List.mem_cons, List.not_mem_nil, or_false] at hoffset
    rcases hoffset with rfl | rfl | rfl
    · exact Text.isBoundary_of_whole (by omega) (h.start_eq ▸ hw.front)
    · exact Text.isBoundary_of_whole (by omega) hpos
    · exact Text.isBoundary_of_whole hinside hback

/-- A text that stands next in a frame is a stretch of the frame's window. -/
theorem Reads.slice (h : f.Reads w) (hw : w.Sound) {text : String}
    (htext : Text.bytes text <+: f.rest) :
    Text.slice? w.buffer f.pos (f.pos + (Text.bytes text).length) = some text := by
  have hlength := h.length_eq
  have hinside : f.stop ≤ (Text.bytes w.buffer).length := h.stop_eq ▸ hw.inside
  obtain ⟨behind, hbehind⟩ := htext
  have hbuffer : Text.bytes w.buffer = (Text.bytes w.buffer).take f.pos ++
      (Text.bytes text ++ (behind ++ (Text.bytes w.buffer).drop f.stop)) := by
    rw [← List.append_assoc (Text.bytes text), hbehind, ← h.drop_pos, List.take_append_drop]
  have hbehindWhole : Whole behind :=
    Whole.of_append (by rw [hbehind]; exact h.whole) (Text.whole_bytes text)
  have hsound := Window.sound_of_append hbuffer (Text.whole_bytes text)
    (hbehindWhole.append (h.stop_eq ▸ hw.back))
  have htake : ((Text.bytes w.buffer).take f.pos).length = f.pos := by
    rw [List.length_take]
    omega
  rw [htake] at hsound
  obtain ⟨slice, hslice, hbytes⟩ := hsound.text_eq
  have hsame : Text.bytes slice = Text.bytes text := by
    rw [hbytes, Window.bytes, h.drop_pos, ← hbehind, List.append_assoc, Nat.add_sub_cancel_left,
      List.take_left]
  rw [Text.bytes_injective hsame] at hslice
  exact Halt.require_eq_ok hslice

end Frame

/-! ## Readers -/

namespace Reader

variable {r r' : Reader} {top : Frame} {below : List Frame} {source : String}

/-- The window of a frame is sound. -/
theorem Sound.placed (h : r.Sound) {f : Frame} (hf : f ∈ r.frames) :
    ∃ w, r.visited.window f.visit = .ok w ∧ w.Sound ∧ f.Reads w := by
  obtain ⟨w, hw, hreads⟩ := h.reads f hf
  obtain ⟨w', hw', hsound⟩ := h.visited.window (h.visit_lt hf)
  rw [hw] at hw'
  cases hw'
  exact ⟨w, hw, hsound, hreads⟩

/-- What a move does to what was visited: nothing is forgotten, and no file is added. -/
theorem Move.visited {t? : Option Token} (h : r.Move t? r') :
    r.visited.Extends r'.visited ∧ r'.visited.files = r.visited.files := by
  cases h with
  | ended _ => exact ⟨.refl _, rfl⟩
  | @left top below _ _ =>
    cases below with
    | nil => exact ⟨.refl _, rfl⟩
    | cons parent below => exact ⟨Visited.extends_addEntry _ _, rfl⟩
  | passed hpasses _ =>
    refine ⟨hpasses.visited_extends.1, ?_⟩
    rcases hpasses.visited with heq | ⟨-, body, heq⟩
    · rw [heq]
    · rw [heq]
      rfl
  | entered henters _ =>
    obtain ⟨filled, heq⟩ := henters.visited
    rw [heq]
    exact ⟨(Visited.extends_addVisit _ _).trans (Visited.extends_addEntry _ _), rfl⟩

/-- The token of a move is taken from what was visited. -/
theorem Move.takenFrom {t : Token} (h : r.Move (some t) r') (hsound : r.Sound) :
    t.TakenFrom r.visited := by
  -- a text that stands next in the top frame
  have htaken : ∀ {top : Frame} {below : List Frame} {text : String}, r.frames = top :: below →
      Text.bytes text <+: top.rest → ∃ visit w start stop, r.visited.window visit = .ok w ∧
        Text.slice? w.buffer start stop = some text := by
    intro top below text hframes htext
    obtain ⟨w, hw, hwsound, hreads⟩ := hsound.placed (f := top) (by rw [hframes]; simp)
    exact ⟨top.visit, w, _, _, hw, hreads.slice hwsound htext⟩
  generalize ht : some t = t? at h
  cases h with
  | ended _ =>
    cases ht
    exact .inl ⟨rfl, rfl⟩
  | left _ _ => cases ht
  | passed hpasses hspells =>
    subst ht
    exact .inr (htaken hpasses.frames ((hspells t rfl).text.trans (List.take_prefix _ _)))
  | entered henters htext =>
    cases ht
    exact .inr (htaken henters.frames htext)

/-- Reading a token: no place is asked for that does not exist, nothing that was visited is
forgotten, no file is added, and the token is taken from what was visited. -/
theorem Sound.readToken_taken (h : r.Sound) : ∃ t r', r.readToken = .ok (t, r') ∧ r'.Sound ∧
    r.visited.Extends r'.visited ∧ r'.visited.files = r.visited.files ∧ t.TakenFrom r'.visited := by
  obtain ⟨t, r', hread, hsound⟩ := h.readToken
  obtain ⟨before, hskips, hstep⟩ := readToken_eq_ok_iff.1 hread
  obtain ⟨hbefore, hextends, hfiles⟩ := hskips.keeps
    (P := fun r₁ => r.visited.Extends r₁.visited ∧ r₁.visited.files = r.visited.files)
    (fun _ hmove hkept => ⟨hkept.1.trans hmove.visited.1, hmove.visited.2.trans hkept.2⟩)
    h ⟨.refl _, rfl⟩
  obtain ⟨t?, r₂, heq, -, hmove⟩ := hbefore.step
  rw [hstep] at heq
  cases heq
  exact ⟨t, r', hread, hsound, hextends.trans hmove.visited.1, hmove.visited.2.trans hfiles,
    (hmove.takenFrom hbefore).mono hmove.visited.1⟩

/-- No file is added when a token is read. -/
theorem Sound.files_of_readToken (h : r.Sound) {t : Token} (hread : r.readToken = .ok (t, r')) :
    r'.visited.files = r.visited.files := by
  obtain ⟨_, _, hread', -, -, hfiles, -⟩ := h.readToken_taken
  rw [hread] at hread'
  cases hread'
  exact hfiles

/-- Any number of tokens can be read, in any way, and each is taken from what was visited. -/
theorem Sound.readChoosing (h : r.Sound) (choices : List Bool) :
    ∃ tokens r', r.readChoosing choices = .ok (tokens, r') ∧ tokens.length = choices.length ∧
      r'.Sound ∧ r.visited.Extends r'.visited ∧ r'.visited.files = r.visited.files ∧
      ∀ t ∈ tokens, t.TakenFrom r'.visited := by
  induction choices generalizing r with
  | nil => exact ⟨[], r, rfl, rfl, h, .refl _, rfl, by simp⟩
  | cons choice choices ih =>
    obtain ⟨t, r₁, hread, hsound₁, hextends₁, hfiles₁, ht⟩ :=
      (h.withAngles choice).readToken_taken
    obtain ⟨tokens, r', hrest, hlength, hsound, hextends, hfiles, htokens⟩ := ih hsound₁
    refine ⟨t :: tokens, r', ?_, by simp [hlength], hsound, hextends₁.trans hextends,
      hfiles.trans hfiles₁, ?_⟩
    · rw [Reader.readChoosing, hread]
      simp only [bind, Except.bind, hrest]
      rfl
    · exact List.forall_mem_cons.2 ⟨ht.mono hextends, htokens⟩

/-- Reading to the end of a source can only break off because the budget is used up. -/
theorem Sound.readAll (h : r.Sound) (budget : Nat) :
    r.readAll budget = .error .exhausted ∨ ∃ tokens r', r.readAll budget = .ok (tokens, r') := by
  induction budget generalizing r with
  | zero => exact .inl rfl
  | succ budget ih =>
    obtain ⟨t, r₁, hread, hsound⟩ := h.readToken
    rw [Reader.readAll, hread]
    simp only [bind, Except.bind]
    split
    · exact .inr ⟨_, _, rfl⟩
    · rcases ih hsound with herror | ⟨tokens, r', hrest⟩
      · rw [herror]
        exact .inl rfl
      · rw [hrest]
        exact .inr ⟨_, _, rfl⟩

/-- A reader at the start of a source has registered nothing else. -/
theorem files_pushed (config : Configuration) (path source : String) (file : Nat) (f : SourceFile)
    (hf : ((new .empty config).push path source).2.visited.files.get? file = some f) :
    f.contents = source := by
  have hfresh : (new .empty config).visited.Fresh path := by
    rw [Visited.Fresh, (blank_new config).1.files]
    simp [Registry.find?, Registry.empty]
  rw [push_eq] at hf
  change ((new .empty config).visited.addFile path source).2.files.get? file = some f at hf
  rw [Visited.addFile_fresh hfresh, (blank_new config).1.files] at hf
  obtain ⟨hlt, heq⟩ := Array.getElem?_eq_some_iff.1 hf
  have hzero : file = 0 := by
    simpa [Registry.empty] using hlt
  subst hzero
  rw [← heq]
  rfl

end Reader

end CppDecl
