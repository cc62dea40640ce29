import CppDecl.Proofs.Substitution
import CppDecl.Proofs.Visited
import CppDecl.Reader

/-!
# Steps of the reader

A reader is *sound* if each of its frames reads the window of its visit, the frames lie on one
another the way their visits were made, no macro is expanded inside itself, and every macro has a
body that exists.

A step of a sound reader always has an answer, and it is one of four moves (`Reader.Move`): there
is nothing left to be read, the top frame is taken off, a stretch of the top frame is passed, or a
macro is entered.  `Reader.Sound.step` says so, and that the reader is sound afterwards.  Most of
what is shown elsewhere about reading is shown from the moves, without opening the step itself.  Where
the token or the arguments matter, `Reader.Stepped` says what a step did that gave an answer.
-/

namespace CppDecl

open Text (Whole AsciiRun)

/-! ## The table of macros -/

namespace MacroTable

theorem mem_erase {table : MacroTable} {name : String} {entry : String × Nat}
    (h : entry ∈ table.erase name) : entry ∈ table :=
  (List.mem_filter.1 h).1

theorem mem_of_find? {table : MacroTable} {name : String} {body : Nat}
    (h : table.find? name = some body) : (name, body) ∈ table := by
  obtain ⟨front, back, rfl, -⟩ := List.lookup_eq_some_iff.1 h
  simp

theorem find?_erase_self (table : MacroTable) (name : String) : (table.erase name).find? name = none := by
  induction table with
  | nil => rfl
  | cons entry table ih =>
    obtain ⟨n, body⟩ := entry
    unfold erase find? at ih ⊢
    rw [List.filter_cons]
    by_cases heq : n = name
    · rw [if_neg (by simp [heq]), ih]
    · rw [if_pos (by simp [heq]), List.lookup_cons, show (name == n) = false by simp [Ne.symm heq], ih]

theorem find?_erase (table : MacroTable) {name name' : String} (h : name ≠ name') :
    (table.erase name').find? name = table.find? name := by
  induction table with
  | nil => rfl
  | cons entry table ih =>
    obtain ⟨n, body⟩ := entry
    unfold erase find? at ih ⊢
    rw [List.filter_cons, List.lookup_cons]
    by_cases heq : n = name'
    · rw [if_neg (by simp [heq]), ih, show (name == n) = false by simp [heq, h]]
    · rw [if_pos (by simp [heq]), List.lookup_cons, ih]

theorem find?_insert_self (table : MacroTable) (name : String) (body : Nat) :
    (table.insert name body).find? name = some body := by
  simp [insert, find?]

theorem find?_insert {table : MacroTable} {name name' : String} (h : name ≠ name') (body : Nat) :
    (table.insert name' body).find? name = table.find? name := by
  unfold insert
  rw [← find?_erase table h]
  unfold find?
  rw [List.lookup_cons, show (name == name') = false by simp [h]]

end MacroTable

/-! ## Frames -/

namespace Frame

/-- A frame reads a window: it stands somewhere in it, at the border of a character, and the window
has all of its text. -/
structure Reads (f : Frame) (w : Window) : Prop where
  /-- The frame starts with the window. -/
  start_eq : f.start = w.start
  /-- The frame ends with the window. -/
  stop_eq : f.stop = w.stop
  /-- The next byte is not before the start. -/
  start_le : f.start ≤ f.pos
  /-- What is still to be read is the rest of the window. -/
  rest_eq : f.rest = w.bytes.drop (f.pos - f.start)
  /-- The next byte is not behind the end. -/
  length_eq : f.pos + f.rest.length = f.stop
  /-- The text is all there. -/
  missing_eq : f.missing = 0
  /-- What is still to be read is whole. -/
  whole : Whole f.rest

theorem Reads.remaining {f : Frame} {w : Window} (h : f.Reads w) : f.remaining = f.rest.length := by
  rw [Frame.remaining, ← h.length_eq, Nat.add_sub_cancel_left]

theorem reads_ofWindow (visit : Nat) (body? : Option Nat) {w : Window} (h : w.Sound) :
    (ofWindow visit body? w).Reads w := by
  have hlength := h.length_bytes
  have hordered := h.ordered
  refine ⟨rfl, rfl, Nat.le_refl _, ?_, ?_, ?_, h.text⟩
  · show w.bytes = w.bytes.drop (w.start - w.start)
    rw [Nat.sub_self, List.drop_zero]
  · show w.start + w.bytes.length = w.stop
    omega
  · show w.stop - w.start - w.bytes.length = 0
    omega

theorem Reads.advance {f : Frame} {w : Window} (h : f.Reads w) {n : Nat} (hn : n ≤ f.rest.length)
    (hwhole : Whole (f.rest.drop n)) : (f.advance n).Reads w := by
  have hstart := h.start_le
  have hlength := h.length_eq
  refine ⟨h.start_eq, h.stop_eq, ?_, ?_, ?_, ?_, hwhole⟩
  · show f.start ≤ f.pos + n
    omega
  · show f.rest.drop n = w.bytes.drop (f.pos + n - f.start)
    rw [h.rest_eq, List.drop_drop]
    congr 1
    omega
  · show f.pos + n + (f.rest.drop n).length = f.stop
    rw [List.length_drop]
    omega
  · show f.missing - (n - f.rest.length) = 0
    rw [h.missing_eq, Nat.zero_sub]

theorem advance_advance (f : Frame) (m n : Nat) (h : f.missing = 0) :
    (f.advance m).advance n = f.advance (m + n) := by
  simp [advance, h, Nat.add_assoc]

/-- Finishing a frame is passing all that is left of it. -/
theorem Reads.finish {f : Frame} {w : Window} (h : f.Reads w) :
    f.finish = f.advance f.rest.length := by
  rw [Frame.finish, Frame.advance, h.length_eq, List.drop_length, h.missing_eq, Nat.zero_sub]

end Frame

/-! ## Sound readers -/

namespace Visited

/-- Frames lie on one another the way their visits were made: a file on anything, an expansion on
the frame that it was made from. -/
inductive Stacked (v : Visited) : List Frame → Prop
  | nil : Stacked v []
  | file {f : Frame} {below : List Frame} {file : Nat}
      (visit : v.visits[f.visit]? = some (.file file)) (body : f.body? = none)
      (rest : Stacked v below) : Stacked v (f :: below)
  | expansion {f parent : Frame} {below : List Frame} {body callSite : Nat}
      {filled : Option String}
      (visit : v.visits[f.visit]? = some (.expansion body parent.visit callSite filled))
      (body : f.body? = some body) (rest : Stacked v (parent :: below)) :
      Stacked v (f :: parent :: below)

theorem Stacked.keeps {v v' : Visited} (h : v.Keeps v') {frames : List Frame} (hstacked : v.Stacked frames) :
    v'.Stacked frames := by
  induction hstacked with
  | nil => exact .nil
  | file visit body _ ih => exact .file (h.visits visit) body ih
  | expansion visit body _ ih => exact .expansion (h.visits visit) body ih

theorem Stacked.mono {v v' : Visited} (h : v.Extends v') {frames : List Frame}
    (hstacked : v.Stacked frames) : v'.Stacked frames :=
  hstacked.keeps h.keeps

/-- Reading on in the top frame does not change how the frames lie. -/
theorem Stacked.advance {v : Visited} {f : Frame} {below : List Frame} (n : Nat)
    (h : v.Stacked (f :: below)) : v.Stacked (f.advance n :: below) := by
  cases h with
  | file visit body rest => exact .file visit body rest
  | expansion visit body rest => exact .expansion visit body rest

theorem Stacked.tail {v : Visited} {f : Frame} {below : List Frame}
    (h : v.Stacked (f :: below)) : v.Stacked below := by
  cases h with
  | file _ _ rest => exact rest
  | expansion _ _ rest => exact rest

theorem Stacked.visit_lt {v : Visited} {f : Frame} {below : List Frame}
    (h : v.Stacked (f :: below)) : f.visit < v.visits.size := by
  cases h with
  | file visit _ _ => exact (Array.getElem?_eq_some_iff.1 visit).1
  | expansion visit _ _ => exact (Array.getElem?_eq_some_iff.1 visit).1

end Visited

namespace Reader

/-- The macros that are being expanded. -/
def active (frames : List Frame) : List Nat := frames.filterMap Frame.body?

/-- A reader that is in order. -/
structure Sound (r : Reader) : Prop where
  /-- What was visited is in order. -/
  visited : r.visited.Sound
  /-- Every frame reads the window of its visit. -/
  reads : ∀ f ∈ r.frames, ∃ w, r.visited.window f.visit = .ok w ∧ f.Reads w
  /-- Frames lie on one another the way their visits were made. -/
  stacked : r.visited.Stacked r.frames
  /-- No macro is expanded inside itself. -/
  nodup : (active r.frames).Nodup
  /-- A macro that is being expanded has a body. -/
  active_lt : ∀ body ∈ active r.frames, body < r.visited.bodies.size
  /-- Every macro has a body. -/
  macros : ∀ entry ∈ r.macros, entry.2 < r.visited.bodies.size

variable {r r' : Reader} {top : Frame} {below : List Frame}

/-- The window of the top frame. -/
theorem Sound.window (h : r.Sound) (hframes : r.frames = top :: below) :
    ∃ w, r.visited.window top.visit = .ok w ∧ top.Reads w :=
  h.reads top (by rw [hframes]; exact List.mem_cons_self)

theorem active_advance (n : Nat) :
    active (top.advance n :: below) = active (top :: below) := rfl

/-- Soundness is about what was visited, the frames and the macros only. -/
theorem Sound.congr (h : r.Sound) (hvisited : r'.visited = r.visited)
    (hframes : r'.frames = r.frames) (hmacros : r'.macros = r.macros) : r'.Sound := by
  refine ⟨?_, ?_, ?_, ?_, ?_, ?_⟩
  · rw [hvisited]; exact h.visited
  · rw [hvisited, hframes]; exact h.reads
  · rw [hvisited, hframes]; exact h.stacked
  · rw [hframes]; exact h.nodup
  · rw [hvisited, hframes]; exact h.active_lt
  · rw [hvisited, hmacros]; exact h.macros

/-- A sound reader stays sound when a stretch of its top frame is passed. -/
theorem Sound.advance (h : r.Sound) (hframes : r.frames = top :: below) {n : Nat}
    (hn : n ≤ top.rest.length) (hwhole : Whole (top.rest.drop n))
    (hvisited : r'.visited = r.visited) (hframes' : r'.frames = top.advance n :: below)
    (hmacros : r'.macros = r.macros) : r'.Sound := by
  obtain ⟨w, hw, hreads⟩ := h.window hframes
  have hstacked := h.stacked
  have hnodup := h.nodup
  have hactive := h.active_lt
  rw [hframes] at hstacked hnodup hactive
  refine ⟨?_, ?_, ?_, ?_, ?_, ?_⟩
  · rw [hvisited]; exact h.visited
  · intro f hf
    rw [hframes'] at hf
    rw [hvisited]
    rcases List.mem_cons.1 hf with rfl | hf
    · exact ⟨w, hw, hreads.advance hn hwhole⟩
    · exact h.reads f (by rw [hframes]; exact List.mem_cons_of_mem _ hf)
  · rw [hvisited, hframes']; exact hstacked.advance n
  · rw [hframes', active_advance]; exact hnodup
  · rw [hvisited, hframes', active_advance]; exact hactive
  · rw [hvisited, hmacros]; exact h.macros

/-- A sound reader stays sound when its top frame is taken off. -/
theorem Sound.leave (h : r.Sound) (hframes : r.frames = top :: below) : (r.leave below).Sound := by
  have hstacked := h.stacked
  have hnodup := h.nodup
  have hactive := h.active_lt
  rw [hframes] at hstacked hnodup hactive
  have hsublist : (active below).Sublist (active (top :: below)) :=
    (List.sublist_cons_self top below).filterMap _
  have hreads : ∀ f ∈ below, ∃ w, r.visited.window f.visit = .ok w ∧ f.Reads w := by
    intro f hf
    exact h.reads f (by rw [hframes]; exact List.mem_cons_of_mem _ hf)
  cases below with
  | nil => exact ⟨h.visited, by simp [Reader.leave], .nil, by simp [Reader.leave, active],
      by simp [Reader.leave, active], h.macros⟩
  | cons parent below =>
    have hextends := r.visited.extends_addEntry
      ⟨r.endLoc, parent.visit, (parent.pos - parent.start) % offsetRange⟩
    refine ⟨h.visited.addEntry _, ?_, hstacked.tail.mono hextends, hnodup.sublist hsublist,
      fun body hbody => hactive body (hsublist.subset hbody), h.macros⟩
    intro f hf
    obtain ⟨w, hw, hfw⟩ := hreads f hf
    exact ⟨w, hextends.window hw, hfw⟩

/-- A sound reader stays sound when a frame for a new expansion is put on top. -/
theorem Sound.enter (h : r.Sound) (hframes : r.frames = top :: below) {body : Nat}
    (hbody : body < r.visited.bodies.size) (hinactive : body ∉ active r.frames) (callSite : Nat)
    (filled : Option String) {w : Window}
    (hw : (r.visited.addVisit (.expansion body top.visit callSite filled)).2.window
      r.visited.visits.size = .ok w) (hsound : w.Sound) (loc : LinearLoc) :
    ({ r with visited := (r.visited.addVisit (.expansion body top.visit callSite filled)).2 }.enter
      (Frame.ofWindow r.visited.visits.size (some body) w) loc).Sound := by
  have hstacked := h.stacked
  rw [hframes] at hstacked
  have hextends := r.visited.extends_addVisit (.expansion body top.visit callSite filled)
  have hentry := (r.visited.addVisit (.expansion body top.visit callSite filled)).2.extends_addEntry
    ⟨loc, r.visited.visits.size, 0⟩
  refine ⟨(h.visited.addExpansion callSite filled hbody hstacked.visit_lt).addEntry _, ?_, ?_, ?_,
    ?_, h.macros⟩
  · intro f hf
    rcases List.mem_cons.1 hf with rfl | hf
    · exact ⟨w, hentry.window hw, Frame.reads_ofWindow _ _ hsound⟩
    · obtain ⟨w', hw', hreads⟩ := h.reads f hf
      exact ⟨w', hentry.window (hextends.window hw'), hreads⟩
  · show Visited.Stacked _ (_ :: r.frames)
    rw [hframes]
    exact .expansion Array.getElem?_push_size rfl (hstacked.mono (hextends.trans hentry))
  · exact List.nodup_cons.2 ⟨hinactive, h.nodup⟩
  · intro b hb
    rcases List.mem_cons.1 hb with rfl | hb
    · exact hbody
    · exact h.active_lt b hb

/-! ## Directives -/

/-- What a directive can do to a reader. -/
inductive Directed (r : Reader) : Reader → Prop
  /-- Nothing, or a request for a file is made. -/
  | inclusions (inclusions : List String) : Directed r { r with inclusions }
  /-- A macro is taken away. -/
  | undefine (name : String) : Directed r { r with macros := r.macros.erase name }
  /-- A macro is defined. -/
  | define (body : MacroBody) (name : String) {w : Window} (enabled : r.registerDefines = true)
      (window : r.visited.bodyWindow body = .ok w) (sound : w.Sound) :
      Directed r
        { r with
          visited := (r.visited.addBody body).2
          macros := r.macros.insert name r.visited.bodies.size }

/-- A sound reader stays sound when a macro with a sound window is defined. -/
theorem Sound.addMacro (h : r.Sound) (name : String) {body : MacroBody} {w : Window}
    (hw : r.visited.bodyWindow body = .ok w) (hsound : w.Sound) :
    { r with
      visited := (r.visited.addBody body).2
      macros := r.macros.insert name r.visited.bodies.size }.Sound := by
  have hextends := r.visited.extends_addBody body
  have hsize : (r.visited.addBody body).2.bodies.size = r.visited.bodies.size + 1 :=
    Array.size_push body
  refine ⟨h.visited.addBody hw hsound, ?_, h.stacked.mono hextends, h.nodup, ?_, ?_⟩
  · intro f hf
    obtain ⟨w', hw', hreads⟩ := h.reads f hf
    exact ⟨w', hextends.window hw', hreads⟩
  · intro b hb
    rw [hsize]
    exact Nat.lt_succ_of_lt (h.active_lt b hb)
  · intro entry hentry
    rw [hsize]
    rcases List.mem_cons.1 hentry with rfl | hentry
    · exact Nat.lt_succ_self _
    · exact Nat.lt_succ_of_lt (h.macros entry (MacroTable.mem_erase hentry))

theorem Directed.sound (hdirected : r.Directed r') (h : r.Sound) : r'.Sound := by
  cases hdirected with
  | inclusions _ => exact h.congr rfl rfl rfl
  | undefine name =>
    exact ⟨h.visited, h.reads, h.stacked, h.nodup, h.active_lt,
      fun entry hentry => h.macros entry (MacroTable.mem_erase hentry)⟩
  | define body name _ hw hsound => exact h.addMacro name hw hsound

/-- All of some whole runs of bytes are texts. -/
theorem mapM_ofBytes? {bss : List Bytes} (h : ∀ bs ∈ bss, Whole bs) :
    ∃ texts, bss.mapM Text.ofBytes? = some texts := by
  induction bss with
  | nil => exact ⟨[], rfl⟩
  | cons bs bss ih =>
    obtain ⟨text, htext, -⟩ := (h bs List.mem_cons_self).ofBytes?
    obtain ⟨texts, htexts⟩ := ih fun bs' hbs => h bs' (List.mem_cons_of_mem _ hbs)
    exact ⟨text :: texts, by rw [List.mapM_cons, htext, htexts]; rfl⟩

/-- The window of a frame that reads a file directly is all of the file. -/
theorem window_of_fileOf? {f : Frame} {w : Window} (hw : r.visited.window f.visit = .ok w) {file : Nat}
    (hfile : r.fileOf? f = some file) : ∃ source, r.visited.files.get? file = some source ∧
      w = ⟨source.contents, 0, source.contents.utf8ByteSize⟩ := by
  have hvisit : r.visited.visits[f.visit]? = some (.file file) := by
    unfold fileOf? at hfile
    split at hfile
    · next heq => cases hfile; exact heq
    · cases hfile
  unfold Visited.window at hw
  rw [hvisit] at hw
  obtain ⟨source, hsource, hw⟩ := Halt.bind_eq_ok
    (show (Halt.require (r.visited.files.get? file) >>= _) = _ from hw)
  cases hw
  exact ⟨source, Halt.require_eq_ok hsource, rfl⟩

/-- A frame that reads a file directly has the rest of the file to read. -/
theorem rest_of_fileOf? {f : Frame} {w : Window} (hw : r.visited.window f.visit = .ok w)
    (hreads : f.Reads w) {file : Nat} (hfile : r.fileOf? f = some file) :
    ∃ source, r.visited.files.get? file = some source ∧ f.start = 0 ∧
      f.pos ≤ (Text.bytes source.contents).length ∧
      f.rest = (Text.bytes source.contents).drop f.pos := by
  obtain ⟨source, hsource, rfl⟩ := window_of_fileOf? hw hfile
  refine ⟨source, hsource, hreads.start_eq, ?_, ?_⟩
  · rw [Text.length_bytes]
    exact Nat.le_trans (Nat.le_add_right _ _) (Nat.le_of_eq (hreads.length_eq.trans hreads.stop_eq))
  · have hrest := hreads.rest_eq
    rwa [hreads.start_eq, Window.bytes_whole, Nat.sub_zero] at hrest

/-- The replacement text of a definition lies in the file that a frame reads directly, behind all
that comes before it. -/
theorem body_in_file {f : Frame} {w : Window} (hw : r.visited.window f.visit = .ok w)
    (hreads : f.Reads w) {file : Nat} (hfile : r.fileOf? f = some file) {before bs after : Bytes}
    (hrest : f.rest = before ++ (bs ++ after)) (hafter : Whole after) {d : Definition}
    (hd : d.Cuts bs) : ∃ source lead trail, r.visited.files.get? file = some source ∧
      Text.bytes source.contents = lead ++ (d.body ++ trail) ∧
      lead.length = f.pos + before.length + d.start ∧ Whole trail := by
  obtain ⟨source, hsource, -, hpos, hcontents⟩ := rest_of_fileOf? hw hreads hfile
  obtain ⟨lead, trail, hbs, hlead, htrail⟩ := hd.place
  refine ⟨source, (Text.bytes source.contents).take f.pos ++ (before ++ lead), trail ++ after,
    hsource, ?_, ?_, htrail.append hafter⟩
  · rw [List.append_assoc, List.append_assoc, ← List.append_assoc d.body, ← List.append_assoc lead,
      ← hbs, ← hrest, hcontents, List.take_append_drop]
  · rw [List.length_append, List.length_append, List.length_take, hlead]
    omega

/-- Registering a definition that stands `offset` bytes behind the next byte of a frame. -/
theorem register_directed {f : Frame} {w : Window} (hw : r.visited.window f.visit = .ok w)
    (hreads : f.Reads w) (henabled : r.registerDefines = true) {before bs after : Bytes}
    (hrest : f.rest = before ++ (bs ++ after)) (hafter : Whole after) {d : Definition}
    (hd : d.Cuts bs) :
    ∃ r', r.register f (f.pos + before.length) d = .ok r' ∧ r.Directed r' := by
  obtain ⟨name, hname, -⟩ := hd.name.ofBytes?
  obtain ⟨params, hparams⟩ := mapM_ofBytes? hd.params
  obtain ⟨joined, hjoined, -⟩ := (Definition.joinLines_whole d.body [] hd.body).ofBytes?
  rw [List.nil_append] at hjoined
  have hliteral : ∀ text params, ∃ r',
      Except.ok { r with
        visited := (r.visited.addBody ⟨name, .literal text, d.params?.isSome, params⟩).2
        macros := r.macros.insert name r.visited.bodies.size } = Except.ok (ε := Halt) r' ∧
      r.Directed r' := by
    intro text params
    exact ⟨_, rfl, .define _ _ henabled rfl (Window.sound_whole text)⟩
  unfold register
  rw [hname, hparams]
  simp only [Halt.require_some, bind, Except.bind]
  cases hfile : r.fileOf? f with
  | none =>
    simp only [hjoined, Halt.require_some, pure, Except.pure]
    exact hliteral joined params
  | some file =>
    cases hescaped : d.body.contains Byte.backslash with
    | true =>
      simp only [hjoined, Halt.require_some, pure, Except.pure]
      exact hliteral joined params
    | false =>
      obtain ⟨source, lead, trail, hsource, hbytes, hlength, htrail⟩ :=
        body_in_file hw hreads hfile hrest hafter hd
      have hsound := Window.sound_of_append hbytes hd.body htrail
      rw [hlength] at hsound
      refine ⟨_, rfl, .define _ _ henabled ?_ hsound⟩
      show (Halt.require (r.visited.files.get? file) >>= _) = _
      rw [hsource]
      rfl

/-- Where the operand of a directive lies, which stands at the next byte of a frame, and that it is
whole. -/
theorem operand_split {f : Frame} {w : Window} (hreads : f.Reads w) {scan : Scan}
    (hfits : scan.Fits f.rest) {n : Nat}
    (hn : scan.effect = .undefine n ∨ scan.effect = .define n) :
    (f.rest.take n).length = n ∧ Whole ((f.rest.take scan.len).drop n) ∧
      f.rest = f.rest.take n ++ ((f.rest.take scan.len).drop n ++ f.rest.drop scan.len) := by
  obtain ⟨htaken, -⟩ := hreads.whole.cut hfits.cut
  obtain ⟨hrun, hle⟩ := hfits.operand n hn
  refine ⟨?_, ?_, ?_⟩
  · rw [List.length_take]
    exact Nat.min_eq_left hrun.le
  · refine (htaken.cut (AsciiRun.cut (n := n) ⟨?_, ?_⟩)).2
    · rw [List.length_take]
      exact Nat.le_min.2 ⟨hle, hrun.le⟩
    · rw [List.take_take, Nat.min_eq_left hle]
      exact hrun.ascii
  · have hfront : f.rest.take n = (f.rest.take scan.len).take n := by
      rw [List.take_take, Nat.min_eq_left hle]
    rw [hfront, ← List.append_assoc, List.take_append_drop, List.take_append_drop]

/-- A directive can always be performed.  It stands at the next byte of a frame and has the bytes
that a scan says. -/
theorem perform_directed {f : Frame} {w : Window} (hw : r.visited.window f.visit = .ok w)
    (hreads : f.Reads w) {scan : Scan} (hfits : scan.Fits f.rest) (text : String) :
    ∃ r', r.perform f text (f.rest.take scan.len) scan.effect = .ok r' ∧ r.Directed r' := by
  obtain ⟨-, hafter⟩ := hreads.whole.cut hfits.cut
  unfold perform
  split
  · exact ⟨_, rfl, .inclusions _⟩
  · exact ⟨_, rfl, .inclusions _⟩
  next offset heffect =>
    obtain ⟨-, hwhole, -⟩ := operand_split hreads hfits (.inl heffect)
    obtain ⟨rest, hrest, -⟩ := hwhole.ofBytes?
    split
    · rw [hrest]
      simp only [Halt.require_some, bind, Except.bind]
      split
      · exact ⟨_, rfl, .undefine _⟩
      · exact ⟨_, rfl, .inclusions _⟩
    · exact ⟨_, rfl, .inclusions _⟩
  next offset heffect =>
    obtain ⟨hlength, hwhole, hsplit⟩ := operand_split hreads hfits (.inr heffect)
    split
    next henabled =>
      split
      next d hd =>
        have hcuts := Definition.parse?_whole hwhole hd
        have hregister := register_directed hw hreads henabled hsplit hafter hcuts
        rwa [hlength] at hregister
      next => exact ⟨_, rfl, .inclusions _⟩
    next => exact ⟨_, rfl, .inclusions _⟩

/-! ## Moves -/

/-- A stretch of the top frame is passed, which may define a macro. -/
structure Passes (r : Reader) (top : Frame) (below : List Frame) (n : Nat) (r' : Reader) :
    Prop where
  /-- The frame that the stretch is read from. -/
  frames : r.frames = top :: below
  /-- Something is passed. -/
  pos : 0 < n
  /-- The stretch lies in the frame. -/
  le : n ≤ top.rest.length
  /-- The frame stands behind the stretch. -/
  frames_eq : r'.frames = top.advance n :: below
  /-- The top frame ends where it did. -/
  endLoc_eq : r'.endLoc = r.endLoc
  /-- At most one body is added. -/
  visited : r'.visited = r.visited ∨
    r.registerDefines = true ∧ ∃ body, r'.visited = (r.visited.addBody body).2
  /-- Whether definitions take effect does not change. -/
  registerDefines_eq : r'.registerDefines = r.registerDefines
  /-- How a `>` is read does not change. -/
  closeAnglesOnly_eq : r'.closeAnglesOnly = r.closeAnglesOnly

/-- The name of a macro is passed, with its arguments, and the macro is entered. -/
structure Enters (r : Reader) (top : Frame) (below : List Frame) (n body : Nat) (w : Window)
    (r' : Reader) : Prop where
  /-- The frame that the name is read from. -/
  frames : r.frames = top :: below
  /-- Something is passed. -/
  pos : 0 < n
  /-- The use of the macro lies in the frame. -/
  le : n ≤ top.rest.length
  /-- The body exists. -/
  body_lt : body < r.visited.bodies.size
  /-- The macro is not being expanded yet. -/
  inactive : body ∉ active r.frames
  /-- The frame stands behind the use, and there is a new frame above it. -/
  frames_eq : r'.frames =
    Frame.ofWindow r.visited.visits.size (some body) w :: top.advance n :: below
  /-- The new frame starts where the name stands. -/
  endLoc_eq : r'.endLoc = r.locOf top + w.bytes.length
  /-- A visit and an entry are added. -/
  visited : ∃ filled, r'.visited =
    (r.visited.addVisit (.expansion body top.visit ((top.pos - top.start) % offsetRange)
      filled)).2.addEntry ⟨r.locOf top, r.visited.visits.size, 0⟩
  /-- The new frame has the text of the visit. -/
  window : r'.visited.window r.visited.visits.size = .ok w
  /-- The text is all there. -/
  sound : w.Sound
  /-- Whether definitions take effect does not change. -/
  registerDefines_eq : r'.registerDefines = r.registerDefines
  /-- How a `>` is read does not change. -/
  closeAnglesOnly_eq : r'.closeAnglesOnly = r.closeAnglesOnly

/-- A token is the start of what a frame has yet to be read, and it was read from there. -/
structure Spells (token : Token) (loc : LinearLoc) (rest : Bytes) (n : Nat) : Prop where
  /-- The place of the token. -/
  loc_eq : token.loc = loc
  /-- The text of the token comes first. -/
  text : Text.bytes token.text <+: rest.take n
  /-- The text is not empty. -/
  ne_nil : Text.bytes token.text ≠ []
  /-- The token does not stand for the end of the file. -/
  not_end : token.kind ≠ .endOfFile
  /-- The token does not stand for the use of a macro. -/
  not_use : token.kind ≠ .macroUse

/-- What a step can do. -/
inductive Move (r : Reader) : Option Token → Reader → Prop
  /-- There is nothing left to be read. -/
  | ended (frames : r.frames = []) : Move r (some ⟨r.endLoc, .endOfFile, ""⟩) r
  /-- The top frame has been read to its end and is taken off. -/
  | left {top : Frame} {below : List Frame} (frames : r.frames = top :: below)
      (rest : top.rest = []) : Move r none (r.leave below)
  /-- A stretch of the top frame is passed. -/
  | passed {top : Frame} {below : List Frame} {n : Nat} {token? : Option Token} {r' : Reader}
      (passes : r.Passes top below n r')
      (spells : ∀ token ∈ token?, Spells token (r.locOf top) top.rest n) : Move r token? r'
  /-- A macro is entered. -/
  | entered {top : Frame} {below : List Frame} {n body : Nat} {w : Window} {r' : Reader}
      {name : String} (enters : r.Enters top below n body w r')
      (spells : Text.bytes name <+: top.rest) :
      Move r (some ⟨r.locOf top, .macroUse, name⟩) r'

/-! ## Steps -/

/-- A name stands for a macro that exists and is not being expanded. -/
theorem Sound.activeMacro? (h : r.Sound) {name : String} {body : Nat}
    (hname : r.activeMacro? name = some body) :
    body < r.visited.bodies.size ∧ body ∉ active r.frames := by
  unfold Reader.activeMacro? at hname
  split at hname
  next body' hfind =>
    split at hname
    · cases hname
    next hnone =>
      cases hname
      refine ⟨h.macros _ (MacroTable.mem_of_find? hfind), ?_⟩
      intro hmem
      obtain ⟨f, hf, hbody⟩ := List.mem_filterMap.1 hmem
      exact hnone (List.any_eq_true.2 ⟨f, hf, by rw [hbody]; exact beq_self_eq_true _⟩)
  · cases hname

/-- What an expansion gives and what it leads to. -/
theorem entered_of_expand {body callSite : Nat} {name : String} {loc : LinearLoc} {parent : Frame}
    {t : Token} (h : r.expand body name loc parent callSite = .ok (t, r')) :
    t = ⟨loc, .macroUse, name⟩ ∧ ∃ filled w, r' =
      { r with
        visited := (r.visited.addVisit
          (.expansion body parent.visit (callSite % offsetRange) filled)).2 }.enter
        (Frame.ofWindow r.visited.visits.size (some body) w) loc := by
  unfold Reader.expand at h
  obtain ⟨definition, -, h⟩ := Halt.bind_eq_ok h
  split at h
  · obtain ⟨filled, -, h⟩ := Halt.bind_eq_ok h
    obtain ⟨w, -, h⟩ := Halt.bind_eq_ok h
    cases h
    exact ⟨rfl, filled, w, rfl⟩
  · obtain ⟨text, -, h⟩ := Halt.bind_eq_ok h
    obtain ⟨filled, -, h⟩ := Halt.bind_eq_ok h
    obtain ⟨filled?, -, h⟩ := Halt.bind_eq_ok h
    obtain ⟨w, -, h⟩ := Halt.bind_eq_ok h
    cases h
    exact ⟨rfl, filled?, w, rfl⟩

/-- An expansion can always be made. -/
theorem Sound.expand (h : r.Sound) (hframes : r.frames = top :: below) {body : Nat}
    (hbody : body < r.visited.bodies.size) (name : String) (loc : LinearLoc) (callSite : Nat) :
    ∃ filled w,
      (r.visited.addVisit (.expansion body top.visit (callSite % offsetRange) filled)).2.window
        r.visited.visits.size = .ok w ∧ w.Sound ∧
      r.expand body name loc top callSite = .ok (⟨loc, .macroUse, name⟩,
        { r with
          visited := (r.visited.addVisit
            (.expansion body top.visit (callSite % offsetRange) filled)).2 }.enter
          (Frame.ofWindow r.visited.visits.size (some body) w) loc) := by
  obtain ⟨b, -, hb, -⟩ := h.visited.body hbody
  obtain ⟨text, htext⟩ := h.visited.bodyText hbody
  have hstacked := h.stacked
  rw [hframes] at hstacked
  -- whatever text the visit has, it has a sound window
  have hmade : ∀ filled, ∃ w,
      (r.visited.addVisit (.expansion body top.visit (callSite % offsetRange) filled)).2.window
        r.visited.visits.size = .ok w ∧ w.Sound := by
    intro filled
    have hsound := h.visited.addExpansion (callSite % offsetRange) filled hbody hstacked.visit_lt
    refine hsound.window ?_
    show _ < (r.visited.visits.push _).size
    rw [Array.size_push]
    exact Nat.lt_succ_self _
  unfold Reader.expand
  rw [hb]
  by_cases hparams : b.params = []
  · obtain ⟨w, hw, hsound⟩ := hmade none
    refine ⟨none, w, hw, hsound, ?_⟩
    simp only [Halt.require_some, hparams, if_true, bind, Except.bind, pure, Except.pure,
      Visited.fst_addVisit, hw]
  · obtain ⟨filled, hfilled⟩ :=
      Substitution.substitute_ok b.params (r.args.map Token.text) text
    obtain ⟨w, hw, hsound⟩ := hmade (some filled)
    refine ⟨_, w, hw, hsound, ?_⟩
    simp only [Halt.require_some, hparams, if_false, htext, hfilled, bind, Except.bind, pure,
      Except.pure, Visited.fst_addVisit, hw]

/-- Places in arguments that were found can be turned into tokens. -/
theorem mapM_arguments {arguments : List (Nat × Bytes)} (h : ∀ a ∈ arguments, Whole a.2)
    (base : LinearLoc) : ∃ args, (arguments.mapM fun ((offset, bs) : Nat × Bytes) => do
      let text ← Halt.require (Text.ofBytes? bs)
      return (⟨base + offset, .macroArgument, text⟩ : Token)) = Except.ok args := by
  induction arguments with
  | nil => exact ⟨[], rfl⟩
  | cons a arguments ih =>
    obtain ⟨offset, bs⟩ := a
    obtain ⟨text, htext, -⟩ := (h _ List.mem_cons_self).ofBytes?
    obtain ⟨args, hargs⟩ := ih fun a ha => h a (List.mem_cons_of_mem _ ha)
    refine ⟨⟨base + offset, .macroArgument, text⟩ :: args, ?_⟩
    rw [List.mapM_cons, hargs]
    simp only [htext, Halt.require_some]
    rfl

/-- What reading the name at the start of the top frame does.  It stands `n` bytes before what is
passed already. -/
inductive Named (r : Reader) (top : Frame) (below : List Frame) (n : Nat) (name : String) :
    Token → Reader → Prop
  /-- The name stands for itself, and perhaps more is passed. -/
  | plain {m : Nat} {r' : Reader} (le : n ≤ m) (passes : r.Passes top below m r') :
      Named r top below n name ⟨r.locOf top, .identifier, name⟩ r'
  /-- The name is that of a macro, which is entered. -/
  | use {m body : Nat} {w : Window} {r' : Reader} (enters : r.Enters top below m body w r') :
      Named r top below n name ⟨r.locOf top, .macroUse, name⟩ r'

/-- Entering a macro with some arguments, once its use has been passed. -/
theorem Passes.expand {n body : Nat} (hpasses : r.Passes top below n r')
    (hvisited : r'.visited = r.visited) (hsound : r'.Sound)
    (hbody : body < r.visited.bodies.size) (hinactive : body ∉ active r.frames) (parent : Frame)
    (hparent : parent.visit = top.visit) (name : String) :
    ∃ t r'', r'.expand body name (r.locOf top) parent (top.pos - top.start) = .ok (t, r'') ∧
      r''.Sound ∧ t = ⟨r.locOf top, .macroUse, name⟩ ∧ ∃ w, r.Enters top below n body w r'' := by
  have hactive : active r'.frames = active r.frames := by
    rw [hpasses.frames_eq, hpasses.frames, active_advance]
  have hparent' : r'.expand body name (r.locOf top) parent (top.pos - top.start) =
      r'.expand body name (r.locOf top) (top.advance n) (top.pos - top.start) := by
    unfold Reader.expand
    rw [hparent]
    rfl
  rw [← hvisited] at hbody
  rw [← hactive] at hinactive
  obtain ⟨filled, w, hw, hwsound, heq⟩ :=
    hsound.expand hpasses.frames_eq hbody name (r.locOf top) (top.pos - top.start)
  rw [hparent', heq]
  refine ⟨_, _, rfl, ?_, rfl, w, ?_⟩
  · exact hsound.enter hpasses.frames_eq hbody hinactive _ filled hw hwsound _
  · have hframe := Frame.reads_ofWindow r'.visited.visits.size (some body) hwsound
    refine ⟨hpasses.frames, hpasses.pos, hpasses.le, ?_, ?_, ?_, ?_, ⟨filled, ?_⟩, ?_, hwsound,
      hpasses.registerDefines_eq, hpasses.closeAnglesOnly_eq⟩
    · rwa [hvisited] at hbody
    · rwa [hactive] at hinactive
    · show _ :: r'.frames = _
      rw [hpasses.frames_eq, hvisited]
    · show r.locOf top + _ = _
      rw [hframe.remaining]
      rfl
    · rw [← hvisited]
      rfl
    · rw [← hvisited]
      exact (Visited.extends_addEntry _ _).window hw

/-- Reading a name always has an answer. -/
theorem Sound.readName (h : r.Sound) {n : Nat} (hpasses : r.Passes top below n r')
    (hvisited : r'.visited = r.visited) (hsound : r'.Sound) (name : String) :
    ∃ t r'', r'.readName (top.advance n) below top.pos (r.locOf top) name = .ok (t, r'') ∧
      r''.Sound ∧ r.Named top below n name t r'' := by
  have hactive : active r'.frames = active r.frames := by
    rw [hpasses.frames_eq, hpasses.frames, active_advance]
  obtain ⟨w, hw, hreads⟩ := hsound.window hpasses.frames_eq
  obtain ⟨_, _, htop⟩ := h.window hpasses.frames
  have hpos := hpasses.pos
  have hle := hpasses.le
  have hlength : (top.advance n).rest.length = top.rest.length - n := List.length_drop
  -- more of the top frame may be passed before the name is dealt with
  have hmore : ∀ (r₁ : Reader) (m : Nat), m ≤ (top.advance n).rest.length →
      Whole ((top.advance n).rest.drop m) → r₁.visited = r'.visited →
      r₁.frames = (top.advance n).advance m :: below → r₁.macros = r'.macros →
      r₁.endLoc = r'.endLoc → r₁.registerDefines = r'.registerDefines →
      r₁.closeAnglesOnly = r'.closeAnglesOnly → r₁.Sound ∧ r.Passes top below (n + m) r₁ := by
    intro r₁ m hm hwhole hvisited₁ hframes₁ hmacros₁ hendLoc₁ hregister₁ hclose₁
    refine ⟨hsound.advance hpasses.frames_eq hm hwhole hvisited₁ hframes₁ hmacros₁,
      hpasses.frames, by omega, by omega, ?_, hendLoc₁.trans hpasses.endLoc_eq,
      .inl (hvisited₁.trans hvisited), hregister₁.trans hpasses.registerDefines_eq,
      hclose₁.trans hpasses.closeAnglesOnly_eq⟩
    rw [hframes₁, Frame.advance_advance _ _ _ htop.missing_eq]
  unfold Reader.readName
  split
  · exact ⟨_, _, rfl, hsound, .plain (Nat.le_refl n) hpasses⟩
  next body hbody =>
    obtain ⟨hlt, hinactive⟩ := hsound.activeMacro? hbody
    obtain ⟨b, -, hb, -⟩ := hsound.visited.body hlt
    rw [hb]
    simp only [Halt.require_some, bind, Except.bind]
    have hpasses₀ : r.Passes top below n { r' with args := [] } :=
      ⟨hpasses.frames, hpasses.pos, hpasses.le, hpasses.frames_eq, hpasses.endLoc_eq,
        hpasses.visited, hpasses.registerDefines_eq, hpasses.closeAnglesOnly_eq⟩
    have hsound₀ : { r' with args := [] }.Sound := hsound.congr rfl rfl rfl
    rw [hvisited] at hlt
    rw [hactive] at hinactive
    split
    · rw [hreads.missing_eq]
      split
      · -- no parenthesis follows
        rw [show (top.advance n).lacks _ = false by simp [Frame.lacks, hreads.missing_eq]]
        exact ⟨_, _, rfl, hsound₀, .plain (Nat.le_refl n) hpasses₀⟩
      next fault looked _ =>
        -- the arguments do not end
        rw [show (top.advance n).lacks looked = false by simp [Frame.lacks, hreads.missing_eq]]
        obtain ⟨hsound₁, hpasses₁⟩ := hmore
          { r' with
            args := []
            frames := (top.advance n).finish :: below
            errors := r'.errors ++ [fault.locate ({ r' with args := [] }.locOf (top.advance n))] }
          (top.advance n).rest.length (Nat.le_refl _) (by rw [List.drop_length]; exact .nil) rfl
          (by rw [hreads.finish]) rfl rfl rfl rfl
        exact ⟨_, _, rfl, hsound₁, .plain (Nat.le_add_right _ _) hpasses₁⟩
      next arguments stop hfound =>
        have hcuts := Arguments.read_whole hreads.whole hfound
        obtain ⟨args, hargs⟩ := mapM_arguments hcuts.whole ({ r' with args := [] }.locOf (top.advance n))
        obtain ⟨hsound₁, hpasses₁⟩ := hmore
          { r' with args, frames := (top.advance n).advance stop :: below } stop
          (by have := hcuts.le; omega) hcuts.rest rfl rfl rfl rfl rfl rfl
        obtain ⟨t, r'', heq, hsound', rfl, w, henters⟩ :=
          hpasses₁.expand hvisited hsound₁ hlt hinactive (top.advance n) rfl name
        refine ⟨_, _, ?_, hsound', .use henters⟩
        simp only [bind, Except.bind] at hargs
        simp only [hargs]
        exact heq
    · obtain ⟨t, r'', heq, hsound', rfl, w, henters⟩ :=
        hpasses₀.expand hvisited hsound₀ hlt hinactive (top.advance n) rfl name
      exact ⟨_, _, heq, hsound', .use henters⟩

/-- A directive that stands in what is passed. -/
theorem Passes.directed {n : Nat} (h : r.Passes top below n r') (hvisited : r'.visited = r.visited)
    {r'' : Reader} (hdirected : r'.Directed r'') : r.Passes top below n r'' := by
  have hregister := h.registerDefines_eq
  have hclose := h.closeAnglesOnly_eq
  cases hdirected with
  | inclusions _ | undefine _ =>
    exact ⟨h.frames, h.pos, h.le, h.frames_eq, h.endLoc_eq, h.visited, hregister, hclose⟩
  | define body name henabled _ _ =>
    rw [hregister] at henabled
    exact ⟨h.frames, h.pos, h.le, h.frames_eq, h.endLoc_eq,
      .inr ⟨henabled, body, congrArg (fun v => (Visited.addBody v body).2) hvisited⟩,
      hregister, hclose⟩

/-- The reader behind a lexeme of the top frame, before anything is done with the lexeme. -/
def behind (r : Reader) (scan : Scan) (top : Frame) (below : List Frame) : Reader :=
  { r with
    frames := top.advance scan.len :: below
    lineStart := scan.lineStart
    errors := r.errors ++ scan.faults.map (Fault.locate (r.locOf top)) }

/-- What is done with a lexeme of the top frame, if the window has all of its text. -/
def deal (r : Reader) (scan : Scan) (top : Frame) (below : List Frame) :
    Except Halt (Option Token × Reader) :=
  match scan.kind? with
  | none => .ok (none, r.behind scan top below)
  | some kind => do
    let text ← Halt.require (Text.ofBytes? (top.rest.take scan.len))
    let r' ← (r.behind scan top below).perform top text (top.rest.take scan.len) scan.effect
    if kind = .identifier then
      let (token, r'') ←
        r'.readName (top.advance scan.len) below top.pos (r.locOf top) text
      return (some token, r'')
    else
      return (some ⟨r.locOf top, kind, text⟩, r')

/-- The first lexeme is dealt with if looking at it does not go past the end of the text. -/
theorem take_eq_deal_of_lacks {b : UInt8} {bs : Bytes} {scan : Scan} (hrest : top.rest = b :: bs)
    (hscan : Lexeme.scanFrom r.closeAnglesOnly r.lineStart top.missing b bs = scan) (hpos : 0 < scan.len)
    (hlacks : top.lacks scan.seen = false) : r.take top below b bs = r.deal scan top below := by
  have hbytes : top.rest.take scan.len = b :: bs.take (scan.len - 1) := by
    rw [hrest, List.take_cons hpos]
  have hadvance : ({ top.advance scan.len with rest := bs.drop (scan.len - 1) } : Frame) =
      top.advance scan.len := by
    rw [Frame.advance, hrest]
    simp only [Frame.mk.injEq, true_and, and_true]
    rw [← List.drop_succ_cons (a := b), Nat.sub_add_cancel hpos]
  unfold Reader.take deal
  rw [hscan, hbytes]
  simp only [hadvance, hlacks, bind, Except.bind, pure, Except.pure, if_neg Bool.false_ne_true]
  rfl

theorem take_eq_deal {b : UInt8} {bs : Bytes} {scan : Scan} (hrest : top.rest = b :: bs)
    (hmissing : top.missing = 0)
    (hscan : Lexeme.scanFrom r.closeAnglesOnly r.lineStart 0 b bs = scan) :
    r.take top below b bs = r.deal scan top below := by
  have hpos : 0 < scan.len := by
    rw [← hscan]
    exact (Lexeme.fits_scanFrom r.closeAnglesOnly r.lineStart b bs).pos
  exact take_eq_deal_of_lacks hrest (by rwa [hmissing]) hpos (by simp [Frame.lacks, hmissing])

theorem step_eq_take (hframes : r.frames = top :: below) {b : UInt8} {bs : Bytes}
    (hrest : top.rest = b :: bs) : r.step = r.take top below b bs := by
  unfold Reader.step
  rw [hframes]
  simp only
  rw [hrest]

/-- A step that finds text in the top frame deals with the first lexeme of it. -/
theorem step_eq_deal (hframes : r.frames = top :: below) {b : UInt8} {bs : Bytes} {scan : Scan}
    (hrest : top.rest = b :: bs) (hmissing : top.missing = 0)
    (hscan : Lexeme.scanFrom r.closeAnglesOnly r.lineStart 0 b bs = scan) :
    r.step = r.deal scan top below :=
  (step_eq_take hframes hrest).trans (take_eq_deal hrest hmissing hscan)

/-- Dealing with a lexeme always has an answer. -/
theorem Sound.deal (h : r.Sound) (hframes : r.frames = top :: below) {scan : Scan}
    (hfits : scan.Fits top.rest) :
    ∃ t? r', r.deal scan top below = .ok (t?, r') ∧ r'.Sound ∧ r.Move t? r' := by
  obtain ⟨w, hw, hreads⟩ := h.window hframes
  obtain ⟨htaken, hafter⟩ := hreads.whole.cut hfits.cut
  have hpos := hfits.pos
  have hpasses : r.Passes top below scan.len (r.behind scan top below) :=
    ⟨hframes, hpos, hfits.le, rfl, rfl, .inl rfl, rfl, rfl⟩
  have hsound₁ : (r.behind scan top below).Sound :=
    h.advance hframes hfits.le hafter rfl rfl rfl
  unfold Reader.deal
  split
  · exact ⟨_, _, rfl, hsound₁, .passed hpasses (by simp)⟩
  next kind hkind =>
    obtain ⟨text, htext, htextBytes⟩ := htaken.ofBytes?
    obtain ⟨hnotEnd, hnotUse⟩ := hfits.lexical kind hkind
    have hne : Text.bytes text ≠ [] := by
      rw [htextBytes, ← List.length_pos_iff, List.length_take]
      exact Nat.lt_min.2 ⟨hpos, Nat.lt_of_lt_of_le hpos hfits.le⟩
    obtain ⟨r₂, hr₂, hdirected⟩ :=
      perform_directed (r := r.behind scan top below) hw hreads hfits text
    simp only [htext, Halt.require_some, hr₂, bind, Except.bind]
    split
    next hname =>
      have heffect := hfits.passive (by rw [hkind, hname]; decide)
      rw [heffect] at hr₂
      cases hr₂
      obtain ⟨t, r', heq, hsound', hnamed⟩ := h.readName hpasses rfl hsound₁ text
      rw [heq]
      refine ⟨_, _, rfl, hsound', ?_⟩
      cases hnamed with
      | plain hle hpasses' =>
        refine .passed hpasses' ?_
        intro t ht
        cases ht
        refine ⟨rfl, ?_, hne, TokenKind.noConfusion, TokenKind.noConfusion⟩
        show Text.bytes text <+: _
        rw [htextBytes]
        exact List.take_prefix_take_left hle
      | use henters =>
        refine .entered henters ?_
        rw [htextBytes]
        exact List.take_prefix _ _
    next =>
      refine ⟨_, _, rfl, hdirected.sound hsound₁, ?_⟩
      refine .passed (hpasses.directed rfl hdirected) ?_
      intro t ht
      cases ht
      refine ⟨rfl, ?_, hne, hnotEnd, hnotUse⟩
      rw [htextBytes]

/-- A step of a sound reader always has an answer, and it is one of the moves. -/
theorem Sound.step (h : r.Sound) :
    ∃ t? r', r.step = .ok (t?, r') ∧ r'.Sound ∧ r.Move t? r' := by
  unfold Reader.step
  split
  next hframes => exact ⟨_, _, rfl, h, .ended hframes⟩
  next top below hframes =>
    split
    next hrest =>
      obtain ⟨w, -, hreads⟩ := h.window hframes
      rw [if_pos hreads.missing_eq]
      exact ⟨_, _, rfl, h.leave hframes, .left hframes hrest⟩
    next b bs hrest =>
      obtain ⟨w, -, hreads⟩ := h.window hframes
      rw [take_eq_deal hrest hreads.missing_eq rfl]
      exact h.deal hframes (by rw [hrest]; exact Lexeme.fits_scanFrom _ _ b bs)

/-! ## Tokens -/

/-- Steps that give no token. -/
inductive Skips : Reader → Reader → Prop
  | refl (r : Reader) : Skips r r
  | step {r₁ r₂ r₃ : Reader} (step : r₁.step = .ok (none, r₂)) (rest : Skips r₂ r₃) : Skips r₁ r₃

theorem readToken_eq (r : Reader) : r.readToken =
    match r.step with
    | .error e => .error e
    | .ok (some token, r') => .ok (token, r')
    | .ok (none, r') => r'.readToken := by
  rw [readToken]
  split <;> simp_all

/-- A token is read by a step that comes after steps that give none. -/
theorem readToken_eq_ok_iff {t : Token} :
    r.readToken = .ok (t, r') ↔ ∃ before, Skips r before ∧ before.step = .ok (some t, r') := by
  constructor
  · intro h
    induction hunread : r.unread using Nat.strongRecOn generalizing r with
    | ind n ih =>
      rw [readToken_eq] at h
      split at h
      · cases h
      next token r₁ hstep =>
        cases h
        exact ⟨r, .refl r, hstep⟩
      next r₁ hstep =>
        have hlt := unread_lt_of_step hstep
        obtain ⟨before, hskips, hlast⟩ := ih r₁.unread (by omega) h rfl
        exact ⟨before, .step hstep hskips, hlast⟩
  · rintro ⟨before, hskips, hstep⟩
    induction hskips with
    | refl r => rw [readToken_eq, hstep]
    | step hfirst _ ih =>
      rw [readToken_eq, hfirst]
      exact ih hstep

/-- What a move keeps is kept by all steps that give no token. -/
theorem Skips.keeps {P : Reader → Prop}
    (hmove : ∀ {r r' : Reader} {t? : Option Token}, r.Sound → r.Move t? r' → P r → P r')
    (h : Skips r r') (hsound : r.Sound) (hr : P r) : r'.Sound ∧ P r' := by
  induction h with
  | refl r => exact ⟨hsound, hr⟩
  | step hstep _ ih =>
    obtain ⟨t?, r₂, heq, hsound₂, hm⟩ := hsound.step
    rw [hstep] at heq
    cases heq
    exact ih hsound₂ (hmove hsound hm hr)

/-- A sound reader always has a next token. -/
theorem Sound.readToken (h : r.Sound) : ∃ t r', r.readToken = .ok (t, r') ∧ r'.Sound := by
  induction hunread : r.unread using Nat.strongRecOn generalizing r with
  | ind n ih =>
    obtain ⟨t?, r₁, hstep, hsound, -⟩ := h.step
    rw [readToken_eq, hstep]
    cases t? with
    | some t => exact ⟨t, r₁, rfl, hsound⟩
    | none =>
      have hlt := unread_lt_of_step hstep
      exact ih r₁.unread (by omega) hsound rfl

/-- A reader that is at the end stays there. -/
theorem step_of_frames_nil (h : r.frames = []) :
    r.step = .ok (some ⟨r.endLoc, .endOfFile, ""⟩, r) := by
  rw [Reader.step, h]

/-- A frame that has been read to its end is taken off. -/
theorem step_of_rest_nil (hframes : r.frames = top :: below) (hrest : top.rest = [])
    (hmissing : top.missing = 0) : r.step = .ok (none, r.leave below) := by
  simp [Reader.step, hframes, hrest, hmissing]

/-! ## What a step did -/

/-- How a name was read. -/
inductive NameRead (r : Reader) (top : Frame) (below : List Frame) (start : Nat) (loc : LinearLoc)
    (name : String) : Token → Reader → Prop
  /-- The name stands for itself. -/
  | plain : NameRead r top below start loc name ⟨loc, .identifier, name⟩ r
  /-- The macro takes arguments, and there are none. -/
  | missing {looked : Nat} (arguments : Arguments.read top.missing top.rest = .missing looked) :
      NameRead r top below start loc name ⟨loc, .identifier, name⟩ { r with args := [] }
  /-- The arguments break off. -/
  | unfinished {fault : Fault} {looked : Nat}
      (arguments : Arguments.read top.missing top.rest = .unfinished fault looked) :
      NameRead r top below start loc name ⟨loc, .identifier, name⟩
        { r with
          args := [], frames := top.finish :: below
          errors := r.errors ++ [fault.locate (r.locOf top)] }
  /-- The macro is used with arguments. -/
  | used {body stop : Nat} {found : List (Nat × Bytes)} {args : List Token} {t : Token} {r' : Reader}
      (arguments : Arguments.read top.missing top.rest = .found found stop)
      (texts : (found.mapM fun ((offset, bs) : Nat × Bytes) => do
        let text ← Halt.require (Text.ofBytes? bs)
        return (⟨r.locOf top + offset, .macroArgument, text⟩ : Token)) = .ok args)
      (expands : { r with args, frames := top.advance stop :: below }.expand body name loc top
        (start - top.start) = .ok (t, r')) : NameRead r top below start loc name t r'
  /-- The macro takes no arguments and is used. -/
  | usedAlone {body : Nat} {t : Token} {r' : Reader}
      (expands : { r with args := [] }.expand body name loc top (start - top.start) = .ok (t, r')) :
      NameRead r top below start loc name t r'

theorem nameRead_of_readName {start : Nat} {loc : LinearLoc} {name : String} {t : Token}
    (h : r.readName top below start loc name = .ok (t, r')) :
    r.NameRead top below start loc name t r' := by
  unfold Reader.readName at h
  split at h
  · cases h
    exact .plain
  obtain ⟨definition, -, h⟩ := Halt.bind_eq_ok h
  simp only at h
  split at h
  · split at h
    next looked harguments =>
      split at h
      · cases h
      · cases h
        exact .missing harguments
    next fault looked harguments =>
      split at h
      · cases h
      · cases h
        exact .unfinished harguments
    next found stop harguments =>
      obtain ⟨args, hargs, hexpand⟩ := Halt.bind_eq_ok h
      exact .used harguments hargs hexpand
  · exact .usedAlone h

/-- A name gives an identifier or the use of a macro. -/
theorem NameRead.token_eq {start : Nat} {loc : LinearLoc} {name : String} {t : Token}
    (h : r.NameRead top below start loc name t r') :
    t = ⟨loc, .identifier, name⟩ ∨ t = ⟨loc, .macroUse, name⟩ := by
  cases h with
  | plain | missing _ | unfinished _ => exact .inl rfl
  | used _ _ hexpand => exact .inr (entered_of_expand hexpand).1
  | usedAlone hexpand => exact .inr (entered_of_expand hexpand).1

/-- How a lexeme of the top frame was dealt with. -/
inductive Dealt (r : Reader) (scan : Scan) (top : Frame) (below : List Frame) :
    Option Token → Reader → Prop
  /-- It is no token. -/
  | skipped (kind_eq : scan.kind? = none) : Dealt r scan top below none (r.behind scan top below)
  /-- It is a name. -/
  | name {text : String} {t : Token} {r' : Reader} (kind_eq : scan.kind? = some .identifier)
      (bytes_eq : Text.bytes text = top.rest.take scan.len)
      (read : (r.behind scan top below).NameRead (top.advance scan.len) below top.pos (r.locOf top)
        text t r') : Dealt r scan top below (some t) r'
  /-- It is another token, perhaps a directive. -/
  | token {kind : TokenKind} {text : String} {r' : Reader} (kind_eq : scan.kind? = some kind)
      (bytes_eq : Text.bytes text = top.rest.take scan.len)
      (performed : (r.behind scan top below).perform top text (top.rest.take scan.len) scan.effect =
        .ok r') : Dealt r scan top below (some ⟨r.locOf top, kind, text⟩) r'

theorem dealt_of_deal {scan : Scan} {t? : Option Token} (hfits : scan.Fits top.rest)
    (h : r.deal scan top below = .ok (t?, r')) : r.Dealt scan top below t? r' := by
  unfold Reader.deal at h
  split at h
  next hkind =>
    cases h
    exact .skipped hkind
  next kind hkind =>
    obtain ⟨text, htext, h⟩ := Halt.bind_eq_ok h
    obtain ⟨r₁, hperform, h⟩ := Halt.bind_eq_ok h
    have hbytes := Text.ofBytes?_eq_some_iff.1 (Halt.require_eq_ok htext)
    split at h
    next hname =>
      subst hname
      -- a name does nothing by itself
      rw [hfits.passive (by rw [hkind]; decide)] at hperform
      cases hperform
      obtain ⟨⟨t, r₂⟩, hread, h⟩ := Halt.bind_eq_ok h
      cases h
      exact .name hkind hbytes (nameRead_of_readName hread)
    next =>
      cases h
      exact .token hkind hbytes hperform

/-- What a step of a reader in order did. -/
inductive Stepped (r : Reader) : Option Token → Reader → Prop
  /-- There is nothing left to be read. -/
  | ended (frames : r.frames = []) : Stepped r (some ⟨r.endLoc, .endOfFile, ""⟩) r
  /-- The top frame has been read to its end. -/
  | left {top : Frame} {below : List Frame} (frames : r.frames = top :: below) (rest : top.rest = []) :
      Stepped r none (r.leave below)
  /-- The first lexeme of the top frame was dealt with. -/
  | lexeme {top : Frame} {below : List Frame} {b : UInt8} {bs : Bytes} {t? : Option Token}
      {r' : Reader} (frames : r.frames = top :: below) (rest : top.rest = b :: bs)
      (dealt : r.Dealt (Lexeme.scanFrom r.closeAnglesOnly r.lineStart 0 b bs) top below t? r') :
      Stepped r t? r'

theorem Sound.stepped {t? : Option Token} (h : r.Sound) (hstep : r.step = .ok (t?, r')) :
    r.Stepped t? r' := by
  cases hframes : r.frames with
  | nil =>
    rw [step_of_frames_nil hframes] at hstep
    cases hstep
    exact .ended hframes
  | cons top below =>
    obtain ⟨w, -, hreads⟩ := h.window hframes
    cases hrest : top.rest with
    | nil =>
      rw [step_of_rest_nil hframes hrest hreads.missing_eq] at hstep
      cases hstep
      exact .left hframes hrest
    | cons b bs =>
      rw [step_eq_deal hframes hrest hreads.missing_eq rfl] at hstep
      refine .lexeme hframes hrest (dealt_of_deal ?_ hstep)
      rw [hrest]
      exact Lexeme.fits_scanFrom _ _ b bs

/-! ## Reading a token -/

/-- The next token is that of the reader after a step that gives none. -/
theorem readToken_of_step (h : r.step = .ok (none, r')) : r.readToken = r'.readToken := by
  rw [readToken_eq, h]

theorem readToken_of_frames_nil (h : r.frames = []) :
    r.readToken = .ok (⟨r.endLoc, .endOfFile, ""⟩, r) := by
  rw [readToken_eq, step_of_frames_nil h]

/-- A lexeme that is no identifier and does nothing is read as one token. -/
theorem readToken_lexeme {b : UInt8} {bs : Bytes} {scan : Scan} (hframes : r.frames = top :: below)
    (hrest : top.rest = b :: bs) (hmissing : top.missing = 0)
    (hscan : Lexeme.scanFrom r.closeAnglesOnly r.lineStart 0 b bs = scan) {kind : TokenKind}
    (hkind : scan.kind? = some kind) (hplain : kind ≠ .identifier) (heffect : scan.effect = .nothing)
    {text : String} (htext : Text.bytes text = top.rest.take scan.len) :
    r.readToken = .ok (⟨r.locOf top, kind, text⟩, r.behind scan top below) := by
  refine readToken_eq_ok_iff.2 ⟨r, .refl r, (step_eq_deal hframes hrest hmissing hscan).trans ?_⟩
  rw [deal, hkind]
  simp only [Text.ofBytes?_eq_some_iff.2 htext, heffect, perform, if_neg hplain, Halt.require_some, bind,
    Except.bind]
  rfl

/-- If a lexeme that is no token takes all that there is of the last frame, the end of the file comes
next. -/
theorem readToken_skipped {b : UInt8} {bs : Bytes} {scan : Scan} (hframes : r.frames = [top])
    (hrest : top.rest = b :: bs) (hmissing : top.missing = 0)
    (hscan : Lexeme.scanFrom r.closeAnglesOnly r.lineStart 0 b bs = scan) (hkind : scan.kind? = none)
    (hlen : scan.len = top.rest.length) :
    ∃ r', r.readToken = .ok (⟨r'.endLoc, .endOfFile, ""⟩, r') ∧
      r'.errors = r.errors ++ scan.faults.map (Fault.locate (r.locOf top)) := by
  have hstep : r.step = .ok (none, r.behind scan top []) := by
    rw [step_eq_deal hframes hrest hmissing hscan, deal, hkind]
  have hstep' : (r.behind scan top []).step = .ok (none, (r.behind scan top []).leave []) := by
    refine step_of_rest_nil rfl ?_ ?_
    · show top.rest.drop scan.len = []
      rw [hlen, List.drop_length]
    · show top.missing - (scan.len - top.rest.length) = 0
      rw [hmissing, Nat.zero_sub]
  refine ⟨(r.behind scan top []).leave [], ?_, rfl⟩
  rw [readToken_of_step hstep, readToken_of_step hstep']
  exact readToken_of_frames_nil rfl

/-- Only a reader with nothing left to be read gives the end of the file. -/
theorem Sound.frames_nil_of_end (h : r.Sound) {token : Token}
    (hstep : r.step = .ok (some token, r')) (hend : token.kind = .endOfFile) :
    r' = r ∧ r.frames = [] := by
  obtain ⟨t?, r₁, heq, -, hmove⟩ := h.step
  rw [hstep] at heq
  cases heq
  generalize htoken : some token = t? at hmove
  cases hmove with
  | ended hframes => exact ⟨rfl, hframes⟩
  | left _ _ => cases htoken
  | passed _ hspells => exact absurd hend (hspells token (by rw [← htoken]; rfl)).not_end
  | entered _ _ =>
    cases htoken
    cases hend

/-- After the end of the file there is nothing left to be read, and it comes again and again. -/
theorem Sound.readToken_end (h : r.Sound) {token : Token} (hread : r.readToken = .ok (token, r'))
    (hend : token.kind = .endOfFile) : r'.frames = [] ∧ r'.readToken = .ok (token, r') := by
  obtain ⟨before, hskips, hstep⟩ := readToken_eq_ok_iff.1 hread
  have hsound := (hskips.keeps (P := fun _ => True) (fun _ _ _ => trivial) h trivial).1
  obtain ⟨rfl, hframes⟩ := hsound.frames_nil_of_end hstep hend
  exact ⟨hframes, by rw [readToken_eq, hstep]⟩

/-- Reading some tokens is reading the first one and then the others. -/
theorem readMany_succ_eq_ok_iff {count : Nat} {tokens : List Token} :
    r.readMany (count + 1) = .ok (tokens, r') ↔
      ∃ token r₁ rest, r.readToken = .ok (token, r₁) ∧ r₁.readMany count = .ok (rest, r') ∧
        tokens = token :: rest := by
  rw [readMany]
  constructor
  · intro h
    obtain ⟨⟨token, r₁⟩, hfirst, h⟩ := Halt.bind_eq_ok h
    obtain ⟨⟨rest, last⟩, hrest, h⟩ := Halt.bind_eq_ok h
    cases h
    exact ⟨token, r₁, rest, hfirst, hrest, rfl⟩
  · rintro ⟨token, r₁, rest, hfirst, hrest, rfl⟩
    rw [hfirst]
    simp only [bind, Except.bind, hrest]
    rfl

/-- Any number of tokens can be read. -/
theorem Sound.readMany (h : r.Sound) (count : Nat) :
    ∃ tokens r', r.readMany count = .ok (tokens, r') := by
  induction count generalizing r with
  | zero => exact ⟨[], r, rfl⟩
  | succ count ih =>
    obtain ⟨token, r₁, hread, hsound⟩ := h.readToken
    obtain ⟨tokens, r', hmany⟩ := ih hsound
    exact ⟨_, r', readMany_succ_eq_ok_iff.2 ⟨token, r₁, tokens, hread, hmany, rfl⟩⟩

/-! ## Starting -/

theorem sound_define (h : r.Sound) (d : Predefined) : (r.define d).Sound :=
  h.addMacro d.name rfl (Window.sound_whole d.text)

/-- A new reader is sound. -/
theorem sound_new (config : Configuration) : (new .empty config).Sound :=
  List.foldlRecOn config.predefined define
    ⟨Visited.sound_empty, by simp, .nil, by simp [active], by simp [active], by simp⟩
    fun _ h d _ => sound_define h d

/-- A reader that nothing has been given to. -/
structure Blank (r : Reader) : Prop where
  /-- There is nothing to be read. -/
  frames : r.frames = []
  /-- The line of text is empty. -/
  endLoc : r.endLoc = 0
  /-- No place has been entered into the map. -/
  entries : r.visited.entries = []
  /-- No file is registered. -/
  files : r.visited.files = .empty
  /-- No visit has been made. -/
  visits : r.visited.visits = #[]
  /-- No fault has come up. -/
  errors : r.errors = []

/-- A new reader is blank, and does with definitions in the text what it was set up for. -/
theorem blank_new (config : Configuration) : (new .empty config).Blank ∧
    (new .empty config).registerDefines = config.registerDefines := by
  refine List.foldlRecOn
    (motive := fun r : Reader => r.Blank ∧ r.registerDefines = config.registerDefines)
    config.predefined define ⟨⟨rfl, rfl, rfl, rfl, rfl, rfl⟩, rfl⟩ ?_
  intro r ⟨h, hregister⟩ d _
  exact ⟨⟨h.frames, h.endLoc, h.entries, h.files, h.visits, h.errors⟩, hregister⟩

/-- Where the next byte stands that a reader is to read. -/
def nextLoc (r : Reader) : LinearLoc :=
  match r.frames with
  | [] => max r.endLoc 0
  | top :: _ => r.locOf top

/-- The reader that starts to read a new file. -/
theorem push_eq (r : Reader) (path contents : String) :
    r.push path contents = (r.visited.visits.size,
      { { r with visited := (r.visited.addFile path contents).2 }.enter
          (Frame.ofWindow r.visited.visits.size none ⟨contents, 0, contents.utf8ByteSize⟩)
          r.nextLoc with lineStart := true }) := by
  unfold push pushAt nextLoc
  cases r.frames with
  | nil => rfl
  | cons top below => rfl

/-- A sound reader stays sound when it starts to read a file that changes no text. -/
theorem Sound.pushKept (h : r.Sound) {path contents : String}
    (hkeeps : r.visited.Keeps (r.visited.addFile path contents).2) :
    (r.push path contents).2.Sound := by
  rw [push_eq]
  refine ⟨(h.visited.addFile hkeeps).addEntry _, ?_, ?_, h.nodup, h.active_lt, h.macros⟩
  · intro f hf
    rcases List.mem_cons.1 hf with rfl | hf
    · exact ⟨_, r.visited.window_addFile path contents, Frame.reads_ofWindow _ _ (Window.sound_whole contents)⟩
    · obtain ⟨w, hw, hreads⟩ := h.reads f hf
      exact ⟨w, hkeeps.window hw, hreads⟩
  · have hentry := (r.visited.addFile path contents).2.extends_addEntry
      ⟨r.nextLoc, r.visited.visits.size, 0⟩
    exact .file (r.visited.visits_addFile path contents) rfl ((h.stacked.keeps hkeeps).mono hentry)

/-- A sound reader stays sound when it starts to read a new file. -/
theorem Sound.push (h : r.Sound) {path : String} (hfresh : r.visited.Fresh path)
    (contents : String) : (r.push path contents).2.Sound :=
  h.pushKept (Visited.extends_addFile hfresh contents).keeps

/-- A reader at the start of its first source is sound. -/
theorem sound_pushed (config : Configuration) (path source : String) :
    ((new .empty config).push path source).2.Sound := by
  refine (sound_new config).push ?_ source
  rw [Visited.Fresh, (blank_new config).1.files]
  simp [Registry.find?, Registry.empty]

/-- The only frame is that of the source. -/
theorem frames_pushed (config : Configuration) (path source : String) :
    ((new .empty config).push path source).2.frames =
      [Frame.ofWindow 0 none ⟨source, 0, source.utf8ByteSize⟩] := by
  obtain ⟨hblank, -⟩ := blank_new config
  rw [push_eq, hblank.visits]
  show _ :: (new .empty config).frames = _
  rw [hblank.frames]
  rfl

/-- The frame of a source that was pushed first. -/
theorem top_pushed (config : Configuration) (path source : String) :
    ∃ top, ((new .empty config).push path source).2.frames = [top] ∧ top.rest = Text.bytes source ∧
      top.missing = 0 ∧ ((new .empty config).push path source).2.locOf top = 0 ∧
      ((new .empty config).push path source).2.errors = [] := by
  obtain ⟨hblank, -⟩ := blank_new config
  have hreads := Frame.reads_ofWindow 0 none (Window.sound_whole source)
  refine ⟨_, frames_pushed config path source, Window.bytes_whole source, hreads.missing_eq, ?_, ?_⟩
  · simp [push_eq, locOf, Frame.ofWindow, Frame.remaining, Reader.enter, nextLoc, hblank.frames, hblank.endLoc]
  · rw [push_eq]
    exact hblank.errors

end Reader

end CppDecl
