import CppDecl.Proofs.Text
import CppDecl.Visited

/-!
# Windows onto what was visited

A window is *sound* if it lies in its text and both of its ends are borders between characters.
Then its text can be taken.  All that was visited is sound if every macro body has a sound window,
and every visit was made to something that exists, from a visit with a smaller number.

What was visited only grows while a reader works: files, visits and bodies keep their numbers, and
entries of the location map stay below the newer ones.  `Visited.Extends` says so.  Since a window
is found by number, a window that was found once is found again later.
-/

namespace CppDecl

open Text (Whole)

@[simp] theorem Halt.require_some {α : Type} (a : α) : Halt.require (some a) = .ok a := rfl

theorem Halt.require_eq_ok {α : Type} {x : Option α} {a : α} (h : Halt.require x = .ok a) :
    x = some a := by
  cases x with
  | none => cases h
  | some b => cases h; rfl

/-- A computation that goes on after a first one has an answer only if both have one. -/
theorem Halt.bind_eq_ok {α β : Type} {x : Except Halt α} {f : α → Except Halt β} {b : β}
    (h : (x >>= f) = .ok b) : ∃ a, x = .ok a ∧ f a = .ok b := by
  cases x with
  | error e => cases h
  | ok a => exact ⟨a, rfl, h⟩

/-- What is known of an answer that there is. -/
theorem Halt.of_toOption_map {α β : Type} {x : Except Halt α} {f : α → β} {b : β}
    (h : x.toOption.map f = some b) : ∃ a, x = .ok a ∧ f a = b := by
  cases x with
  | error e => cases h
  | ok a => exact ⟨a, rfl, Option.some.inj h⟩

theorem offsetRange_pos : 0 < offsetRange := by decide

/-! ## Windows -/

namespace Window

/-- The bytes inside a window. -/
def bytes (w : Window) : Bytes := ((Text.bytes w.buffer).drop w.start).take (w.stop - w.start)

/-- A window lies in its text, and it can be cut out of it. -/
structure Sound (w : Window) : Prop where
  /-- The window does not end before it starts. -/
  ordered : w.start ≤ w.stop
  /-- The window ends in the text. -/
  inside : w.stop ≤ (Text.bytes w.buffer).length
  /-- What is in the window is whole. -/
  text : Whole w.bytes
  /-- The text from the start of the window on is whole. -/
  front : Whole ((Text.bytes w.buffer).drop w.start)
  /-- The text behind the window is whole. -/
  back : Whole ((Text.bytes w.buffer).drop w.stop)

theorem Sound.length_bytes {w : Window} (h : w.Sound) : w.bytes.length = w.stop - w.start := by
  have hordered := h.ordered
  have hinside := h.inside
  rw [bytes, List.length_take, List.length_drop]
  omega

/-- The text of a sound window can be taken. -/
theorem Sound.text_eq {w : Window} (h : w.Sound) :
    ∃ text, w.text = .ok text ∧ Text.bytes text = w.bytes := by
  obtain ⟨text, htext, hbytes⟩ := h.text.ofBytes?
  have hfront := Text.isBoundary_of_whole (Nat.le_trans h.ordered h.inside) h.front
  have hback := Text.isBoundary_of_whole h.inside h.back
  refine ⟨text, ?_, hbytes⟩
  rw [Window.text, Text.slice?]
  simp only [hfront, hback, h.ordered, decide_true, Bool.and_self, if_true]
  rw [show ((Text.bytes w.buffer).drop w.start).take (w.stop - w.start) = w.bytes from rfl, htext]
  rfl

/-- A text is a sound window onto itself. -/
theorem sound_whole (text : String) : Sound ⟨text, 0, text.utf8ByteSize⟩ := by
  have hlength := Text.length_bytes text
  refine ⟨Nat.zero_le _, Nat.le_of_eq hlength.symm, ?_, ?_, ?_⟩
  · rw [bytes, Nat.sub_zero, List.drop_zero, ← hlength, List.take_length]
    exact Text.whole_bytes text
  · exact Text.whole_bytes text
  · rw [← hlength, List.drop_length]
    exact .nil

@[simp] theorem bytes_whole (text : String) :
    bytes ⟨text, 0, text.utf8ByteSize⟩ = Text.bytes text := by
  rw [bytes, Nat.sub_zero, List.drop_zero, ← Text.length_bytes, List.take_length]

/-- A window onto a stretch of a text has that stretch. -/
theorem bytes_of_append {buffer : String} {before body after : Bytes}
    (h : Text.bytes buffer = before ++ (body ++ after)) :
    bytes ⟨buffer, before.length, before.length + body.length⟩ = body := by
  rw [bytes, h, List.drop_left, Nat.add_sub_cancel_left, List.take_left]

/-- A window onto a whole stretch of a text with whole texts on both sides is sound. -/
theorem sound_of_append {buffer : String} {before body after : Bytes}
    (h : Text.bytes buffer = before ++ (body ++ after)) (hbody : Whole body) (hafter : Whole after) :
    Sound ⟨buffer, before.length, before.length + body.length⟩ := by
  have hfront : (Text.bytes buffer).drop before.length = body ++ after := by
    rw [h, List.drop_left]
  refine ⟨Nat.le_add_right _ _, ?_, ?_, ?_, ?_⟩
  · rw [h, List.length_append, List.length_append]
    exact Nat.add_le_add_left (Nat.le_add_right _ _) _
  · rw [bytes_of_append h]
    exact hbody
  · rw [hfront]
    exact hbody.append hafter
  · show Whole ((Text.bytes buffer).drop (before.length + body.length))
    rw [← List.drop_drop, hfront, List.drop_left]
    exact hafter

end Window

/-! ## What was visited -/

namespace Visited

/-- All numbers that were given out stand for something, and bodies have sound windows. -/
structure Sound (v : Visited) : Prop where
  /-- Every body has a sound window. -/
  bodies : ∀ body ∈ v.bodies, ∃ w, v.bodyWindow body = .ok w ∧ w.Sound
  /-- A visit to a file is made to a file that exists. -/
  files : ∀ visit file : Nat, v.visits[visit]? = some (.file file) → ∃ f, v.files.get? file = some f
  /-- An expansion is made of a body that exists, and from an earlier visit. -/
  expansions : ∀ (visit body parent callSite : Nat) (filled : Option String),
    v.visits[visit]? = some (.expansion body parent callSite filled) →
      body < v.bodies.size ∧ parent < visit

/-- What was visited at one time, and what at a later time. -/
structure Extends (v v' : Visited) : Prop where
  /-- Files keep their numbers. -/
  files : ∀ {file : Nat} {f : SourceFile}, v.files.get? file = some f → v'.files.get? file = some f
  /-- Visits keep their numbers. -/
  visits : ∀ {visit : Nat} {x : Visit}, v.visits[visit]? = some x → v'.visits[visit]? = some x
  /-- Bodies keep their numbers. -/
  bodies : ∀ {body : Nat} {x : MacroBody}, v.bodies[body]? = some x → v'.bodies[body]? = some x
  /-- Newer entries come before the older ones. -/
  entries : v.entries <:+ v'.entries

theorem Extends.refl (v : Visited) : v.Extends v := ⟨id, id, id, List.suffix_refl _⟩

theorem Extends.trans {v₁ v₂ v₃ : Visited} (h₁ : v₁.Extends v₂) (h₂ : v₂.Extends v₃) :
    v₁.Extends v₃ :=
  ⟨fun h => h₂.files (h₁.files h), fun h => h₂.visits (h₁.visits h),
    fun h => h₂.bodies (h₁.bodies h), h₁.entries.trans h₂.entries⟩

theorem getElem?_push {α : Type} {xs : Array α} {i : Nat} {x y : α} (h : xs[i]? = some x) :
    (xs.push y)[i]? = some x := by
  have hlt : i < xs.size := (Array.getElem?_eq_some_iff.1 h).1
  rw [Array.getElem?_push, if_neg (Nat.ne_of_lt hlt), h]

@[simp] theorem fst_addVisit (v : Visited) (visit : Visit) :
    (v.addVisit visit).1 = v.visits.size := rfl

@[simp] theorem fst_addBody (v : Visited) (body : MacroBody) :
    (v.addBody body).1 = v.bodies.size := rfl

theorem extends_addEntry (v : Visited) (entry : MapEntry) : v.Extends (v.addEntry entry) :=
  ⟨id, id, id, List.suffix_cons _ _⟩

theorem extends_addBody (v : Visited) (body : MacroBody) : v.Extends (v.addBody body).2 :=
  ⟨id, id, getElem?_push, List.suffix_refl _⟩

theorem extends_addVisit (v : Visited) (visit : Visit) : v.Extends (v.addVisit visit).2 :=
  ⟨id, getElem?_push, id, List.suffix_refl _⟩

/-- What was visited at one time and at a later time, if no text has changed. -/
structure Keeps (v v' : Visited) : Prop where
  /-- Files keep their numbers and texts. -/
  files : ∀ {file : Nat} {f : SourceFile}, v.files.get? file = some f →
    ∃ g, v'.files.get? file = some g ∧ g.contents = f.contents
  /-- Visits keep their numbers. -/
  visits : ∀ {visit : Nat} {x : Visit}, v.visits[visit]? = some x → v'.visits[visit]? = some x
  /-- Bodies keep their numbers. -/
  bodies : ∀ {body : Nat} {x : MacroBody}, v.bodies[body]? = some x → v'.bodies[body]? = some x

theorem Extends.keeps {v v' : Visited} (h : v.Extends v') : v.Keeps v' :=
  ⟨fun hf => ⟨_, h.files hf, rfl⟩, h.visits, h.bodies⟩

/-- A body's window is found again later. -/
theorem Keeps.bodyWindow {v v' : Visited} (h : v.Keeps v') {body : MacroBody} {w : Window}
    (hw : v.bodyWindow body = .ok w) : v'.bodyWindow body = .ok w := by
  unfold Visited.bodyWindow at hw ⊢
  split at hw
  · exact hw
  next file start stop htext =>
    obtain ⟨f, hf, hw⟩ := Halt.bind_eq_ok hw
    obtain ⟨g, hg, hcontents⟩ := h.files (Halt.require_eq_ok hf)
    rw [hg, Halt.require_some]
    show Except.ok (Window.mk g.contents start stop) = _
    rw [hcontents]
    exact hw

/-- A visit's window is found again later. -/
theorem Keeps.window {v v' : Visited} (h : v.Keeps v') {visit : Nat} {w : Window}
    (hw : v.window visit = .ok w) : v'.window visit = .ok w := by
  unfold Visited.window at hw ⊢
  obtain ⟨x, hx, hw⟩ := Halt.bind_eq_ok hw
  rw [h.visits (Halt.require_eq_ok hx)]
  cases x with
  | file file =>
    obtain ⟨f, hf, hw⟩ := Halt.bind_eq_ok hw
    obtain ⟨g, hg, hcontents⟩ := h.files (Halt.require_eq_ok hf)
    show (Halt.require (v'.files.get? file) >>= _) = _
    rw [hg, Halt.require_some]
    show Except.ok (Window.mk g.contents 0 g.contents.utf8ByteSize) = _
    rw [hcontents]
    exact hw
  | expansion body parent callSite filled =>
    cases filled with
    | some text => exact hw
    | none =>
      obtain ⟨b, hb, hw⟩ := Halt.bind_eq_ok hw
      show (Halt.require v'.bodies[body]? >>= _) = _
      rw [h.bodies (Halt.require_eq_ok hb)]
      exact h.bodyWindow hw

theorem Extends.bodyWindow {v v' : Visited} (h : v.Extends v') {body : MacroBody} {w : Window}
    (hw : v.bodyWindow body = .ok w) : v'.bodyWindow body = .ok w :=
  h.keeps.bodyWindow hw

theorem Extends.window {v v' : Visited} (h : v.Extends v') {visit : Nat} {w : Window}
    (hw : v.window visit = .ok w) : v'.window visit = .ok w :=
  h.keeps.window hw

theorem Sound.body {v : Visited} (h : v.Sound) {body : Nat} (hbody : body < v.bodies.size) :
    ∃ b w, v.bodies[body]? = some b ∧ v.bodyWindow b = .ok w ∧ w.Sound := by
  obtain ⟨w, hw, hsound⟩ := h.bodies _ (Array.getElem_mem hbody)
  exact ⟨_, w, Array.getElem?_eq_getElem hbody, hw, hsound⟩

/-- The text of a body can be taken. -/
theorem Sound.bodyText {v : Visited} (h : v.Sound) {body : Nat} (hbody : body < v.bodies.size) :
    ∃ text, v.bodyText body = .ok text := by
  obtain ⟨b, w, hb, hw, hsound⟩ := h.body hbody
  obtain ⟨text, htext, -⟩ := hsound.text_eq
  refine ⟨text, ?_⟩
  rw [Visited.bodyText, hb]
  show (v.bodyWindow b >>= _) = _
  rw [hw]
  exact htext

/-- Every visit has a sound window. -/
theorem Sound.window {v : Visited} (h : v.Sound) {visit : Nat} (hvisit : visit < v.visits.size) :
    ∃ w, v.window visit = .ok w ∧ w.Sound := by
  have hx := Array.getElem?_eq_getElem hvisit
  unfold Visited.window
  rw [hx]
  cases hvalue : v.visits[visit] with
  | file file =>
    rw [hvalue] at hx
    obtain ⟨f, hf⟩ := h.files visit file hx
    refine ⟨⟨f.contents, 0, f.contents.utf8ByteSize⟩, ?_, Window.sound_whole _⟩
    show (Halt.require (v.files.get? file) >>= _) = _
    rw [hf]
    rfl
  | expansion body parent callSite filled =>
    rw [hvalue] at hx
    cases filled with
    | some text => exact ⟨⟨text, 0, text.utf8ByteSize⟩, rfl, Window.sound_whole _⟩
    | none =>
      obtain ⟨b, w, hb, hw, hsound⟩ := h.body (h.expansions visit body parent callSite none hx).1
      refine ⟨w, ?_, hsound⟩
      show (Halt.require v.bodies[body]? >>= _) = _
      rw [hb]
      exact hw

theorem Sound.addEntry {v : Visited} (h : v.Sound) (entry : MapEntry) : (v.addEntry entry).Sound :=
  ⟨h.bodies, h.files, h.expansions⟩

theorem Sound.addBody {v : Visited} (h : v.Sound) {body : MacroBody} {w : Window}
    (hw : v.bodyWindow body = .ok w) (hsound : w.Sound) : (v.addBody body).2.Sound := by
  refine ⟨?_, h.files, ?_⟩
  · intro b hb
    rcases Array.mem_push.1 hb with hb | rfl
    · exact h.bodies b hb
    · exact ⟨w, hw, hsound⟩
  · intro visit b parent callSite filled hvisit
    obtain ⟨hlt, hparent⟩ := h.expansions visit b parent callSite filled hvisit
    refine ⟨?_, hparent⟩
    show b < (v.bodies.push body).size
    rw [Array.size_push]
    exact Nat.lt_succ_of_lt hlt

theorem Sound.addExpansion {v : Visited} (h : v.Sound) {body parent : Nat} (callSite : Nat)
    (filled : Option String) (hbody : body < v.bodies.size) (hparent : parent < v.visits.size) :
    (v.addVisit (.expansion body parent callSite filled)).2.Sound := by
  refine ⟨h.bodies, ?_, ?_⟩
  · intro visit file hvisit
    change (v.visits.push _)[visit]? = _ at hvisit
    rw [Array.getElem?_push] at hvisit
    split at hvisit
    · cases hvisit
    · exact h.files visit file hvisit
  · intro visit b p c f hvisit
    change (v.visits.push _)[visit]? = _ at hvisit
    rw [Array.getElem?_push] at hvisit
    split at hvisit
    next heq =>
      cases hvisit
      exact ⟨hbody, by omega⟩
    · exact h.expansions visit b p c f hvisit

/-- Nothing visited yet is sound. -/
theorem sound_empty : empty.Sound := by
  refine ⟨?_, ?_, ?_⟩
  · intro body h
    simp [empty] at h
  · intro visit file h
    simp [empty] at h
  · intro visit body parent callSite filled h
    simp [empty] at h

end Visited

/-! ## Files -/

namespace Registry

variable {files : Registry} {path contents : String} {file : Nat} {f : SourceFile}

/-- The number of a path is that of a file with the path. -/
theorem get?_of_find? (h : files.find? path = some file) :
    ∃ f, files.get? file = some f ∧ Text.samePath f.path path = true := by
  obtain ⟨hlt, hsame, -⟩ := Array.findIdx?_eq_some_iff_getElem.1 h
  exact ⟨files.files[file], Array.getElem?_eq_getElem hlt, hsame⟩

/-- A path without a number is that of no file. -/
theorem not_samePath_of_find? (h : files.find? path = none) (hf : files.get? file = some f) :
    Text.samePath f.path path = false :=
  Array.findIdx?_eq_none_iff.1 h f (Array.mem_of_getElem? hf)

theorem register_fresh (h : files.find? path = none) (contents : String) :
    files.register path contents = (files.files.size, ⟨files.files.push (SourceFile.ofText path contents)⟩) := by
  rw [register, h]

theorem register_known (h : files.find? path = some file) (contents : String) :
    files.register path contents = (file, ⟨files.files.setIfInBounds file (SourceFile.ofText path contents)⟩) := by
  rw [register, h]

/-- A file that is registered has the text that it is given. -/
theorem get?_register_self (files : Registry) (path contents : String) :
    (files.register path contents).2.get? (files.register path contents).1 =
      some (SourceFile.ofText path contents) := by
  cases hfind : files.find? path with
  | none =>
    rw [register_fresh hfind]
    exact Array.getElem?_push_size
  | some id =>
    obtain ⟨f, hf, -⟩ := get?_of_find? hfind
    rw [register_known hfind]
    exact Array.getElem?_setIfInBounds_self_of_lt (Array.getElem?_eq_some_iff.1 hf).1

/-- All other numbers stand for what they stood for. -/
theorem get?_register_of_ne (hne : file ≠ (files.register path contents).1) :
    (files.register path contents).2.get? file = files.get? file := by
  cases hfind : files.find? path with
  | none =>
    rw [register_fresh hfind] at hne ⊢
    exact Array.getElem?_push.trans (if_neg hne)
  | some id =>
    rw [register_known hfind] at hne ⊢
    exact Array.getElem?_setIfInBounds_ne (Ne.symm hne)

end Registry

namespace Visited

/-- No registered file has the given path. -/
def Fresh (v : Visited) (path : String) : Prop := v.files.find? path = none

instance (v : Visited) (path : String) : Decidable (v.Fresh path) :=
  inferInstanceAs (Decidable (_ = none))

/-- A file with a new path gets a new number. -/
theorem addFile_fresh {v : Visited} {path : String} (h : v.Fresh path) (contents : String) :
    v.addFile path contents = (v.visits.size,
      { v with
        files := ⟨v.files.files.push (SourceFile.ofText path contents)⟩
        visits := v.visits.push (.file v.files.files.size) }) := by
  rw [addFile, Registry.register_fresh h]

theorem extends_addFile {v : Visited} {path : String} (h : v.Fresh path) (contents : String) :
    v.Extends (v.addFile path contents).2 := by
  rw [addFile_fresh h]
  exact ⟨getElem?_push, getElem?_push, id, List.suffix_refl _⟩

/-- The visit that is made to a file. -/
theorem visits_addFile (v : Visited) (path contents : String) :
    (v.addFile path contents).2.visits[v.visits.size]? = some (.file (v.files.register path contents).1) :=
  Array.getElem?_push_size

theorem window_addFile (v : Visited) (path contents : String) :
    (v.addFile path contents).2.window v.visits.size = .ok ⟨contents, 0, contents.utf8ByteSize⟩ := by
  rw [window, visits_addFile]
  show (Halt.require ((v.files.register path contents).2.get? _) >>= _) = _
  rw [Registry.get?_register_self]
  rfl

/-- What was visited stays sound when a file is visited that changes no text. -/
theorem Sound.addFile {v : Visited} {path contents : String} (h : v.Sound)
    (hkeeps : v.Keeps (v.addFile path contents).2) : (v.addFile path contents).2.Sound := by
  refine ⟨?_, ?_, ?_⟩
  · intro body hbody
    obtain ⟨w, hw, hsound⟩ := h.bodies body hbody
    exact ⟨w, hkeeps.bodyWindow hw, hsound⟩
  · intro visit file hvisit
    change (v.visits.push _)[visit]? = _ at hvisit
    rw [Array.getElem?_push] at hvisit
    split at hvisit
    · cases hvisit
      exact ⟨_, v.files.get?_register_self path contents⟩
    · obtain ⟨f, hf⟩ := h.files visit file hvisit
      obtain ⟨g, hg, -⟩ := hkeeps.files hf
      exact ⟨g, hg⟩
  · intro visit b p c f hvisit
    change (v.visits.push _)[visit]? = _ at hvisit
    rw [Array.getElem?_push] at hvisit
    split at hvisit
    · cases hvisit
    · exact h.expansions visit b p c f hvisit

end Visited

end CppDecl
