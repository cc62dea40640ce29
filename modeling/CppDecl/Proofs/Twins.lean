import CppDecl.Proofs.Reader

/-!
# Readers of the same text

Two readers may have the same text before them though they read different files.  A reader is a
*twin* of another one if each of its frames has the same bytes to be read, each macro has the same
text, and all places and all that has come up are the same.  Where in a file a text stands does not
matter, nor what stood before it.

Twins read the same tokens and stay twins (`Reader.Twin.readToken`).  The one thing to watch is a
macro that is defined in a file: its text is remembered as a stretch of the file, so the stretches
have to have the same bytes, though they stand at different offsets.
-/

namespace CppDecl

namespace Halt

/-- Two computations halt in the same way, or their answers are related. -/
inductive Agree {α β : Type} (R : α → β → Prop) : Except Halt α → Except Halt β → Prop
  /-- Both halt. -/
  | error (halt : Halt) : Agree R (.error halt) (.error halt)
  /-- Both have an answer. -/
  | ok {a : α} {b : β} (h : R a b) : Agree R (.ok a) (.ok b)

variable {α α' β β' : Type} {R : α → β → Prop} {R' : α' → β' → Prop}

theorem Agree.bind {x : Except Halt α} {y : Except Halt β} {f : α → Except Halt α'}
    {g : β → Except Halt β'} (h : Agree R x y) (hf : ∀ a b, R a b → Agree R' (f a) (g b)) :
    Agree R' (x >>= f) (y >>= g) := by
  cases h with
  | error halt => exact .error halt
  | ok h => exact hf _ _ h

theorem Agree.mono {R' : α → β → Prop} {x : Except Halt α} {y : Except Halt β} (h : Agree R x y)
    (hR : ∀ a b, R a b → R' a b) : Agree R' x y := by
  cases h with
  | error halt => exact .error halt
  | ok h => exact .ok (hR _ _ h)

/-- What comes first is the same. -/
theorem Agree.after {x : Except Halt α} {f : α → Except Halt α'} {g : α → Except Halt β'}
    (hf : ∀ a, Agree R' (f a) (g a)) : Agree R' (x >>= f) (x >>= g) := by
  cases x with
  | error halt => exact .error halt
  | ok a => exact hf a

theorem Agree.ite {c : Prop} [Decidable c] {x x' : Except Halt α} {y y' : Except Halt β}
    (h : c → Agree R x y) (h' : ¬ c → Agree R x' y') :
    Agree R (if c then x else x') (if c then y else y') := by
  split
  next hc => exact h hc
  next hc => exact h' hc

/-- If the one has an answer, so has the other one. -/
theorem Agree.of_ok {y : Except Halt β} {a : α} (h : Agree R (.ok a) y) : ∃ b, y = .ok b ∧ R a b := by
  cases h with
  | ok h => exact ⟨_, rfl, h⟩

end Halt

open Halt (Agree)
open Text (Whole)

/-! ## What was visited -/

/-- Whether a visit is made to a file. -/
def Visit.isFile : Visit → Bool
  | .file _ => true
  | .expansion .. => false

namespace Visited

/-- What a macro body is, with its text. -/
def macroOf (v : Visited) (body : MacroBody) : Except Halt (String × Bool × List String × Bytes) :=
  (v.bodyWindow body).map fun w => (body.name, body.takesArgs, body.params, w.bytes)

/-- The same macros were defined. -/
def SameMacros (v u : Visited) : Prop := u.bodies.map u.macroOf = v.bodies.map v.macroOf

/-- The same macros were defined, and the same visits made, though perhaps to other files. -/
structure Twin (v u : Visited) : Prop where
  /-- The visits are of the same kinds. -/
  visits : u.visits.map Visit.isFile = v.visits.map Visit.isFile
  /-- The macros are the same. -/
  bodies : v.SameMacros u

variable {v u : Visited}

theorem SameMacros.size (h : v.SameMacros u) : u.bodies.size = v.bodies.size := by
  simpa using congrArg Array.size h

theorem SameMacros.addBody (h : v.SameMacros u) {b c : MacroBody} (hsame : u.macroOf c = v.macroOf b) :
    (v.addBody b).2.SameMacros (u.addBody c).2 := by
  show (u.bodies.push c).map u.macroOf = (v.bodies.push b).map v.macroOf
  rw [Array.map_push, Array.map_push, h, hsame]

/-- A macro of the one is a macro of the other, with the same text. -/
theorem SameMacros.body (h : v.SameMacros u) (hv : v.Sound) (hu : u.Sound) {i : Nat}
    (hi : i < v.bodies.size) :
    ∃ b c w x, v.bodies[i]? = some b ∧ u.bodies[i]? = some c ∧ v.bodyWindow b = .ok w ∧
      u.bodyWindow c = .ok x ∧ w.Sound ∧ x.Sound ∧ c.takesArgs = b.takesArgs ∧
      c.params = b.params ∧ x.bytes = w.bytes := by
  obtain ⟨b, w, hb, hw, hwsound⟩ := hv.body hi
  obtain ⟨c, x, hc, hx, hxsound⟩ := hu.body (h.size ▸ hi)
  have hsame : some (u.macroOf c) = some (v.macroOf b) := by
    simpa [hb, hc] using congrArg (fun macros => macros[i]?) h
  simp only [macroOf, hw, hx, Except.map, Option.some.injEq, Except.ok.injEq, Prod.mk.injEq] at hsame
  obtain ⟨-, htakes, hparams, hbytes⟩ := hsame
  exact ⟨b, c, w, x, hb, hc, hw, hx, hwsound, hxsound, htakes, hparams, hbytes⟩

theorem Twin.size_visits (h : v.Twin u) : u.visits.size = v.visits.size := by
  simpa using congrArg Array.size h.visits

theorem Twin.addEntry (h : v.Twin u) (entry entry' : MapEntry) :
    (v.addEntry entry).Twin (u.addEntry entry') := ⟨h.visits, h.bodies⟩

theorem Twin.addVisit (h : v.Twin u) {x y : Visit} (hkind : y.isFile = x.isFile) :
    (v.addVisit x).2.Twin (u.addVisit y).2 := by
  refine ⟨?_, h.bodies⟩
  simp only [Visited.addVisit, Array.map_push, h.visits, hkind]

theorem Twin.addBody (h : v.Twin u) {b c : MacroBody} (hsame : u.macroOf c = v.macroOf b) :
    (v.addBody b).2.Twin (u.addBody c).2 := ⟨h.visits, h.bodies.addBody hsame⟩

theorem window_addExpansion (v : Visited) (body parent callSite : Nat) (filled : Option String) :
    (v.addVisit (.expansion body parent callSite filled)).2.window v.visits.size =
      match filled with
      | some text => .ok ⟨text, 0, text.utf8ByteSize⟩
      | none => Halt.require v.bodies[body]? >>= v.bodyWindow := by
  unfold Visited.window
  simp only [Visited.addVisit, Array.getElem?_push_size, Halt.require_some, bind, Except.bind]
  cases filled <;> rfl

/-- The replacement text of a macro is the same. -/
theorem SameMacros.bodyText (h : v.SameMacros u) (hv : v.Sound) (hu : u.Sound) {i : Nat}
    (hi : i < v.bodies.size) : ∃ text, v.bodyText i = .ok text ∧ u.bodyText i = .ok text := by
  obtain ⟨b, c, w, x, hb, hc, hw, hx, hwsound, hxsound, -, -, hbytes⟩ := h.body hv hu hi
  obtain ⟨text, htext, htextbytes⟩ := hwsound.text_eq
  obtain ⟨text', htext', htextbytes'⟩ := hxsound.text_eq
  obtain rfl : text' = text :=
    Text.bytes_injective (htextbytes'.trans (hbytes.trans htextbytes.symm))
  refine ⟨text', ?_, ?_⟩
  · simp only [Visited.bodyText, hb, Halt.require_some, hw, htext, bind, Except.bind]
  · simp only [Visited.bodyText, hc, Halt.require_some, hx, htext', bind, Except.bind]

/-- Whatever text an expansion has, its window has the same text for both. -/
theorem SameMacros.expansion (h : v.SameMacros u) (hv : v.Sound) (hu : u.Sound) {i : Nat}
    (hi : i < v.bodies.size) (parent parent' callSite callSite' : Nat) (filled : Option String) :
    Agree (fun y z => y.Sound ∧ z.Sound ∧ z.bytes = y.bytes)
      ((v.addVisit (.expansion i parent callSite filled)).2.window v.visits.size)
      ((u.addVisit (.expansion i parent' callSite' filled)).2.window u.visits.size) := by
  obtain ⟨b, c, w, x, hb, hc, hw, hx, hwsound, hxsound, -, -, hbytes⟩ := h.body hv hu hi
  rw [window_addExpansion, window_addExpansion]
  cases filled with
  | some text => exact .ok ⟨Window.sound_whole text, Window.sound_whole text, rfl⟩
  | none =>
    rw [hb, hc]
    show Agree _ (v.bodyWindow _) (u.bodyWindow _)
    rw [hw, hx]
    exact .ok ⟨hwsound, hxsound, hbytes⟩

end Visited

/-! ## What readers do that know the same macros -/

namespace Reader

variable {r q : Reader} {f g : Frame}

theorem active_of_forall₂ {R : Frame → Frame → Prop} (hR : ∀ f g, R f g → g.body? = f.body?)
    {fs gs : List Frame} (h : List.Forall₂ R fs gs) : active gs = active fs := by
  induction h with
  | nil => rfl
  | @cons f g fs gs hf _ ih =>
    unfold active at ih ⊢
    rw [List.filterMap_cons, List.filterMap_cons, hR f g hf, ih]

/-- A name stands for the same macro if the same macros are being expanded. -/
theorem activeMacro?_congr (hmacros : q.macros = r.macros)
    (hactive : ∀ body, body ∈ active q.frames ↔ body ∈ active r.frames) (name : String) :
    q.activeMacro? name = r.activeMacro? name := by
  have hany : ∀ (frames : List Frame) (body : Nat),
      (frames.any fun f => f.body? == some body) = decide (body ∈ active frames) := by
    intro frames body
    rw [Bool.eq_iff_iff, List.any_eq_true, decide_eq_true_iff]
    simp [active]
  unfold Reader.activeMacro?
  rw [hmacros]
  split
  next body _ => rw [hany, hany, decide_eq_decide.2 (hactive body)]
  · rfl

/-! ### Directives -/

/-- The reader knows one more macro. -/
def addMacro (r : Reader) (body : MacroBody) : Reader :=
  { r with
    visited := (r.visited.addBody body).2
    macros := r.macros.insert body.name r.visited.bodies.size }

/-- Both know one more macro, which is the same one. -/
def AddAlike (r q r' q' : Reader) : Prop :=
  ∃ b c : MacroBody, c.name = b.name ∧ q.visited.macroOf c = r.visited.macroOf b ∧
    r' = r.addMacro b ∧ q' = q.addMacro c

/-- A definition is the same macro for both, if they read a file or an expansion alike and its stretch of
a file is. -/
theorem agree_register {base base' : Nat} {d : Definition}
    (hfiles : (q.fileOf? g).isSome = (r.fileOf? f).isSome)
    (hstretch : ∀ file file', r.fileOf? f = some file → q.fileOf? g = some file' → ∀ body : MacroBody,
      q.visited.macroOf { body with
          text := .fileRange file' (base' + d.start) (base' + d.start + d.body.length) } =
        r.visited.macroOf { body with
          text := .fileRange file (base + d.start) (base + d.start + d.body.length) }) :
    Agree (AddAlike r q) (r.register f base d) (q.register g base' d) := by
  refine .after fun name => .after fun params => ?_
  extract_lets restr restq
  have hrests : ∀ {text text' : BodyText},
      (∀ b : MacroBody, q.visited.macroOf { b with text := text' } =
        r.visited.macroOf { b with text := text }) →
      Agree (AddAlike r q) (restr text) (restq text') :=
    fun {text text'} hsame =>
      .ok ⟨⟨name, text, d.params?.isSome, params⟩, ⟨name, text', d.params?.isSome, params⟩, rfl,
        hsame ⟨name, text, d.params?.isSome, params⟩, rfl, rfl⟩
  have hjoined : Agree (AddAlike r q)
      (do restr (.literal (← Halt.require (Text.ofBytes? (Definition.joinLines d.body)))))
      (do restq (.literal (← Halt.require (Text.ofBytes? (Definition.joinLines d.body))))) :=
    .after fun _ => hrests fun _ => rfl
  cases hfile : r.fileOf? f with
  | none =>
    rw [hfile, Option.isSome_none, Option.isSome_eq_false_iff, Option.isNone_iff_eq_none] at hfiles
    rw [hfiles]
    exact hjoined
  | some file =>
    rw [hfile, Option.isSome_some, Option.isSome_iff_exists] at hfiles
    obtain ⟨file', hfile'⟩ := hfiles
    rw [hfile']
    cases d.body.contains Byte.backslash with
    | true => exact hjoined
    | false => exact hrests (hstretch file file' hfile hfile')

/-- A directive does the same for both, if a definition is registered in the same way. -/
theorem agree_perform {R : Reader → Reader → Prop} (h : R r q)
    (hregister : q.registerDefines = r.registerDefines) {bs : Bytes} {effect : Effect}
    (hinclusion : ∀ path, R { r with inclusions := r.inclusions ++ [path] }
      { q with inclusions := q.inclusions ++ [path] })
    (hundefine : ∀ name, R { r with macros := r.macros.erase name }
      { q with macros := q.macros.erase name })
    (hdefine : ∀ offset d, effect = .define offset → Definition.parse? (bs.drop offset) = some d →
      Agree R (r.register f (f.pos + offset) d) (q.register g (g.pos + offset) d)) (text : String) :
    Agree R (r.perform f text bs effect) (q.perform g text bs effect) := by
  cases effect with
  | nothing => exact .ok h
  | inclusion => exact .ok (hinclusion _)
  | undefine offset =>
    unfold Reader.perform
    simp only [hregister]
    refine .ite (fun _ => .after fun rest => ?_) fun _ => .ok h
    cases Text.firstWord? rest with
    | none => exact .ok h
    | some name =>
      have hsame := hundefine name
      rw [hregister] at hsame
      exact .ok hsame
  | define offset =>
    unfold Reader.perform
    simp only [hregister]
    refine .ite (fun _ => ?_) fun _ => .ok h
    cases hd : Definition.parse? (bs.drop offset) with
    | none => exact .ok h
    | some d => exact hdefine offset d rfl hd

/-! ### Macros -/

/-- The reader at the start of the replacement text of a macro, which is the text of a window. -/
def enterMacro (r : Reader) (body : Nat) (loc : LinearLoc) (parent : Frame) (callSite : Nat)
    (filled : Option String) (w : Window) : Reader :=
  { r with
    visited := (r.visited.addVisit (.expansion body parent.visit (callSite % offsetRange) filled)).2
    }.enter (Frame.ofWindow r.visited.visits.size (some body) w) loc

/-- Both have entered a macro, and have the same text to read. -/
def EnterAlike (r q : Reader) (body : Nat) (name : String) (loc loc' : LinearLoc)
    (parent parent' : Frame) (callSite callSite' : Nat) (x y : Token × Reader) : Prop :=
  ∃ filled w z, w.Sound ∧ z.Sound ∧ z.bytes = w.bytes ∧
    x = (⟨loc, .macroUse, name⟩, r.enterMacro body loc parent callSite filled w) ∧
    y = (⟨loc', .macroUse, name⟩, q.enterMacro body loc' parent' callSite' filled z)

/-- The same replacement text is put on top. -/
theorem agree_expand (hbodies : r.visited.SameMacros q.visited) (hr : r.visited.Sound)
    (hq : q.visited.Sound) (hargs : q.args.map Token.text = r.args.map Token.text) {body : Nat}
    (hbody : body < r.visited.bodies.size) (name : String) (loc loc' : LinearLoc)
    (parent parent' : Frame) (callSite callSite' : Nat) :
    Agree (EnterAlike r q body name loc loc' parent parent' callSite callSite')
      (r.expand body name loc parent callSite) (q.expand body name loc' parent' callSite') := by
  obtain ⟨b, c, -, -, hb, hc, -, -, -, -, -, hparams, -⟩ := hbodies.body hr hq hbody
  obtain ⟨text, htext, htext'⟩ := hbodies.bodyText hr hq hbody
  unfold Reader.expand
  rw [hb, hc, htext, htext']
  refine .bind (R := fun b' c' => b' = b ∧ c' = c) (.ok ⟨rfl, rfl⟩) ?_
  rintro _ _ ⟨rfl, rfl⟩
  rw [hparams, hargs]
  extract_lets restr restq
  have hrest : ∀ filled : Option String,
      Agree (EnterAlike r q body name loc loc' parent parent' callSite callSite') (restr filled)
        (restq filled) := by
    intro filled
    refine (hbodies.expansion hr hq hbody parent.visit parent'.visit (callSite % offsetRange)
      (callSite' % offsetRange) filled).bind ?_
    rintro w z ⟨hw, hz, hbytes⟩
    exact .ok ⟨filled, w, z, hw, hz, hbytes, rfl, rfl⟩
  refine .ite (fun _ => hrest none) fun _ => ?_
  exact .after fun text => .after fun filled => hrest (some filled)

/-- Arguments with the same texts are tokens that are related if the places do not matter. -/
theorem agree_arguments {R : Token → Token → Prop} {base base' : LinearLoc}
    (hR : ∀ (offset : Nat) (text : String),
      R ⟨base + offset, .macroArgument, text⟩ ⟨base' + offset, .macroArgument, text⟩)
    (arguments : List (Nat × Bytes)) :
    Agree (List.Forall₂ R)
      (arguments.mapM fun (offset, bs) => do
        let text ← Halt.require (Text.ofBytes? bs)
        return (⟨base + offset, .macroArgument, text⟩ : Token))
      (arguments.mapM fun (offset, bs) => do
        let text ← Halt.require (Text.ofBytes? bs)
        return (⟨base' + offset, .macroArgument, text⟩ : Token)) := by
  induction arguments with
  | nil => exact .ok .nil
  | cons a arguments ih =>
    rw [List.mapM_cons, List.mapM_cons]
    refine .bind (R := R) (.after fun text => .ok (hR a.1 text)) fun t u hsame => ?_
    exact ih.bind fun ts us hall => .ok (.cons hsame hall)

end Reader

/-- Tokens that have the same texts one by one have the same texts. -/
theorem Token.map_text_of_forall₂ {ts us : List Token}
    (h : List.Forall₂ (fun t u => u.text = t.text) ts us) :
    us.map Token.text = ts.map Token.text := by
  induction h with
  | nil => rfl
  | cons h _ ih => rw [List.map_cons, List.map_cons, h, ih]

/-! ## Frames -/

/-- The frames have the same text before them, and the same macro is being expanded in both. -/
structure Frame.Twin (f g : Frame) : Prop where
  /-- The visits have the same number. -/
  visit : g.visit = f.visit
  /-- The same bytes are still to be read. -/
  rest : g.rest = f.rest
  /-- The same number of bytes lies past the end of the text. -/
  missing : g.missing = f.missing
  /-- As many bytes of the windows are still to be read. -/
  remaining : g.remaining = f.remaining
  /-- The same macro is being expanded. -/
  body : g.body? = f.body?

namespace Frame

variable {f g : Frame}

theorem Twin.advance (h : f.Twin g) (n : Nat) : (f.advance n).Twin (g.advance n) := by
  refine ⟨h.visit, ?_, ?_, ?_, h.body⟩
  · simp only [Frame.advance, h.rest]
  · simp only [Frame.advance, h.rest, h.missing]
  · have hremaining := h.remaining
    simp only [Frame.remaining, Frame.advance] at *
    omega

theorem Twin.finish (h : f.Twin g) : f.finish.Twin g.finish :=
  ⟨h.visit, rfl, rfl, by simp [Frame.remaining, Frame.finish], h.body⟩

theorem Twin.lacks (h : f.Twin g) (n : Nat) : g.lacks n = f.lacks n := by
  rw [Frame.lacks, h.missing, h.rest, Frame.lacks]

/-- Windows with the same text make frames that are twins. -/
theorem twin_ofWindow (visit : Nat) (body? : Option Nat) {w x : Window} (hw : w.Sound) (hx : x.Sound)
    (hbytes : x.bytes = w.bytes) : (ofWindow visit body? w).Twin (ofWindow visit body? x) := by
  have hlength := congrArg List.length hbytes
  rw [hx.length_bytes, hw.length_bytes] at hlength
  refine ⟨rfl, hbytes, ?_, hlength, rfl⟩
  show x.stop - x.start - x.bytes.length = w.stop - w.start - w.bytes.length
  rw [hlength, hbytes]

end Frame

/-! ## Readers -/

namespace Reader

/-- The readers have the same text before them, at the same places. -/
structure Twin (r q : Reader) : Prop where
  /-- The same macros were defined. -/
  visited : r.visited.Twin q.visited
  /-- The frames have the same text. -/
  frames : List.Forall₂ Frame.Twin r.frames q.frames
  /-- The top frames end at the same place. -/
  endLoc : q.endLoc = r.endLoc
  /-- Names stand for the same macros. -/
  macros : q.macros = r.macros
  /-- A `>` is read in the same way. -/
  closeAnglesOnly : q.closeAnglesOnly = r.closeAnglesOnly
  /-- The next lexeme stands at the start of a line for both or for none. -/
  lineStart : q.lineStart = r.lineStart
  /-- The last macro use had the same arguments. -/
  args : q.args = r.args
  /-- Definitions take effect for both or for none. -/
  registerDefines : q.registerDefines = r.registerDefines
  /-- The same faults have come up. -/
  errors : q.errors = r.errors
  /-- The same files have been requested. -/
  inclusions : q.inclusions = r.inclusions

/-- What two steps give is the same, and the readers are twins. -/
def Twins {α : Type} (x y : α × Reader) : Prop := y.1 = x.1 ∧ x.2.Twin y.2

variable {r q : Reader} {f g top : Frame} {below : List Frame}

theorem Twin.locOf (h : r.Twin q) (hf : f.Twin g) : q.locOf g = r.locOf f := by
  rw [Reader.locOf, Reader.locOf, h.endLoc, hf.remaining]

/-- Twins read a file or an expansion alike. -/
theorem isSome_fileOf? (h : r.visited.Twin q.visited) (hvisit : g.visit = f.visit) :
    (q.fileOf? g).isSome = (r.fileOf? f).isSome := by
  have hkind : (q.visited.visits[g.visit]?).map Visit.isFile =
      (r.visited.visits[f.visit]?).map Visit.isFile := by
    simpa [hvisit] using congrArg (fun kinds => kinds[f.visit]?) h.visits
  unfold Reader.fileOf?
  cases hy : q.visited.visits[g.visit]? with
  | none =>
    rw [hy] at hkind
    rw [Option.map_eq_none_iff.1 hkind.symm]
  | some y =>
    rw [hy] at hkind
    obtain ⟨x, hx, hsame⟩ := Option.map_eq_some_iff.1 hkind.symm
    rw [hx]
    cases x <;> cases y <;> first | rfl | cases hsame

theorem Twin.activeMacro? (h : r.Twin q) (name : String) :
    q.activeMacro? name = r.activeMacro? name := by
  refine activeMacro?_congr h.macros (fun body => ?_) name
  rw [active_of_forall₂ (fun _ _ hf => hf.body) h.frames]

theorem Twin.leave {below' : List Frame} (h : r.Twin q)
    (hbelow : List.Forall₂ Frame.Twin below below') : (r.leave below).Twin (q.leave below') := by
  cases hbelow with
  | nil => exact { h with frames := .nil }
  | cons hparent hrest =>
    exact { h with
      visited := h.visited.addEntry _ _
      frames := .cons hparent hrest
      endLoc := by simp only [Reader.leave, h.endLoc, hparent.remaining] }

theorem Twin.withAngles (h : r.Twin q) (a : Bool) :
    { r with closeAnglesOnly := a }.Twin { q with closeAnglesOnly := a } :=
  { h with closeAnglesOnly := rfl }

/-! ## Directives -/

/-- Stretches of two files that were cut out of the same bytes are the same macro. -/
theorem macroOf_stretch {w x : Window} (hw : r.visited.window f.visit = .ok w)
    (hx : q.visited.window g.visit = .ok x) (hfw : f.Reads w) (hgx : g.Reads x) {file file' : Nat}
    (hfile : r.fileOf? f = some file) (hfile' : q.fileOf? g = some file') {before bs after after' : Bytes}
    (hrest : f.rest = before ++ (bs ++ after)) (hrest' : g.rest = before ++ (bs ++ after'))
    (hafter : Whole after) (hafter' : Whole after') {d : Definition} (hd : d.Cuts bs) (body : MacroBody) :
    q.visited.macroOf { body with
      text := .fileRange file' (g.pos + before.length + d.start)
        (g.pos + before.length + d.start + d.body.length) } =
    r.visited.macroOf { body with
      text := .fileRange file (f.pos + before.length + d.start)
        (f.pos + before.length + d.start + d.body.length) } := by
  obtain ⟨source, lead, trail, hsource, hbytes, hlength, -⟩ := body_in_file hw hfw hfile hrest hafter hd
  obtain ⟨source', lead', trail', hsource', hbytes', hlength', -⟩ :=
    body_in_file hx hgx hfile' hrest' hafter' hd
  have hwindow := Window.bytes_of_append hbytes
  have hwindow' := Window.bytes_of_append hbytes'
  rw [hlength] at hwindow
  rw [hlength'] at hwindow'
  simp only [Visited.macroOf, Visited.bodyWindow, hsource, hsource', Halt.require_some,
    bind, Except.bind, pure, Except.pure, Except.map, hwindow, hwindow']

/-- A definition that is registered has the same text for both. -/
theorem Twin.register (h : r.Twin q) (hf : f.Twin g) {w x : Window}
    (hw : r.visited.window f.visit = .ok w) (hx : q.visited.window g.visit = .ok x)
    (hfw : f.Reads w) (hgx : g.Reads x) {before bs after : Bytes}
    (hrest : f.rest = before ++ (bs ++ after)) (hafter : Whole after) {d : Definition}
    (hd : d.Cuts bs) :
    Agree Twin (r.register f (f.pos + before.length) d) (q.register g (g.pos + before.length) d) := by
  refine (agree_register (isSome_fileOf? h.visited hf.visit) fun file file' hfile hfile' =>
    macroOf_stretch hw hx hfw hgx hfile hfile' hrest (hf.rest.trans hrest) hafter hafter hd).mono ?_
  rintro _ _ ⟨b, c, hname, hsame, rfl, rfl⟩
  exact { h with
    visited := h.visited.addBody hsame
    macros := by simp only [addMacro, hname, h.macros, h.visited.bodies.size] }

/-- A directive does the same for both. -/
theorem Twin.perform (h : r.Twin q) (hf : f.Twin g) {w x : Window}
    (hw : r.visited.window f.visit = .ok w) (hx : q.visited.window g.visit = .ok x)
    (hfw : f.Reads w) (hgx : g.Reads x) {scan : Scan} (hfits : scan.Fits f.rest) (text : String) :
    Agree Twin (r.perform f text (f.rest.take scan.len) scan.effect)
      (q.perform g text (g.rest.take scan.len) scan.effect) := by
  rw [hf.rest]
  refine agree_perform h h.registerDefines (fun _ => { h with inclusions := by rw [h.inclusions] })
    (fun _ => { h with macros := by rw [h.macros] }) (fun offset d heffect hd => ?_) text
  obtain ⟨hlength, hwhole, hsplit⟩ := operand_split hfw hfits (.inr heffect)
  obtain ⟨-, hafter⟩ := hfw.whole.cut hfits.cut
  have hregister := h.register hf hw hx hfw hgx hsplit hafter (Definition.parse?_whole hwhole hd)
  rwa [hlength] at hregister

/-! ## Macros -/

/-- The replacement texts that are put on top are the same. -/
theorem Twin.expand (h : r.Twin q) (hr : r.visited.Sound) (hq : q.visited.Sound) {body : Nat}
    (hbody : body < r.visited.bodies.size) (name : String) (loc : LinearLoc)
    (parent parent' : Frame) (callSite callSite' : Nat) :
    Agree Twins (r.expand body name loc parent callSite) (q.expand body name loc parent' callSite') := by
  refine (agree_expand h.visited.bodies hr hq (by rw [h.args]) hbody name loc loc parent parent' callSite
    callSite').mono ?_
  rintro _ _ ⟨filled, w, z, hw, hz, hbytes, rfl, rfl⟩
  have hsize := h.visited.size_visits
  have hframe := Frame.twin_ofWindow r.visited.visits.size (some body) hw hz hbytes
  refine ⟨rfl, { h with
    visited := (h.visited.addVisit (by rfl)).addEntry _ _
    frames := .cons (hsize ▸ hframe) h.frames
    endLoc := ?_ }⟩
  show loc + (Frame.ofWindow q.visited.visits.size (some body) z).remaining = _
  rw [hsize, hframe.remaining]
  rfl

/-- A name is read in the same way. -/
theorem Twin.readName {below' : List Frame} (h : r.Twin q) (hr : r.Sound) (hq : q.Sound)
    (hf : f.Twin g) (hbelow : List.Forall₂ Frame.Twin below below') (start start' : Nat)
    (loc : LinearLoc) (name : String) :
    Agree Twins (r.readName f below start loc name) (q.readName g below' start' loc name) := by
  unfold Reader.readName
  rw [h.activeMacro?]
  cases hactive : r.activeMacro? name with
  | none => exact .ok ⟨rfl, h⟩
  | some body =>
    obtain ⟨hlt, -⟩ := hr.activeMacro? hactive
    obtain ⟨b, c, -, -, hb, hc, -, -, -, -, htakes, -⟩ := h.visited.bodies.body hr.visited hq.visited hlt
    refine .bind (R := fun b' c' => b' = b ∧ c' = c) (by rw [hb, hc]; exact .ok ⟨rfl, rfl⟩) ?_
    rintro _ _ ⟨rfl, rfl⟩
    have h₀ : { r with args := [] }.Twin { q with args := [] } := { h with args := rfl }
    rw [htakes]
    refine .ite (fun _ => ?_) fun _ => h₀.expand hr.visited hq.visited hlt name loc f g _ _
    rw [hf.missing, hf.rest]
    have hbase : { q with args := [] }.locOf g = { r with args := [] }.locOf f := h₀.locOf hf
    cases Arguments.read f.missing f.rest with
    | missing looked =>
      dsimp only
      rw [hf.lacks]
      exact .ite (fun _ => .error _) fun _ => .ok ⟨rfl, h₀⟩
    | unfinished fault looked =>
      dsimp only
      rw [hf.lacks, hbase]
      refine .ite (fun _ => .error _) fun _ => .ok ⟨rfl, { h₀ with
        frames := .cons hf.finish hbelow
        errors := by simp only [h.errors] }⟩
    | found arguments stop =>
      dsimp only
      rw [hbase]
      refine .after fun args => ?_
      have h₁ : { r with args, frames := f.advance stop :: below }.Twin
          { q with args, frames := g.advance stop :: below' } :=
        { h with args := rfl, frames := .cons (hf.advance stop) hbelow }
      exact h₁.expand hr.visited hq.visited hlt name loc f g _ _

/-! ## Steps -/

theorem Twin.behind {below' : List Frame} (h : r.Twin q) (hf : f.Twin g)
    (hbelow : List.Forall₂ Frame.Twin below below') (scan : Scan) :
    (r.behind scan f below).Twin (q.behind scan g below') :=
  { h with
    frames := .cons (hf.advance scan.len) hbelow
    lineStart := rfl
    errors := by simp only [Reader.behind, h.errors, h.locOf hf] }

/-- A lexeme is dealt with in the same way. -/
theorem Twin.deal {below' : List Frame} (h : r.Twin q) (hr : r.Sound) (hq : q.Sound)
    (hframes : r.frames = f :: below) (hframes' : q.frames = g :: below') (hf : f.Twin g)
    (hbelow : List.Forall₂ Frame.Twin below below') {scan : Scan} (hfits : scan.Fits f.rest) :
    Agree Twins (r.deal scan f below) (q.deal scan g below') := by
  obtain ⟨w, hw, hfw⟩ := hr.window hframes
  obtain ⟨x, hx, hgx⟩ := hq.window hframes'
  have hbehind := h.behind hf hbelow scan
  obtain ⟨-, hafter⟩ := hfw.whole.cut hfits.cut
  unfold Reader.deal
  cases hkind : scan.kind? with
  | none => exact .ok ⟨rfl, hbehind⟩
  | some kind =>
    rw [hf.rest, h.locOf hf]
    refine .after fun text => ?_
    by_cases hname : kind = .identifier
    · -- a name does nothing by itself
      rw [hfits.passive (by rw [hkind, hname]; decide)]
      refine .bind (R := fun r' q' => r' = r.behind scan f below ∧ q' = q.behind scan g below')
        (.ok ⟨rfl, rfl⟩) ?_
      rintro _ _ ⟨rfl, rfl⟩
      rw [if_pos hname, if_pos hname]
      refine (hbehind.readName ?_ ?_ (hf.advance scan.len) hbelow _ _ _ text).bind ?_
      · exact hr.advance hframes hfits.le hafter rfl rfl rfl
      · exact hq.advance hframes' (hf.rest ▸ hfits.le) (hf.rest ▸ hafter) rfl rfl rfl
      rintro ⟨t, r'⟩ ⟨_, q'⟩ ⟨rfl, h'⟩
      exact .ok ⟨rfl, h'⟩
    · have hperform := hbehind.perform hf hw hx hfw hgx hfits text
      rw [hf.rest] at hperform
      refine hperform.bind fun r' q' h' => ?_
      rw [if_neg hname, if_neg hname]
      exact .ok ⟨rfl, h'⟩

/-- What twins do next is the same. -/
theorem Twin.step (h : r.Twin q) (hr : r.Sound) (hq : q.Sound) : Agree Twins r.step q.step := by
  have hframes := h.frames
  cases hr₀ : r.frames with
  | nil =>
    rw [hr₀, List.forall₂_nil_left_iff] at hframes
    rw [step_of_frames_nil hr₀, step_of_frames_nil hframes, h.endLoc]
    exact .ok ⟨rfl, h⟩
  | cons f below =>
    rw [hr₀, List.forall₂_cons_left_iff] at hframes
    obtain ⟨g, below', hf, hbelow, hq₀⟩ := hframes
    obtain ⟨w, -, hfw⟩ := hr.window hr₀
    obtain ⟨x, -, hgx⟩ := hq.window hq₀
    cases hrest : f.rest with
    | nil =>
      rw [step_of_rest_nil hr₀ hrest hfw.missing_eq,
        step_of_rest_nil hq₀ (hf.rest.trans hrest) hgx.missing_eq]
      exact .ok ⟨rfl, h.leave hbelow⟩
    | cons b bs =>
      have hfits := Lexeme.fits_scanFrom r.closeAnglesOnly r.lineStart b bs
      rw [step_eq_deal hr₀ hrest hfw.missing_eq rfl,
        step_eq_deal hq₀ (hf.rest.trans hrest) hgx.missing_eq
          (by rw [h.closeAnglesOnly, h.lineStart])]
      exact h.deal hr hq hr₀ hq₀ hf hbelow (by rw [hrest]; exact hfits)

/-- Twins read the same token. -/
theorem Twin.readToken (h : r.Twin q) (hr : r.Sound) (hq : q.Sound) :
    ∃ t r' q', r.readToken = .ok (t, r') ∧ q.readToken = .ok (t, q') ∧ r'.Twin q' ∧ r'.Sound ∧
      q'.Sound := by
  induction hunread : r.unread using Nat.strongRecOn generalizing r q with
  | ind n ih =>
    obtain ⟨t?, r₁, hstep, hr₁, -⟩ := hr.step
    obtain ⟨u?, q₁, hstep', hq₁, -⟩ := hq.step
    have hagree := h.step hr hq
    rw [hstep, hstep'] at hagree
    obtain ⟨_, ⟨⟩, hsame, h₁⟩ := hagree.of_ok
    obtain rfl : t? = u? := hsame.symm
    rw [readToken_eq, readToken_eq q, hstep, hstep']
    cases t? with
    | some t => exact ⟨t, r₁, q₁, rfl, rfl, h₁, hr₁, hq₁⟩
    | none =>
      have hlt := unread_lt_of_step hstep
      exact ih r₁.unread (by omega) h₁ hr₁ hq₁ rfl

end Reader

end CppDecl
