import CppDecl.Proofs.LineStart
import CppDecl.Proofs.Local
import CppDecl.Proofs.Twins

/-!
# Readers of texts that differ further on

Two readers may read texts that are the same up to some place only.  Readers are *akin* if what they have
before them is the same in all expansions, and in a file the one has `old` at its end where the other one
has `new`.  The same macros are defined, though perhaps at other places, and the
same faults have come up, though perhaps at other places as well.

A step that leaves `old` alone is the same for readers that are akin (`Reader.Akin.step`).  It gives the
same token, if any, and the readers stay akin.  For this both `old` and `new` have to start with a
space, and no parenthesis may follow in `new` (`Replaces`).  If `old` and `new` are the same text, readers
that are akin have the same text before them, and every step is the same.
-/

namespace CppDecl

open Byte
open Halt (Agree)
open Text (Whole)

/-- One text may stand for another one behind a lexeme: they are the same, or both start with a space, and
what follows on the space in the new one does not start with a parenthesis. -/
inductive Replaces (old new : Bytes) : Prop
  /-- They are the same. -/
  | same (eq : old = new)
  /-- Both start with a space. -/
  | space {v w : Bytes} (old_eq : old = space :: v) (new_eq : new = space :: w)
      (no_paren : (w.dropWhile isBlank).head? ≠ some openParen)

theorem Scan.Fits.told {scan : Scan} {bs : Bytes} (h : scan.Fits bs) : scan.told.Fits bs :=
  ⟨h.pos, h.le, h.cut, h.lexical, h.passive, h.operand⟩

/-- What a token is, apart from its place. -/
def Token.content (t : Token) : TokenKind × String := (t.kind, t.text)

/-! ## Frames -/

/-- The frames are of the same visit.  In an expansion they have the same text before them.  In a file, the
one has `old` at its end where the other one has `new`. -/
structure Frame.Akin (old new : Bytes) (f g : Frame) : Prop where
  /-- The visits have the same number. -/
  visit : g.visit = f.visit
  /-- The same macro is being expanded. -/
  body : g.body? = f.body?
  /-- In an expansion the texts are the same. -/
  expansion : f.body? ≠ none → g.rest = f.rest
  /-- In a file they are the same up to their ends. -/
  file : f.body? = none → ∃ front, f.rest = front ++ old ∧ g.rest = front ++ new

/-- If the frame is that of a file, there is `old` left of it behind the next `n` bytes. -/
def Frame.Spares (old : Bytes) (f : Frame) (n : Nat) : Prop :=
  f.body? = none → n + old.length ≤ f.rest.length

namespace Frame

variable {old new : Bytes} {f g : Frame} {n : Nat}

theorem Spares.of_advance (h : (f.advance n).Spares old 0) (hle : n ≤ f.rest.length) : f.Spares old n := by
  intro hbody
  have hspares := h hbody
  rw [show (f.advance n).rest = f.rest.drop n from rfl, List.length_drop] at hspares
  omega

/-- Either the texts are the same, or they are up to a space, or there is nothing else to say. -/
theorem Akin.rest_cases (h : f.Akin old new g) (hreplaces : Replaces old new) : g.rest = f.rest ∨
    f.body? = none ∧ ∃ front v w, old = space :: v ∧ f.rest = front ++ space :: v ∧
      g.rest = front ++ space :: w ∧ (w.dropWhile isBlank).head? ≠ some openParen := by
  by_cases hbody : f.body? = none
  · obtain ⟨front, hold, hnew⟩ := h.file hbody
    cases hreplaces with
    | same heq =>
      rw [← heq, ← hold] at hnew
      exact .inl hnew
    | space hv hw hparen => exact .inr ⟨hbody, front, _, _, hv, hv ▸ hold, hw ▸ hnew, hparen⟩
  · exact .inl (h.expansion hbody)

theorem Akin.advance (h : f.Akin old new g) (hspares : f.Spares old n) :
    (f.advance n).Akin old new (g.advance n) := by
  refine ⟨h.visit, h.body, fun hbody => congrArg (List.drop n) (h.expansion hbody), fun hbody => ?_⟩
  obtain ⟨front, hold, hnew⟩ := h.file hbody
  have hle := hspares hbody
  rw [hold, List.length_append] at hle
  have hn : n ≤ front.length := by omega
  refine ⟨front.drop n, ?_, ?_⟩
  · show f.rest.drop n = _
    rw [hold, List.drop_append_of_le_length hn]
  · show g.rest.drop n = _
    rw [hnew, List.drop_append_of_le_length hn]

theorem Akin.take (h : f.Akin old new g) (hspares : f.Spares old n) :
    g.rest.take n = f.rest.take n := by
  by_cases hbody : f.body? = none
  · obtain ⟨front, hold, hnew⟩ := h.file hbody
    have hle := hspares hbody
    rw [hold, List.length_append] at hle
    have hn : n ≤ front.length := by omega
    rw [hold, hnew, List.take_append_of_le_length hn, List.take_append_of_le_length hn]
  · rw [h.expansion hbody]

/-- A file that is passed to its end has nothing left of `old`. -/
theorem Akin.finish (h : f.Akin old new g) (hreplaces : Replaces old new) (hspares : f.finish.Spares old 0) :
    f.finish.Akin old new g.finish := by
  refine ⟨h.visit, h.body, fun _ => rfl, fun hbody => ?_⟩
  have hold : old = [] := List.eq_nil_of_length_eq_zero (by simpa [Frame.finish] using hspares hbody)
  cases hreplaces with
  | same heq => exact ⟨[], by rw [hold]; rfl, by rw [← heq, hold]; rfl⟩
  | space hv _ _ => rw [hold] at hv; cases hv

/-- A lexeme that leaves `old` alone is the same. -/
theorem Akin.scanFrom (h : f.Akin old new g) (hreplaces : Replaces old new) {closeAnglesOnly lineStart : Bool}
    {b : UInt8} {bs : Bytes} (hrest : f.rest = b :: bs)
    (hspares : f.Spares old (Lexeme.scanFrom closeAnglesOnly lineStart 0 b bs).len) :
    ∃ bs', g.rest = b :: bs' ∧ (Lexeme.scanFrom closeAnglesOnly lineStart 0 b bs').told =
      (Lexeme.scanFrom closeAnglesOnly lineStart 0 b bs).told := by
  rcases h.rest_cases hreplaces with hsame | ⟨hbody, front, v, w, hold, hf, hg, -⟩
  · exact ⟨bs, hsame.trans hrest, rfl⟩
  · have hpos := (Lexeme.fits_scanFrom closeAnglesOnly lineStart b bs).pos
    have hle := hspares hbody
    rw [hf, hold, List.length_append] at hle
    cases front with
    | nil =>
      rw [List.length_nil] at hle
      omega
    | cons x front =>
      rw [hf, List.cons_append] at hrest
      obtain ⟨rfl, rfl⟩ := List.cons.inj hrest
      simp only [List.length_cons] at hle
      exact ⟨_, hg, Lexeme.told_scanFrom (by omega) w⟩

/-- Arguments of a macro that leave `old` alone are the same. -/
theorem Akin.found (h : f.Akin old new g) (hreplaces : Replaces old new) {found : List (Nat × Bytes)}
    {stop : Nat} (hfound : Arguments.read 0 f.rest = .found found stop) (hspares : f.Spares old stop) :
    Arguments.read 0 g.rest = .found found stop := by
  rcases h.rest_cases hreplaces with hsame | ⟨hbody, front, v, w, hold, hf, hg, -⟩
  · rw [hsame, hfound]
  · have hle := hspares hbody
    rw [hf, hold, List.length_append] at hle
    rw [hg]
    exact Arguments.read_before (hf ▸ hfound) (by omega) w

/-- Where there are no arguments of a macro, there are none. -/
theorem Akin.missing (h : f.Akin old new g) (hreplaces : Replaces old new) {looked : Nat}
    (hmissing : Arguments.read 0 f.rest = .missing looked) :
    ∃ looked', Arguments.read 0 g.rest = .missing looked' := by
  rcases h.rest_cases hreplaces with hsame | ⟨-, front, v, w, -, hf, hg, hparen⟩
  · exact ⟨looked, by rw [hsame, hmissing]⟩
  · rw [hg]
    exact Arguments.read_missing (hf ▸ hmissing) hparen

/-- Arguments of a macro that do not end leave nothing of the text. -/
theorem Akin.unfinished (h : f.Akin old new g) (hreplaces : Replaces old new) {fault : Fault} {looked : Nat}
    (hunfinished : Arguments.read 0 f.rest = .unfinished fault looked) (hspares : f.finish.Spares old 0) :
    Arguments.read 0 g.rest = .unfinished fault looked := by
  rcases h.rest_cases hreplaces with hsame | ⟨hbody, front, v, w, hold, -, -, -⟩
  · rw [hsame, hunfinished]
  · have hle := hspares hbody
    rw [hold] at hle
    exact absurd hle (by simp [Frame.finish])

end Frame

/-! ## Readers -/

namespace Reader

/-- The readers know the same macros and read in the same way, and their frames are akin. -/
structure Akin (old new : Bytes) (r q : Reader) : Prop where
  /-- The same macros were defined. -/
  visited : r.visited.Twin q.visited
  /-- The frames have the same text, up to their ends. -/
  frames : List.Forall₂ (Frame.Akin old new) r.frames q.frames
  /-- Names stand for the same macros. -/
  macros : q.macros = r.macros
  /-- A `>` is read in the same way. -/
  closeAnglesOnly : q.closeAnglesOnly = r.closeAnglesOnly
  /-- The next lexeme stands at the start of a line for both or for none. -/
  lineStart : q.lineStart = r.lineStart
  /-- The last macro use had arguments with the same texts. -/
  args : q.args.map Token.text = r.args.map Token.text
  /-- Definitions take effect for both or for none. -/
  registerDefines : q.registerDefines = r.registerDefines
  /-- The same faults have come up. -/
  errors : q.errors.map LexError.cause = r.errors.map LexError.cause

/-- The reader leaves `old` alone in its files. -/
def Spares (old : Bytes) (r : Reader) : Prop := ∀ f ∈ r.frames, f.Spares old 0

/-- The tokens are the same, apart from their places, and the readers are akin. -/
def Kindred (old new : Bytes) (x y : Token × Reader) : Prop :=
  y.1.content = x.1.content ∧ x.2.Akin old new y.2

variable {old new : Bytes} {r q r' : Reader} {f g : Frame} {below below' : List Frame} {t? : Option Token}

theorem Akin.activeMacro? (h : r.Akin old new q) (name : String) :
    q.activeMacro? name = r.activeMacro? name := by
  refine activeMacro?_congr h.macros (fun body => ?_) name
  rw [active_of_forall₂ (fun _ _ hf => hf.body) h.frames]

theorem Akin.leave (h : r.Akin old new q) (hbelow : List.Forall₂ (Frame.Akin old new) below below') :
    (r.leave below).Akin old new (q.leave below') := by
  cases hbelow with
  | nil => exact { h with frames := .nil }
  | cons hparent hrest => exact { h with visited := h.visited.addEntry _ _, frames := .cons hparent hrest }

/-! ### Directives -/

/-- A definition that is registered has the same text for both. -/
theorem Akin.register (h : r.Akin old new q) {w x : Window} (hvisit : g.visit = f.visit)
    (hw : r.visited.window f.visit = .ok w) (hx : q.visited.window g.visit = .ok x)
    (hfw : f.Reads w) (hgx : g.Reads x) {before bs after after' : Bytes}
    (hrest : f.rest = before ++ (bs ++ after)) (hrest' : g.rest = before ++ (bs ++ after'))
    (hafter : Whole after) (hafter' : Whole after') {d : Definition} (hd : d.Cuts bs) :
    Agree (Akin old new) (r.register f (f.pos + before.length) d)
      (q.register g (g.pos + before.length) d) := by
  refine (agree_register (isSome_fileOf? h.visited hvisit) fun file file' hfile hfile' =>
    macroOf_stretch hw hx hfw hgx hfile hfile' hrest hrest' hafter hafter' hd).mono ?_
  rintro _ _ ⟨b, c, hname, hsame, rfl, rfl⟩
  exact { h with
    visited := h.visited.addBody hsame
    macros := by simp only [addMacro, hname, h.macros, h.visited.bodies.size] }

/-- A directive does the same for both. -/
theorem Akin.perform (h : r.Akin old new q) (hf : f.Akin old new g) {w x : Window}
    (hw : r.visited.window f.visit = .ok w) (hx : q.visited.window g.visit = .ok x)
    (hfw : f.Reads w) (hgx : g.Reads x) {scan : Scan} (hfits : scan.Fits f.rest)
    (hfits' : scan.Fits g.rest) (hspares : f.Spares old scan.len) (text : String) :
    Agree (Akin old new) (r.perform f text (f.rest.take scan.len) scan.effect)
      (q.perform g text (f.rest.take scan.len) scan.effect) := by
  refine agree_perform h h.registerDefines (fun _ => { h with })
    (fun _ => { h with macros := by rw [h.macros] }) (fun offset d heffect hd => ?_) text
  obtain ⟨hlength, hwhole, hsplit⟩ := operand_split hfw hfits (.inr heffect)
  obtain ⟨-, -, hsplit'⟩ := operand_split hgx hfits' (.inr heffect)
  obtain ⟨-, hafter⟩ := hfw.whole.cut hfits.cut
  obtain ⟨-, hafter'⟩ := hgx.whole.cut hfits'.cut
  obtain ⟨-, hle⟩ := hfits.operand offset (.inr heffect)
  have htake : g.rest.take offset = f.rest.take offset := by
    have htaken := congrArg (List.take offset) (hf.take hspares)
    rwa [List.take_take, List.take_take, Nat.min_eq_left hle] at htaken
  rw [htake, hf.take hspares] at hsplit'
  have hregister := h.register hf.visit hw hx hfw hgx hsplit hsplit' hafter hafter'
    (Definition.parse?_whole hwhole hd)
  rwa [hlength] at hregister

/-! ### Macros -/

/-- The replacement texts that are put on top are the same. -/
theorem Akin.expand (h : r.Akin old new q) (hr : r.visited.Sound) (hq : q.visited.Sound) {body : Nat}
    (hbody : body < r.visited.bodies.size) (name : String) (loc loc' : LinearLoc) (parent parent' : Frame)
    (callSite callSite' : Nat) :
    Agree (Kindred old new) (r.expand body name loc parent callSite)
      (q.expand body name loc' parent' callSite') := by
  refine (agree_expand h.visited.bodies hr hq h.args hbody name loc loc' parent parent' callSite
    callSite').mono ?_
  rintro _ _ ⟨filled, w, z, hw, hz, hbytes, rfl, rfl⟩
  have hsize := h.visited.size_visits
  have hframe := Frame.twin_ofWindow r.visited.visits.size (some body) hw hz hbytes
  rw [← hsize] at hframe
  exact ⟨rfl, { h with
    visited := (h.visited.addVisit (by rfl)).addEntry _ _
    frames := .cons ⟨hsize, rfl, fun _ => hframe.rest, fun hnone => by cases hnone⟩ h.frames }⟩

/-- A name is read in the same way, if `old` is left alone. -/
theorem Akin.readName (h : r.Akin old new q) (hr : r.Sound) (hq : q.Sound) (hreplaces : Replaces old new)
    (hframes : r.frames = f :: below) (hframes' : q.frames = g :: below') {start start' : Nat}
    {loc loc' : LinearLoc} {name : String} {t : Token}
    (hread : r.readName f below start loc name = .ok (t, r')) (hspares : r'.Spares old) :
    ∃ u q', q.readName g below' start' loc' name = .ok (u, q') ∧ Kindred old new (t, r') (u, q') := by
  obtain ⟨w, -, hfw⟩ := hr.window hframes
  obtain ⟨x, -, hgx⟩ := hq.window hframes'
  have hboth := h.frames
  rw [hframes, hframes'] at hboth
  obtain ⟨hf, hbelow⟩ := List.forall₂_cons.1 hboth
  have hagree : ∀ {x : Except Halt (Token × Reader)}, Agree (Kindred old new) (.ok (t, r')) x →
      ∃ u q', x = .ok (u, q') ∧ Kindred old new (t, r') (u, q') := by
    intro x hx
    obtain ⟨⟨u, q'⟩, heq, hkin⟩ := hx.of_ok
    exact ⟨u, q', heq, hkin⟩
  unfold Reader.readName at hread ⊢
  rw [h.activeMacro?]
  cases hactive : r.activeMacro? name with
  | none =>
    rw [hactive] at hread
    cases hread
    exact ⟨_, _, rfl, rfl, h⟩
  | some body =>
    obtain ⟨hlt, -⟩ := hr.activeMacro? hactive
    obtain ⟨b, c, -, -, hb, hc, -, -, -, -, htakes, -⟩ := h.visited.bodies.body hr.visited hq.visited hlt
    simp only [hactive, hb, Halt.require_some, bind, Except.bind] at hread
    simp only [hc, Halt.require_some, bind, Except.bind, htakes]
    have h₀ : { r with args := [] }.Akin old new { q with args := [] } := { h with args := rfl }
    by_cases htakesArgs : b.takesArgs = true
    · rw [if_pos htakesArgs] at hread ⊢
      have hlacks : ∀ {k : Frame} {w : Window} (n : Nat), k.Reads w → k.lacks n = false := fun n hk => by
        simp [Frame.lacks, hk.missing_eq]
      simp only [hfw.missing_eq, hlacks _ hfw] at hread
      simp only [hgx.missing_eq, hlacks _ hgx]
      cases harguments : Arguments.read 0 f.rest with
      | missing looked =>
        obtain ⟨looked', hmissing⟩ := hf.missing hreplaces harguments
        rw [harguments] at hread
        rw [hmissing]
        cases hread
        exact ⟨_, _, rfl, rfl, h₀⟩
      | unfinished fault looked =>
        rw [harguments] at hread
        cases hread
        have hfinish := hspares _ List.mem_cons_self
        rw [hf.unfinished hreplaces harguments hfinish]
        refine ⟨_, _, rfl, rfl,
          { h₀ with frames := .cons (hf.finish hreplaces hfinish) hbelow, errors := ?_ }⟩
        simp only [List.map_append, h.errors]
        rfl
      | found found stop =>
        rw [harguments] at hread
        obtain ⟨args, hargs, hexpand⟩ := Halt.bind_eq_ok hread
        have hstop : f.Spares old stop := by
          obtain ⟨-, ⟨new, hnew⟩, -, -⟩ := expand_eq_ok hexpand
          refine .of_advance (hspares _ ?_) ?_
          · rw [hnew]
            exact List.mem_cons_of_mem _ List.mem_cons_self
          · exact (Arguments.read_endsWith harguments).le
        rw [hf.found hreplaces harguments hstop]
        have htexts := @agree_arguments (fun t u => u.text = t.text) ({ r with args := [] }.locOf f)
          ({ q with args := [] }.locOf g) (fun _ _ => rfl) found
        simp only [bind, Except.bind] at hargs htexts ⊢
        rw [hargs] at htexts
        obtain ⟨args', hargs', hsame⟩ := htexts.of_ok
        rw [hargs']
        have h₁ : { r with args, frames := f.advance stop :: below }.Akin old new
            { q with args := args', frames := g.advance stop :: below' } :=
          { h with args := Token.map_text_of_forall₂ hsame, frames := .cons (hf.advance hstop) hbelow }
        have hagain := h₁.expand hr.visited hq.visited hlt name loc loc' f g (start - f.start)
          (start' - g.start)
        rw [show Reader.expand _ body name loc f (start - f.start) = _ from hexpand] at hagain
        exact hagree hagain
    · rw [if_neg htakesArgs] at hread ⊢
      have hexpand := h₀.expand hr.visited hq.visited hlt name loc loc' f g (start - f.start)
        (start' - g.start)
      rw [hread] at hexpand
      exact hagree hexpand

/-! ### Steps -/

theorem Akin.behind (h : r.Akin old new q) (hf : f.Akin old new g)
    (hbelow : List.Forall₂ (Frame.Akin old new) below below') {scan : Scan}
    (hspares : f.Spares old scan.len) :
    (r.behind scan f below).Akin old new (q.behind scan g below') := by
  refine { h with frames := .cons (hf.advance hspares) hbelow, lineStart := rfl, errors := ?_ }
  have hcause : ∀ loc : LinearLoc, LexError.cause ∘ Fault.locate loc = Fault.cause := fun _ => rfl
  simp only [Reader.behind, List.map_append, List.map_map, hcause, h.errors]

/-- How many bytes were looked at does not matter for what is done with a lexeme. -/
theorem deal_told (r : Reader) (scan : Scan) (top : Frame) (below : List Frame) :
    r.deal scan.told top below = r.deal scan top below := rfl

/-- A lexeme is dealt with in the same way, if `old` is left alone. -/
theorem Akin.deal (h : r.Akin old new q) (hr : r.Sound) (hq : q.Sound) (hreplaces : Replaces old new)
    (hframes : r.frames = f :: below) (hframes' : q.frames = g :: below') {scan : Scan}
    (hfits : scan.Fits f.rest) (hfits' : scan.Fits g.rest) (hlexeme : f.Spares old scan.len)
    (hdeal : r.deal scan f below = .ok (t?, r')) (hspares : r'.Spares old) :
    ∃ u? q', q.deal scan g below' = .ok (u?, q') ∧ u?.map Token.content = t?.map Token.content ∧
      r'.Akin old new q' := by
  obtain ⟨w, hw, hfw⟩ := hr.window hframes
  obtain ⟨x, hx, hgx⟩ := hq.window hframes'
  have hboth := h.frames
  rw [hframes, hframes'] at hboth
  obtain ⟨hf, hbelow⟩ := List.forall₂_cons.1 hboth
  have hbehind := h.behind hf hbelow hlexeme
  unfold Reader.deal at hdeal ⊢
  cases hkind : scan.kind? with
  | none =>
    rw [hkind] at hdeal
    cases hdeal
    exact ⟨_, _, rfl, rfl, hbehind⟩
  | some kind =>
    rw [hkind] at hdeal
    rw [hf.take hlexeme]
    obtain ⟨text, htext, hdeal⟩ := Halt.bind_eq_ok hdeal
    obtain ⟨r₁, hr₁, hdeal⟩ := Halt.bind_eq_ok hdeal
    have hperform := hbehind.perform hf hw hx hfw hgx hfits hfits' hlexeme text
    rw [hr₁] at hperform
    obtain ⟨q₁, hq₁, h₁⟩ := hperform.of_ok
    simp only [htext, hq₁, bind, Except.bind]
    by_cases hname : kind = .identifier
    · rw [if_pos hname] at hdeal ⊢
      obtain ⟨⟨t, r₂⟩, hread, hdeal⟩ := Halt.bind_eq_ok hdeal
      cases hdeal
      -- a name does nothing by itself
      rw [hfits.passive (by rw [hkind, hname]; decide)] at hr₁ hq₁
      cases hr₁
      cases hq₁
      obtain ⟨u, q', hagain, hcontent, hakin⟩ := h₁.readName
        (hr.advance hframes hfits.le (hfw.whole.cut hfits.cut).2 rfl rfl rfl)
        (hq.advance hframes' hfits'.le (hgx.whole.cut hfits'.cut).2 rfl rfl rfl) hreplaces rfl rfl hread
        hspares
      exact ⟨some u, q', by rw [hagain]; rfl, congrArg some hcontent, hakin⟩
    · rw [if_neg hname] at hdeal ⊢
      cases hdeal
      exact ⟨_, _, rfl, rfl, h₁⟩

/-- A step that leaves `old` alone leaves it behind the first lexeme. -/
theorem Sound.spares_of_step (h : r.Sound) (hframes : r.frames = f :: below) {b : UInt8} {bs : Bytes}
    (hrest : f.rest = b :: bs) (hstep : r.step = .ok (t?, r')) (hspares : r'.Spares old) :
    f.Spares old (Lexeme.scanFrom r.closeAnglesOnly r.lineStart 0 b bs).len := by
  have hle := (Lexeme.fits_scanFrom r.closeAnglesOnly r.lineStart b bs).le
  rw [← hrest] at hle
  cases h.leaves hframes hrest hstep with
  | lexeme hframes' _ =>
    exact .of_advance (hspares _ (by rw [hframes']; exact List.mem_cons_self)) hle
  | @all k hframes' hsame hnil _ =>
    intro hbody
    have hnone := hspares k (by rw [hframes']; exact List.mem_cons_self) (hsame.trans hbody)
    rw [hnil, List.length_nil] at hnone
    omega
  | @entered top n c hframes' hlast _ hle' =>
    intro hbody
    have hadvance := Frame.Spares.of_advance
      (hspares (f.advance n) (by rw [hframes']; exact List.mem_cons_of_mem _ List.mem_cons_self))
      hlast.le hbody
    omega

/-- A step that leaves `old` alone is the same for readers that are akin. -/
theorem Akin.step (h : r.Akin old new q) (hr : r.Sound) (hq : q.Sound) (hreplaces : Replaces old new)
    (hstep : r.step = .ok (t?, r')) (hspares : r'.Spares old) :
    ∃ u? q', q.step = .ok (u?, q') ∧ u?.map Token.content = t?.map Token.content ∧ r'.Akin old new q' := by
  have hboth := h.frames
  cases hframes : r.frames with
  | nil =>
    rw [hframes, List.forall₂_nil_left_iff] at hboth
    rw [step_of_frames_nil hframes] at hstep
    cases hstep
    exact ⟨_, _, step_of_frames_nil hboth, rfl, h⟩
  | cons f below =>
    rw [hframes, List.forall₂_cons_left_iff] at hboth
    obtain ⟨g, below', hf, hbelow, hframes'⟩ := hboth
    obtain ⟨w, -, hfw⟩ := hr.window hframes
    obtain ⟨x, -, hgx⟩ := hq.window hframes'
    cases hrest : f.rest with
    | nil =>
      have hrest' : g.rest = [] := by
        rcases hf.rest_cases hreplaces with hsame | ⟨-, front, v, w, -, hfront, -, -⟩
        · exact hsame.trans hrest
        · rw [hrest] at hfront
          exact absurd hfront.symm (by simp)
      rw [step_of_rest_nil hframes hrest hfw.missing_eq] at hstep
      cases hstep
      exact ⟨_, _, step_of_rest_nil hframes' hrest' hgx.missing_eq, rfl, h.leave hbelow⟩
    | cons b bs =>
      have hlexeme := hr.spares_of_step hframes hrest hstep hspares
      obtain ⟨bs', hrest', htold⟩ := hf.scanFrom hreplaces hrest hlexeme
      have hfits := (Lexeme.fits_scanFrom r.closeAnglesOnly r.lineStart b bs).told
      have hfits' := (Lexeme.fits_scanFrom r.closeAnglesOnly r.lineStart b bs').told
      rw [step_eq_deal hframes hrest hfw.missing_eq rfl, ← deal_told] at hstep
      rw [step_eq_deal hframes' hrest' hgx.missing_eq (by rw [h.closeAnglesOnly, h.lineStart]), ← deal_told,
        htold]
      rw [htold, ← hrest'] at hfits'
      rw [← hrest] at hfits
      exact h.deal hr hq hreplaces hframes hframes' hfits hfits' hlexeme hstep hspares

end Reader

end CppDecl
