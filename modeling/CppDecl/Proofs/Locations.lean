import CppDecl.Proofs.Chart
import CppDecl.Proofs.Source
import CppDecl.Proofs.Widths

/-!
# Places of tokens

In a course of work with one reader, files are pushed and tokens are read in any order.  Each file is
pushed once, and no file has more bytes than an offset can count.  Whatever is read, the place of a
token leads back to it, right away and at every later time:

* the entry that governs the place leads to a text that has the token there,
* the macros around the place are those that were being expanded when the token was read, up to the
  nearest file, and
* the position is that of the token itself, if it was read from a file, and otherwise that of the
  name in the nearest file that started the outermost of the expansions.

This is `Course.located`.  It leaves out the uses of macros, whose places are taken over by the
expansions, and the end of the file.

The reading of a token is kept together with the reader in which the token was next
(`Reading.before`), since what is said about the token speaks of the frames at that moment.
-/

namespace CppDecl

open Reader

/-! ## Courses -/

/-- A token that was read. -/
structure Reading where
  /-- The reader when the first byte of the token was next to be read. -/
  before : Reader
  /-- The token. -/
  token : Token
  /-- The reader just behind the token. -/
  after : Reader

/-- A course of work with one reader: the tokens that were read, last one first, and the reader now. -/
inductive Course (config : Configuration) : List Reading → Reader → Prop
  /-- Nothing has been done. -/
  | start : Course config [] (.new .empty config)
  /-- A file is pushed that has not been pushed before. -/
  | push {readings : List Reading} {r : Reader} {path contents : String}
      (course : Course config readings r) (fresh : r.visited.Fresh path)
      (small : contents.utf8ByteSize < offsetRange) :
      Course config readings (r.push path contents).2
  /-- A token is read.  First some steps may give none. -/
  | read {readings : List Reading} {r before after : Reader} {token : Token}
      (course : Course config readings r) (read : r.readToken = .ok (token, after))
      (skips : r.Skips before) (step : before.step = .ok (some token, after)) :
      Course config (⟨before, token, after⟩ :: readings) after
  /-- Faults and requests for files are collected, or it changes how a `>` is read. -/
  | adjust {readings : List Reading} {r : Reader} (course : Course config readings r)
      (errors : List LexError) (inclusions : List String) (closeAnglesOnly : Bool) :
      Course config readings { r with errors, inclusions, closeAnglesOnly }

/-- The names of the macros that are being expanded, from the top frame down to the nearest
file. -/
def Reader.macroNames? (r : Reader) : Option (List String) :=
  (r.frames.takeWhile fun f => f.body?.isSome).mapM fun f =>
    f.body?.bind fun body => r.visited.bodies[body]?.map MacroBody.name

/-- A token was read from a file, or it was read from an expansion and the other one is the name in
the nearest file that started the outermost expansion. -/
inductive Reading.StartedBy (x : Reading) : Reading → Prop
  /-- The top frame was a file. -/
  | file {f : Frame} {below : List Frame} (frames_eq : x.before.frames = f :: below)
      (isFile : f.body? = none) : StartedBy x x
  /-- The top frame was an expansion.  The outermost one above the nearest file was put on top when
  the name was read from that file. -/
  | expansion {y : Reading} {inner below rest rest' : List Frame} {outermost file here new : Frame}
      (frames_eq : x.before.frames = inner ++ outermost :: file :: below)
      (areExpansions : ∀ f ∈ inner, f.body? ≠ none) (isExpansion : outermost.body? ≠ none)
      (isFile : file.body? = none) (use : y.token.kind = .macroUse)
      (read_from : y.before.frames = here :: rest) (same_file : here.visit = file.visit)
      (entered : y.after.frames = new :: rest') (same_expansion : new.visit = outermost.visit) :
      StartedBy x y

/-! ## What the frames say -/

namespace Visited

/-- The macros around the visit of the top frame are those of the frames above the nearest file. -/
theorem Stacked.names {v : Visited} (hv : v.Sound) {frames : List Frame}
    (h : v.Stacked frames) {top : Frame} {below : List Frame} (hframes : frames = top :: below) :
    ∃ names, ((frames.takeWhile fun f => f.body?.isSome).mapM fun f =>
        f.body?.bind fun body => v.bodies[body]?.map MacroBody.name) = some names ∧
      v.namesAround (top.visit + 1) top.visit = .ok names := by
  induction h generalizing top below with
  | nil => cases hframes
  | file visit body _ _ =>
    cases hframes
    refine ⟨[], ?_, ?_⟩
    · rw [List.takeWhile_cons_of_neg (by simp [body])]
      rfl
    · rw [namesAround, visit]
      rfl
  | @expansion f parent frames b callSite filled visit body _ ih =>
    cases hframes
    obtain ⟨outer, hmap, houter⟩ := ih rfl
    obtain ⟨hlt, hparent⟩ := hv.expansions _ _ _ _ _ visit
    refine ⟨v.bodies[b].name :: outer, ?_, ?_⟩
    · rw [List.takeWhile_cons_of_pos (by simp [body]), List.mapM_cons, hmap, body]
      simp [hlt]
    · rw [namesAround, visit]
      show (Halt.require v.bodies[b]? >>= _) = _
      rw [Array.getElem?_eq_getElem hlt]
      show (v.namesAround f.visit parent.visit >>= _) = _
      rw [(Extends.refl v).namesAround hparent houter]
      rfl

/-- Where a climb from the visit of the top frame ends. -/
inductive Bottom (v : Visited) (frames : List Frame) (visit : Nat) : Prop
  /-- The top frame is a file. -/
  | file {f : Frame} {below : List Frame} {file : Nat} (frames_eq : frames = f :: below)
      (isFile : f.body? = none) (file_eq : v.visits[f.visit]? = some (.file file))
      (climb : ∀ offset, v.climb (visit + 1) visit offset = .ok (file, offset))
  /-- The top frame is an expansion, and the climb goes down to the nearest file. -/
  | expansion {inner below : List Frame} {outermost parent : Frame} {body callSite file : Nat}
      {filled : Option String} (frames_eq : frames = inner ++ outermost :: parent :: below)
      (areExpansions : ∀ f ∈ inner, f.body? ≠ none) (isExpansion : outermost.body? = some body)
      (isFile : parent.body? = none)
      (use : v.visits[outermost.visit]? = some (.expansion body parent.visit callSite filled))
      (file_eq : v.visits[parent.visit]? = some (.file file))
      (climb : ∀ offset, v.climb (visit + 1) visit offset = .ok (file, callSite))

theorem Stacked.bottom {v : Visited} (hv : v.Sound) {frames : List Frame} (h : v.Stacked frames)
    {top : Frame} {below : List Frame} (hframes : frames = top :: below) :
    v.Bottom frames top.visit := by
  induction h generalizing top below with
  | nil => cases hframes
  | file visit body _ _ =>
    cases hframes
    refine .file rfl body visit ?_
    intro offset
    rw [climb, visit]
    rfl
  | @expansion f parent frames b callSite filled visit body _ ih =>
    cases hframes
    obtain ⟨hlt, hparent⟩ := hv.expansions _ _ _ _ _ visit
    -- one step of the climb leads to the frame below
    have hclimb : ∀ {offset place}, v.climb (parent.visit + 1) parent.visit callSite = .ok place →
        v.climb (f.visit + 1) f.visit offset = .ok place := by
      intro offset place hplace
      rw [climb, visit]
      exact (Extends.refl v).climb hparent hplace
    cases ih rfl with
    | file hframes hbody hvisit hrest =>
      cases hframes
      have hlist : f :: parent :: frames = [] ++ f :: parent :: frames := rfl
      exact .expansion hlist (by simp) body hbody visit hvisit
        fun offset => hclimb (hrest callSite)
    | @expansion inner below outermost parent' b' callSite' file filled' hframes hinner houtermost
        hbody huse hvisit hrest =>
      have hlist : f :: parent :: frames = (f :: inner) ++ outermost :: parent' :: below := by
        rw [hframes]
        rfl
      refine .expansion hlist ?_ houtermost hbody huse hvisit fun offset => hclimb (hrest callSite)
      intro f' hf'
      rcases List.mem_cons.1 hf' with rfl | hf'
      · rw [body]
        exact Option.some_ne_none b
      · exact hinner f' hf'

end Visited

/-! ## What a course keeps -/

/-- The token is no use of a macro and not the end of the file. -/
def Token.IsText (t : Token) : Prop := t.kind ≠ .endOfFile ∧ t.kind ≠ .macroUse

/-- The token is the name whose expansion is the given visit. -/
def Reading.Starts (y : Reading) (visit parent callSite : Nat) : Prop :=
  ∃ here rest new rest', y.token.kind = .macroUse ∧ y.before.Sound ∧
    y.before.frames = here :: rest ∧ Text.bytes y.token.text <+: here.rest ∧
    here.visit = parent ∧ callSite = (here.pos - here.start) % offsetRange ∧
    y.after.frames = new :: rest' ∧ new.visit = visit

/-- What holds of a reading from then on, up to the reader `r`. -/
structure Reading.Kept (x : Reading) (r : Reader) : Prop where
  /-- The reader was in order. -/
  sound : x.before.Sound
  /-- The location map was right. -/
  charted : x.before.Charted
  /-- What was visited is still there. -/
  extends_ : x.before.visited.Extends r.visited
  /-- The token was next to be read. -/
  spells : x.token.IsText → ∃ top below n, x.before.frames = top :: below ∧
    Spells x.token x.before.nextLoc top.rest n
  /-- The map is not changed any more where the token lies. -/
  beyond : x.token.IsText → x.before.visited.Beyond x.token.loc r.visited
  /-- Reading goes on behind the token. -/
  lt : x.token.IsText → x.token.loc < r.nextLoc

/-- What a course keeps true. -/
structure Course.Kept (readings : List Reading) (r : Reader) : Prop where
  /-- The reader is in order. -/
  sound : r.Sound
  /-- The location map is right. -/
  charted : r.Charted
  /-- Files have their line starts, and offsets can count their bytes. -/
  files : ∀ {id : Nat} {source : SourceFile}, r.visited.files.get? id = some source →
    source = .ofText source.path source.contents ∧ source.contents.utf8ByteSize < offsetRange
  /-- Every expansion was started by a name that was read. -/
  expansions : ∀ {visit body parent callSite : Nat} {filled : Option String},
    r.visited.visits[visit]? = some (.expansion body parent callSite filled) →
      ∃ y ∈ readings, y.Starts visit parent callSite
  /-- What holds of the readings still holds. -/
  readings : ∀ x ∈ readings, x.Kept r

/-- A reading is kept while the reader goes forward. -/
theorem Reading.Kept.forward {x : Reading} {r r' : Reader} (h : x.Kept r) (hforward : r.Forward r') :
    x.Kept r' :=
  ⟨h.sound, h.charted, h.extends_.trans hforward.extends_, h.spells,
    fun hx => (h.beyond hx).trans (hforward.beyond (h.lt hx)),
    fun hx => lt_of_lt_of_le (h.lt hx) hforward.le⟩

variable {config : Configuration} {readings : List Reading} {r r' : Reader}

/-- A move that gives no token, or a token of text, makes no visit. -/
theorem Reader.Passes.same_visits {top : Frame} {below : List Frame} {n : Nat}
    (h : r.Passes top below n r') :
    r'.visited.files = r.visited.files ∧ r'.visited.visits = r.visited.visits := by
  rcases h.visited with heq | ⟨-, body, heq⟩
  · rw [heq]
    exact ⟨rfl, rfl⟩
  · rw [heq]
    exact ⟨rfl, rfl⟩

theorem Reader.Move.same_visits (h : r.Move none r') :
    r'.visited.files = r.visited.files ∧ r'.visited.visits = r.visited.visits := by
  cases h with
  | @left top below hframes hrest =>
    cases below with
    | nil => exact ⟨rfl, rfl⟩
    | cons parent below => exact ⟨rfl, rfl⟩
  | passed hpasses _ => exact hpasses.same_visits

/-- What a course keeps is kept by going forward without a visit. -/
theorem Course.Kept.forward (h : Course.Kept readings r) (hsound : r'.Sound)
    (hcharted : r'.Charted) (hforward : r.Forward r') (hfiles : r'.visited.files = r.visited.files)
    (hvisits : r'.visited.visits = r.visited.visits) : Course.Kept readings r' := by
  refine ⟨hsound, hcharted, ?_, ?_, fun x hx => (h.readings x hx).forward hforward⟩
  · rw [hfiles]
    exact h.files
  · rw [hvisits]
    exact h.expansions

theorem Course.Kept.skips (h : Course.Kept readings r) (hskips : r.Skips r') :
    Course.Kept readings r' := by
  induction hskips with
  | refl r => exact h
  | step hstep _ ih =>
    obtain ⟨t?, r₂, heq, hsound, hmove⟩ := h.sound.step
    rw [hstep] at heq
    cases heq
    obtain ⟨hcharted, hforward⟩ := hmove.charted h.sound h.charted
    exact ih (h.forward hsound hcharted hforward hmove.same_visits.1 hmove.same_visits.2)

/-- What a course keeps is kept when a token is read. -/
theorem Course.Kept.read {before after : Reader} {token : Token}
    (h : Course.Kept readings before) (hstep : before.step = .ok (some token, after)) :
    Course.Kept (⟨before, token, after⟩ :: readings) after := by
  obtain ⟨t?, r₂, heq, hsound, hmove⟩ := h.sound.step
  rw [hstep] at heq
  cases heq
  obtain ⟨hcharted, hforward⟩ := hmove.charted h.sound h.charted
  have holder : ∀ x ∈ readings, x.Kept after := fun x hx => (h.readings x hx).forward hforward
  generalize ht : some token = t? at hmove
  cases hmove with
  | ended hframes =>
    cases ht
    have hnew : Reading.Kept ⟨before, ⟨before.endLoc, .endOfFile, ""⟩, before⟩ before :=
      ⟨h.sound, h.charted, .refl _, fun hx => absurd rfl hx.1, fun hx => absurd rfl hx.1,
        fun hx => absurd rfl hx.1⟩
    refine ⟨hsound, hcharted, h.files, ?_, List.forall_mem_cons.2 ⟨hnew, holder⟩⟩
    intro visit body parent callSite filled hvisit
    obtain ⟨y, hy, hstarts⟩ := h.expansions hvisit
    exact ⟨y, List.mem_cons_of_mem _ hy, hstarts⟩
  | left _ _ => cases ht
  | @passed top below n _ _ hpasses hspells =>
    subst ht
    have hspells := hspells token rfl
    rw [← nextLoc_of_frames hpasses.frames] at hspells
    have hnext := hpasses.nextLoc h.sound
    have hlt : token.loc < after.nextLoc := by
      rw [hnext, hspells.loc_eq]
      exact Int.lt_add_of_pos_right _ (Int.natCast_pos.2 hpasses.pos)
    obtain ⟨hextends, hentries⟩ := hpasses.visited_extends
    have hnew : Reading.Kept ⟨before, token, after⟩ after :=
      ⟨h.sound, h.charted, hextends, fun _ => ⟨top, below, n, hpasses.frames, hspells⟩,
        fun _ => ⟨hextends, [], hentries, by simp⟩, fun _ => hlt⟩
    obtain ⟨hfiles, hvisits⟩ := hpasses.same_visits
    refine ⟨hsound, hcharted, ?_, ?_, List.forall_mem_cons.2 ⟨hnew, holder⟩⟩
    · rw [hfiles]
      exact h.files
    · rw [hvisits]
      intro visit body parent callSite filled hvisit
      obtain ⟨y, hy, hstarts⟩ := h.expansions hvisit
      exact ⟨y, List.mem_cons_of_mem _ hy, hstarts⟩
  | @entered top below n body w _ name henters hspells =>
    cases ht
    obtain ⟨filled, hvisited⟩ := henters.visited
    have hnew : Reading.Kept ⟨before, ⟨before.locOf top, .macroUse, name⟩, after⟩ after :=
      ⟨h.sound, h.charted, hforward.extends_, fun hx => absurd rfl hx.2, fun hx => absurd rfl hx.2,
        fun hx => absurd rfl hx.2⟩
    refine ⟨hsound, hcharted, ?_, ?_, List.forall_mem_cons.2 ⟨hnew, holder⟩⟩
    · rw [hvisited]
      exact h.files
    · rw [hvisited]
      intro visit b parent callSite f hvisit
      change (before.visited.visits.push _)[visit]? = _ at hvisit
      rw [Array.getElem?_push] at hvisit
      split at hvisit
      next heq =>
        cases hvisit
        exact ⟨_, List.mem_cons_self, top, below, _, _, rfl, h.sound, henters.frames, hspells, rfl,
          rfl, henters.frames_eq, heq.symm⟩
      next =>
        obtain ⟨y, hy, hstarts⟩ := h.expansions hvisit
        exact ⟨y, List.mem_cons_of_mem _ hy, hstarts⟩

/-- What a course keeps is kept when a file is pushed. -/
theorem Course.Kept.push (h : Course.Kept readings r) {path contents : String}
    (hfresh : r.visited.Fresh path) (hsmall : contents.utf8ByteSize < offsetRange) :
    Course.Kept readings (r.push path contents).2 := by
  obtain ⟨hcharted, hforward⟩ := h.charted.push hfresh contents
  refine ⟨h.sound.push hfresh contents, hcharted, ?_, ?_,
    fun x hx => (h.readings x hx).forward hforward⟩
  · intro id source hsource
    rw [push_eq, Visited.addFile_fresh hfresh] at hsource
    change (r.visited.files.files.push _)[id]? = _ at hsource
    rw [Array.getElem?_push] at hsource
    split at hsource
    · cases hsource
      exact ⟨rfl, hsmall⟩
    · exact h.files hsource
  · intro visit body parent callSite filled hvisit
    rw [push_eq, Visited.addFile_fresh hfresh] at hvisit
    change (r.visited.visits.push _)[visit]? = _ at hvisit
    rw [Array.getElem?_push] at hvisit
    split at hvisit
    · cases hvisit
    · exact h.expansions hvisit

theorem Course.kept (h : Course config readings r) : Course.Kept readings r := by
  induction h with
  | start =>
    obtain ⟨hblank, -⟩ := blank_new config
    refine ⟨sound_new config, charted_new config, ?_, ?_, by simp⟩
    · intro id source hsource
      rw [hblank.files] at hsource
      simp [Registry.get?, Registry.empty] at hsource
    · intro visit body parent callSite filled hvisit
      rw [hblank.visits] at hvisit
      simp at hvisit
  | push _ fresh small ih => exact ih.push fresh small
  | read _ _ skips step ih => exact (ih.skips skips).read step
  | adjust _ _ _ _ ih =>
    refine ih.forward (ih.sound.congr rfl rfl rfl) ?_ ?_ rfl rfl
    · exact ⟨ih.charted.le, ih.charted.nonneg, ih.charted.known, ih.charted.newest⟩
    · exact ⟨le_refl _, .refl _, [], rfl, by simp⟩

/-- In a course the next token can always be read. -/
theorem Course.read_next (h : Course config readings r) :
    ∃ before token after, r.readToken = .ok (token, after) ∧
      Course config (⟨before, token, after⟩ :: readings) after := by
  obtain ⟨token, after, hread, -⟩ := h.kept.sound.readToken
  obtain ⟨before, hskips, hstep⟩ := readToken_eq_ok_iff.1 hread
  exact ⟨before, token, after, hread, h.read hread hskips hstep⟩

/-- In a course any number of tokens can be read. -/
theorem Course.readMany {count : Nat} {tokens : List Token} (h : Course config readings r)
    (hread : r.readMany count = .ok (tokens, r')) :
    ∃ new, Course config (new ++ readings) r' ∧ new.reverse.map Reading.token = tokens := by
  induction count generalizing readings r tokens with
  | zero =>
    cases hread
    exact ⟨[], h, rfl⟩
  | succ count ih =>
    obtain ⟨token, after, rest, hfirst, hrest, rfl⟩ := readMany_succ_eq_ok_iff.1 hread
    obtain ⟨before, hskips, hstep⟩ := readToken_eq_ok_iff.1 hfirst
    obtain ⟨new, hcourse, htokens⟩ := ih (h.read hfirst hskips hstep) hrest
    refine ⟨new ++ [⟨before, token, after⟩], ?_, ?_⟩
    · rwa [List.append_assoc]
    · rw [List.reverse_append, List.map_append, htokens]
      rfl

/-! ## Places -/

/-- A frame that belongs to a file reads the file. -/
theorem Reader.Sound.file_frame (h : r.Sound) {v : Visited} (hextends : r.visited.Extends v)
    {f : Frame} {below : List Frame} (hframes : r.frames = f :: below) {file : Nat}
    (hfile : v.visits[f.visit]? = some (.file file)) :
    ∃ source, v.files.get? file = some source ∧ f.body? = none ∧ f.start = 0 ∧
      f.pos ≤ (Text.bytes source.contents).length ∧
      f.rest = (Text.bytes source.contents).drop f.pos := by
  obtain ⟨w, hw, hreads⟩ := h.window hframes
  have hstacked := h.stacked
  rw [hframes] at hstacked
  cases hstacked with
  | @file _ _ id visit body _ =>
    have heq := hextends.visits visit
    rw [hfile] at heq
    cases heq
    obtain ⟨source, hsource, hstart, hpos, hrest⟩ :=
      rest_of_fileOf? hw hreads (show r.fileOf? f = some file by rw [fileOf?, visit])
    exact ⟨source, hextends.files hsource, body, hstart, hpos, hrest⟩
  | expansion visit _ _ =>
    have heq := hextends.visits visit
    rw [hfile] at heq
    cases heq

/-- The entry that governs a token that was read leads to the frame that it was read from. -/
theorem Reading.Kept.entry {x : Reading} (h : x.Kept r) (hx : x.token.IsText) {top : Frame}
    {below : List Frame} (hframes : x.before.frames = top :: below) :
    ∃ entry passed, r.visited.findEntry? x.token.loc = some entry ∧ entry.visit = top.visit ∧
      entry.loc ≤ x.token.loc ∧ entry.offset = passed % offsetRange ∧
      (x.token.loc - entry.loc).toNat + passed = top.pos - top.start := by
  obtain ⟨entry, entries, passed, hentries, hvisit, hoffset, hpassed, hloc⟩ := h.charted.newest hframes
  obtain ⟨_, _, _, _, hspells⟩ := h.spells hx
  rw [← hspells.loc_eq] at hloc
  have hle : entry.loc ≤ x.token.loc := by
    rw [hloc]
    exact Int.le_add_of_nonneg_right (Int.natCast_nonneg _)
  refine ⟨entry, passed, ?_, hvisit, hle, hoffset, ?_⟩
  · rw [(h.beyond hx).entry_eq, Visited.findEntry?, hentries]
    exact List.find?_cons_of_pos (decide_eq_true hle)
  · rw [hloc]
    omega

/-- The entry that governs a token leads to a text that has the token there, if offsets can tell how
long texts are. -/
theorem Reading.Kept.text {x : Reading} (h : x.Kept r) (hx : x.token.IsText) (hfits : r.visited.Fits) :
    ∃ entry w text, r.visited.findEntry? x.token.loc = some entry ∧ entry.loc ≤ x.token.loc ∧
      r.visited.window entry.visit = .ok w ∧ w.text = .ok text ∧
      Text.bytes x.token.text <+:
        (Text.bytes text).drop (entry.offset + (x.token.loc - entry.loc).toNat) := by
  obtain ⟨top, below, n, hframes, hspells⟩ := h.spells hx
  obtain ⟨entry, passed, hentry, hvisit, hle, hpassed, hoffset⟩ := h.entry hx hframes
  obtain ⟨w, hw, hreads⟩ := h.sound.window hframes
  have hexact : entry.offset = passed := by
    have hshort := hfits.texts top.visit w (h.extends_.window hw)
    have hstart := hreads.start_eq
    have hstop := hreads.stop_eq
    have hlength := hreads.length_eq
    rw [hpassed]
    exact Nat.mod_eq_of_lt (by omega)
  have hstacked := h.sound.stacked
  rw [hframes] at hstacked
  obtain ⟨w', hw', hsound⟩ := h.sound.visited.window hstacked.visit_lt
  rw [hw] at hw'
  cases hw'
  obtain ⟨text, htext, hbytes⟩ := hsound.text_eq
  refine ⟨entry, w, text, hentry, hle, ?_, htext, ?_⟩
  · rw [hvisit]
    exact h.extends_.window hw
  · rw [hexact, hbytes, Nat.add_comm, hoffset, ← hreads.rest_eq]
    exact hspells.text.trans (List.take_prefix n top.rest)

/-- There are visits enough for a climb from the top frame. -/
theorem Reading.Kept.steps_le {x : Reading} (h : x.Kept r) {top : Frame} {below : List Frame}
    (hframes : x.before.frames = top :: below) : top.visit + 1 ≤ r.visited.visits.size + 1 := by
  have hstacked := h.sound.stacked
  rw [hframes] at hstacked
  have hthere := h.extends_.visits (Array.getElem?_eq_getElem hstacked.visit_lt)
  exact Nat.succ_le_succ (Nat.le_of_lt (Array.getElem?_eq_some_iff.1 hthere).1)

/-- The macros around the place of a token are those that were being expanded. -/
theorem Reading.Kept.trace {x : Reading} (h : x.Kept r) (hx : x.token.IsText) :
    ∃ names, x.before.macroNames? = some names ∧ r.visited.trace x.token.loc = .ok names := by
  obtain ⟨top, below, n, hframes, -⟩ := h.spells hx
  obtain ⟨entry, -, hentry, hvisit, -⟩ := h.entry hx hframes
  obtain ⟨names, hmap, hnames⟩ := h.sound.stacked.names h.sound.visited hframes
  refine ⟨names, hmap, ?_⟩
  rw [Visited.trace, hentry]
  show r.visited.namesAround _ entry.visit = _
  rw [hvisit]
  exact h.extends_.namesAround (h.steps_le hframes) hnames

/-- The position of a token is found by a climb from the frame that it was read from. -/
theorem Course.Kept.expand {x : Reading} (h : Course.Kept readings r) (hx : x ∈ readings)
    (htext : x.token.IsText) {top : Frame} {below : List Frame}
    (hframes : x.before.frames = top :: below) {file offset : Nat} {source : SourceFile}
    (hclimb : x.before.visited.climb (top.visit + 1) top.visit
      ((top.pos - top.start) % offsetRange) = .ok (file, offset))
    (hsource : r.visited.files.get? file = some source)
    (hoffset : offset ≤ (Text.bytes source.contents).length) :
    r.visited.expand? x.token.loc =
      .ok (some ⟨source.path, Text.positionAt (Text.bytes source.contents) offset⟩) := by
  have hreading := h.readings x hx
  obtain ⟨entry, passed, hentry, hvisit, -, hpassed, hoffset'⟩ := hreading.entry htext hframes
  have hentryOffset : ((x.token.loc - entry.loc).toNat + entry.offset) % offsetRange =
      (top.pos - top.start) % offsetRange := by
    rw [hpassed, Nat.add_mod_mod, hoffset']
  obtain ⟨_, _, _, _, hspells⟩ := hreading.spells htext
  have hnonneg : ¬ x.token.loc < 0 := by
    rw [hspells.loc_eq]
    exact not_lt.2 hreading.charted.nonneg
  have hposition := congrArg (fun s => SourceFile.position s offset) (h.files hsource).1
  rw [← SourceFile.position_ofText source.path source.contents hoffset, ← hposition]
  unfold Visited.expand?
  rw [if_neg hnonneg, hentry]
  simp only [hentryOffset, hvisit, hreading.extends_.climb (hreading.steps_le hframes) hclimb, bind,
    Except.bind, hsource, Halt.require_some, pure, Except.pure]

/-- Offsets in files that were pushed are not cut short. -/
theorem Course.Kept.mod_offsetRange (h : Course.Kept readings r) {file offset : Nat}
    {source : SourceFile} (hsource : r.visited.files.get? file = some source)
    (hoffset : offset ≤ (Text.bytes source.contents).length) : offset % offsetRange = offset := by
  have hsmall := (h.files hsource).2
  rw [← Text.length_bytes] at hsmall
  exact Nat.mod_eq_of_lt (Nat.lt_of_le_of_lt hoffset hsmall)

/-- The position of a token is that of the token or name in a file that started it. -/
theorem Course.Kept.position {x : Reading} (h : Course.Kept readings r) (hx : x ∈ readings)
    (htext : x.token.IsText) :
    ∃ y ∈ readings, x.StartedBy y ∧ ∃ here rest file source, y.before.frames = here :: rest ∧
      here.body? = none ∧ r.visited.visits[here.visit]? = some (.file file) ∧
      r.visited.files.get? file = some source ∧
      Text.bytes y.token.text <+: (Text.bytes source.contents).drop here.pos ∧
      r.visited.expand? x.token.loc =
        .ok (some ⟨source.path, Text.positionAt (Text.bytes source.contents) here.pos⟩) := by
  have hreading := h.readings x hx
  obtain ⟨top, below, n, hframes, hspells⟩ := hreading.spells htext
  cases hreading.sound.stacked.bottom hreading.sound.visited hframes with
  | @file f below' file hframes' hbody hfile hclimb =>
    rw [hframes] at hframes'
    cases hframes'
    have hfile := hreading.extends_.visits hfile
    obtain ⟨source, hsource, -, hstart, hpos, hrest⟩ :=
      hreading.sound.file_frame hreading.extends_ hframes hfile
    refine ⟨x, hx, .file hframes hbody, top, below, file, source, hframes, hbody, hfile, hsource,
      ?_, h.expand hx htext hframes ?_ hsource hpos⟩
    · rw [← hrest]
      exact hspells.text.trans (List.take_prefix n top.rest)
    · rw [hclimb, hstart, Nat.sub_zero, h.mod_offsetRange hsource hpos]
  | @expansion inner below' outermost parent body callSite file filled hframes' hinner houtermost
      hbody hvisits hfile hclimb =>
    obtain ⟨y, hy, here, rest, new, rest', hkind, hsound, hfrom, hname, hparent, hcall, hinto,
      hnew⟩ := h.expansions (hreading.extends_.visits hvisits)
    have hfile := hreading.extends_.visits hfile
    rw [← hparent] at hfile
    obtain ⟨source, hsource, hhere, hstart, hpos, hrest⟩ :=
      hsound.file_frame (h.readings y hy).extends_ hfrom hfile
    rw [hstart, Nat.sub_zero, h.mod_offsetRange hsource hpos] at hcall
    have hstarted : x.StartedBy y :=
      .expansion hframes' hinner (by rw [houtermost]; exact Option.some_ne_none body) hbody hkind
        hfrom hparent hinto hnew
    refine ⟨y, hy, hstarted, here, rest, file, source, hfrom, hhere, hfile, hsource, ?_,
      h.expand hx htext hframes ?_ hsource hpos⟩
    · rw [← hrest]
      exact hname
    · rw [hclimb, hcall]

end CppDecl
