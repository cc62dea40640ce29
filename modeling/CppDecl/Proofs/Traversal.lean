import CppDecl.Proofs.Locations

/-!
# Traversals

A traversal is what is done with a reader from one moment on, while no further file is pushed.  The
reader makes its steps, and between them its faults and its requests are collected, macros are
defined, and the way in which a `>` is read is changed.  Other than a course, a traversal may stop
between two tokens.

A traversal that starts where the only file was pushed has one source (`Reader.Single`): the bottom
frame reads it, and every other frame is an expansion.  The place next to be read then leads to one
offset of the source (`Reader.Leads`), namely where the reader stands in it, or where the name is
that started the outermost expansion.  `Reader.Leads.expand` says that the location map finds it.
-/

namespace CppDecl

namespace Reader

/-- What is done with a reader without a new file, and the tokens that are read, last one first. -/
inductive Traverses : Reader → List Reading → Reader → Prop
  /-- Nothing is done. -/
  | refl (r : Reader) : Traverses r [] r
  /-- A step gives no token. -/
  | skip {r r' r'' : Reader} {readings : List Reading} (rest : Traverses r readings r')
      (step : r'.step = .ok (none, r'')) : Traverses r readings r''
  /-- A step gives a token. -/
  | read {r r' r'' : Reader} {readings : List Reading} {token : Token}
      (rest : Traverses r readings r') (step : r'.step = .ok (some token, r'')) :
      Traverses r (⟨r', token, r''⟩ :: readings) r''
  /-- Faults and requests for files are collected, or it changes how a `>` is read. -/
  | adjust {r r' : Reader} {readings : List Reading} (rest : Traverses r readings r')
      (errors : List LexError) (inclusions : List String) (closeAnglesOnly : Bool) :
      Traverses r readings { r' with errors, inclusions, closeAnglesOnly }
  /-- A macro is defined. -/
  | define {r r' : Reader} {readings : List Reading} (rest : Traverses r readings r')
      (d : Predefined) : Traverses r readings (r'.define d)

variable {r r' r'' : Reader} {readings older newer : List Reading} {path source : String}
  {config : Configuration}

theorem Traverses.trans (h₁ : r.Traverses older r') (h₂ : r'.Traverses newer r'') :
    r.Traverses (newer ++ older) r'' := by
  induction h₂ with
  | refl => exact h₁
  | skip _ hstep ih => exact ih.skip hstep
  | read _ hstep ih => exact ih.read hstep
  | adjust _ errors inclusions closeAnglesOnly ih => exact ih.adjust errors inclusions closeAnglesOnly
  | define _ d ih => exact ih.define d

theorem Skips.traverses {r r' : Reader} (h : Skips r r') : r.Traverses [] r' := by
  induction h with
  | refl => exact .refl _
  | step hstep _ ih => exact ((Traverses.refl _).skip hstep).trans ih

/-- Reading some tokens is a traversal. -/
theorem traverses_of_readMany {count : Nat} {tokens : List Token}
    (h : r.readMany count = .ok (tokens, r')) :
    ∃ readings, r.Traverses readings r' ∧ readings.reverse.map Reading.token = tokens := by
  induction count generalizing r tokens with
  | zero =>
    cases h
    exact ⟨[], .refl _, rfl⟩
  | succ count ih =>
    obtain ⟨token, after, rest, hfirst, hrest, rfl⟩ := readMany_succ_eq_ok_iff.1 h
    obtain ⟨before, hskips, hstep⟩ := readToken_eq_ok_iff.1 hfirst
    obtain ⟨readings, htraverses, hmap⟩ := ih hrest
    refine ⟨readings ++ [⟨before, token, after⟩], (hskips.traverses.read hstep).trans htraverses, ?_⟩
    rw [List.reverse_append, List.map_append, hmap]
    rfl

/-- A reading on a traversal cuts it in two. -/
theorem Traverses.split (h : r.Traverses readings r') {x : Reading} (hx : x ∈ readings) :
    ∃ older newer, readings = newer ++ x :: older ∧ r.Traverses older x.before ∧
      x.before.step = .ok (some x.token, x.after) ∧ x.after.Traverses newer r' := by
  induction h with
  | refl => cases hx
  | skip _ hstep ih =>
    obtain ⟨older, newer, heq, hbefore, hread, hafter⟩ := ih hx
    exact ⟨older, newer, heq, hbefore, hread, hafter.skip hstep⟩
  | @read r' r'' readings token hrest hstep ih =>
    rcases List.mem_cons.1 hx with rfl | hx
    · exact ⟨readings, [], rfl, hrest, hstep, .refl _⟩
    · obtain ⟨older, newer, rfl, hbefore, hread, hafter⟩ := ih hx
      exact ⟨older, _ :: newer, rfl, hbefore, hread, hafter.read hstep⟩
  | adjust _ errors inclusions closeAnglesOnly ih =>
    obtain ⟨older, newer, heq, hbefore, hread, hafter⟩ := ih hx
    exact ⟨older, newer, heq, hbefore, hread, hafter.adjust errors inclusions closeAnglesOnly⟩
  | define _ d ih =>
    obtain ⟨older, newer, heq, hbefore, hread, hafter⟩ := ih hx
    exact ⟨older, newer, heq, hbefore, hread, hafter.define d⟩

/-! ## What a traversal keeps -/

/-- What a reader still has before it does not change when a macro is defined or when what has come up
is collected. -/
structure Idles (r r' : Reader) : Prop where
  /-- The frames stay. -/
  frames : r'.frames = r.frames
  /-- The top frame ends where it did. -/
  endLoc : r'.endLoc = r.endLoc
  /-- The next lexeme stands where it did. -/
  lineStart : r'.lineStart = r.lineStart
  /-- Nothing is visited. -/
  visits : r'.visited.visits = r.visited.visits
  /-- No file is added. -/
  files : r'.visited.files = r.visited.files
  /-- The location map stays. -/
  entries : r'.visited.entries = r.visited.entries
  /-- Nothing is forgotten. -/
  extends_ : r.visited.Extends r'.visited

theorem idles_adjust (r : Reader) (errors : List LexError) (inclusions : List String)
    (closeAnglesOnly : Bool) : r.Idles { r with errors, inclusions, closeAnglesOnly } :=
  ⟨rfl, rfl, rfl, rfl, rfl, rfl, .refl _⟩

theorem idles_define (r : Reader) (d : Predefined) : r.Idles (r.define d) :=
  ⟨rfl, rfl, rfl, rfl, rfl, rfl, Visited.extends_addBody _ _⟩

theorem Idles.nextLoc (h : r.Idles r') : r'.nextLoc = r.nextLoc := by
  have hlocOf : r'.locOf = r.locOf := by
    funext f
    rw [locOf, locOf, h.endLoc]
  rw [Reader.nextLoc, Reader.nextLoc, h.frames, h.endLoc, hlocOf]

theorem Forward.refl (r : Reader) : r.Forward r := ⟨le_refl _, .refl _, [], rfl, by simp⟩

theorem Forward.trans (h₁ : r.Forward r') (h₂ : r'.Forward r'') : r.Forward r'' := by
  obtain ⟨new₁, heq₁, hle₁⟩ := h₁.entries
  obtain ⟨new₂, heq₂, hle₂⟩ := h₂.entries
  refine ⟨h₁.le.trans h₂.le, h₁.extends_.trans h₂.extends_, new₂ ++ new₁, ?_, ?_⟩
  · rw [heq₂, heq₁, List.append_assoc]
  · intro entry hentry
    rcases List.mem_append.1 hentry with hentry | hentry
    · exact h₁.le.trans (hle₂ entry hentry)
    · exact hle₁ entry hentry

theorem Idles.forward (h : r.Idles r') : r.Forward r' :=
  ⟨h.nextLoc.ge, h.extends_, [], h.entries, by simp⟩

theorem Idles.charted (h : r.Idles r') (hchart : r.Charted) : r'.Charted := by
  refine ⟨?_, ?_, ?_, ?_⟩
  · rw [h.entries, h.nextLoc]
    exact hchart.le
  · rw [h.nextLoc]
    exact hchart.nonneg
  · rw [h.entries]
    exact fun entry hentry => h.extends_.known (hchart.known entry hentry)
  · rw [h.entries, h.frames, h.nextLoc]
    exact hchart.newest

/-- The text of a macro lies where its name lay. -/
theorem Enters.nextLoc {r r' : Reader} {top : Frame} {below : List Frame} {n body : Nat} {w : Window}
    (h : r.Enters top below n body w r') : r'.nextLoc = r.nextLoc := by
  have hreads := Frame.reads_ofWindow r.visited.visits.size (some body) h.sound
  rw [nextLoc_of_frames h.frames, nextLoc_of_frames h.frames_eq, locOf, h.endLoc_eq, hreads.remaining]
  show _ + (w.bytes.length : Int) - (w.bytes.length : Int) = _
  rw [Int.add_sub_cancel]

/-- What every step and everything between the steps keeps, a traversal keeps. -/
theorem Traverses.keeps {P : Reader → Prop} (h : r.Traverses readings r')
    (hmove : ∀ {q q' : Reader} {t? : Option Token}, q.Sound → q'.Sound → q.Move t? q' → P q → P q')
    (hidle : ∀ {q q' : Reader}, q'.Sound → q.Idles q' → P q → P q') (hsound : r.Sound) (hr : P r) :
    r'.Sound ∧ P r' := by
  -- one step is a move
  have hstep : ∀ {q q' : Reader} {t? : Option Token}, q.Sound ∧ P q → q.step = .ok (t?, q') →
      q'.Sound ∧ P q' := by
    intro q q' t? hq hstep
    obtain ⟨_, _, heq, hsound', hm⟩ := hq.1.step
    rw [hstep] at heq
    cases heq
    exact ⟨hsound', hmove hq.1 hsound' hm hq.2⟩
  induction h with
  | refl => exact ⟨hsound, hr⟩
  | skip _ hskip ih => exact hstep ih hskip
  | read _ hread ih => exact hstep ih hread
  | adjust _ errors inclusions closeAnglesOnly ih =>
    exact ⟨ih.1.congr rfl rfl rfl, hidle (ih.1.congr rfl rfl rfl)
      (idles_adjust _ errors inclusions closeAnglesOnly) ih.2⟩
  | define _ d ih =>
    have hsound' := sound_define ih.1 d
    exact ⟨hsound', hidle hsound' (idles_define _ d) ih.2⟩

/-- A reader stays sound on a traversal. -/
theorem Traverses.sound (h : r.Traverses readings r') (hsound : r.Sound) : r'.Sound :=
  (h.keeps (P := fun _ => True) (fun _ _ _ _ => trivial) (fun _ _ _ => trivial) hsound trivial).1

/-- A reader goes forward on a traversal. -/
theorem Traverses.forward (h : r.Traverses readings r') (hsound : r.Sound) (hchart : r.Charted) :
    r.Forward r' := by
  have hall := h.keeps (P := fun q => q.Charted ∧ r.Forward q) ?_ ?_ hsound
    ⟨hchart, .refl r⟩
  · exact hall.2.2
  · rintro q q' t? hq _ hmove ⟨hqchart, hforward⟩
    obtain ⟨hchart', hforward'⟩ := hmove.charted hq hqchart
    exact ⟨hchart', hforward.trans hforward'⟩
  · rintro q q' _ hidle ⟨hqchart, hforward⟩
    exact ⟨hidle.charted hqchart, hforward.trans hidle.forward⟩

end Reader

/-- What holds of the readings of a course holds on, and of the readings of a traversal as well. -/
theorem Course.Kept.traverses {r r' : Reader} {older newer : List Reading} (h : Course.Kept older r)
    (htraverses : r.Traverses newer r') : Course.Kept (newer ++ older) r' := by
  have hidle : ∀ {readings : List Reading} {q q' : Reader}, Course.Kept readings q → q'.Sound →
      q.Idles q' → Course.Kept readings q' := fun hq hsound hidle =>
    hq.forward hsound (hidle.charted hq.charted) hidle.forward hidle.files hidle.visits
  induction htraverses with
  | refl => exact h
  | skip _ hstep ih => exact ih.skips (.step hstep (.refl _))
  | read _ hstep ih => exact ih.read hstep
  | adjust _ errors inclusions closeAnglesOnly ih =>
    exact hidle ih (ih.sound.congr rfl rfl rfl)
      (Reader.idles_adjust _ errors inclusions closeAnglesOnly)
  | define _ d ih => exact hidle ih (Reader.sound_define ih.sound d) (Reader.idles_define _ d)

/-- The frames at the bottom lie on one another as all of them do. -/
theorem Visited.Stacked.suffix {v : Visited} {frames below : List Frame} (h : v.Stacked frames)
    (hsuffix : below <:+ frames) : v.Stacked below := by
  induction frames with
  | nil =>
    obtain rfl := List.suffix_nil.1 hsuffix
    exact h
  | cons f frames ih =>
    rcases List.suffix_cons_iff.1 hsuffix with rfl | hsuffix
    · exact h
    · exact ih h.tail hsuffix

namespace Reader

variable {r r' : Reader} {readings : List Reading} {path source : String} {top : Frame}
  {below : List Frame} {t? : Option Token} {offset : Nat} {config : Configuration}

/-! ## One source -/

/-- Nothing is read but one source and expansions that are started in it. -/
structure Single (path source : String) (r : Reader) : Prop where
  /-- The source is the first file. -/
  files : r.visited.files.get? 0 = some (.ofText path source)
  /-- It is the only one. -/
  visits : ∀ {visit file : Nat}, r.visited.visits[visit]? = some (.file file) → file = 0
  /-- Only the bottom frame reads it. -/
  bottom : ∀ {f : Frame} {below : List Frame}, f :: below <:+ r.frames → f.body? = none → below = []
  /-- It is read on behind the name that started the outermost expansion. -/
  callSite_lt : ∀ {outermost file : Frame} {body parent callSite : Nat} {filled : Option String},
    [outermost, file] <:+ r.frames →
    r.visited.visits[outermost.visit]? = some (.expansion body parent callSite filled) →
      callSite < file.pos

/-- To a new reader every path is new. -/
theorem fresh_new (config : Configuration) (path : String) :
    (new .empty config).visited.Fresh path := by
  rw [Visited.Fresh, (blank_new config).1.files]
  simp [Registry.find?, Registry.empty]

/-- What holds of a course holds where the only source was pushed. -/
theorem kept_pushed (config : Configuration) (path : String) {source : String}
    (hsmall : source.utf8ByteSize < offsetRange) :
    Course.Kept [] ((new .empty config).push path source).2 :=
  (Course.push .start (fresh_new config path) hsmall).kept

theorem single_pushed (config : Configuration) (path source : String) :
    ((new .empty config).push path source).2.Single path source := by
  obtain ⟨hblank, -⟩ := blank_new config
  have hvisited : ((new .empty config).push path source).2.visited.files.get? 0 =
      some (.ofText path source) ∧
      ((new .empty config).push path source).2.visited.visits = #[Visit.file 0] := by
    rw [push_eq, Visited.addFile_fresh (fresh_new config path), hblank.files, hblank.visits]
    exact ⟨rfl, rfl⟩
  refine ⟨hvisited.1, ?_, ?_, ?_⟩
  · intro visit file hvisit
    rw [hvisited.2] at hvisit
    obtain ⟨hlt, heq⟩ := Array.getElem?_eq_some_iff.1 hvisit
    obtain rfl : visit = 0 := Nat.lt_one_iff.1 hlt
    cases heq
    rfl
  · intro f below hsuffix _
    have hlength := hsuffix.length_le
    rw [frames_pushed] at hlength
    exact List.eq_nil_of_length_eq_zero (Nat.le_zero.1 (Nat.le_of_succ_le_succ hlength))
  · intro outermost file body parent callSite filled hsuffix _
    have hlength := hsuffix.length_le
    rw [frames_pushed] at hlength
    exact absurd hlength (Nat.not_succ_le_self 1)

/-- When the top frame has been read on, each frame is one from before, with the same frames below. -/
theorem suffix_advance {n : Nat} {f : Frame} {frames : List Frame}
    (h : f :: frames <:+ top.advance n :: below) :
    ∃ g, g :: frames <:+ top :: below ∧ g.visit = f.visit ∧ g.body? = f.body? ∧ g.pos ≤ f.pos := by
  rcases List.suffix_cons_iff.1 h with heq | hsuffix
  · obtain ⟨rfl, rfl⟩ := List.cons.inj heq
    exact ⟨top, List.suffix_refl _, rfl, rfl, Nat.le_add_right _ _⟩
  · exact ⟨f, hsuffix.trans (List.suffix_cons top below), rfl, rfl, Nat.le_refl _⟩

/-- The visit of a frame is the same when more has been visited. -/
theorem Sound.visit_eq (h : r.Sound) {v : Visited} (hextends : r.visited.Extends v) {f : Frame}
    {frames : List Frame} (hf : f :: frames <:+ r.frames) :
    v.visits[f.visit]? = r.visited.visits[f.visit]? := by
  obtain ⟨w, hw, -⟩ := h.reads f (hf.subset List.mem_cons_self)
  obtain ⟨x, hx, -⟩ := Halt.bind_eq_ok hw
  rw [Halt.require_eq_ok hx]
  exact hextends.visits (Halt.require_eq_ok hx)

theorem Single.idle (h : r.Single path source) (hidle : r.Idles r') : r'.Single path source := by
  refine ⟨hidle.extends_.files h.files, ?_, ?_, ?_⟩
  · rw [hidle.visits]
    exact h.visits
  · rw [hidle.frames]
    exact h.bottom
  · rw [hidle.frames, hidle.visits]
    exact h.callSite_lt

theorem Single.move (h : r.Single path source) (hsound : r.Sound) (hmove : r.Move t? r') :
    r'.Single path source := by
  cases hmove with
  | ended _ => exact h
  | @left top below hframes hrest =>
    have hsuffix : below <:+ r.frames := hframes ▸ List.suffix_cons top below
    obtain ⟨hfiles, hvisits⟩ := (Move.left hframes hrest).same_visits
    refine ⟨?_, ?_, ?_, ?_⟩
    · rw [hfiles]
      exact h.files
    · rw [hvisits]
      exact h.visits
    · rw [frames_leave]
      exact fun hbelow => h.bottom (hbelow.trans hsuffix)
    · rw [frames_leave, hvisits]
      exact fun hbelow => h.callSite_lt (hbelow.trans hsuffix)
  | passed hpasses _ =>
    obtain ⟨hfiles, hvisits⟩ := hpasses.same_visits
    refine ⟨?_, ?_, ?_, ?_⟩
    · rw [hfiles]
      exact h.files
    · rw [hvisits]
      exact h.visits
    · rw [hpasses.frames_eq]
      intro f below' hsuffix hbody
      obtain ⟨g, hg, -, hgbody, -⟩ := suffix_advance hsuffix
      rw [← hpasses.frames] at hg
      exact h.bottom hg (hgbody.trans hbody)
    · rw [hpasses.frames_eq, hvisits]
      intro outermost file body parent callSite filled hsuffix hvisit
      obtain ⟨g, hg, hgvisit, -, -⟩ := suffix_advance hsuffix
      rw [← hpasses.frames] at hg
      rw [← hgvisit] at hvisit
      exact h.callSite_lt hg hvisit
  | @entered top below n body w _ _ henters _ =>
    obtain ⟨filled, hvisited⟩ := henters.visited
    have hextends : r.visited.Extends r'.visited := by
      rw [hvisited]
      exact (r.visited.extends_addVisit _).trans (Visited.extends_addEntry _ _)
    have hpos := henters.pos
    refine ⟨hextends.files h.files, ?_, ?_, ?_⟩
    · intro visit file hvisit
      rw [hvisited] at hvisit
      change (r.visited.visits.push _)[visit]? = _ at hvisit
      rw [Array.getElem?_push] at hvisit
      split at hvisit
      · cases hvisit
      · exact h.visits hvisit
    · rw [henters.frames_eq]
      intro f below' hsuffix hbody
      rcases List.suffix_cons_iff.1 hsuffix with heq | hsuffix
      · rw [(List.cons.inj heq).1] at hbody
        cases hbody
      · obtain ⟨g, hg, -, hgbody, -⟩ := suffix_advance hsuffix
        rw [← henters.frames] at hg
        exact h.bottom hg (hgbody.trans hbody)
    · rw [henters.frames_eq]
      intro outermost file b parent callSite filled' hsuffix hvisit
      rcases List.suffix_cons_iff.1 hsuffix with heq | hsuffix
      · obtain ⟨rfl, rfl⟩ : outermost = _ ∧ file = top.advance n := by
          obtain ⟨hnew, hrest⟩ := List.cons.inj heq
          exact ⟨hnew, (List.cons.inj hrest).1⟩
        rw [hvisited] at hvisit
        cases (show (r.visited.visits.push _)[r.visited.visits.size]? = _ from
          Array.getElem?_push_size).symm.trans hvisit
        show (top.pos - top.start) % offsetRange < top.pos + n
        have := Nat.mod_le (top.pos - top.start) offsetRange
        omega
      · obtain ⟨g, hg, hgvisit, -, -⟩ := suffix_advance hsuffix
        rw [← henters.frames] at hg
        rw [← hgvisit, hsound.visit_eq hextends hg] at hvisit
        exact h.callSite_lt hg hvisit

theorem Traverses.single (h : ((new .empty config).push path source).2.Traverses readings r) :
    r.Single path source :=
  (h.keeps (fun hsound _ hmove hsingle => hsingle.move hsound hmove)
    (fun _ hidle hsingle => hsingle.idle hidle) (sound_pushed config path source)
    (single_pushed config path source)).2

/-! ## The place that the next byte leads to -/

/-- The place next to be read leads to an offset of the source. -/
inductive Leads (r : Reader) : Nat → Prop
  /-- The source itself is read. -/
  | file {f : Frame} (frames : r.frames = [f]) : Leads r f.pos
  /-- An expansion is read, and the offset is that of the name that started the outermost one. -/
  | expansion {outermost file : Frame} {body parent callSite : Nat} {filled : Option String}
      (frames : [outermost, file] <:+ r.frames)
      (visit : r.visited.visits[outermost.visit]? = some (.expansion body parent callSite filled)) :
      Leads r callSite

/-- A climb from the top frame ends in the source. -/
theorem Single.climb (h : r.Single path source) (hsound : r.Sound) (hframes : r.frames = top :: below) :
    (below = [] ∧ ∀ offset, r.visited.climb (top.visit + 1) top.visit offset = .ok (0, offset)) ∨
    ∃ outermost file body callSite filled, [outermost, file] <:+ r.frames ∧
      r.visited.visits[outermost.visit]? = some (.expansion body file.visit callSite filled) ∧
      ∀ offset, r.visited.climb (top.visit + 1) top.visit offset = .ok (0, callSite) := by
  cases hsound.stacked.bottom hsound.visited hframes with
  | @file f below' id hframes' hbody hvisit hclimb =>
    rw [hframes] at hframes'
    cases hframes'
    obtain rfl := h.visits hvisit
    exact .inl ⟨h.bottom (hframes ▸ List.suffix_refl _) hbody, hclimb⟩
  | @expansion inner below' outermost parent body callSite id filled hframes' _ _ hbody hvisit hfile
      hclimb =>
    obtain rfl := h.visits hfile
    have hsuffix : parent :: below' <:+ r.frames := hframes' ▸ ⟨inner ++ [outermost], by simp⟩
    obtain rfl := h.bottom hsuffix hbody
    exact .inr ⟨outermost, parent, body, callSite, filled, hframes' ▸ List.suffix_append inner _, hvisit,
      hclimb⟩

/-- The bottom frame reads the source. -/
theorem Single.source_frame (h : r.Single path source) (hsound : r.Sound) {f : Frame}
    (hf : [f] <:+ r.frames) : f.body? = none ∧ f.start = 0 ∧ f.pos ≤ (Text.bytes source).length ∧
      f.rest = (Text.bytes source).drop f.pos := by
  obtain ⟨w, hw, hreads⟩ := hsound.reads f (hf.subset List.mem_cons_self)
  cases hsound.stacked.suffix hf with
  | file visit body _ =>
    obtain rfl := h.visits visit
    obtain ⟨file, hfile, hstart, hpos, hrest⟩ :=
      rest_of_fileOf? hw hreads (show r.fileOf? f = some 0 by rw [fileOf?, visit])
    rw [h.files] at hfile
    cases hfile
    exact ⟨body, hstart, hpos, hrest⟩

/-- The source is not read backwards. -/
theorem Move.bottom_le (h : r.Move t? r') {f : Frame} (hf : [f] <:+ r'.frames) :
    ∃ g, [g] <:+ r.frames ∧ g.pos ≤ f.pos := by
  have hadvance : ∀ {top : Frame} {below : List Frame} {n : Nat}, r.frames = top :: below →
      [f] <:+ top.advance n :: below → ∃ g, [g] <:+ r.frames ∧ g.pos ≤ f.pos := by
    intro top below n hframes hsuffix
    obtain ⟨g, hg, -, -, hle⟩ := suffix_advance hsuffix
    exact ⟨g, hframes ▸ hg, hle⟩
  cases h with
  | ended _ => exact ⟨f, hf, Nat.le_refl _⟩
  | @left top below hframes _ =>
    rw [frames_leave] at hf
    exact ⟨f, hframes ▸ hf.trans (List.suffix_cons top below), Nat.le_refl _⟩
  | passed hpasses _ =>
    rw [hpasses.frames_eq] at hf
    exact hadvance hpasses.frames hf
  | entered henters _ =>
    rw [henters.frames_eq] at hf
    rcases List.suffix_cons_iff.1 hf with heq | hf
    · cases heq
    · exact hadvance henters.frames hf

/-- As long as something is left to be read, there is such an offset. -/
theorem Single.exists_leads (h : r.Single path source) (hsound : r.Sound) (hne : r.frames ≠ []) :
    ∃ offset, r.Leads offset := by
  obtain ⟨top, below, hframes⟩ := List.exists_cons_of_ne_nil hne
  rcases h.climb hsound hframes with ⟨rfl, -⟩ | ⟨_, _, _, callSite, _, hsuffix, hvisit, -⟩
  · exact ⟨top.pos, .file hframes⟩
  · exact ⟨callSite, .expansion hsuffix hvisit⟩

/-- There is at most one. -/
theorem Leads.eq {offset' : Nat} (h : r.Leads offset) (h' : r.Leads offset') : offset = offset' := by
  cases h with
  | @file f hframes =>
    cases h' with
    | file hframes' =>
      rw [hframes] at hframes'
      cases hframes'
      rfl
    | expansion hframes' _ =>
      have hlength := hframes'.length_le
      rw [hframes] at hlength
      exact absurd hlength (Nat.not_succ_le_self 1)
  | expansion hframes hvisit =>
    cases h' with
    | file hframes' =>
      have hlength := hframes.length_le
      rw [hframes'] at hlength
      exact absurd hlength (Nat.not_succ_le_self 1)
    | expansion hframes' hvisit' =>
      have hsame := (List.suffix_of_suffix_length_le hframes hframes' (Nat.le_refl 2)).eq_of_length rfl
      cases hsame
      rw [hvisit] at hvisit'
      cases hvisit'
      rfl

end Reader

/-! ## Places -/

open Reader

variable {r r' : Reader} {readings : List Reading} {path source : String} {top : Frame}
  {below : List Frame} {t? : Option Token} {offset : Nat}

/-- The newest entry of the location map governs all places from the next byte on. -/
theorem Reader.Charted.findEntry? (h : r.Charted) (hframes : r.frames = top :: below) (k : Nat) :
    ∃ entry, r.visited.findEntry? (r.nextLoc + k) = some entry ∧ entry.visit = top.visit ∧
      ((r.nextLoc + k - entry.loc).toNat + entry.offset) % offsetRange =
        (top.pos - top.start + k) % offsetRange := by
  obtain ⟨entry, entries, passed, hentries, hvisit, hoffset, hle, hloc⟩ := h.newest hframes
  refine ⟨entry, ?_, hvisit, ?_⟩
  · rw [Visited.findEntry?, hentries]
    exact List.find?_cons_of_pos (decide_eq_true (by grind))
  · rw [hoffset, Nat.add_mod_mod]
    congr 1
    grind

/-- Where a place from the next byte on is, by a climb from the top frame. -/
theorem Reader.Charted.expand (h : r.Charted) (hsound : r.Sound) (hframes : r.frames = top :: below)
    {file k : Nat} {source : SourceFile}
    (hclimb : r.visited.climb (top.visit + 1) top.visit ((top.pos - top.start + k) % offsetRange) =
      .ok (file, offset))
    (hsource : r.visited.files.get? file = some source)
    (htext : source = .ofText source.path source.contents)
    (hoffset : offset ≤ (Text.bytes source.contents).length) :
    r.visited.expand? (r.nextLoc + k) =
      .ok (some ⟨source.path, Text.positionAt (Text.bytes source.contents) offset⟩) := by
  obtain ⟨entry, hentry, hvisit, hentryOffset⟩ := h.findEntry? hframes k
  have hnonneg : ¬ r.nextLoc + k < 0 := by
    have := h.nonneg
    grind
  have hstacked := hsound.stacked
  rw [hframes] at hstacked
  have hposition := congrArg (fun s => SourceFile.position s offset) htext
  rw [← SourceFile.position_ofText source.path source.contents hoffset, ← hposition]
  unfold Visited.expand?
  rw [if_neg hnonneg, hentry]
  simp only [hentryOffset, hvisit,
    (Visited.Extends.refl _).climb (Nat.succ_le_succ (Nat.le_of_lt hstacked.visit_lt)) hclimb, bind,
    Except.bind, hsource, Halt.require_some, pure, Except.pure]

/-- The offset that the next byte leads to lies in the source, and the location map finds it. -/
theorem Reader.Leads.expand (h : r.Leads offset) (hsound : r.Sound) (hchart : r.Charted)
    (hsingle : r.Single path source) (hsmall : source.utf8ByteSize < offsetRange) :
    offset ≤ (Text.bytes source).length ∧
      r.visited.expand? r.nextLoc = .ok (some ⟨path, Text.positionAt (Text.bytes source) offset⟩) := by
  have hfound : ∀ {top below}, r.frames = top :: below → offset ≤ (Text.bytes source).length →
      r.visited.climb (top.visit + 1) top.visit ((top.pos - top.start + 0) % offsetRange) =
        .ok (0, offset) → offset ≤ (Text.bytes source).length ∧ r.visited.expand? r.nextLoc =
          .ok (some ⟨path, Text.positionAt (Text.bytes source) offset⟩) := by
    intro top below hframes hle hclimb
    have hexpand := hchart.expand hsound (k := 0) hframes hclimb hsingle.files rfl hle
    rw [Nat.cast_zero, Int.add_zero] at hexpand
    exact ⟨hle, hexpand⟩
  cases h with
  | @file f hframes =>
    rcases hsingle.climb hsound hframes with ⟨-, hclimb⟩ | ⟨outermost, file, _, _, _, hsuffix, -, -⟩
    · obtain ⟨-, hstart, hle, -⟩ := hsingle.source_frame hsound ⟨[], hframes.symm⟩
      refine hfound hframes hle ?_
      rw [← Text.length_bytes] at hsmall
      rw [hclimb, hstart, Nat.sub_zero, Nat.add_zero, Nat.mod_eq_of_lt (Nat.lt_of_le_of_lt hle hsmall)]
    · have hlength := hsuffix.length_le
      rw [hframes] at hlength
      exact absurd hlength (Nat.not_succ_le_self 1)
  | @expansion outermost file body parent callSite filled hsuffix hvisit =>
    obtain ⟨top, below, hframes⟩ := List.exists_cons_of_ne_nil
      (List.ne_nil_of_length_pos (Nat.lt_of_lt_of_le Nat.zero_lt_two hsuffix.length_le))
    have hfile : [file] <:+ r.frames := (List.suffix_cons outermost [file]).trans hsuffix
    obtain ⟨-, -, hle, -⟩ := hsingle.source_frame hsound hfile
    have hlt := hsingle.callSite_lt hsuffix hvisit
    rcases hsingle.climb hsound hframes with ⟨rfl, -⟩ | ⟨_, _, _, callSite', _, hsuffix', hvisit', hclimb⟩
    · have hlength := hsuffix.length_le
      rw [hframes] at hlength
      exact absurd hlength (Nat.not_succ_le_self 1)
    · obtain rfl : offset = callSite' := (Leads.expansion hsuffix hvisit).eq (.expansion hsuffix' hvisit')
      exact hfound hframes (by omega) (hclimb _)

end CppDecl
