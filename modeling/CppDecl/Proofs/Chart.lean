import CppDecl.Proofs.Reader

/-!
# The location map while it grows

The location map is asked for the newest entry at or before a location.  Locations are used more
than once: the text of an expansion lies where the use of the macro lay.  What keeps the map right
is that the reader only moves forward.  Every entry is made at the location that is next to be read,
so all entries lie at or before it (`Reader.Charted`), and the newest one leads to the top frame.

A token that is no use of a macro lies before everything that is read later.  Entries that are made
later start behind it, so whatever the map says about the token once, it says for good
(`Visited.Beyond`).
-/

namespace CppDecl

variable {r r' : Reader} {top : Frame} {below : List Frame}

/-! ## Looking up -/

namespace Visited

/-- What was visited at one time, and what at a later time when only places behind `loc` have been
entered into the map. -/
structure Beyond (v : Visited) (loc : LinearLoc) (v' : Visited) : Prop where
  /-- Nothing is forgotten. -/
  extends_ : v.Extends v'
  /-- The new entries lie behind the location. -/
  entries : ∃ new, v'.entries = new ++ v.entries ∧ ∀ entry ∈ new, loc < entry.loc

theorem Beyond.trans {v₁ v₂ v₃ : Visited} {loc : LinearLoc} (h₁ : v₁.Beyond loc v₂)
    (h₂ : v₂.Beyond loc v₃) : v₁.Beyond loc v₃ := by
  obtain ⟨new₁, heq₁, hlt₁⟩ := h₁.entries
  obtain ⟨new₂, heq₂, hlt₂⟩ := h₂.entries
  refine ⟨h₁.extends_.trans h₂.extends_, new₂ ++ new₁, ?_, ?_⟩
  · rw [heq₂, heq₁, List.append_assoc]
  · intro entry hentry
    rcases List.mem_append.1 hentry with hentry | hentry
    · exact hlt₂ entry hentry
    · exact hlt₁ entry hentry

/-- The entry that governs a location does not change any more. -/
theorem Beyond.entry_eq {v v' : Visited} {loc : LinearLoc} (h : v.Beyond loc v') :
    v'.findEntry? loc = v.findEntry? loc := by
  obtain ⟨new, heq, hlt⟩ := h.entries
  unfold Visited.findEntry?
  rw [heq, List.find?_append, List.find?_eq_none.2, Option.none_or]
  intro entry hentry
  have := hlt entry hentry
  simpa using this

/-- A climb that ends, ends the same way with more steps and when more has been visited. -/
theorem Extends.climb {v v' : Visited} (h : v.Extends v') {steps steps' visit offset : Nat}
    {place : Nat × Nat} (hsteps : steps ≤ steps')
    (hclimb : v.climb steps visit offset = .ok place) :
    v'.climb steps' visit offset = .ok place := by
  induction steps generalizing steps' visit offset with
  | zero => cases hclimb
  | succ steps ih =>
    obtain ⟨steps', rfl⟩ := Nat.exists_eq_add_of_le' hsteps
    unfold Visited.climb at hclimb ⊢
    obtain ⟨x, hx, hclimb⟩ := Halt.bind_eq_ok hclimb
    rw [h.visits (Halt.require_eq_ok hx)]
    cases x with
    | file file => exact hclimb
    | expansion body parent callSite filled => exact ih (Nat.le_of_succ_le_succ hsteps) hclimb

/-- An entry for a visit that was made is still one later. -/
theorem Extends.known {v v' : Visited} (h : v.Extends v') {entry : MapEntry}
    (hknown : entry.visit < v.visits.size ∧ entry.offset < offsetRange) :
    entry.visit < v'.visits.size ∧ entry.offset < offsetRange :=
  ⟨(Array.getElem?_eq_some_iff.1 (h.visits (Array.getElem?_eq_getElem hknown.1))).1, hknown.2⟩

theorem Extends.namesAround {v v' : Visited} (h : v.Extends v') {steps steps' visit : Nat}
    {names : List String} (hsteps : steps ≤ steps')
    (hnames : v.namesAround steps visit = .ok names) :
    v'.namesAround steps' visit = .ok names := by
  induction steps generalizing steps' visit names with
  | zero => cases hnames
  | succ steps ih =>
    obtain ⟨steps', rfl⟩ := Nat.exists_eq_add_of_le' hsteps
    unfold Visited.namesAround at hnames ⊢
    obtain ⟨x, hx, hnames⟩ := Halt.bind_eq_ok hnames
    rw [h.visits (Halt.require_eq_ok hx)]
    cases x with
    | file file => exact hnames
    | expansion body parent callSite filled =>
      obtain ⟨b, hb, hnames⟩ := Halt.bind_eq_ok hnames
      obtain ⟨outer, houter, hnames⟩ := Halt.bind_eq_ok hnames
      show (Halt.require v'.bodies[body]? >>= _) = _
      rw [h.bodies (Halt.require_eq_ok hb)]
      show (v'.namesAround _ parent >>= _) = _
      rw [ih (Nat.le_of_succ_le_succ hsteps) houter]
      exact hnames

end Visited

/-! ## The chart -/

namespace Reader

/-- The location map is right about what is next to be read. -/
structure Charted (r : Reader) : Prop where
  /-- Entries lie at or before the next byte. -/
  le : ∀ entry ∈ r.visited.entries, entry.loc ≤ r.nextLoc
  /-- The next byte has a place. -/
  nonneg : 0 ≤ r.nextLoc
  /-- Entries are made for visits that were made, and their offsets have 32 bits. -/
  known : ∀ entry ∈ r.visited.entries, entry.visit < r.visited.visits.size ∧ entry.offset < offsetRange
  /-- The newest entry leads to the next byte of the top frame. -/
  newest : ∀ {top : Frame} {below : List Frame}, r.frames = top :: below →
    ∃ entry entries passed, r.visited.entries = entry :: entries ∧ entry.visit = top.visit ∧
      entry.offset = passed % offsetRange ∧ passed ≤ top.pos - top.start ∧
      r.nextLoc = entry.loc + ((top.pos - top.start - passed : Nat) : Int)

theorem Sound.visit_lt (h : r.Sound) {f : Frame} (hf : f ∈ r.frames) : f.visit < r.visited.visits.size := by
  obtain ⟨w, hw, -⟩ := h.reads f hf
  obtain ⟨x, hx, -⟩ := Halt.bind_eq_ok hw
  exact (Array.getElem?_eq_some_iff.1 (Halt.require_eq_ok hx)).1

theorem nextLoc_of_frames (h : r.frames = top :: below) : r.nextLoc = r.locOf top := by
  rw [nextLoc, h]

/-- What a move does to the map: the reader goes forward, and new entries lie where it stands. -/
structure Forward (r r' : Reader) : Prop where
  /-- The next byte lies no further back than before. -/
  le : r.nextLoc ≤ r'.nextLoc
  /-- Nothing is forgotten. -/
  extends_ : r.visited.Extends r'.visited
  /-- New entries lie at or behind the byte that was next. -/
  entries : ∃ new, r'.visited.entries = new ++ r.visited.entries ∧
    ∀ entry ∈ new, r.nextLoc ≤ entry.loc

/-- A location before the next byte keeps its entry. -/
theorem Forward.beyond (h : r.Forward r') {loc : LinearLoc} (hloc : loc < r.nextLoc) :
    r.visited.Beyond loc r'.visited := by
  obtain ⟨new, heq, hle⟩ := h.entries
  exact ⟨h.extends_, new, heq, fun entry hentry => Int.lt_of_lt_of_le hloc (hle entry hentry)⟩

theorem Passes.visited_extends {n : Nat} (h : r.Passes top below n r') :
    r.visited.Extends r'.visited ∧ r'.visited.entries = r.visited.entries := by
  rcases h.visited with heq | ⟨-, body, heq⟩
  · rw [heq]
    exact ⟨.refl _, rfl⟩
  · rw [heq]
    exact ⟨Visited.extends_addBody _ _, rfl⟩

/-- Passing a stretch of the top frame moves the reader on by as many bytes. -/
theorem Passes.nextLoc {n : Nat} (h : r.Passes top below n r') (hsound : r.Sound) :
    r'.nextLoc = r.nextLoc + n := by
  obtain ⟨w, -, hreads⟩ := hsound.window h.frames
  have hlength := hreads.length_eq
  have hle := h.le
  rw [nextLoc_of_frames h.frames, nextLoc_of_frames h.frames_eq, locOf, locOf, h.endLoc_eq]
  simp only [Frame.remaining, Frame.advance]
  grind

theorem Passes.charted {n : Nat} (h : r.Passes top below n r') (hsound : r.Sound)
    (hchart : r.Charted) : r'.Charted ∧ r.Forward r' := by
  obtain ⟨hextends, hentries⟩ := h.visited_extends
  have hnext := h.nextLoc hsound
  obtain ⟨w, -, hreads⟩ := hsound.window h.frames
  have hstart := hreads.start_le
  have hforward : r.nextLoc ≤ r'.nextLoc := by grind
  refine ⟨⟨?_, hchart.nonneg.trans hforward, ?_, ?_⟩, hforward, hextends, [], hentries, by simp⟩
  · intro entry hentry
    rw [hentries] at hentry
    exact (hchart.le entry hentry).trans hforward
  · rw [hentries]
    exact fun entry hentry => hextends.known (hchart.known entry hentry)
  · intro top' below' hframes
    rw [h.frames_eq] at hframes
    cases hframes
    obtain ⟨entry, entries, passed, heq, hvisit, hoffset, hle, hloc⟩ := hchart.newest h.frames
    refine ⟨entry, entries, passed, hentries.trans heq, hvisit, hoffset, ?_, ?_⟩
    · show passed ≤ top.pos + n - top.start
      omega
    · rw [hnext, hloc]
      show _ = entry.loc + ((top.pos + n - top.start - passed : Nat) : Int)
      grind

/-- A frame on top of a reader starts where the reader stood. -/
theorem charted_enter {v : Visited} (hextends : r.visited.Extends v)
    (hentries : v.entries = r.visited.entries) (hchart : r.Charted) {f : Frame}
    (hvisit : f.visit < v.visits.size) (hstart : f.pos = f.start) (hr' : r'.visited = v.addEntry ⟨r.nextLoc, f.visit, 0⟩)
    {below : List Frame} (hframes : r'.frames = f :: below) (hend : r'.endLoc = r.nextLoc + f.remaining) :
    r'.Charted ∧ r.Forward r' := by
  have hentries' : r'.visited.entries = ⟨r.nextLoc, f.visit, 0⟩ :: r.visited.entries := by
    rw [hr', ← hentries]
    rfl
  have hnext : r'.nextLoc = r.nextLoc := by
    rw [nextLoc_of_frames hframes, locOf, hend, Int.add_sub_cancel]
  refine ⟨⟨?_, ?_, ?_, ?_⟩, hnext.ge, ?_, [_], hentries', ?_⟩
  · intro entry hentry
    rw [hentries'] at hentry
    rw [hnext]
    rcases List.mem_cons.1 hentry with rfl | hentry
    · exact le_refl _
    · exact hchart.le entry hentry
  · rw [hnext]
    exact hchart.nonneg
  · rw [hentries', hr']
    refine List.forall_mem_cons.2 ⟨⟨hvisit, offsetRange_pos⟩, fun entry hentry => ?_⟩
    exact hextends.known (hchart.known entry hentry)
  · intro top' below' hframes'
    rw [hframes] at hframes'
    cases hframes'
    refine ⟨_, _, 0, hentries', rfl, rfl, Nat.zero_le _, ?_⟩
    rw [hnext, hstart]
    simp
  · rw [hr']
    exact hextends.trans (v.extends_addEntry _)
  · intro entry hentry
    rw [List.mem_singleton.1 hentry]

theorem Enters.charted {n body : Nat} {w : Window} (h : r.Enters top below n body w r')
    (hchart : r.Charted) : r'.Charted ∧ r.Forward r' := by
  obtain ⟨filled, hvisited⟩ := h.visited
  have hreads := Frame.reads_ofWindow r.visited.visits.size (some body) h.sound
  rw [← nextLoc_of_frames h.frames] at hvisited
  refine charted_enter (r.visited.extends_addVisit _) rfl hchart ?_ rfl hvisited h.frames_eq ?_
  · exact (Nat.lt_succ_self _).trans_eq (Array.size_push _).symm
  rw [h.endLoc_eq, hreads.remaining, nextLoc_of_frames h.frames]
  rfl

theorem charted_leave (h : r.frames = top :: below) (hrest : top.rest = []) (hsound : r.Sound)
    (hchart : r.Charted) : (r.leave below).Charted ∧ r.Forward (r.leave below) := by
  obtain ⟨w, -, hreads⟩ := hsound.window h
  have hend : r.nextLoc = r.endLoc := by
    rw [nextLoc_of_frames h, locOf, hreads.remaining, hrest]
    simp
  have hnonneg := hchart.nonneg
  cases below with
  | nil =>
    have hnext : (r.leave []).nextLoc = r.nextLoc := by
      show max r.endLoc 0 = _
      rw [← hend]
      exact max_eq_left hnonneg
    refine ⟨⟨?_, ?_, hchart.known, ?_⟩, hnext.ge, .refl _, [], rfl, by simp⟩
    · rw [hnext]
      exact hchart.le
    · rw [hnext]
      exact hnonneg
    · intro top' below' hframes
      cases hframes
  | cons parent below =>
    have hnext : (r.leave (parent :: below)).nextLoc = r.nextLoc := by
      show r.endLoc + parent.remaining - parent.remaining = _
      rw [hend, Int.add_sub_cancel]
    have hentries : (r.leave (parent :: below)).visited.entries =
        ⟨r.endLoc, parent.visit, (parent.pos - parent.start) % offsetRange⟩ :: r.visited.entries := rfl
    refine ⟨⟨?_, ?_, ?_, ?_⟩, hnext.ge, Visited.extends_addEntry _ _, [_], hentries, ?_⟩
    · intro entry hentry
      rw [hentries] at hentry
      rw [hnext]
      rcases List.mem_cons.1 hentry with rfl | hentry
      · exact hend.ge
      · exact hchart.le entry hentry
    · rw [hnext]
      exact hnonneg
    · rw [hentries]
      exact List.forall_mem_cons.2 ⟨⟨hsound.visit_lt (by simp [h]), Nat.mod_lt _ offsetRange_pos⟩, hchart.known⟩
    · intro top' below' hframes
      cases hframes
      refine ⟨_, _, _, hentries, rfl, rfl, Nat.le_refl _, ?_⟩
      rw [hnext, hend]
      simp
    · intro entry hentry
      rw [List.mem_singleton.1 hentry]
      exact hend.le

/-- Every move goes forward and keeps the map right. -/
theorem Move.charted {t? : Option Token} (h : r.Move t? r') (hsound : r.Sound)
    (hchart : r.Charted) : r'.Charted ∧ r.Forward r' := by
  cases h with
  | ended _ => exact ⟨hchart, le_refl _, .refl _, [], rfl, by simp⟩
  | left hframes hrest => exact charted_leave hframes hrest hsound hchart
  | passed hpasses _ => exact hpasses.charted hsound hchart
  | entered henters _ => exact henters.charted hchart

/-- Starting to read a new file keeps the map right. -/
theorem Charted.push (hchart : r.Charted) {path : String} (hfresh : r.visited.Fresh path)
    (contents : String) :
    (r.push path contents).2.Charted ∧ r.Forward (r.push path contents).2 := by
  rw [push_eq]
  refine charted_enter (Visited.extends_addFile hfresh contents) ?_ hchart ?_ rfl rfl rfl rfl
  · rw [Visited.addFile_fresh hfresh]
  · exact (Nat.lt_succ_self _).trans_eq (Array.size_push _).symm

theorem charted_new (config : Configuration) : (new .empty config).Charted := by
  obtain ⟨hblank, -⟩ := blank_new config
  have hnext : (new .empty config).nextLoc = 0 := by
    rw [nextLoc, hblank.frames, hblank.endLoc]
    rfl
  have hnone : ∀ entry, entry ∉ (new .empty config).visited.entries := by
    simp [hblank.entries]
  refine ⟨fun entry hentry => absurd hentry (hnone entry), hnext.ge,
    fun entry hentry => absurd hentry (hnone entry), ?_⟩
  · intro top below h
    rw [hblank.frames] at h
    cases h

end Reader

end CppDecl
