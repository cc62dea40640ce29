import CppDecl.Proofs.Traversal
import CppDecl.Tokens

/-!
# Places of macro uses

The use of a macro lies where the first byte of its expansion lies, and where the frame below goes on once
the expansion has been left, if nothing of it was passed.  The entry of the location map that governs
the place is the last one that was made there.  So while the expansion is being read, or the outermost
one around it, the place leads to the name in the source that started the outermost expansion.  Once that
has been left, it does so if some of its text was passed behind the place (`PassesWithin`).
Otherwise the place leads to a place behind the name for good.

`Reader.Traverses.use_located` says that these are the only two cases.  `use_led_behind` is about a
macro with an empty replacement text.

The proof follows the reader from the use on.  `Since` is what holds at every later time, and `Tracked`
says what has become of the expansion: it is still being read, some of it was passed, or the place has
gone astray (`Strays`).
-/

namespace CppDecl

open Reader

variable {config : Configuration} {readings : List Reading} {r : Reader} {top : Frame}
  {below : List Frame}

/-! ## The location map -/

theorem Visited.Extends.visits_le {v v' : Visited} (h : v.Extends v') :
    v.visits.size ≤ v'.visits.size := by
  cases hsize : v.visits.size with
  | zero => exact Nat.zero_le _
  | succ n =>
    have hlast : v.visits[n]? = some v.visits[n] := Array.getElem?_eq_getElem (by omega)
    exact (Array.getElem?_eq_some_iff.1 (h.visits hlast)).1

/-- Where a place is does not change any more when only places behind it are entered into the map. -/
theorem Visited.Beyond.expand? {v v' : Visited} {loc : LinearLoc} (h : v.Beyond loc v')
    {position : FilePosition} (hexpand : v.expand? loc = .ok (some position)) :
    v'.expand? loc = .ok (some position) := by
  unfold Visited.expand? at hexpand ⊢
  split at hexpand
  · cases hexpand
  next hnonneg =>
    rw [if_neg hnonneg, h.entry_eq]
    split at hexpand
    · cases hexpand
    next entry _ =>
      obtain ⟨⟨file, offset⟩, hclimb, hexpand⟩ := Halt.bind_eq_ok hexpand
      obtain ⟨source, hsource, hexpand⟩ := Halt.bind_eq_ok hexpand
      cases hexpand
      have hclimb' := h.extends_.climb (Nat.succ_le_succ h.extends_.visits_le) hclimb
      simp only [hclimb', bind, Except.bind, h.extends_.files (Halt.require_eq_ok hsource),
        Halt.require_some, pure, Except.pure]

namespace Reader

variable {r r' : Reader} {readings newer : List Reading} {path source : String} {t? : Option Token}
  {offset visit : Nat} {loc : LinearLoc}

/-- A frame that was left has the next byte where it had it. -/
theorem nextLoc_leave (h : r.Sound) {parent : Frame} (hframes : r.frames = top :: parent :: below)
    (hrest : top.rest = []) : (r.leave (parent :: below)).nextLoc = r.nextLoc := by
  obtain ⟨w, -, hreads⟩ := h.window hframes
  rw [nextLoc_of_frames hframes, locOf, hreads.remaining, hrest]
  show r.endLoc + parent.remaining - parent.remaining = r.endLoc - (0 : Nat)
  rw [Int.add_sub_cancel, Nat.cast_zero, Int.sub_zero]

/-- A move leaves alone what the map says of a place that is not further on, unless it makes an entry
right there. -/
theorem Move.beyond (h : r.Move t? r') (hsound : r.Sound) (hchart : r.Charted) (hloc : loc ≤ r.nextLoc) :
    r.visited.Beyond loc r'.visited ∨ r'.nextLoc = loc ∧ r'.frames ≠ [] := by
  rcases lt_or_eq_of_le hloc with hlt | rfl
  · exact .inl ((h.charted hsound hchart).2.beyond hlt)
  cases h with
  | ended _ => exact .inl ⟨.refl _, [], rfl, by simp⟩
  | @left top below hframes hrest =>
    cases below with
    | nil => exact .inl ⟨.refl _, [], rfl, by simp⟩
    | cons parent below => exact .inr ⟨nextLoc_leave hsound hframes hrest, List.cons_ne_nil _ _⟩
  | passed hpasses _ =>
    obtain ⟨hextends, hentries⟩ := hpasses.visited_extends
    exact .inl ⟨hextends, [], hentries, by simp⟩
  | entered henters _ =>
    exact .inr ⟨henters.nextLoc, by rw [henters.frames_eq]; exact List.cons_ne_nil _ _⟩

/-- The visit is being read. -/
def Opens (visit : Nat) (r : Reader) : Prop := ∃ f ∈ r.frames, f.visit = visit

/-- Reading on in the top frame does not change which visits are being read. -/
theorem opens_advance_iff (hframes : r.frames = top :: below) {n : Nat} :
    (∃ f ∈ top.advance n :: below, f.visit = visit) ↔ Opens visit r := by
  rw [Opens, hframes]
  simp only [List.mem_cons, exists_eq_or_imp]
  rfl

/-- A visit that is being read was being read before a move, unless it is new. -/
theorem Move.opens_before (h : r.Move t? r') (hvisit : visit < r.visited.visits.size)
    (hopen : Opens visit r') : Opens visit r := by
  cases h with
  | ended _ => exact hopen
  | left hframes _ =>
    obtain ⟨f, hf, rfl⟩ := hopen
    rw [frames_leave] at hf
    exact ⟨f, by rw [hframes]; exact List.mem_cons_of_mem _ hf, rfl⟩
  | passed hpasses _ =>
    rw [Opens, hpasses.frames_eq] at hopen
    exact (opens_advance_iff hpasses.frames).1 hopen
  | entered henters _ =>
    obtain ⟨f, hf, rfl⟩ := hopen
    rw [henters.frames_eq] at hf
    rcases List.mem_cons.1 hf with rfl | hf
    · exact absurd hvisit (Nat.lt_irrefl _)
    · exact (opens_advance_iff henters.frames).1 ⟨f, hf, rfl⟩

/-- Entering a macro does not end what is being read. -/
theorem Enters.opens {n body : Nat} {w : Window} (h : r.Enters top below n body w r')
    (hopen : Opens visit r) : Opens visit r' := by
  obtain ⟨f, hf, hvisit⟩ := (opens_advance_iff h.frames (n := n)).2 hopen
  exact ⟨f, by rw [h.frames_eq]; exact List.mem_cons_of_mem _ hf, hvisit⟩

/-- A visit is read on, unless its frame is on top and has been read to its end. -/
theorem Move.opens_after (h : r.Move t? r') (hopen : Opens visit r) :
    Opens visit r' ∨ ∃ top below, r.frames = top :: below ∧ top.visit = visit ∧ top.rest = [] ∧
      r' = r.leave below := by
  cases h with
  | ended _ => exact .inl hopen
  | @left top below hframes hrest =>
    obtain ⟨f, hf, rfl⟩ := hopen
    rw [hframes] at hf
    rcases List.mem_cons.1 hf with rfl | hf
    · exact .inr ⟨f, below, hframes, rfl, hrest, rfl⟩
    · exact .inl ⟨f, by rw [frames_leave]; exact hf, rfl⟩
  | passed hpasses _ =>
    rw [Opens, hpasses.frames_eq]
    exact .inl ((opens_advance_iff hpasses.frames).2 hopen)
  | entered henters _ => exact .inl (henters.opens hopen)

/-- An expansion that was started in the source lies on the frame of the source, and while it is being
read, the next byte leads to its name. -/
theorem Single.leads_of_suffix (h : r.Single path source) (hsound : r.Sound) {f : Frame}
    (hf : f :: below <:+ r.frames) {body parent callSite file : Nat} {filled : Option String}
    (hvisit : r.visited.visits[f.visit]? = some (.expansion body parent callSite filled))
    (hparent : r.visited.visits[parent]? = some (.file file)) :
    r.Leads callSite ∧ ∃ bottom, below = [bottom] ∧ callSite < bottom.pos := by
  cases hsound.stacked.suffix hf with
  | file hvisit' _ _ =>
    rw [hvisit] at hvisit'
    cases hvisit'
  | @expansion _ bottom below _ _ _ hvisit' _ hstacked =>
    rw [hvisit] at hvisit'
    cases hvisit'
    cases hstacked with
    | file _ hbody _ =>
      obtain rfl := h.bottom ((List.suffix_cons f _).trans hf) hbody
      exact ⟨.expansion hf hvisit, bottom, rfl, h.callSite_lt hf hvisit⟩
    | expansion hvisit' _ _ =>
      rw [hparent] at hvisit'
      cases hvisit'

/-- Behind a move the next byte leads where it led before, or to a place that was next in the source. -/
theorem Move.leads (h : r.Move t? r') (hsound : r.Sound) (hsingle : r.Single path source)
    (hsmall : source.utf8ByteSize < offsetRange) (hleads : r'.Leads offset) :
    r.Leads offset ∨ ∃ g, [g] <:+ r.frames ∧ g.pos ≤ offset := by
  cases h with
  | ended _ => exact .inl hleads
  | @left top below hframes hrest =>
    have hsuffix : below <:+ r.frames := hframes ▸ List.suffix_cons top below
    cases hleads with
    | @file f hfile =>
      rw [frames_leave] at hfile
      exact .inr ⟨f, hfile ▸ hsuffix, Nat.le_refl _⟩
    | expansion hexpansion hvisit =>
      rw [frames_leave] at hexpansion
      rw [(Move.left hframes hrest).same_visits.2] at hvisit
      exact .inl (.expansion (hexpansion.trans hsuffix) hvisit)
  | @passed top below n _ _ hpasses _ =>
    cases hleads with
    | @file f hfile =>
      obtain ⟨g, hg, hle⟩ := Move.bottom_le (.passed hpasses ‹_›) (f := f) ⟨[], hfile.symm⟩
      exact .inr ⟨g, hg, hle⟩
    | expansion hexpansion hvisit =>
      rw [hpasses.frames_eq] at hexpansion
      rw [hpasses.same_visits.2] at hvisit
      obtain ⟨g, hg, hgvisit, -, -⟩ := suffix_advance hexpansion
      rw [← hgvisit] at hvisit
      exact .inl (.expansion (hpasses.frames ▸ hg) hvisit)
  | @entered top below n body w _ name henters hspells =>
    obtain ⟨filled, hvisited⟩ := henters.visited
    have hextends : r.visited.Extends r'.visited := by
      rw [hvisited]
      exact (r.visited.extends_addVisit _).trans (Visited.extends_addEntry _ _)
    cases hleads with
    | file hfile =>
      rw [henters.frames_eq] at hfile
      cases hfile
    | expansion hexpansion hvisit =>
      rw [henters.frames_eq] at hexpansion
      rcases List.suffix_cons_iff.1 hexpansion with heq | hexpansion
      · -- the macro is entered in the source
        obtain ⟨hnew, hrest⟩ := List.cons.inj heq
        obtain ⟨-, rfl⟩ := List.cons.inj hrest
        rw [hnew, hvisited] at hvisit
        cases (show (r.visited.visits.push _)[r.visited.visits.size]? = _ from
          Array.getElem?_push_size).symm.trans hvisit
        have htop : [top] <:+ r.frames := ⟨[], henters.frames.symm⟩
        obtain ⟨-, hstart, hle, -⟩ := hsingle.source_frame hsound htop
        refine .inr ⟨top, htop, ?_⟩
        rw [← Text.length_bytes] at hsmall
        rw [hstart, Nat.sub_zero, Nat.mod_eq_of_lt (Nat.lt_of_le_of_lt hle hsmall)]
      · obtain ⟨g, hg, hgvisit, -, -⟩ := suffix_advance hexpansion
        rw [← henters.frames] at hg
        rw [← hgvisit, hsound.visit_eq hextends hg] at hvisit
        exact .inl (.expansion hg hvisit)

/-! ### While the expansion is being read -/

/-- A reader that came after the use of a macro, and what is known of the outermost expansion: its visit,
the name that started it in the source, and the place of the use. -/
structure Since (path source : String) (visit offset : Nat) (loc : LinearLoc) (r : Reader) : Prop where
  /-- The reader is in order. -/
  sound : r.Sound
  /-- The location map is right. -/
  charted : r.Charted
  /-- There is one source. -/
  single : r.Single path source
  /-- The expansion was started by the name. -/
  visit : ∃ body parent filled file, r.visited.visits[visit]? = some (.expansion body parent offset filled) ∧
    r.visited.visits[parent]? = some (.file file)
  /-- The reader stands at the place or behind it. -/
  le : loc ≤ r.nextLoc

/-- The place leads to the name. -/
def LeadsBack (path source : String) (offset : Nat) (loc : LinearLoc) (r : Reader) : Prop :=
  r.visited.expand? loc = .ok (some ⟨path, Text.positionAt (Text.bytes source) offset⟩)

theorem Since.forward (h : r.Since path source visit offset loc) (hsound : r'.Sound)
    (hchart : r'.Charted) (hsingle : r'.Single path source) (hforward : r.Forward r') :
    r'.Since path source visit offset loc := by
  obtain ⟨body, parent, filled, file, hvisit, hparent⟩ := h.visit
  exact ⟨hsound, hchart, hsingle, ⟨body, parent, filled, file, hforward.extends_.visits hvisit,
    hforward.extends_.visits hparent⟩, h.le.trans hforward.le⟩

theorem Since.move (h : r.Since path source visit offset loc) (hsound : r'.Sound) (hmove : r.Move t? r') :
    r'.Since path source visit offset loc := by
  obtain ⟨hchart, hforward⟩ := hmove.charted h.sound h.charted
  exact h.forward hsound hchart (h.single.move h.sound hmove) hforward

theorem Since.idle (h : r.Since path source visit offset loc) (hsound : r'.Sound) (hidle : r.Idles r') :
    r'.Since path source visit offset loc :=
  h.forward hsound (hidle.charted h.charted) (h.single.idle hidle) hidle.forward

/-- While the expansion is being read, the next byte leads to the name. -/
theorem Since.leads (h : r.Since path source visit offset loc) {f : Frame} (hf : f :: below <:+ r.frames)
    (hvisit : f.visit = visit) : r.Leads offset ∧ ∃ bottom, below = [bottom] ∧ offset < bottom.pos := by
  obtain ⟨body, parent, filled, file, hvisits, hparent⟩ := h.visit
  rw [← hvisit] at hvisits
  exact h.single.leads_of_suffix h.sound hf hvisits hparent

theorem Since.leadsBack_of_eq (h : r.Since path source visit offset loc)
    (hsmall : source.utf8ByteSize < offsetRange) (hopen : Opens visit r) (hloc : r.nextLoc = loc) :
    LeadsBack path source offset loc r := by
  obtain ⟨f, hf, hvisit⟩ := hopen
  obtain ⟨above, below, hframes⟩ := List.append_of_mem hf
  obtain ⟨hleads, -⟩ := h.leads ⟨above, hframes.symm⟩ hvisit
  rw [LeadsBack, ← hloc]
  exact (hleads.expand h.sound h.charted h.single hsmall).2

theorem Since.visit_lt (h : r.Since path source visit offset loc) : visit < r.visited.visits.size := by
  obtain ⟨body, parent, filled, file, hvisit, -⟩ := h.visit
  exact (Array.getElem?_eq_some_iff.1 hvisit).1

theorem LeadsBack.idle (h : LeadsBack path source offset loc r) (hidle : r.Idles r') :
    LeadsBack path source offset loc r' := by
  have hbeyond : r.visited.Beyond loc r'.visited := ⟨hidle.extends_, [], hidle.entries, by simp⟩
  exact hbeyond.expand? h

/-- While the expansion is being read, the place leads to the name. -/
theorem Since.leadsBack (h : r.Since path source visit offset loc)
    (hsmall : source.utf8ByteSize < offsetRange) (hback : LeadsBack path source offset loc r)
    (htraverses : r.Traverses readings r') :
    r'.Since path source visit offset loc ∧ (Opens visit r' → LeadsBack path source offset loc r') := by
  refine (htraverses.keeps (P := fun q => q.Since path source visit offset loc ∧
    (Opens visit q → LeadsBack path source offset loc q)) ?_ ?_ h.sound ⟨h, fun _ => hback⟩).2
  · rintro q q' t? - hsound' hmove ⟨hsince, hbefore⟩
    have hsince' := hsince.move hsound' hmove
    refine ⟨hsince', fun hopen => ?_⟩
    have hq := hbefore (hmove.opens_before hsince.visit_lt hopen)
    rcases hmove.beyond hsince.sound hsince.charted hsince.le with hbeyond | ⟨hloc, -⟩
    · exact hbeyond.expand? hq
    · exact hsince'.leadsBack_of_eq hsmall hopen hloc
  · rintro q q' hsound' hidle ⟨hsince, hbefore⟩
    refine ⟨hsince.idle hsound' hidle, fun hopen => (hbefore ?_).idle hidle⟩
    rwa [Opens, ← hidle.frames]

/-! ### Once it has been left -/

/-- While the visit was being read, the reader stood behind the place. -/
def PassesWithin (visit : Nat) (loc : LinearLoc) (r r' : Reader) : Prop :=
  ∃ q readings readings', r.Traverses readings q ∧ q.Traverses readings' r' ∧ Opens visit q ∧
    loc < q.nextLoc

/-- The place leads to what is behind the name, and so does everything that may still be entered there. -/
structure Strays (path source : String) (offset : Nat) (loc : LinearLoc) (r : Reader) : Prop where
  /-- The place leads to an offset behind the name. -/
  place : ∃ offset', offset < offset' ∧ offset' ≤ (Text.bytes source).length ∧
    LeadsBack path source offset' loc r
  /-- The next byte leads behind the name. -/
  leads : ∀ offset', r.Leads offset' → offset < offset'
  /-- The source is read on behind the name. -/
  bottom : ∀ f, [f] <:+ r.frames → offset < f.pos

theorem Strays.move (h : Strays path source offset loc r) (hsince : r.Since path source visit offset loc)
    (hsmall : source.utf8ByteSize < offsetRange) (hsound : r'.Sound) (hmove : r.Move t? r') :
    Strays path source offset loc r' := by
  have hleads : ∀ offset', r'.Leads offset' → offset < offset' := by
    intro offset' hleads
    rcases hmove.leads hsince.sound hsince.single hsmall hleads with hleads | ⟨g, hg, hle⟩
    · exact h.leads offset' hleads
    · exact Nat.lt_of_lt_of_le (h.bottom g hg) hle
  refine ⟨?_, hleads, ?_⟩
  · rcases hmove.beyond hsince.sound hsince.charted hsince.le with hbeyond | ⟨hloc, hne⟩
    · obtain ⟨offset', hlt, hle, hplace⟩ := h.place
      exact ⟨offset', hlt, hle, hbeyond.expand? hplace⟩
    · have hsince' := hsince.move hsound hmove
      obtain ⟨offset', hleads'⟩ := hsince'.single.exists_leads hsound hne
      obtain ⟨hle, hexpand⟩ := hleads'.expand hsound hsince'.charted hsince'.single hsmall
      rw [hloc] at hexpand
      exact ⟨offset', hleads offset' hleads', hle, hexpand⟩
  · intro f hf
    obtain ⟨g, hg, hle⟩ := hmove.bottom_le hf
    exact Nat.lt_of_lt_of_le (h.bottom g hg) hle

/-- An expansion is left without having been passed: the place leads to what is behind the use. -/
theorem Since.strays (h : r.Since path source visit offset loc) (hsmall : source.utf8ByteSize < offsetRange)
    (hframes : r.frames = top :: below) (hvisit : top.visit = visit) (hrest : top.rest = [])
    (hloc : r.nextLoc = loc) : Strays path source offset loc (r.leave below) := by
  have hsuffix : top :: below <:+ r.frames := ⟨[], hframes.symm⟩
  obtain ⟨-, bottom, rfl, hlt⟩ := h.leads hsuffix hvisit
  have hmove : r.Move none (r.leave [bottom]) := .left hframes hrest
  have hsince' := h.move (h.sound.leave hframes) hmove
  have hleads : (r.leave [bottom]).Leads bottom.pos := .file rfl
  obtain ⟨hle, hexpand⟩ := hleads.expand hsince'.sound hsince'.charted hsince'.single hsmall
  rw [nextLoc_leave h.sound hframes hrest, hloc] at hexpand
  refine ⟨⟨bottom.pos, hlt, hle, hexpand⟩, ?_, ?_⟩
  · intro offset' hleads'
    rw [hleads'.eq hleads]
    exact hlt
  · intro f hf
    rw [frames_leave] at hf
    cases hf.eq_of_length rfl
    exact hlt

/-- What has become of an expansion. -/
inductive Tracked (path source : String) (visit offset : Nat) (loc : LinearLoc) (r r' : Reader) : Prop
  /-- It is still being read. -/
  | reading (opens : Opens visit r') : Tracked path source visit offset loc r r'
  /-- Some of it was passed. -/
  | passed (passes : PassesWithin visit loc r r') : Tracked path source visit offset loc r r'
  /-- It was left without anything having been passed. -/
  | empty (strays : Strays path source offset loc r') : Tracked path source visit offset loc r r'

theorem Tracked.move {start : Reader} (h : Tracked path source visit offset loc start r)
    (hsince : r.Since path source visit offset loc) (hsmall : source.utf8ByteSize < offsetRange)
    (htraverses : start.Traverses readings r) (hsound : r'.Sound) (hmove : r.Move t? r')
    (hstep : r.Traverses newer r') : Tracked path source visit offset loc start r' := by
  cases h with
  | reading hopen =>
    rcases hmove.opens_after hopen with hopen' | ⟨top, below, hframes, hvisit, hrest, rfl⟩
    · exact .reading hopen'
    · rcases lt_or_eq_of_le hsince.le with hlt | heq
      · exact .passed ⟨r, _, _, htraverses, hstep, hopen, hlt⟩
      · exact .empty (hsince.strays hsmall hframes hvisit hrest heq.symm)
  | passed hpasses =>
    obtain ⟨q, _, _, hfirst, hrest, hq⟩ := hpasses
    exact .passed ⟨q, _, _, hfirst, hrest.trans hstep, hq⟩
  | empty hstrays => exact .empty (hstrays.move hsince hsmall hsound hmove)

theorem Strays.idle (h : Strays path source offset loc r) (hidle : r.Idles r') :
    Strays path source offset loc r' := by
  obtain ⟨offset', hlt, hle, hplace⟩ := h.place
  refine ⟨⟨offset', hlt, hle, hplace.idle hidle⟩, ?_, ?_⟩
  · intro offset' hleads
    refine h.leads offset' ?_
    cases hleads with
    | file hframes => exact .file (hidle.frames ▸ hframes)
    | expansion hframes hvisit => exact .expansion (hidle.frames ▸ hframes) (hidle.visits ▸ hvisit)
  · rw [hidle.frames]
    exact h.bottom

theorem Tracked.idle {start : Reader} (h : Tracked path source visit offset loc start r)
    (hidle : r.Idles r') (hstep : r.Traverses newer r') :
    Tracked path source visit offset loc start r' := by
  cases h with
  | reading hopen => exact .reading (by rwa [Opens, hidle.frames])
  | passed hpasses =>
    obtain ⟨q, _, _, hfirst, hrest, hq⟩ := hpasses
    exact .passed ⟨q, _, _, hfirst, hrest.trans hstep, hq⟩
  | empty hstrays => exact .empty (hstrays.idle hidle)

/-- What becomes of an expansion. -/
theorem Since.tracked (h : r.Since path source visit offset loc)
    (hsmall : source.utf8ByteSize < offsetRange) (hback : LeadsBack path source offset loc r)
    (hopen : Opens visit r) (htraverses : r.Traverses readings r') :
    Tracked path source visit offset loc r r' := by
  have hmove : ∀ {q q' : Reader} {readings newer : List Reading} {t? : Option Token},
      r.Traverses readings q → Tracked path source visit offset loc r q → q.step = .ok (t?, q') →
      q.Traverses newer q' → Tracked path source visit offset loc r q' := by
    intro q q' readings newer t? hbefore htracked hstep hafter
    have hsince := (h.leadsBack hsmall hback hbefore).1
    obtain ⟨_, _, heq, hsound, hmove⟩ := hsince.sound.step
    rw [hstep] at heq
    cases heq
    exact htracked.move hsince hsmall hbefore hsound hmove hafter
  induction htraverses with
  | refl => exact .reading hopen
  | skip hrest hstep ih => exact hmove hrest ih hstep ((Traverses.refl _).skip hstep)
  | read hrest hstep ih => exact hmove hrest ih hstep ((Traverses.refl _).read hstep)
  | adjust _ errors inclusions closeAnglesOnly ih =>
    exact ih.idle (idles_adjust _ errors inclusions closeAnglesOnly)
      ((Traverses.refl _).adjust errors inclusions closeAnglesOnly)
  | define _ d ih => exact ih.idle (idles_define _ d) ((Traverses.refl _).define d)

/-- Once an expansion has been left, the place leads to the name exactly if some of it was passed. -/
theorem Since.leadsBack_iff (h : r.Since path source visit offset loc)
    (hsmall : source.utf8ByteSize < offsetRange) (hback : LeadsBack path source offset loc r)
    (hopen : Opens visit r) (htraverses : r.Traverses readings r') (hleft : ¬ Opens visit r') :
    LeadsBack path source offset loc r' ↔ PassesWithin visit loc r r' := by
  constructor
  · intro hback'
    cases h.tracked hsmall hback hopen htraverses with
    | reading hopen' => exact absurd hopen' hleft
    | passed hpasses => exact hpasses
    | empty hstrays =>
      obtain ⟨offset', hlt, hle, hplace⟩ := hstrays.place
      have heq := hback'.symm.trans hplace
      simp only [Except.ok.injEq, Option.some.injEq, FilePosition.mk.injEq, true_and] at heq
      exact absurd heq (Text.positionAt_ne hlt hle)
  · rintro ⟨q, _, _, hfirst, hrest, hopen', hlt⟩
    obtain ⟨hsince, hq⟩ := h.leadsBack hsmall hback hfirst
    exact ((hrest.forward hsince.sound hsince.charted).beyond hlt).expand? (hq hopen')

/-- The place of a use leads to the name that started the outermost expansion, if that is still being
read where the macro was entered. -/
theorem Enters.leadsBack_iff {n body : Nat} {w : Window} (h : r.Enters top below n body w r')
    (hsound : r'.Sound) (hchart : r'.Charted) (hsingle : r'.Single path source)
    (hsmall : source.utf8ByteSize < offsetRange) (hopen : Opens visit r')
    (hvisit : ∃ body parent filled file,
      r'.visited.visits[visit]? = some (.expansion body parent offset filled) ∧
      r'.visited.visits[parent]? = some (.file file))
    {last : Reader} (hafter : r'.Traverses readings last) (hended : last.frames = []) :
    LeadsBack path source offset (r.locOf top) last ↔ PassesWithin visit (r.locOf top) r' last := by
  have hloc : r'.nextLoc = r.locOf top := h.nextLoc.trans (nextLoc_of_frames h.frames)
  have hsince : r'.Since path source visit offset (r.locOf top) :=
    ⟨hsound, hchart, hsingle, hvisit, hloc.ge⟩
  refine hsince.leadsBack_iff hsmall (hsince.leadsBack_of_eq hsmall hopen hloc) hopen hafter ?_
  rintro ⟨f, hf, -⟩
  rw [hended] at hf
  cases hf

end Reader

variable {path source : String} {older newer : List Reading} {before after last : Reader} {token : Token}

/-- The name that starts an expansion in the only source. -/
theorem Reading.Starts.in_source {y : Reading} {visit parent callSite file : Nat}
    (h : y.Starts visit parent callSite) (hsingle : y.before.Single path source)
    (hsmall : source.utf8ByteSize < offsetRange) (hextends : y.before.visited.Extends r.visited)
    (hparent : r.visited.visits[parent]? = some (.file file)) :
    ∃ here new rest, y.token.kind = .macroUse ∧ y.before.frames = [here] ∧ here.visit = parent ∧
      callSite = here.pos ∧ Text.bytes y.token.text <+: (Text.bytes source).drop here.pos ∧
      y.after.frames = new :: rest ∧ new.visit = visit := by
  obtain ⟨here, rest, new, rest', hkind, hsound, hframes, hname, rfl, hcall, hafter, hnew⟩ := h
  obtain ⟨source', hsource, hbody, hstart, hpos, hrest⟩ := hsound.file_frame hextends hframes hparent
  have hsuffix : here :: rest <:+ y.before.frames := ⟨[], hframes.symm⟩
  obtain rfl := hsingle.bottom hsuffix hbody
  obtain ⟨-, -, hle, hrest⟩ := hsingle.source_frame hsound (f := here) ⟨[], hframes.symm⟩
  rw [← Text.length_bytes] at hsmall
  rw [hstart, Nat.sub_zero, Nat.mod_eq_of_lt (Nat.lt_of_le_of_lt hle hsmall)] at hcall
  exact ⟨here, new, rest', hkind, hframes, rfl, hcall, hrest ▸ hname, hafter, hnew⟩

/-- The place of a macro use leads to the name in the source that started the outermost of the expansions,
after all of the source has been read, exactly if some text of that expansion was passed behind the
place.  If the text of the expansion is empty from there on, the place leads to what follows it. -/
theorem Reader.Traverses.use_located (hsmall : source.utf8ByteSize < offsetRange)
    (hbefore : ((new .empty config).push path source).2.Traverses older before)
    (hstep : before.step = .ok (some token, after)) (huse : token.kind = .macroUse)
    (hafter : after.Traverses newer last) (hended : last.frames = []) :
    ∃ y ∈ ⟨before, token, after⟩ :: older, Reading.StartedBy ⟨before, token, after⟩ y ∧
      ∃ here new rest, y.before.frames = [here] ∧
        Text.bytes y.token.text <+: (Text.bytes source).drop here.pos ∧ y.after.frames = new :: rest ∧
        (last.visited.expand? token.loc =
            .ok (some ⟨path, Text.positionAt (Text.bytes source) here.pos⟩) ↔
          PassesWithin new.visit token.loc after last) := by
  have hkept := (kept_pushed config path hsmall).traverses hbefore
  rw [List.append_nil] at hkept
  have hkept' := hkept.read hstep
  have hsingle := hbefore.single
  have hsingle' := (hbefore.read hstep).single
  obtain ⟨_, _, heq, -, hmove⟩ := hkept.sound.step
  rw [hstep] at heq
  cases heq
  have hextends := (hmove.charted hkept.sound hkept.charted).2.extends_
  cases hmove with
  | ended _ => cases huse
  | passed _ hspells => exact absurd huse (hspells token rfl).not_use
  | @entered top below n body w _ name henters hname =>
    obtain ⟨filled, hvisited⟩ := henters.visited
    have hnew : after.visited.visits[before.visited.visits.size]? =
        some (.expansion body top.visit ((top.pos - top.start) % offsetRange) filled) := by
      rw [hvisited]
      exact Array.getElem?_push_size
    cases hkept.sound.stacked.bottom hkept.sound.visited henters.frames with
    | @file f below' file hframes hbody hfile _ =>
      -- the name stands in the source
      have hstarts : Reading.Starts ⟨before, ⟨before.locOf top, .macroUse, name⟩, after⟩
          before.visited.visits.size top.visit ((top.pos - top.start) % offsetRange) :=
        ⟨top, below, _, _, rfl, hkept.sound, henters.frames, hname, rfl, rfl, henters.frames_eq, rfl⟩
      rw [henters.frames] at hframes
      cases hframes
      obtain ⟨here, new, rest, -, hhere, -, hcall, htext, hafterFrames, hvisit⟩ :=
        hstarts.in_source hsingle hsmall (.refl _) hfile
      rw [hcall] at hnew
      refine ⟨_, List.mem_cons_self, .file henters.frames hbody, here, new, rest, hhere, htext,
        hafterFrames, ?_⟩
      rw [hvisit]
      refine henters.leadsBack_iff hkept'.sound hkept'.charted hsingle' hsmall ?_
        ⟨body, _, filled, file, hnew, hextends.visits hfile⟩ hafter hended
      exact ⟨new, by rw [hafterFrames]; exact List.mem_cons_self, hvisit⟩
    | @expansion inner below' outermost parent body' callSite file filled' hframes hinner houtermost
        hbody hvisit hfile _ =>
      -- the name stands in an expansion
      obtain ⟨y, hy, hstarts⟩ := hkept.expansions hvisit
      obtain ⟨earlier, later, -, hyBefore, -, -⟩ := hbefore.split hy
      obtain ⟨here, new, rest, hkind, hhere, hparent, hcall, htext, hafterFrames, hyVisit⟩ :=
        hstarts.in_source hyBefore.single hsmall (hkept.readings y hy).extends_ hfile
      rw [hcall] at hvisit
      refine ⟨y, List.mem_cons_of_mem _ hy, .expansion hframes hinner (by simp [houtermost]) hbody hkind
        hhere hparent hafterFrames hyVisit, here, new, rest, hhere, htext, hafterFrames, ?_⟩
      rw [hyVisit]
      have hopen : Opens outermost.visit before := by
        rw [Opens, hframes]
        exact ⟨outermost, by simp, rfl⟩
      exact henters.leadsBack_iff hkept'.sound hkept'.charted hsingle' hsmall (henters.opens hopen)
        ⟨body', _, filled', file, hextends.visits hvisit, hextends.visits hfile⟩ hafter hended

/-- A traversal in which a macro is used in the text of another one.  Its place leads to the third line,
where the name of the other one stands. -/
theorem Reader.Traverses.use_located_nested : ∃ older newer before after last,
    ((new .empty {}).push "t.h" "#define A b\n#define B A\nB").2.Traverses older before ∧
    before.step = .ok (some ⟨24, .macroUse, "A"⟩, after) ∧ after.Traverses newer last ∧
    last.frames = [] ∧ (last.visited.expand? 24).toOption.join = some ⟨"t.h", ⟨3, 1⟩⟩ ∧
    ∃ (y : Reading) (here : Frame) (new : Nat), y.before.frames = [here] ∧
      (last.visited.expand? 24 = .ok (some ⟨"t.h",
          Text.positionAt (Text.bytes "#define A b\n#define B A\nB") here.pos⟩) ↔
        PassesWithin new 24 after last) := by
  have hall : (((new .empty {}).push "t.h" "#define A b\n#define B A\nB").2.readMany 3).toOption.map
      (fun x => x.2.step.toOption.map fun y => (y.1, (y.2.readMany 2).toOption.map fun z =>
        (z.2.frames.length, (z.2.visited.expand? 24).toOption.join))) =
      some (some (some ⟨24, .macroUse, "A"⟩, some (0, some ⟨"t.h", ⟨3, 1⟩⟩))) := by
    decide +kernel
  obtain ⟨⟨first, before⟩, hfirst, hrest⟩ := Halt.of_toOption_map hall
  obtain ⟨⟨token?, after⟩, hstep, hrest⟩ := Halt.of_toOption_map hrest
  simp only [Prod.mk.injEq] at hrest
  obtain ⟨rfl, hrest⟩ := hrest
  obtain ⟨⟨second, last⟩, hsecond, hrest⟩ := Halt.of_toOption_map hrest
  simp only [Prod.mk.injEq] at hrest
  obtain ⟨hended, hexpand⟩ := hrest
  have hended := List.eq_nil_of_length_eq_zero hended
  obtain ⟨older, hbefore, -⟩ := traverses_of_readMany hfirst
  obtain ⟨newer, hafter, -⟩ := traverses_of_readMany hsecond
  obtain ⟨y, -, -, here, new, rest, hhere, -, -, hiff⟩ :=
    Traverses.use_located (by decide +kernel) hbefore hstep rfl hafter hended
  exact ⟨older, newer, before, after, last, hbefore, hstep, hafter, hended, hexpand, y, here, new.visit,
    hhere, hiff⟩

/-- The replacement text is empty, and the place of the use leads to what follows it in the source. -/
theorem use_led_behind :
    (tokenizeWithin 5 {} "t.h" "#define A\nA b").toOption.map (fun result =>
      (result.tokens, (result.visited.expand? 10).toOption)) =
        some ([⟨0, .directive, "#define A\n"⟩, ⟨10, .macroUse, "A"⟩, ⟨11, .identifier, "b"⟩],
          some (some ⟨"t.h", ⟨2, 2⟩⟩)) ∧
    Text.positionAt (Text.bytes "#define A\nA b") 10 = ⟨2, 1⟩ := by
  decide +kernel

end CppDecl
