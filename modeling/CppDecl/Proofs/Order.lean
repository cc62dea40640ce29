import CppDecl.Proofs.Advance
import CppDecl.Proofs.Chart
import CppDecl.Proofs.Widths

/-!
# The order of places

A reader only goes forward: a token lies where the reader stands or behind it, and so does every new
entry of the location map.  The text of an expansion lies where the name of the macro lay, so the use
of a macro does not move the reader on.  Every other token does, by its own text at least.

This is stated for one step (`Reader.Move.ordered`, `Reader.Move.before`), and from there for every
history of pushing files and reading tokens (`History.ordered`).  A session tells by the place of the
next token whether anything was consumed.  That is right, since tokens of a session that are not the
end of the file lie at different places.
-/

namespace CppDecl

/-! ## Tokens before a place -/

/-- Reading has come to the place `loc` behind the token. -/
structure Token.Before (t : Token) (loc : LinearLoc) : Prop where
  /-- The token lies no further on. -/
  le : t.loc ≤ loc
  /-- All of its text lies before the place, unless the text was replaced. -/
  text_le : t.kind ≠ .macroUse → t.loc + t.text.utf8ByteSize ≤ loc
  /-- Only the end of the file has no text. -/
  lt : t.kind ≠ .macroUse → t.kind ≠ .endOfFile → t.loc < loc

theorem Token.Before.mono {t : Token} {loc loc' : LinearLoc} (h : t.Before loc) (hle : loc ≤ loc') :
    t.Before loc' :=
  ⟨h.le.trans hle, fun huse => (h.text_le huse).trans hle,
    fun huse hmore => (h.lt huse hmore).trans_le hle⟩

theorem Token.not_use_of_plain {t : Token} (h : t.kind.isAside = false) : t.kind ≠ .macroUse := by
  intro huse
  rw [huse] at h
  cases h

namespace Reader

variable {r r' : Reader} {top : Frame} {below : List Frame} {t : Token} {t? : Option Token}

/-! ## One step -/

/-- The map is right and in order, and reading has not left the line of text. -/
structure Ordered (r : Reader) : Prop extends Charted r where
  /-- Entries were made in the order of their places. -/
  sorted : r.visited.entries.Pairwise fun later earlier => earlier.loc ≤ later.loc
  /-- The end of the top frame has a place. -/
  ended : 0 ≤ r.endLoc

theorem Ordered.congr (h : r.Ordered) (hvisited : r'.visited = r.visited)
    (hframes : r'.frames = r.frames) (hend : r'.endLoc = r.endLoc) :
    r'.Ordered ∧ r'.nextLoc = r.nextLoc := by
  have hlocOf : r'.locOf = r.locOf := by
    funext f
    rw [locOf, locOf, hend]
  have hnext : r'.nextLoc = r.nextLoc := by rw [nextLoc, nextLoc, hframes, hend, hlocOf]
  refine ⟨⟨⟨?_, ?_, ?_, ?_⟩, ?_, ?_⟩, hnext⟩
  · rw [hvisited, hnext]
    exact h.le
  · rw [hnext]
    exact h.nonneg
  · rw [hvisited]
    exact h.known
  · rw [hvisited, hframes, hnext]
    exact h.newest
  · rw [hvisited]
    exact h.sorted
  · rw [hend]
    exact h.ended

/-- A frame ends where it has a place, if its next byte does. -/
theorem Charted.endLoc_nonneg (h : r.Charted) (hframes : r.frames = top :: below) :
    0 ≤ r.endLoc := by
  have hnonneg := h.nonneg
  rw [nextLoc_of_frames hframes, locOf] at hnonneg
  exact (Int.natCast_nonneg _).trans (Int.sub_nonneg.1 hnonneg)

/-- A move makes at most one entry. -/
theorem Move.entries (h : r.Move t? r') :
    r'.visited.entries = r.visited.entries ∨
      ∃ entry, r'.visited.entries = entry :: r.visited.entries := by
  cases h with
  | ended _ => exact .inl rfl
  | @left top below _ _ =>
    cases below with
    | nil => exact .inl rfl
    | cons parent below => exact .inr ⟨_, rfl⟩
  | passed hpasses _ => exact .inl hpasses.visited_extends.2
  | entered henters _ =>
    obtain ⟨filled, hvisited⟩ := henters.visited
    rw [hvisited]
    exact .inr ⟨_, rfl⟩

theorem Move.ordered (h : r.Move t? r') (hsound : r.Sound) (horder : r.Ordered) : r'.Ordered := by
  obtain ⟨hcharted, hforward⟩ := h.charted hsound horder.toCharted
  refine ⟨hcharted, ?_, ?_⟩
  · rcases h.entries with heq | ⟨entry, heq⟩
    · rw [heq]
      exact horder.sorted
    · obtain ⟨new, hnew, hle⟩ := hforward.entries
      have hlast : r.nextLoc ≤ entry.loc := by
        rw [heq, ← List.singleton_append] at hnew
        exact hle entry (List.append_cancel_right hnew ▸ List.mem_singleton_self entry)
      rw [heq]
      exact .cons (fun earlier hearlier => (horder.le earlier hearlier).trans hlast) horder.sorted
  · cases h with
    | ended _ => exact horder.ended
    | @left top below _ _ =>
      cases below with
      | nil => exact horder.ended
      | cons parent below => exact hcharted.endLoc_nonneg rfl
    | passed hpasses _ => exact hcharted.endLoc_nonneg hpasses.frames_eq
    | entered henters _ => exact hcharted.endLoc_nonneg henters.frames_eq

/-- At the end the next byte would stand where the last one ended. -/
theorem Ordered.nextLoc_of_frames_nil (h : r.Ordered) (hframes : r.frames = []) :
    r.nextLoc = r.endLoc := by
  rw [nextLoc, hframes]
  exact max_eq_left h.ended

/-- A token lies where the reader stood, and the reader goes on behind it. -/
theorem Move.before (h : r.Move (some t) r') (hsound : r.Sound) (horder : r.Ordered) :
    t.loc = r.nextLoc ∧ t.Before r'.nextLoc := by
  have hforward := (h.charted hsound horder.toCharted).2
  generalize ht : some t = t? at h
  cases h with
  | ended hframes =>
    cases ht
    have hnext := horder.nextLoc_of_frames_nil hframes
    refine ⟨hnext.symm, hnext.ge, fun _ => ?_, fun _ hmore => absurd rfl hmore⟩
    rw [hnext]
    exact (Int.add_zero _).le
  | left _ _ => cases ht
  | @passed top below n _ _ hpasses hspells =>
    subst ht
    have hspells := hspells t rfl
    have hloc : t.loc = r.nextLoc := by rw [hspells.loc_eq, nextLoc_of_frames hpasses.frames]
    have hpos := hpasses.pos
    have hsize : t.text.utf8ByteSize ≤ n := by
      rw [← Text.length_bytes]
      exact hspells.text.length_le.trans (List.length_take_le n top.rest)
    have hnext := hpasses.nextLoc hsound
    exact ⟨hloc, by grind, fun _ => by grind, fun _ _ => by grind⟩
  | entered henters _ =>
    cases ht
    have hloc := nextLoc_of_frames henters.frames
    refine ⟨hloc.symm, ?_, fun huse => absurd rfl huse, fun huse => absurd rfl huse⟩
    show r.locOf _ ≤ _
    rw [← hloc]
    exact hforward.le

/-! ## The next token -/

theorem Ordered.skips (h : r.Ordered) (hsound : r.Sound) (hskips : r.Skips r') :
    r'.Sound ∧ r'.Ordered ∧ r.nextLoc ≤ r'.nextLoc :=
  hskips.keeps (P := fun q => q.Ordered ∧ r.nextLoc ≤ q.nextLoc)
    (fun hq hmove hkept => ⟨hmove.ordered hq hkept.1,
      hkept.2.trans (hmove.charted hq hkept.1.toCharted).2.le⟩) hsound ⟨h, le_refl _⟩

/-- A token is read from where the reader stood or from behind it. -/
theorem Ordered.readToken (h : r.Ordered) (hsound : r.Sound) (hread : r.readToken = .ok (t, r')) :
    r'.Ordered ∧ r.nextLoc ≤ t.loc ∧ t.Before r'.nextLoc := by
  obtain ⟨before, hskips, hstep⟩ := readToken_eq_ok_iff.1 hread
  obtain ⟨hsound₁, horder, hle⟩ := h.skips hsound hskips
  obtain ⟨t?, r₁, heq, -, hmove⟩ := hsound₁.step
  rw [hstep] at heq
  cases heq
  obtain ⟨hloc, hbefore⟩ := hmove.before hsound₁ horder
  exact ⟨hmove.ordered hsound₁ horder, hle.trans hloc.ge, hbefore⟩

theorem Ordered.push (h : r.Ordered) {path : String} (hfresh : r.visited.Fresh path)
    (contents : String) :
    (r.push path contents).2.Ordered ∧ r.nextLoc ≤ (r.push path contents).2.nextLoc := by
  obtain ⟨hcharted, hforward⟩ := h.toCharted.push hfresh contents
  have hentries : (r.push path contents).2.visited.entries =
      ⟨r.nextLoc, r.visited.visits.size, 0⟩ :: r.visited.entries := by
    rw [push_eq, Visited.addFile_fresh hfresh]
    rfl
  refine ⟨⟨hcharted, ?_, hcharted.endLoc_nonneg (by rw [push_eq]; rfl)⟩, hforward.le⟩
  rw [hentries]
  exact .cons h.le h.sorted

theorem ordered_new (config : Configuration) : (new .empty config).Ordered := by
  obtain ⟨hblank, -⟩ := blank_new config
  exact ⟨charted_new config, by rw [hblank.entries]; exact .nil, by rw [hblank.endLoc]⟩

theorem ordered_pushed (config : Configuration) (path source : String) :
    ((new .empty config).push path source).2.Ordered := by
  refine ((ordered_new config).push ?_ source).1
  rw [Visited.Fresh, (blank_new config).1.files]
  simp [Registry.find?, Registry.empty]

end Reader

/-! ## Looking up -/

/-- A history of one reader: the tokens that were read, last one first, and the reader now. -/
inductive History (config : Configuration) : List Token → Reader → Prop
  /-- Nothing has been done. -/
  | start : History config [] (.new .empty config)
  /-- A file is pushed that has not been pushed before. -/
  | push {tokens : List Token} {r : Reader} {path : String} (history : History config tokens r)
      (fresh : r.visited.Fresh path) (contents : String) :
      History config tokens (r.push path contents).2
  /-- A token is read. -/
  | read {tokens : List Token} {r r' : Reader} {t : Token} (history : History config tokens r)
      (read : r.readToken = .ok (t, r')) : History config (t :: tokens) r'
  /-- Faults and requests for files are collected, or it changes how a `>` is read. -/
  | adjust {tokens : List Token} {r : Reader} (history : History config tokens r)
      (errors : List LexError) (inclusions : List String) (closeAnglesOnly : Bool) :
      History config tokens { r with errors, inclusions, closeAnglesOnly }

/-- What a history keeps true. -/
structure History.Kept (tokens : List Token) (r : Reader) : Prop where
  /-- The reader is in order. -/
  sound : r.Sound
  /-- Places are in order. -/
  ordered : r.Ordered
  /-- Later tokens lie behind earlier ones. -/
  apart : tokens.Pairwise fun later earlier => earlier.Before later.loc
  /-- What is read next lies behind all tokens. -/
  before : ∀ t ∈ tokens, t.Before r.nextLoc

variable {config : Configuration} {tokens : List Token} {r r' : Reader}

theorem History.kept (h : History config tokens r) : History.Kept tokens r := by
  induction h with
  | start => exact ⟨Reader.sound_new config, Reader.ordered_new config, .nil, List.forall_mem_nil _⟩
  | push _ fresh contents ih =>
    obtain ⟨hordered, hle⟩ := ih.ordered.push fresh contents
    exact ⟨ih.sound.push fresh contents, hordered, ih.apart, fun t ht => (ih.before t ht).mono hle⟩
  | @read tokens r r' t _ hread ih =>
    obtain ⟨hordered, hle, hbefore⟩ := ih.ordered.readToken ih.sound hread
    refine ⟨ih.sound.of_readToken hread, hordered, ?_, ?_⟩
    · exact .cons (fun earlier hearlier => (ih.before earlier hearlier).mono hle) ih.apart
    · refine List.forall_mem_cons.2 ⟨hbefore, fun earlier hearlier => ?_⟩
      exact (ih.before earlier hearlier).mono (hle.trans hbefore.le)
  | @adjust tokens r _ errors inclusions closeAnglesOnly ih =>
    have hcongr : ({ r with errors, inclusions, closeAnglesOnly } : Reader).Ordered ∧ _ = r.nextLoc :=
      ih.ordered.congr rfl rfl rfl
    refine ⟨ih.sound.congr rfl rfl rfl, hcongr.1, ih.apart, fun t ht => ?_⟩
    exact (ih.before t ht).mono hcongr.2.ge

/-- Any number of tokens that are read belong to the history. -/
theorem History.readMany {count : Nat} {new : List Token} (h : History config tokens r)
    (hread : r.readMany count = .ok (new, r')) : History config (new.reverse ++ tokens) r' := by
  induction count generalizing tokens r new with
  | zero =>
    cases hread
    exact h
  | succ count ih =>
    obtain ⟨t, r₁, rest, hfirst, hrest, rfl⟩ := Reader.readMany_succ_eq_ok_iff.1 hread
    rw [List.reverse_cons, List.append_assoc]
    exact ih (h.read hfirst) hrest

/-! ## Tokens of a session -/

/-- The token comes before another one in a session: it lies before that one, and nothing else comes
behind the end of the file. -/
structure Token.Precedes (t u : Token) : Prop where
  /-- The other one lies behind. -/
  before : t.Before u.loc
  /-- The end of the file comes again and again. -/
  again : t.kind = .endOfFile → u = t

namespace Reader

variable {n : Nat} {t : Token} {ts : List Token}

theorem Ordered.withAngles (h : r.Ordered) (a : Bool) :
    (r.withAngles a).Ordered ∧ (r.withAngles a).nextLoc = r.nextLoc :=
  h.congr rfl rfl rfl

theorem Ordered.gives (h : r.Ordered) (hsound : r.Sound) (hgives : r.Gives n t r') :
    r'.Ordered ∧ r.nextLoc ≤ t.loc ∧ t.Before r'.nextLoc ∧ t.kind.isAside = false := by
  induction hgives with
  | ended hread hend =>
    obtain ⟨hordered, hle, hbefore⟩ := h.readToken hsound hread
    exact ⟨hordered, hle, hbefore, by rw [hend]; rfl⟩
  | plain hread _ hplain =>
    obtain ⟨hordered, hle, hbefore⟩ := h.readToken hsound hread
    exact ⟨hordered, hle, hbefore, hplain⟩
  | aside hread _ _ ih =>
    obtain ⟨hordered, hle, hbefore⟩ := h.readToken hsound hread
    obtain ⟨hordered', hle', hrest⟩ := ih hordered (hsound.of_readToken hread)
    exact ⟨hordered', (hle.trans hbefore.le).trans hle', hrest⟩

/-- At the end a reader gives the end of the file, and stays there. -/
theorem Gives.eq_of_frames_nil (h : r.Gives n t r') (hframes : r.frames = []) :
    t = ⟨r.endLoc, .endOfFile, ""⟩ ∧ r' = r := by
  have hread := readToken_of_frames_nil hframes
  cases h with
  | ended hread' _ | plain hread' _ _ =>
    rw [hread] at hread'
    cases hread'
    exact ⟨rfl, rfl⟩
  | aside hread' haside _ =>
    rw [hread] at hread'
    cases hread'
    cases haside

theorem Draws.eq_of_frames_nil (h : r.Draws n ts r') (hframes : r.frames = []) :
    ∀ t ∈ ts, t = ⟨r.endLoc, .endOfFile, ""⟩ := by
  induction h with
  | nil _ => exact List.forall_mem_nil _
  | @cons r r₁ r' a m n t ts hgives _ ih =>
    obtain ⟨ht, rfl⟩ := hgives.eq_of_frames_nil hframes
    exact List.forall_mem_cons.2 ⟨ht, ih hframes⟩

theorem Gives.eq_of_end (h : r.Gives n t r') (hsound : r.Sound) (hend : t.kind = .endOfFile) :
    r'.frames = [] ∧ t = ⟨r'.endLoc, .endOfFile, ""⟩ := by
  have hframes := h.frames_nil_of_end hsound hend
  have hagain := h.again hsound hend
  exact ⟨hframes, (hagain.eq_of_frames_nil hframes).1⟩

/-- The tokens that are drawn one after the other lie one behind the other. -/
theorem Ordered.draws (h : r.Ordered) (hsound : r.Sound) (hdraws : r.Draws n ts r') :
    ts.Pairwise Token.Precedes ∧ ∀ t ∈ ts, r.nextLoc ≤ t.loc ∧ t.kind.isAside = false := by
  induction hdraws with
  | nil _ => exact ⟨.nil, List.forall_mem_nil _⟩
  | @cons r r₁ r' a m n t ts hgives hrest ih =>
    obtain ⟨hordered, hnext⟩ := h.withAngles a
    obtain ⟨hordered₁, hle, hbefore, hplain⟩ := hordered.gives (hsound.withAngles a) hgives
    obtain ⟨hpairs, hall⟩ := ih hordered₁ (hgives.sound (hsound.withAngles a))
    rw [hnext] at hle
    refine ⟨.cons (fun u hu => ⟨hbefore.mono (hall u hu).1, fun hend => ?_⟩) hpairs,
      List.forall_mem_cons.2 ⟨⟨hle, hplain⟩, fun u hu => ?_⟩⟩
    · obtain ⟨hframes, ht⟩ := hgives.eq_of_end (hsound.withAngles a) hend
      rw [hrest.eq_of_frames_nil hframes u hu, ht]
    · exact ⟨(hle.trans hbefore.le).trans (hall u hu).1, (hall u hu).2⟩

end Reader

/-! ## Whether a session consumed anything -/

namespace Session

variable {s s₀ s₁ s₂ s₃ : Session} {t : Token} {us vs : List Token}

/-- Looking at the next token consumes nothing, and the token waits. -/
theorem Orderly.peek (h : s.Orderly) (hpeek : Parse.peek s = .ok (t, s₁)) :
    s.Advance [] s₁ ∧ s₁.Pending t ∧ ∃ s', Parse.read s = .ok (t, s') ∧ s.Advance [t] s' := by
  obtain ⟨⟨u, s'⟩, hread, hpeek⟩ := Halt.bind_eq_ok hpeek
  cases hpeek
  have hadvance := (h.read hread).1
  have hfirst : s.Advance ([] ++ [t]) s' := hadvance
  exact ⟨(hfirst.pushBack h).1, (hfirst.pushBack h).2, s', hread, hadvance⟩

end Session

/-! ## All that is in order -/

end CppDecl
