import CppDecl.Proofs.Invocation
import CppDecl.Proofs.Traversal

/-!
# Places of macro arguments

The arguments of a macro use are located where they stand: an argument that starts `k` bytes behind the
name has a location `k` bytes behind that of the name.  Before the macro is entered the location map
leads from there to where the argument starts.  But when the macro is entered, its text takes the place
that follows the name, and a new entry of the map governs all that lies there.  From then on the location
of every argument leads to the name (`Course.arguments_relocated`).

Arguments are located in the coordinates of the frame that the name was read from, and those are the
right ones for faults in the arguments, which are reported when no macro is entered.
-/

namespace CppDecl

open Reader

/-! ## Arguments -/

/-- Arguments that are found are stretches of the text.  They start in it, and not before the first one. -/
theorem Arguments.readFrom_places {opened offset start depth : Nat} {arg bs text : Bytes}
    {found : List (Nat × Bytes)} {stop : Nat} (htext : text.drop offset = bs)
    (harg : text.drop start = arg.reverse ++ bs) (hstart : start ≤ offset)
    (h : readFrom 0 opened offset start depth arg bs = .found found stop) :
    ∀ a ∈ found, start ≤ a.1 ∧ a.1 < text.length ∧ a.2 <+: text.drop a.1 := by
  have hlt : ∀ {offset : Nat} {b : UInt8} {rest : Bytes}, text.drop offset = b :: rest →
      offset < text.length := by
    intro offset b rest heq
    refine List.drop_eq_nil_iff.not.1 (by rw [heq]; exact List.cons_ne_nil b rest) |> not_le.1
  have hnext : ∀ {offset n : Nat} {b : UInt8} {rest : Bytes}, text.drop offset = b :: rest →
      text.drop (offset + 1 + n) = rest.drop n := by
    intro offset n b rest heq
    rw [Nat.add_assoc, ← List.drop_drop, heq, Nat.add_comm, List.drop_succ_cons]
  fun_induction readFrom 0 opened offset start depth arg bs generalizing found stop with
  | case1 => cases h
  | case2 => cases h
  | case3 offset start depth arg b rest n _ ih =>
    exact ih (hnext htext) (by simp [harg]) (by omega) h
  | case4 offset start depth arg b rest _ ih =>
    exact ih (hnext (n := 0) htext) (by simp [harg]) (by omega) h
  | case5 offset start depth arg b rest hpiece _ =>
    cases h
    intro a ha
    obtain rfl := List.mem_singleton.1 ha
    exact ⟨Nat.le_refl _, Nat.lt_of_le_of_lt hstart (hlt htext), harg ▸ List.prefix_append _ _⟩
  | case6 offset start depth arg b rest _ _ ih =>
    exact ih (hnext (n := 0) htext) (by simp [harg]) (by omega) h
  | case7 offset start depth arg b rest _ _ found' stop' hfound ih =>
    cases h
    have hrest := ih (hnext (n := 0) htext) (hnext (n := 0) htext) (Nat.le_refl _) hfound
    intro a ha
    rcases List.mem_cons.1 ha with rfl | ha
    · exact ⟨Nat.le_refl _, Nat.lt_of_le_of_lt hstart (hlt htext), harg ▸ List.prefix_append _ _⟩
    · exact ⟨Nat.le_trans (Nat.le_succ_of_le hstart) (hrest a ha).1, (hrest a ha).2⟩
  | case8 offset start depth arg b rest _ _ hother _ => exact absurd h (hother _ _)
  | case9 offset start depth arg b rest _ _ ih =>
    exact ih (hnext (n := 0) htext) (by simp [harg]) (by omega) h

/-- Arguments that are found behind a name are stretches of the text, behind the opening parenthesis. -/
theorem Arguments.read_places {bs : Bytes} {found : List (Nat × Bytes)} {stop : Nat}
    (h : read 0 bs = .found found stop) :
    ∀ a ∈ found, 0 < a.1 ∧ a.1 < bs.length ∧ a.2 <+: bs.drop a.1 := by
  unfold read at h
  simp only at h
  split at h
  · cases h
  next b rest heq =>
    split at h
    next hopen =>
      have hrest : bs.drop ((bs.takeWhile Byte.isBlank).length + 1) = rest := by
        rw [← List.drop_drop, heq]
        rfl
      intro a ha
      have hplace := readFrom_places hrest (by simpa using hrest) (Nat.le_refl _) h a ha
      exact ⟨Nat.lt_of_lt_of_le (Nat.succ_pos _) hplace.1, hplace.2⟩
    next => cases h

namespace Reader

variable {r r' : Reader} {top : Frame} {below : List Frame} {t : Token}

/-- The next byte of the top frame lies as far on as the frame has been read on. -/
theorem locOf_advance (h : r.Sound) (hframes : r.frames = top :: below) {n : Nat}
    (hn : n ≤ top.rest.length) : r.locOf (top.advance n) = r.locOf top + n := by
  obtain ⟨w, -, hreads⟩ := h.window hframes
  have hle : n ≤ top.remaining := by
    rw [hreads.remaining]
    exact hn
  rw [locOf, locOf, show (top.advance n).remaining = top.remaining - n from Nat.sub_add_eq _ _ _]
  grind

/-- Reading a name gives the arguments that are found behind it, if it is the use of a macro. -/
theorem Sound.arguments_of_name (h : r.Sound) (hframes : r.frames = top :: below) {start : Nat}
    {loc : LinearLoc} {name : String} (hloc : r.locOf top = loc + name.utf8ByteSize)
    (hname : r.NameRead top below start loc name t r') (huse : t.kind = .macroUse) :
    t = ⟨loc, .macroUse, name⟩ ∧ ∃ found,
      (found = [] ∨ ∃ stop, Arguments.read 0 top.rest = .found found stop) ∧
      List.Forall₂ (fun arg (a : Nat × Bytes) => arg.kind = .macroArgument ∧ Text.bytes arg.text = a.2 ∧
        arg.loc = loc + ((name.utf8ByteSize + a.1 : Nat) : Int)) r'.args found := by
  obtain ⟨w, -, hreads⟩ := h.window hframes
  cases hname with
  | plain | missing _ | unfinished _ => cases huse
  | @used _ stop found args _ _ hfound hargs hexpand =>
    rw [hreads.missing_eq] at hfound
    obtain ⟨rfl, -, hargs', -⟩ := expand_eq_ok hexpand
    refine ⟨rfl, found, .inr ⟨stop, hfound⟩, ?_⟩
    rw [hargs']
    refine (Halt.forall₂_of_mapM hargs).flip.imp fun arg a harg => ?_
    obtain ⟨text, htext, harg⟩ := Halt.bind_eq_ok harg
    cases harg
    refine ⟨rfl, Text.ofBytes?_eq_some_iff.1 (Halt.require_eq_ok htext), ?_⟩
    show r.locOf top + _ = _
    rw [hloc, Int.add_assoc, ← Int.natCast_add]
  | usedAlone hexpand =>
    obtain ⟨rfl, -, hargs', -⟩ := expand_eq_ok hexpand
    refine ⟨rfl, [], .inl rfl, ?_⟩
    rw [hargs']
    exact .nil

/-- The use of a macro gives the arguments that are found behind its name. -/
theorem Sound.arguments_of_use (h : r.Sound) (hframes : r.frames = top :: below)
    (hstep : r.step = .ok (some t, r')) (huse : t.kind = .macroUse) :
    t.loc = r.nextLoc ∧ Text.bytes t.text <+: top.rest ∧ ∃ found,
      (found = [] ∨ ∃ stop, Arguments.read 0 (top.rest.drop t.text.utf8ByteSize) = .found found stop) ∧
      List.Forall₂ (fun arg (a : Nat × Bytes) => arg.kind = .macroArgument ∧ Text.bytes arg.text = a.2 ∧
        arg.loc = t.loc + ((t.text.utf8ByteSize + a.1 : Nat) : Int)) r'.args found := by
  obtain ⟨w, -, hreads⟩ := h.window hframes
  rw [nextLoc_of_frames hframes]
  cases h.stepped hstep with
  | ended hnil =>
    rw [hframes] at hnil
    cases hnil
  | @lexeme top' below' b bs _ _ hframes' hrest hdealt =>
    obtain ⟨rfl, rfl⟩ := List.cons.inj (hframes'.symm.trans hframes)
    have hfits := Lexeme.fits_scanFrom r.closeAnglesOnly r.lineStart b bs
    rw [← hrest] at hfits
    generalize Lexeme.scanFrom r.closeAnglesOnly r.lineStart 0 b bs = scan at hdealt hfits
    cases hdealt with
    | token hkind _ _ => exact absurd huse (hfits.lexical _ hkind).2
    | @name text _ _ _ htaken hread =>
      have hsize : text.utf8ByteSize = scan.len := by
        rw [← Text.length_bytes, htaken, List.length_take, Nat.min_eq_left hfits.le]
      have hbehind : (r.behind scan top' below').Sound :=
        h.advance hframes' hfits.le (hreads.whole.cut hfits.cut).2 rfl rfl rfl
      have hloc : (r.behind scan top' below').locOf (top'.advance scan.len) =
          r.locOf top' + text.utf8ByteSize := by
        rw [hsize]
        exact locOf_advance h hframes' hfits.le
      obtain ⟨rfl, found, hfound, hargs⟩ := hbehind.arguments_of_name rfl hloc hread huse
      refine ⟨rfl, ?_, found, ?_, hargs⟩
      · rw [htaken]
        exact List.take_prefix _ _
      · rw [hsize]
        exact hfound

end Reader

/-- A climb from a file ends there. -/
theorem Visited.climb_file {v : Visited} {steps visit file : Nat} (hsteps : 0 < steps)
    (hvisit : v.visits[visit]? = some (.file file)) (offset : Nat) :
    v.climb steps visit offset = .ok (file, offset) := by
  obtain ⟨steps, rfl⟩ := Nat.exists_eq_succ_of_ne_zero (Nat.ne_of_gt hsteps)
  rw [climb, hvisit]
  rfl

/-- A climb from an expansion goes on at the name that started it. -/
theorem Visited.climb_expansion {v : Visited} {visit body parent callSite : Nat}
    {filled : Option String} (hvisit : v.visits[visit]? = some (.expansion body parent callSite filled))
    (steps offset : Nat) : v.climb (steps + 1) visit offset = v.climb steps parent callSite := by
  rw [climb, hvisit]
  rfl

namespace Reader

/-- A climb from a macro that was entered in a file ends at the macro's name. -/
theorem Enters.climb {r r' : Reader} {top : Frame} {below : List Frame} {n body file : Nat}
    {w : Window} (h : r.Enters top below n body w r') (hextends : r.visited.Extends r'.visited)
    (hvisit : r.visited.visits[top.visit]? = some (.file file)) (offset : Nat) :
    r'.visited.climb (r.visited.visits.size + 1) r.visited.visits.size offset =
      .ok (file, (top.pos - top.start) % offsetRange) := by
  obtain ⟨filled, hvisited⟩ := h.visited
  have hnew : r'.visited.visits[r.visited.visits.size]? =
      some (.expansion body top.visit ((top.pos - top.start) % offsetRange) filled) := by
    rw [hvisited]
    exact Array.getElem?_push_size
  rw [Visited.climb_expansion hnew]
  exact Visited.climb_file (Nat.zero_lt_of_lt (Array.getElem?_eq_some_iff.1 hvisit).1)
    (hextends.visits hvisit) _

end Reader

variable {config : Configuration} {readings : List Reading} {r : Reader} {top : Frame}
  {below : List Frame}

/-- Every reading of a course was made in a reader that was in order, as was the reader behind it. -/
theorem Course.reading_kept (h : Course config readings r) {x : Reading} (hx : x ∈ readings) :
    ∃ older, Course.Kept older x.before ∧ x.before.step = .ok (some x.token, x.after) ∧
      Course.Kept (x :: older) x.after := by
  induction h with
  | start => cases hx
  | push _ _ _ ih => exact ih hx
  | @read readings r before after token hcourse _ hskips hstep ih =>
    rcases List.mem_cons.1 hx with rfl | hx
    · have hkept := hcourse.kept.skips hskips
      exact ⟨readings, hkept, hstep, hkept.read hstep⟩
    · exact ih hx
  | adjust _ _ _ _ ih => exact ih hx

/-- What the location map says of an argument of the use `x`.  The name stands at the offset `start` of
the source, and the text of the argument starts at the offset `place`. -/
structure Reading.Places (x : Reading) (source : SourceFile) (start place : Nat) (arg : Token) :
    Prop where
  /-- The token is an argument. -/
  kind_eq : arg.kind = .macroArgument
  /-- It has the text that starts at the place. -/
  text : Text.bytes arg.text <+: (Text.bytes source.contents).drop place
  /-- Before the macro was entered, the map led to where the argument starts. -/
  before : x.before.visited.expand? arg.loc =
    .ok (some ⟨source.path, Text.positionAt (Text.bytes source.contents) place⟩)
  /-- Since the macro was entered, it leads to the name. -/
  after : x.after.visited.expand? arg.loc =
    .ok (some ⟨source.path, Text.positionAt (Text.bytes source.contents) start⟩)
  /-- That is another position. -/
  ne : Text.positionAt (Text.bytes source.contents) start ≠
    Text.positionAt (Text.bytes source.contents) place

/-- The arguments of a macro that is used in a file are those that are found behind its name, each with
the location that it had before the macro was entered.  Since then the location leads to the name. -/
theorem Course.arguments_relocated (h : Course config readings r) {x : Reading} (hx : x ∈ readings)
    (huse : x.token.kind = .macroUse) (hframes : x.before.frames = top :: below)
    (hfile : top.body? = none) :
    ∃ file source found, x.before.visited.visits[top.visit]? = some (.file file) ∧
      x.before.visited.files.get? file = some source ∧
      Text.bytes x.token.text <+: (Text.bytes source.contents).drop top.pos ∧
      (found = [] ∨ ∃ stop, Arguments.read 0
        ((Text.bytes source.contents).drop (top.pos + x.token.text.utf8ByteSize)) = .found found stop) ∧
      List.Forall₂ (fun arg (a : Nat × Bytes) => Text.bytes arg.text = a.2 ∧
        x.Places source top.pos (top.pos + x.token.text.utf8ByteSize + a.1) arg) x.after.args found := by
  obtain ⟨older, hbefore, hstep, hafter⟩ := h.reading_kept hx
  obtain ⟨before, token, after⟩ := x
  simp only at huse hframes hbefore hstep hafter ⊢
  obtain ⟨hloc, hname, found, hfound, hargs⟩ := hbefore.sound.arguments_of_use hframes hstep huse
  obtain ⟨file, hvisit⟩ : ∃ file, before.visited.visits[top.visit]? = some (.file file) := by
    have hstacked := hbefore.sound.stacked
    rw [hframes] at hstacked
    cases hstacked with
    | file hvisit _ _ => exact ⟨_, hvisit⟩
    | expansion _ hbody _ =>
      rw [hfile] at hbody
      cases hbody
  obtain ⟨source, hsource, -, hstart, hpos, hrest⟩ :=
    hbefore.sound.file_frame (.refl _) hframes hvisit
  rw [hrest] at hname
  rw [hrest, List.drop_drop] at hfound
  refine ⟨file, source, found, hvisit, hsource, hname, hfound, ?_⟩
  obtain ⟨_, _, heq, -, hmove⟩ := hbefore.sound.step
  rw [hstep] at heq
  cases heq
  have hextends := (hmove.charted hbefore.sound hbefore.charted).2.extends_
  cases hmove with
  | ended _ => cases huse
  | passed _ hspells => exact absurd huse (hspells token rfl).not_use
  | @entered top' below' n body w _ name henters _ =>
    have hframes' := henters.frames
    rw [hframes] at hframes'
    cases hframes'
    have hplaces : ∀ a ∈ found, 0 < a.1 ∧
        top.pos + name.utf8ByteSize + a.1 ≤ (Text.bytes source.contents).length ∧
        a.2 <+: (Text.bytes source.contents).drop (top.pos + name.utf8ByteSize + a.1) := by
      intro a ha
      rcases hfound with rfl | ⟨stop, hfound⟩
      · cases ha
      · obtain ⟨hbehind, hlt, hprefix⟩ := Arguments.read_places hfound a ha
        rw [List.length_drop] at hlt
        rw [List.drop_drop] at hprefix
        exact ⟨hbehind, by grind, hprefix⟩
    refine ((List.forall₂_and_left _ _).2 ⟨hplaces, hargs.flip⟩).flip.imp ?_
    rintro arg ⟨offset, bs⟩ ⟨⟨hbehind, hle, hprefix⟩, hkind, rfl, hargLoc⟩
    generalize hk : name.utf8ByteSize + offset = k at *
    rw [Nat.add_assoc, hk] at hle hprefix ⊢
    have hlt : top.pos < top.pos + k := by omega
    rw [hloc] at hargLoc
    refine ⟨rfl, hkind, hprefix, ?_, ?_, Text.positionAt_ne hlt hle⟩
    · rw [hargLoc]
      refine hbefore.charted.expand hbefore.sound hframes ?_ hsource (hbefore.files hsource).1 hle
      rw [hstart, Nat.sub_zero, hbefore.mod_offsetRange hsource hle]
      exact Visited.climb_file (Nat.succ_pos _) hvisit _
    · rw [hargLoc]
      show after.visited.expand? _ = _
      rw [← henters.nextLoc]
      refine hafter.charted.expand hafter.sound henters.frames_eq ?_ (hextends.files hsource)
        (hbefore.files hsource).1 hpos
      rw [← hbefore.mod_offsetRange hsource hpos, ← Nat.sub_zero top.pos, ← hstart]
      exact henters.climb hextends hvisit _

/-- Two steps that both give a token are a course with two readings. -/
theorem Course.of_steps {r₁ r₂ : Reader} {token₁ token₂ : Token} (h : Course config readings r)
    (hfirst : r.step = .ok (some token₁, r₁)) (hsecond : r₁.step = .ok (some token₂, r₂)) :
    Course config (⟨r₁, token₂, r₂⟩ :: ⟨r, token₁, r₁⟩ :: readings) r₂ :=
  (h.read (readToken_eq_ok_iff.2 ⟨r, .refl r, hfirst⟩) (.refl r) hfirst).read
    (readToken_eq_ok_iff.2 ⟨r₁, .refl r₁, hsecond⟩) (.refl r₁) hsecond

/-- A course in which a macro is used in a file, with one argument. -/
theorem Course.arguments_relocated_single : ∃ readings r x source start place,
    Course {} readings r ∧ x ∈ readings ∧ x.token = ⟨15, .macroUse, "F"⟩ ∧
    x.before.frames.map Frame.body? = [none] ∧ x.after.args = [⟨17, .macroArgument, "a"⟩] ∧
    x.Places source start place ⟨17, .macroArgument, "a"⟩ := by
  have hpush : Course {} [] ((Reader.new .empty {}).push "t.h" "#define F(x) x\nF(a)").2 :=
    .push .start (by decide +kernel) (by decide)
  have hsteps : ((Reader.new .empty {}).push "t.h" "#define F(x) x\nF(a)").2.step.toOption.map (fun y =>
      (y.1, y.2.frames.map Frame.body?, y.2.step.toOption.map fun z => (z.1, z.2.args))) =
        some (some ⟨0, .directive, "#define F(x) x\n"⟩, [none],
          some (some ⟨15, .macroUse, "F"⟩, [⟨17, .macroArgument, "a"⟩])) := by
    decide +kernel
  obtain ⟨⟨token₁?, r₁⟩, hfirst, hrest⟩ := Halt.of_toOption_map hsteps
  simp only [Prod.mk.injEq] at hrest
  obtain ⟨rfl, hbodies, hsecond⟩ := hrest
  obtain ⟨⟨token₂?, r₂⟩, hsecond, hrest⟩ := Halt.of_toOption_map hsecond
  simp only [Prod.mk.injEq] at hrest
  obtain ⟨rfl, hargs⟩ := hrest
  obtain ⟨top, hframes, hbody⟩ := List.map_eq_singleton_iff.1 hbodies
  obtain ⟨file, source, found, -, -, -, -, hplaced⟩ := (hpush.of_steps hfirst hsecond).arguments_relocated
    (x := ⟨r₁, ⟨15, .macroUse, "F"⟩, r₂⟩) List.mem_cons_self rfl hframes hbody
  simp only [hargs] at hplaced
  cases hplaced with
  | cons harg hnil =>
    exact ⟨_, _, _, _, _, _, hpush.of_steps hfirst hsecond, List.mem_cons_self, rfl, hbodies, hargs,
      harg.2⟩

/-- The argument stands in the third column of the second line, and once the macro has been entered, its
location leads to the first column. -/
theorem Reader.argument_led_to_name :
    (((Reader.new .empty {}).push "t.h" "#define F(x) x\nF(a)").2.readMany 2).toOption.map (fun y =>
      (y.1.map Token.kind, y.2.args, (y.2.visited.expand? 17).toOption)) =
        some ([.directive, .macroUse], [⟨17, .macroArgument, "a"⟩], some (some ⟨"t.h", ⟨2, 1⟩⟩)) ∧
    Text.positionAt (Text.bytes "#define F(x) x\nF(a)") 17 = ⟨2, 3⟩ := by
  decide +kernel

end CppDecl
