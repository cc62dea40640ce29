import CppDecl.Proofs.Akin

/-!
# Comments in place of blanks

A comment is as good as a blank, where the blank is one that the reader skips in the source itself
(`Reader.SkipsAt`).  All other blanks lie in comments, literals and directives, or between the name of a
macro and the end of its arguments, since these are passed as a whole (`Reader.skipsAt_or_takesAt`).  If a
space is skipped and there is a comment between two spaces in its place, the comment comes as one token
more, and all others are the same, apart from their places (`tokenizeWithin_comment`).  No `#` may follow
on the line, since a comment does not leave it at the start of the line.

Between the name of a macro and the parenthesis of its arguments there may be blanks, but no comment.
So a comment there does make a difference (`tokenizeWithin_comment_in_use`).

The proof takes two readers through the two sources at the same time.  Up to the space they are akin,
with the rest of the one source for that of the other.  Behind it they have the same text before them,
and they are akin again from the next lexeme on.
-/

namespace CppDecl

open Byte
open Text (Run)

theorem Text.Run.of_le {p : UInt8 → Bool} {bs : Bytes} {m n : Nat} (h : Run p bs n) (hle : m ≤ n) :
    Run p bs m :=
  ⟨hle.trans h.le, fun b hb => h.all b (List.take_subset_take_left _ hle hb)⟩

namespace Reader

variable {old new : Bytes} {r r' r'' q : Reader} {ts us : List Token} {config : Configuration}
  {path source : String} {top file : Frame} {t? : Option Token} {budget : Nat}

/-! ## Runs -/

/-- Some steps, and the tokens that they give. -/
inductive Steps : Reader → List Token → Reader → Prop
  /-- No step. -/
  | refl (r : Reader) : Steps r [] r
  /-- One step, and others behind it. -/
  | step {r r' r'' : Reader} {t? : Option Token} {ts : List Token} (step : r.step = .ok (t?, r'))
      (rest : Steps r' ts r'') : Steps r (t?.toList ++ ts) r''

theorem Steps.trans (h₁ : r.Steps ts r') (h₂ : r'.Steps us r'') : r.Steps (ts ++ us) r'' := by
  induction h₁ with
  | refl => exact h₂
  | step hstep _ ih =>
    rw [List.append_assoc]
    exact .step hstep (ih h₂)

theorem Steps.one (h : r.step = .ok (t?, r')) : r.Steps t?.toList r' := by
  have hone := Steps.step h (.refl r')
  rwa [List.append_nil] at hone

theorem Steps.traverses (h : r.Steps ts r') : ∃ readings, r.Traverses readings r' := by
  induction h with
  | refl => exact ⟨[], .refl _⟩
  | @step r r' r'' t? ts hstep _ ih =>
    obtain ⟨readings, hrest⟩ := ih
    cases t? with
    | none => exact ⟨_, ((Traverses.refl r).skip hstep).trans hrest⟩
    | some t => exact ⟨_, ((Traverses.refl r).read hstep).trans hrest⟩

theorem Steps.sound (h : r.Steps ts r') (hsound : r.Sound) : r'.Sound := by
  obtain ⟨_, htraverses⟩ := h.traverses
  exact htraverses.sound hsound

theorem Steps.single (h : ((Reader.new .empty config).push path source).2.Steps ts r) :
    r.Single path source := by
  obtain ⟨_, htraverses⟩ := h.traverses
  exact htraverses.single

/-- A reader that is at the end stays there. -/
theorem Steps.frames_nil (h : r.Steps ts r') (hframes : r.frames = []) : r'.frames = [] := by
  induction h with
  | refl => exact hframes
  | step hstep _ ih =>
    rw [step_of_frames_nil hframes] at hstep
    cases hstep
    exact ih hframes

/-- A run to the end goes through all that the reader comes to before. -/
theorem Steps.split (h : r.Steps ts r') (hrun : r.Steps us r'') (hframes : r'.frames ≠ [])
    (hended : r''.frames = []) : ∃ vs, us = ts ++ vs ∧ r'.Steps vs r'' := by
  induction h generalizing us with
  | refl => exact ⟨us, rfl, hrun⟩
  | step hstep hrest ih =>
    cases hrun with
    | refl =>
      rw [step_of_frames_nil hended] at hstep
      cases hstep
      exact absurd (hrest.frames_nil hended) hframes
    | step hstep' hrest' =>
      rw [hstep] at hstep'
      cases hstep'
      obtain ⟨vs, rfl, hvs⟩ := ih hrest' hframes
      exact ⟨vs, (List.append_assoc _ _ _).symm, hvs⟩

theorem Skips.steps (h : Skips r r') : r.Steps [] r' := by
  induction h with
  | refl => exact .refl _
  | step hstep _ ih => exact .step hstep ih

theorem steps_of_readToken {t : Token} (h : r.readToken = .ok (t, r')) : r.Steps [t] r' := by
  obtain ⟨before, hskips, hstep⟩ := readToken_eq_ok_iff.1 h
  exact hskips.steps.trans (.one hstep)

theorem steps_of_readMany {count : Nat} (h : r.readMany count = .ok (ts, r')) : r.Steps ts r' := by
  induction count generalizing r ts with
  | zero =>
    cases h
    exact .refl _
  | succ count ih =>
    obtain ⟨t, r₁, rest, hfirst, hrest, rfl⟩ := readMany_succ_eq_ok_iff.1 h
    exact (steps_of_readToken hfirst).trans (ih hrest)

/-- Reading all tokens is a run to the end, and the end of the file. -/
theorem Sound.readAll_eq_ok_iff (h : r.Sound) : r.readAll budget = .ok (ts, r') ↔
    ∃ init, ts = init ++ [⟨r'.endLoc, .endOfFile, ""⟩] ∧ r.Steps init r' ∧ r'.frames = [] ∧
      (∀ t ∈ init, t.kind ≠ .endOfFile) ∧ init.length < budget := by
  constructor
  · intro hall
    induction budget generalizing r ts with
    | zero => cases hall
    | succ budget ih =>
      rw [Reader.readAll] at hall
      obtain ⟨⟨t, r₁⟩, hread, hall⟩ := Halt.bind_eq_ok hall
      have hfirst := steps_of_readToken hread
      simp only at hall
      split at hall
      next hend =>
        cases hall
        obtain ⟨before, hskips, hstep⟩ := readToken_eq_ok_iff.1 hread
        obtain ⟨rfl, hframes⟩ := (hskips.steps.sound h).frames_nil_of_end hstep hend
        rw [step_of_frames_nil hframes] at hstep
        cases hstep
        exact ⟨[], rfl, hskips.steps, hframes, List.forall_mem_nil _, Nat.succ_pos _⟩
      next hend =>
        obtain ⟨⟨rest, last⟩, hrest, hall⟩ := Halt.bind_eq_ok hall
        cases hall
        obtain ⟨init, heq, hsteps, hframes, hinit, hlength⟩ := ih (hfirst.sound h) hrest
        exact ⟨t :: init, congrArg (t :: ·) heq, hfirst.trans hsteps, hframes,
          List.forall_mem_cons.2 ⟨hend, hinit⟩, Nat.succ_lt_succ hlength⟩
  · rintro ⟨init, rfl, hsteps, hframes, hinit, hlength⟩
    induction hsteps generalizing budget with
    | refl r =>
      obtain ⟨n, rfl⟩ := Nat.exists_eq_succ_of_ne_zero (Nat.ne_of_gt hlength)
      rw [Reader.readAll, readToken_of_frames_nil hframes]
      rfl
    | @step r r₁ r' t? ts hstep hrest ih =>
      have hsound := (Steps.one hstep).sound h
      obtain ⟨n, rfl⟩ := Nat.exists_eq_succ_of_ne_zero (Nat.ne_of_gt (Nat.zero_lt_of_lt hlength))
      cases t? with
      | none =>
        have hagain := ih hsound hframes hinit hlength
        rw [Reader.readAll] at hagain ⊢
        rw [readToken_of_step hstep]
        exact hagain
      | some t =>
        obtain ⟨hend, hinit⟩ := List.forall_mem_cons.1 hinit
        rw [Reader.readAll, readToken_eq, hstep]
        have hagain := ih hsound hframes hinit (Nat.lt_of_succ_lt_succ hlength)
        simp only [bind, Except.bind, if_neg hend, hagain]
        rfl

/-- Reading a source is a run to the end of it. -/
theorem tokenizeWithin_eq_ok_iff {result : Tokens} :
    tokenizeWithin budget config path source = .ok result ↔
      ∃ last, ((Reader.new .empty config).push path source).2.Steps result.tokens last ∧
        last.frames = [] ∧ (∀ t ∈ result.tokens, t.kind ≠ .endOfFile) ∧
        result.tokens.length < budget ∧ result.errors = last.errors ∧
        result.visited = last.visited := by
  have hsound := sound_pushed config path source
  unfold tokenizeWithin
  constructor
  · intro h
    obtain ⟨⟨ts, last⟩, hall, h⟩ := Halt.bind_eq_ok h
    cases h
    obtain ⟨init, rfl, hsteps, hframes, hinit, hlength⟩ := hsound.readAll_eq_ok_iff.1 hall
    rw [List.dropLast_concat]
    exact ⟨last, hsteps, hframes, hinit, hlength, rfl, rfl⟩
  · rintro ⟨last, hsteps, hframes, hinit, hlength, herrors, hvisited⟩
    have hall := hsound.readAll_eq_ok_iff.2 ⟨_, rfl, hsteps, hframes, hinit, hlength⟩
    simp only [hall, bind, Except.bind, List.dropLast_concat, ← herrors, ← hvisited]
    rfl

/-! ## Akin runs -/

/-- The source is not read backwards. -/
theorem Steps.bottom_le (h : r.Steps ts r') (hsound : r.Sound) (hfile : [file] <:+ r'.frames) :
    ∃ g, [g] <:+ r.frames ∧ g.pos ≤ file.pos := by
  induction h with
  | refl => exact ⟨file, hfile, Nat.le_refl _⟩
  | step hstep _ ih =>
    obtain ⟨_, _, heq, hsound', hmove⟩ := hsound.step
    rw [hstep] at heq
    cases heq
    obtain ⟨g, hg, hle⟩ := ih hsound' hfile
    obtain ⟨g', hg', hle'⟩ := hmove.bottom_le hg
    exact ⟨g', hg', Nat.le_trans hle' hle⟩

/-- What is left of the source at a later time is left alone until then. -/
theorem Steps.spares (h : r.Steps ts r') (hsound : r.Sound) (hsingle : r.Single path source)
    (hsingle' : r'.Single path source) (hframes : r'.frames = [file])
    (hle : old.length ≤ file.rest.length) : r.Spares old := by
  intro f hf hbody
  -- a frame of a file is the bottom frame, and reads the source
  have hbottom : [f] <:+ r.frames := by
    obtain ⟨above, below, heq⟩ := List.append_of_mem hf
    have hsuffix : f :: below <:+ r.frames := ⟨above, heq.symm⟩
    obtain rfl := hsingle.bottom hsuffix hbody
    exact hsuffix
  have hfile : [file] <:+ r'.frames := ⟨[], hframes.symm⟩
  obtain ⟨g, hg, hpos⟩ := h.bottom_le hsound hfile
  have hsame := (List.suffix_of_suffix_length_le hg hbottom (Nat.le_refl 1)).eq_of_length rfl
  obtain rfl : g = f := List.singleton_inj.1 hsame
  obtain ⟨-, -, -, hrest⟩ := hsingle.source_frame hsound hg
  obtain ⟨-, -, -, hrest'⟩ := hsingle'.source_frame (h.sound hsound) hfile
  rw [hrest', List.length_drop] at hle
  rw [hrest, List.length_drop]
  omega

theorem map_content_append {t? u? : Option Token} (h : u?.map Token.content = t?.map Token.content)
    (hs : us.map Token.content = ts.map Token.content) :
    (u?.toList ++ us).map Token.content = (t?.toList ++ ts).map Token.content := by
  rw [List.map_append, List.map_append, hs, ← Option.toList_map, ← Option.toList_map, h]

/-- Readers that are akin stay so while `old` is left alone. -/
theorem Steps.akin (h : r.Steps ts r') (hakin : r.Akin old new q) (hr : r.Sound) (hq : q.Sound)
    (hreplaces : Replaces old new)
    (hspares : ∀ {before after r₁}, r.Steps before r₁ → r₁.Steps after r' → r₁.Spares old) :
    ∃ us q', q.Steps us q' ∧ us.map Token.content = ts.map Token.content ∧ r'.Akin old new q' := by
  induction h generalizing q with
  | refl => exact ⟨[], q, .refl q, rfl, hakin⟩
  | @step r r₁ r' t? ts hstep hrest ih =>
    obtain ⟨u?, q₁, hstep', hcontent, hakin₁⟩ :=
      hakin.step hr hq hreplaces hstep (hspares (.one hstep) hrest)
    obtain ⟨us, q', hsteps, hcontents, hakin'⟩ := ih hakin₁ ((Steps.one hstep).sound hr)
      ((Steps.one hstep').sound hq) fun hbefore hafter => hspares (.step hstep hbefore) hafter
    exact ⟨_, q', .step hstep' hsteps, map_content_append hcontent hcontents, hakin'⟩

/-! ## Blanks and comments -/

variable {gap bs : Bytes} {b : UInt8} {last : Reader}

/-- The reader, at some place in its file. -/
def inFile (r : Reader) (f : Frame) (lineStart : Bool) : Reader := { r with frames := [f], lineStart }

/-- Blanks in the source are skipped. -/
theorem Sound.step_blanks (h : r.Sound) (hframes : r.frames = [top]) (hrest : top.rest = gap ++ bs)
    (hgap : ∀ b ∈ gap, isBlank b = true) (hne : gap ≠ []) (hbs : ∀ b ∈ bs.head?, isBlank b = false) :
    r.step = .ok (none, r.inFile (top.advance gap.length) (r.lineStart || gap.contains newline)) := by
  obtain ⟨w, -, hreads⟩ := h.window hframes
  obtain ⟨b, gap', rfl⟩ := List.exists_cons_of_ne_nil hne
  have hrun : top.rest.takeWhile isBlank = b :: gap' := by
    rw [hrest, List.takeWhile_append_of_pos hgap]
    cases bs with
    | nil => rw [List.takeWhile_nil, List.append_nil]
    | cons c bs => rw [List.takeWhile_cons_of_neg (by simp [hbs c rfl]), List.append_nil]
  rw [step_of_blank hframes hreads.missing_eq (by rw [hrest]; rfl) (hgap b List.mem_cons_self)]
  simp only [behind, Lexeme.blanks, hrun, List.map_nil, List.append_nil, inFile]

/-- The bytes of an empty comment. -/
def emptyComment : Bytes := [slash, Byte.star, Byte.star, slash]

/-- An empty comment is one token, and what follows it does not stand at the start of a line. -/
theorem Sound.step_comment (h : r.Sound) (hframes : r.frames = [top])
    (hrest : top.rest = emptyComment ++ bs) :
    r.step = .ok (some ⟨r.locOf top, .blockComment, "/**/"⟩, r.inFile (top.advance 4) false) := by
  obtain ⟨w, -, hreads⟩ := h.window hframes
  have hscan : Lexeme.scanFrom r.closeAnglesOnly r.lineStart 0 slash (Byte.star :: Byte.star :: slash :: bs) =
      { kind? := some .blockComment, len := 4 } := by
    rfl
  have htext : Text.ofBytes? emptyComment = some "/**/" := by decide +kernel
  rw [step_eq_deal hframes hrest hreads.missing_eq hscan, Reader.deal]
  have htake : top.rest.take 4 = emptyComment := by rw [hrest]; rfl
  simp only [htake, htext, Halt.require_some, bind, Except.bind, Reader.perform, behind, List.map_nil,
    List.append_nil]
  rfl

/-- Only a blank and a `#` depend on whether they stand at the start of a line. -/
theorem Sound.step_lineStart (h : r.Sound) (hframes : r.frames = [top]) (hrest : top.rest = b :: bs)
    (hblank : isBlank b = false) (hhash : b ≠ hash) (lineStart : Bool) :
    { r with lineStart }.step = r.step := by
  obtain ⟨w, -, hreads⟩ := h.window hframes
  have hscan : Lexeme.scanFrom r.closeAnglesOnly lineStart 0 b bs =
      Lexeme.scanFrom r.closeAnglesOnly r.lineStart 0 b bs := by
    simp only [Lexeme.scanFrom, hblank, if_neg hhash, Bool.false_eq_true, if_false]
  rw [step_eq_deal hframes hrest hreads.missing_eq rfl,
    step_eq_deal (r := { r with lineStart }) hframes hrest hreads.missing_eq hscan]
  rfl

/-- At the end nothing but the end of the file is read. -/
theorem Steps.nil_of_frames_nil (h : r.Steps ts r') (hframes : r.frames = [])
    (hts : ∀ t ∈ ts, t.kind ≠ .endOfFile) : ts = [] ∧ r' = r := by
  cases h with
  | refl => exact ⟨rfl, rfl⟩
  | step hstep _ =>
    rw [step_of_frames_nil hframes] at hstep
    cases hstep
    exact absurd rfl (hts _ List.mem_cons_self)

/-- The readers are in front of the same text in the source.  They read the same from there on, also if only
one of them is at the start of a line, since then neither a blank nor a `#` is next. -/
structure Abreast (r q : Reader) (top : Frame) : Prop where
  /-- The readers are the same, apart from places and the start of a line. -/
  akin : r.Akin [] [] { q with lineStart := r.lineStart }
  /-- The source itself is read. -/
  frames : r.frames = [top]
  /-- The start of a line does not matter. -/
  next : q.lineStart = r.lineStart ∨ ∀ b ∈ top.rest.head?, isBlank b = false ∧ b ≠ hash

theorem Abreast.frame (h : r.Abreast q top) : ∃ g, q.frames = [g] ∧ g.rest = top.rest := by
  have hboth := h.akin.frames
  rw [h.frames, List.forall₂_cons_left_iff] at hboth
  obtain ⟨g, _, hf, hnil, hframes⟩ := hboth
  cases hnil
  refine ⟨g, hframes, ?_⟩
  rcases hf.rest_cases (.same rfl) with hsame | ⟨-, _, _, _, hold, -⟩
  · exact hsame
  · cases hold

/-- The next step does not depend on the start of a line, unless the source has ended. -/
theorem Abreast.step_eq (h : r.Abreast q top) (hq : q.Sound) (hne : top.rest ≠ []) :
    { q with lineStart := r.lineStart }.step = q.step := by
  obtain ⟨g, hframes, hrest⟩ := h.frame
  obtain ⟨b, bs, heq⟩ := List.exists_cons_of_ne_nil hne
  rcases h.next with hsame | hnext
  · rw [← hsame]
  · obtain ⟨hblank, hhash⟩ := hnext b (by rw [heq]; rfl)
    exact hq.step_lineStart hframes (hrest.trans heq) hblank hhash r.lineStart

/-- Readers that are abreast read the same to the end. -/
theorem Abreast.run (h : r.Abreast q top) (hr : r.Sound) (hq : q.Sound) (hsteps : r.Steps ts last)
    (hlast : last.frames = []) (hts : ∀ t ∈ ts, t.kind ≠ .endOfFile) :
    ∃ us last', q.Steps us last' ∧ us.map Token.content = ts.map Token.content ∧ last'.frames = [] ∧
      last'.errors.map LexError.cause = last.errors.map LexError.cause := by
  obtain ⟨g, hframes, hrest⟩ := h.frame
  obtain ⟨w, -, hreads⟩ := hr.window h.frames
  obtain ⟨x, -, hreads'⟩ := hq.window hframes
  cases hsteps with
  | refl =>
    rw [h.frames] at hlast
    cases hlast
  | step hstep hmore =>
    by_cases hend : top.rest = []
    · rw [step_of_rest_nil h.frames hend hreads.missing_eq] at hstep
      cases hstep
      obtain ⟨rfl, rfl⟩ := hmore.nil_of_frames_nil (frames_leave r []) hts
      have hleave := step_of_rest_nil hframes (hrest.trans hend) hreads'.missing_eq
      exact ⟨[], q.leave [], .one hleave, rfl, rfl, h.akin.errors⟩
    · have hsound : ({ q with lineStart := r.lineStart } : Reader).Sound := hq.congr rfl rfl rfl
      obtain ⟨u?, q₁, hstep', hcontent, hakin⟩ := h.akin.step hr hsound (.same rfl) hstep
        fun _ _ _ => Nat.zero_le _
      rw [h.step_eq hq hend] at hstep'
      obtain ⟨us, last', hsteps', hcontents, hakin'⟩ := hmore.akin hakin ((Steps.one hstep).sound hr)
        ((Steps.one hstep').sound hq) (.same rfl) fun _ _ _ _ _ => Nat.zero_le _
      have hframes' := hakin'.frames
      rw [hlast, List.forall₂_nil_left_iff] at hframes'
      exact ⟨_, last', .step hstep' hsteps', map_content_append hcontent hcontents, hframes',
        hakin'.errors⟩

/-! ## A comment in place of a space -/

/-- Where one source or another one is read, the same macros are defined beforehand. -/
theorem twin_pushed (config : Configuration) (path source source' : String) :
    ((Reader.new .empty config).push path source).2.visited.Twin
      ((Reader.new .empty config).push path source').2.visited := by
  have hfresh := fresh_new config path
  have hextends : ∀ source, (Reader.new .empty config).visited.Extends
      ((Reader.new .empty config).push path source).2.visited := by
    intro source
    rw [push_eq]
    exact (Visited.extends_addFile hfresh source).trans (Visited.extends_addEntry _ _)
  have hbodies : ∀ source, ((Reader.new .empty config).push path source).2.visited.bodies =
      (Reader.new .empty config).visited.bodies := by
    intro source
    rw [push_eq, Visited.addFile_fresh hfresh]
    rfl
  refine ⟨?_, ?_⟩
  · rw [push_eq, push_eq, Visited.addFile_fresh hfresh, Visited.addFile_fresh hfresh]
    rfl
  · rw [Visited.SameMacros, hbodies, hbodies]
    refine Array.map_congr_left fun body hbody => ?_
    obtain ⟨w, hw, -⟩ := (sound_new config).visited.bodies body hbody
    rw [Visited.macroOf, Visited.macroOf, (hextends source).bodyWindow hw, (hextends source').bodyWindow hw]

/-- The reader comes to a place in the source from where there are only blanks, up to the one at the offset.
So it skips that one. -/
def SkipsAt (start : Reader) (text : Bytes) (offset : Nat) : Prop :=
  ∃ ts r file, start.Steps ts r ∧ r.frames = [file] ∧ file.pos ≤ offset ∧
    Run isBlank (text.drop file.pos) (offset + 1 - file.pos)

/-- The reader passes the place at the offset in a step that starts with another byte than a blank.  So
it passes comments, literals and directives, and the name of a macro with its arguments. -/
def TakesAt (start : Reader) (offset : Nat) : Prop :=
  ∃ ts r file t? r' file', start.Steps ts r ∧ r.frames = [file] ∧ r.step = .ok (t?, r') ∧
    (∀ b ∈ file.rest.head?, isBlank b = false) ∧ file.pos ≤ offset ∧
    [file'] <:+ r'.frames ∧ offset < file'.pos

/-- A step leaves the source as it is, or it passes something of it. -/
theorem Move.bottom_cases (h : r.Move t? r') (hfile : [file] <:+ r.frames) (hrest : file.rest ≠ []) :
    [file] <:+ r'.frames ∨ r.frames = [file] ∧ ∃ n, [file.advance n] <:+ r'.frames := by
  have hbottom : ∀ {top : Frame} {below : List Frame}, r.frames = top :: below →
      top = file ∧ below = [] ∨ [file] <:+ below := by
    intro top below hframes
    rw [hframes] at hfile
    rcases List.suffix_cons_iff.1 hfile with heq | hbelow
    · cases heq
      exact .inl ⟨rfl, rfl⟩
    · exact .inr hbelow
  cases h with
  | ended hframes =>
    rw [hframes] at hfile
    cases List.suffix_nil.1 hfile
  | left hframes hnil =>
    rcases hbottom hframes with ⟨rfl, -⟩ | hbelow
    · exact absurd hnil hrest
    · exact .inl (by rwa [frames_leave])
  | passed hpasses _ =>
    rw [hpasses.frames_eq, hpasses.frames]
    rcases hbottom hpasses.frames with ⟨rfl, rfl⟩ | hbelow
    · exact .inr ⟨rfl, _, List.suffix_refl _⟩
    · exact .inl (hbelow.trans (List.suffix_cons _ _))
  | entered henters _ =>
    rw [henters.frames_eq, henters.frames]
    rcases hbottom henters.frames with ⟨rfl, rfl⟩ | hbelow
    · exact .inr ⟨rfl, _, List.suffix_cons _ _⟩
    · exact .inl ((hbelow.trans (List.suffix_cons _ _)).trans (List.suffix_cons _ _))

/-- On the way to the end, whatever stands in the source is skipped as a blank or passed with something
else. -/
theorem Steps.skipsAt_or_takesAt {start : Reader} {offset : Nat}
    (hreach : start.Steps us r) (hsteps : r.Steps ts last) (hlast : last.frames = [])
    (hstart : ∀ {us r}, start.Steps us r → r.Sound ∧ r.Single path source)
    (hfile : [file] <:+ r.frames) (hle : file.pos ≤ offset) (hlt : offset < (Text.bytes source).length) :
    SkipsAt start (Text.bytes source) offset ∨ TakesAt start offset := by
  induction hsteps generalizing us file with
  | refl =>
    rw [hlast] at hfile
    cases List.suffix_nil.1 hfile
  | @step r r₁ _ t? ts hstep _ ih =>
    obtain ⟨hsound, hsingle⟩ := hstart hreach
    obtain ⟨_, _, heq, -, hmove⟩ := hsound.step
    rw [hstep] at heq
    cases heq
    obtain ⟨-, -, -, hrest⟩ := hsingle.source_frame hsound hfile
    have hne : file.rest ≠ [] := by
      rw [hrest]
      exact List.ne_nil_of_length_pos (by rw [List.length_drop]; omega)
    have hreach₁ := hreach.trans (.one hstep)
    rcases hmove.bottom_cases hfile hne with hkept | ⟨hframes, n, hpassed⟩
    · exact ih hreach₁ hlast hkept hle
    -- the step passes something of the source, and perhaps the offset
    by_cases hfar : (file.advance n).pos ≤ offset
    · exact ih hreach₁ hlast hpassed hfar
    obtain ⟨b, bs, hcons⟩ := List.exists_cons_of_ne_nil hne
    cases hblank : isBlank b with
    | false =>
      refine .inr ⟨us, r, file, t?, r₁, _, hreach, hframes, hstep, ?_, hle, hpassed, Nat.lt_of_not_le hfar⟩
      rw [hcons]
      rintro _ ⟨⟩
      exact hblank
    | true =>
      have hgap : file.rest.takeWhile isBlank ≠ [] := by
        rw [hcons, List.takeWhile_cons_of_pos hblank]
        exact List.cons_ne_nil _ _
      have hblanks := hsound.step_blanks hframes List.takeWhile_append_dropWhile.symm
        (fun _ hb => List.mem_takeWhile_imp hb) hgap (Lexeme.head?_dropWhile isBlank _)
      rw [hstep] at hblanks
      cases hblanks
      -- what is passed are the blanks
      have hpos : file.pos + n = file.pos + (file.rest.takeWhile isBlank).length :=
        congrArg Frame.pos (List.singleton_inj.1 (hpassed.eq_of_length rfl))
      rw [show (file.advance n).pos = file.pos + n from rfl] at hfar
      refine .inl ⟨us, r, file, hreach, hframes, hle, ?_⟩
      rw [← hrest]
      exact (Run.takeWhile isBlank file.rest).of_le (by omega)

/-- Whatever stands in the source is skipped as a blank or passed with something else. -/
theorem skipsAt_or_takesAt {offset : Nat} {result : Tokens}
    (h : tokenizeWithin budget config path source = .ok result)
    (hlt : offset < (Text.bytes source).length) :
    SkipsAt ((Reader.new .empty config).push path source).2 (Text.bytes source) offset ∨
      TakesAt ((Reader.new .empty config).push path source).2 offset := by
  obtain ⟨last, hsteps, hlast, -⟩ := tokenizeWithin_eq_ok_iff.1 h
  have hsound := sound_pushed config path source
  exact Steps.skipsAt_or_takesAt (.refl _) hsteps hlast
    (fun hreach => ⟨hreach.sound hsound, hreach.single⟩)
    ⟨[], (frames_pushed config path source).symm⟩ (Nat.zero_le _) hlt

/-- Where one source and another one are read that start in the same way, the readers are akin. -/
theorem akin_pushed (config : Configuration) (path : String) {source source' : String} {front : Bytes}
    (hold : Text.bytes source = front ++ old) (hnew : Text.bytes source' = front ++ new) :
    ((Reader.new .empty config).push path source).2.Akin old new
      ((Reader.new .empty config).push path source').2 := by
  have hframe : (Frame.ofWindow 0 none ⟨source, 0, source.utf8ByteSize⟩).Akin old new
      (Frame.ofWindow 0 none ⟨source', 0, source'.utf8ByteSize⟩) := by
    refine ⟨rfl, rfl, absurd rfl, fun _ => ⟨front, ?_, ?_⟩⟩
    · exact (Window.bytes_whole source).trans hold
    · exact (Window.bytes_whole source').trans hnew
  refine ⟨twin_pushed config path source source', ?_, ?_, ?_, ?_, ?_, ?_, ?_⟩
  · rw [frames_pushed, frames_pushed]
    exact .cons hframe .nil
  all_goals simp only [push_eq, Reader.enter]

/-- The first byte behind blanks is on the same line, unless they end it. -/
theorem mem_line_of_head? {blanks text : Bytes} (hline : newline ∉ blanks) (hb : b ∈ text.head?)
    (hblank : isBlank b = false) : b ∈ (blanks ++ text).takeWhile (· != newline) := by
  obtain ⟨rest, rfl⟩ := List.head?_eq_some_iff.1 hb
  have hne : b ≠ newline := by
    rintro rfl
    exact absurd hblank (by decide)
  have hblanks : ∀ c ∈ blanks, (c != newline) = true := by
    rintro c hc
    exact bne_iff_ne.2 (ne_of_mem_of_not_mem hc hline)
  have hb : (b != newline) = true := bne_iff_ne.2 hne
  rw [List.takeWhile_append_of_pos hblanks, List.takeWhile_cons, if_pos hb]
  exact List.mem_append_right _ List.mem_cons_self

section Comment

variable {before blanks text : Bytes}

/-- A comment is passed with the blanks around it. -/
theorem Sound.pass_comment (h : r.Sound) (hframes : r.frames = [top])
    (hrest : top.rest = before ++ space :: (emptyComment ++ space :: (blanks ++ text)))
    (hbefore : ∀ b ∈ before, isBlank b = true) (hblanks : ∀ b ∈ blanks, isBlank b = true)
    (htext : ∀ b ∈ text.head?, isBlank b = false) :
    ∃ c g, c.content = (.blockComment, "/**/") ∧ g.visit = top.visit ∧ g.body? = top.body? ∧
      g.rest = text ∧ r.Steps [c] (r.inFile g (blanks.contains newline)) := by
  have hrest₀ : top.rest = (before ++ [space]) ++ (emptyComment ++ space :: (blanks ++ text)) := by
    rw [hrest, List.append_assoc, List.singleton_append]
  have hstep₁ := h.step_blanks hframes hrest₀
    (List.forall_mem_append.2 ⟨hbefore, List.forall_mem_singleton.2 rfl⟩)
    (List.append_ne_nil_of_right_ne_nil _ (List.cons_ne_nil _ _)) (by rintro b ⟨⟩; rfl)
  have h₁ := (Steps.one hstep₁).sound h
  have hrest₁ : (top.advance (before ++ [space]).length).rest =
      emptyComment ++ space :: (blanks ++ text) := by
    show top.rest.drop _ = _
    rw [hrest₀, List.drop_left]
  have hstep₂ := h₁.step_comment rfl hrest₁
  have h₂ := (Steps.one hstep₂).sound h₁
  have hrest₂ : ((top.advance (before ++ [space]).length).advance 4).rest = (space :: blanks) ++ text := by
    show List.drop 4 (Frame.rest _) = _
    rw [hrest₁]
    rfl
  have hstep₃ := h₂.step_blanks rfl hrest₂ (List.forall_mem_cons.2 ⟨rfl, hblanks⟩)
    (List.cons_ne_nil _ _) htext
  have hrest₃ : (((top.advance (before ++ [space]).length).advance 4).advance
      (space :: blanks).length).rest = text := by
    show List.drop _ (Frame.rest _) = _
    rw [hrest₂, List.drop_left]
  have hsteps := (Steps.one hstep₁).trans ((Steps.one hstep₂).trans (.one hstep₃))
  refine ⟨_, _, ?_, ?_, ?_, hrest₃, hsteps⟩ <;> rfl

/-- Where the comment is in place of the space, the reader passes it and the blanks around it.  It is then
abreast of the one that has passed the blanks around the space. -/
theorem Akin.past_comment {after : Bytes}
    (h : r.Akin (space :: after) (space :: (emptyComment ++ space :: after)) q) (hr : r.Sound)
    (hq : q.Sound) (hframes : r.frames = [file]) (hbody : file.body? = none)
    (hrest : file.rest = before ++ space :: after) (hbefore : ∀ b ∈ before, isBlank b = true)
    (hhash : ∀ b ∈ after.takeWhile (· != newline), b ≠ hash) :
    ∃ r' q' top c, r.step = .ok (none, r') ∧ q.Steps [c] q' ∧ c.content = (.blockComment, "/**/") ∧
      r'.Abreast q' top := by
  have hboth := h.frames
  rw [hframes, List.forall₂_cons_left_iff] at hboth
  obtain ⟨g, _, hf, hnil, hframes'⟩ := hboth
  cases hnil
  obtain ⟨front, hold, hnew⟩ := hf.file hbody
  obtain rfl : front = before := List.append_cancel_right (hold.symm.trans hrest)
  have hsplit : after = after.takeWhile isBlank ++ after.dropWhile isBlank :=
    List.takeWhile_append_dropWhile.symm
  have hblanks : ∀ b ∈ after.takeWhile isBlank, isBlank b = true := fun b hb => List.mem_takeWhile_imp hb
  have htext := Lexeme.head?_dropWhile isBlank after
  generalize after.takeWhile isBlank = blanks at hsplit hblanks
  generalize after.dropWhile isBlank = text at hsplit htext
  subst hsplit
  have hrest' : file.rest = (front ++ space :: blanks) ++ text := by
    rw [hrest, List.append_assoc, List.cons_append]
  have hstep := hr.step_blanks hframes hrest'
    (List.forall_mem_append.2 ⟨hbefore, List.forall_mem_cons.2 ⟨rfl, hblanks⟩⟩)
    (List.append_ne_nil_of_right_ne_nil _ (List.cons_ne_nil _ _)) htext
  have htop : (file.advance (front ++ space :: blanks).length).rest = text := by
    show file.rest.drop _ = _
    rw [hrest', List.drop_left]
  obtain ⟨c, g', hcontent, hvisit, hbody', hg', hsteps⟩ :=
    hq.pass_comment hframes' hnew hbefore hblanks htext
  have hframe : (file.advance (front ++ space :: blanks).length).Akin [] [] g' := by
    refine ⟨hvisit.trans hf.visit, hbody'.trans hf.body, absurd hbody, fun _ => ⟨text, ?_, ?_⟩⟩
    · rw [htop, List.append_nil]
    · rw [hg', List.append_nil]
  refine ⟨_, _, _, c, hstep, hsteps, hcontent,
    { h with frames := .cons hframe .nil, lineStart := rfl }, rfl, ?_⟩
  -- the blanks behind the comment may lead to the next line
  by_cases hline : newline ∈ blanks
  · exact .inl (by simp [inFile, hline])
  · refine .inr fun b hb => ?_
    rw [htop] at hb
    exact ⟨htext b hb, hhash b (mem_line_of_head? hline hb (htext b hb))⟩

end Comment

/-- A run through the source with the space is also one through the source with the comment, and the
comment comes as one token more. -/
theorem run_comment {front back : Bytes} {source' : String}
    (hold : Text.bytes source = front ++ space :: back)
    (hnew : Text.bytes source' = front ++ space :: (emptyComment ++ space :: back))
    (hskips : SkipsAt ((Reader.new .empty config).push path source).2 (Text.bytes source) front.length)
    (hhash : ∀ b ∈ back.takeWhile (· != newline), b ≠ hash)
    (hsteps : ((Reader.new .empty config).push path source).2.Steps ts last) (hlast : last.frames = [])
    (hts : ∀ t ∈ ts, t.kind ≠ .endOfFile) :
    ∃ before after us last', ts.map Token.content = before ++ after ∧
      ((Reader.new .empty config).push path source').2.Steps us last' ∧
      us.map Token.content = before ++ (.blockComment, "/**/") :: after ∧ last'.frames = [] ∧
      last'.errors.map LexError.cause = last.errors.map LexError.cause := by
  obtain ⟨before, r, file, hreach, hframes, hle, hblanks⟩ := hskips
  have hsound := sound_pushed config path source
  have hsound' := sound_pushed config path source'
  have hr := hreach.sound hsound
  obtain ⟨hbody, -, -, hrest⟩ := hreach.single.source_frame hr (f := file) ⟨[], hframes.symm⟩
  rw [hold, List.drop_append_of_le_length hle] at hrest hblanks
  -- up to the blanks the readers are akin
  have hlength : (space :: back).length ≤ file.rest.length := by
    rw [hrest, List.length_append]
    exact Nat.le_add_left _ _
  have hreplaces : Replaces (space :: back) (space :: (emptyComment ++ space :: back)) :=
    .space rfl rfl (show some slash ≠ some openParen by decide)
  obtain ⟨us, q, hreach', hcontents, hakin⟩ :=
    hreach.akin (akin_pushed config path hold hnew) hsound hsound' hreplaces fun hbefore hafter =>
      hafter.spares (hbefore.sound hsound) hbefore.single hreach.single hframes hlength
  have hq := hreach'.sound hsound'
  -- then there are the blanks, and the comment between them
  have hbefore : ∀ b ∈ front.drop file.pos, isBlank b = true := by
    intro b hb
    have hall : (front.drop file.pos).take (front.length + 1 - file.pos) = front.drop file.pos :=
      List.take_of_length_le (by rw [List.length_drop]; omega)
    exact hblanks.all b (by rw [List.take_append, hall]; exact List.mem_append_left _ hb)
  obtain ⟨r', q', top, c, hstep, hpass, hcontent, habreast⟩ :=
    hakin.past_comment hr hq hframes hbody hrest hbefore hhash
  -- from there on they read the same
  have hskip : r.Steps [] r' := .one hstep
  obtain ⟨after, heq, hafter⟩ := (hreach.trans hskip).split hsteps
    (by rw [habreast.frames]; exact List.cons_ne_nil _ _) hlast
  rw [List.append_nil] at heq
  subst heq
  obtain ⟨vs, last', hrun, hcontents', hlast', herrors⟩ := habreast.run ((Steps.one hstep).sound hr)
    (hpass.sound hq) hafter hlast fun t ht => hts t (List.mem_append_right _ ht)
  refine ⟨_, _, _, last', List.map_append, hreach'.trans (hpass.trans hrun), ?_, hlast', herrors⟩
  rw [List.map_append, List.map_append, hcontents, hcontents', List.map_singleton, hcontent]
  rfl

end Reader

/-- What the tokens are that the grammar is shown, apart from their places. -/
def Tokens.shown (result : Tokens) : List (TokenKind × String) :=
  (result.tokens.map Token.content).filter fun content => !content.1.isAside

/-- If a space that is skipped is replaced by a comment between two spaces, the comment comes as one token
more, which the grammar is not shown.  Nothing else changes, apart from places. -/
theorem tokenizeWithin_comment {budget : Nat} {config : Configuration} {path front back : String}
    {result : Tokens} (h : tokenizeWithin budget config path (front ++ " " ++ back) = .ok result)
    (hskips : Reader.SkipsAt ((Reader.new .empty config).push path (front ++ " " ++ back)).2
      (Text.bytes (front ++ " " ++ back)) (Text.bytes front).length)
    (hhash : ∀ b ∈ (Text.bytes back).takeWhile (· != newline), b ≠ hash) :
    ∃ result', tokenizeWithin (budget + 1) config path (front ++ " /**/ " ++ back) = .ok result' ∧
      (∃ before after, result.tokens.map Token.content = before ++ after ∧
        result'.tokens.map Token.content = before ++ (.blockComment, "/**/") :: after) ∧
      result'.shown = result.shown ∧
      result'.errors.map LexError.cause = result.errors.map LexError.cause := by
  obtain ⟨last, hsteps, hframes, hts, hlength, herrors, -⟩ := Reader.tokenizeWithin_eq_ok_iff.1 h
  have hold : Text.bytes (front ++ " " ++ back) = Text.bytes front ++ space :: Text.bytes back := by
    rw [Text.bytes_append, Text.bytes_append, List.append_assoc]
    rfl
  have hnew : Text.bytes (front ++ " /**/ " ++ back) =
      Text.bytes front ++ space :: (Reader.emptyComment ++ space :: Text.bytes back) := by
    rw [Text.bytes_append, Text.bytes_append, List.append_assoc]
    rfl
  obtain ⟨before, after, us, last', hcontents, hrun, hcontents', hframes', herrors'⟩ :=
    Reader.run_comment hold hnew hskips hhash hsteps hframes hts
  -- the other tokens are not the end of the file, since they are the same
  have hkinds : ∀ t ∈ us, t.kind ≠ .endOfFile := by
    intro t ht
    have hmem : t.content ∈ us.map Token.content := List.mem_map_of_mem ht
    rw [hcontents', List.mem_append, List.mem_cons, or_left_comm, ← List.mem_append, ← hcontents] at hmem
    rcases hmem with hcomment | hmem
    · rw [show t.kind = .blockComment from congrArg Prod.fst hcomment]
      decide
    · obtain ⟨u, hu, hsame⟩ := List.mem_map.1 hmem
      rw [show t.kind = u.kind from (congrArg Prod.fst hsame).symm]
      exact hts u hu
  have hcount : us.length = result.tokens.length + 1 := by
    rw [← List.length_map Token.content, hcontents', ← List.length_map Token.content, hcontents]
    simp [Nat.add_assoc]
  refine ⟨⟨us, last'.errors, last'.visited⟩, ?_, ⟨before, after, hcontents, hcontents'⟩, ?_, ?_⟩
  · exact Reader.tokenizeWithin_eq_ok_iff.2
      ⟨last', hrun, hframes', hkinds, hcount ▸ Nat.succ_lt_succ hlength, rfl, rfl⟩
  · rw [Tokens.shown, Tokens.shown, hcontents, hcontents', List.filter_append, List.filter_append,
      List.filter_cons_of_neg (by decide)]
  · rw [herrors', herrors]

/-- A macro with a parameter is used, and then it is only named. -/
def usedAndNamed : String := "#define F(x) x\nF(a) F"

/-- Behind the name there may be a comment, since it is not used as a macro. -/
theorem tokenizeWithin_comment_usedAndNamed : ∃ result result',
    tokenizeWithin 6 {} "t.h" (usedAndNamed ++ " " ++ "b") = .ok result ∧
    tokenizeWithin 7 {} "t.h" (usedAndNamed ++ " /**/ " ++ "b") = .ok result' ∧
    result.shown = [(.identifier, "a"), (.identifier, "F"), (.identifier, "b")] ∧
    result'.shown = result.shown := by
  have hall : (tokenizeWithin 6 {} "t.h" (usedAndNamed ++ " " ++ "b")).toOption.map Tokens.shown =
      some [(.identifier, "a"), (.identifier, "F"), (.identifier, "b")] := by
    decide +kernel
  have hread : (((Reader.new .empty {}).push "t.h" (usedAndNamed ++ " " ++ "b")).2.readMany 4).toOption.map
      (fun x => x.2.frames.map Frame.pos) = some [21] := by
    decide +kernel
  obtain ⟨result, hresult, hshown⟩ := Halt.of_toOption_map hall
  obtain ⟨⟨ts, r⟩, hmany, hframes⟩ := Halt.of_toOption_map hread
  obtain ⟨file, hfile, hpos⟩ := List.map_eq_singleton_iff.1 hframes
  have hskips : Reader.SkipsAt ((Reader.new .empty {}).push "t.h" (usedAndNamed ++ " " ++ "b")).2
      (Text.bytes (usedAndNamed ++ " " ++ "b")) (Text.bytes usedAndNamed).length := by
    refine ⟨ts, r, file, Reader.steps_of_readMany hmany, hfile, ?_, ?_, ?_⟩ <;> rw [hpos]
    all_goals decide +kernel
  obtain ⟨result', hresult', -, hshown', -⟩ := tokenizeWithin_comment hresult hskips (by decide +kernel)
  exact ⟨result, result', hresult, hresult', hshown, hshown'⟩

/-- Between the name of a macro and the parenthesis of its arguments a space makes no difference, but a
comment does. -/
theorem tokenizeWithin_comment_in_use :
    (tokenizeWithin 9 {} "t.h" ("#define F(x) x\nF" ++ " " ++ "(a);")).toOption.map
      (fun result => (result.shown, result.errors)) =
        some ([(.identifier, "a"), (.semicolon, ";")], []) ∧
    (tokenizeWithin 9 {} "t.h" ("#define F(x) x\nF" ++ " /**/ " ++ "(a);")).toOption.map
      (fun result => (result.shown, result.errors)) =
        some ([(.identifier, "F"), (.openParen, "("), (.identifier, "a"), (.closeParen, ")"),
          (.semicolon, ";")], []) := by
  decide +kernel

end CppDecl
