import CppDecl.Proofs.Reader

/-!
# The texts of macros

The text of a macro that a directive defines stands in a file, and what is remembered of it is the number
of the file and a stretch.  Files are numbered by their paths, and a file that is pushed again under the
same path gets a new text under its old number.  So the text of a macro is what the stretch has in the
*last* text of its file, and it changes with it.

`bodyText_served` says so of all that is ever asked of a reader: files are pushed, macros are defined and
tokens are read, in any order.  The text of a macro that was not kept in a file never changes.  If a file
that is pushed again always has the text that it had, then every macro has a text, and it never changes.
`bodyText_retold` is about a file that is pushed with two texts.
-/

namespace CppDecl

theorem Text.samePath_iff {a b : String} : Text.samePath a b = true ↔ Text.pathKey a = Text.pathKey b :=
  beq_iff_eq

/-! ## Files and their paths -/

namespace Registry

variable {files : Registry} {path contents : String} {file i j : Nat} {f g : SourceFile}

/-- Every path has one number. -/
structure Distinct (files : Registry) : Prop where
  /-- Files with the same path are the same. -/
  eq : ∀ {i j : Nat} {f g : SourceFile}, files.get? i = some f → files.get? j = some g →
    Text.samePath f.path g.path = true → i = j

theorem distinct_empty : empty.Distinct := by
  refine ⟨fun hf => ?_⟩
  simp [empty, get?] at hf

/-- A file has the number under which its path is registered if and only if it has that path. -/
theorem Distinct.eq_fst_register_iff (h : files.Distinct) (hf : files.get? file = some f)
    (path contents : String) :
    file = (files.register path contents).1 ↔ Text.samePath f.path path = true := by
  cases hfind : files.find? path with
  | none =>
    rw [register_fresh hfind, not_samePath_of_find? hfind hf]
    exact iff_of_false (Nat.ne_of_lt (Array.getElem?_eq_some_iff.1 hf).1) Bool.false_ne_true
  | some id =>
    obtain ⟨g, hg, hsame⟩ := get?_of_find? hfind
    rw [register_known hfind]
    constructor
    · rintro rfl
      rw [hf] at hg
      rwa [Option.some.inj hg]
    · intro hpath
      exact h.eq hf hg
        (Text.samePath_iff.2 ((Text.samePath_iff.1 hpath).trans (Text.samePath_iff.1 hsame).symm))

/-- A file keeps its number and its path.  It has the new text if it was registered under its path. -/
theorem Distinct.get?_register (h : files.Distinct) (path contents : String) (hf : files.get? file = some f) :
    ∃ g, (files.register path contents).2.get? file = some g ∧ Text.samePath f.path g.path = true ∧
      g.contents = if Text.samePath f.path path = true then contents else f.contents := by
  by_cases hpath : Text.samePath f.path path = true
  · have hnew := (h.eq_fst_register_iff hf path contents).2 hpath
    refine ⟨SourceFile.ofText path contents, ?_, hpath, (if_pos hpath).symm⟩
    rw [hnew]
    exact get?_register_self files path contents
  · have hold := mt (h.eq_fst_register_iff hf path contents).1 hpath
    exact ⟨f, (get?_register_of_ne hold).trans hf, Text.samePath_iff.2 rfl, (if_neg hpath).symm⟩

/-- What is registered is the new file, or it was there before under another path. -/
theorem Distinct.of_register (h : files.Distinct) (hg : (files.register path contents).2.get? file = some g) :
    file = (files.register path contents).1 ∧ g = SourceFile.ofText path contents ∨
      files.get? file = some g ∧ ¬ Text.samePath g.path path = true := by
  by_cases hnew : file = (files.register path contents).1
  · rw [hnew, get?_register_self] at hg
    exact .inl ⟨hnew, (Option.some.inj hg).symm⟩
  · rw [get?_register_of_ne hnew] at hg
    exact .inr ⟨hg, mt (h.eq_fst_register_iff hg path contents).2 hnew⟩

/-- Registering a file leaves one number to a path. -/
theorem Distinct.register (h : files.Distinct) (path contents : String) :
    (files.register path contents).2.Distinct := by
  refine ⟨fun {i j f g} hf hg hsame => ?_⟩
  rcases h.of_register hf with ⟨rfl, rfl⟩ | ⟨hf', hother⟩ <;>
    rcases h.of_register hg with ⟨rfl, rfl⟩ | ⟨hg', hother'⟩
  · rfl
  · exact absurd (Text.samePath_iff.2 (Text.samePath_iff.1 hsame).symm) hother'
  · exact absurd hsame hother
  · exact h.eq hf' hg' hsame

end Registry

/-! ## What reading adds -/

namespace Visited

variable {v v' v'' : Visited}

/-- The body is kept in a file that has been visited, or it has a text of its own. -/
def KeepsText (v : Visited) (body : MacroBody) : Prop :=
  ∀ file start stop, body.text = .fileRange file start stop →
    ∃ visit : Nat, v.visits[visit]? = some (.file file)

/-- What was visited at one time and at a later time, if no file was pushed in between. -/
structure Grows (v v' : Visited) : Prop where
  /-- The files are the same. -/
  files : v'.files = v.files
  /-- Bodies keep their numbers. -/
  bodies : ∀ {body : Nat} {x : MacroBody}, v.bodies[body]? = some x → v'.bodies[body]? = some x
  /-- No file is visited that was not visited before. -/
  visits : ∀ {visit file : Nat}, v'.visits[visit]? = some (.file file) → v.visits[visit]? = some (.file file)
  /-- A new body is kept in a file that was visited, or it has a text of its own. -/
  texts : ∀ {x : MacroBody}, x ∈ v'.bodies → x ∈ v.bodies ∨ v.KeepsText x

theorem Grows.refl (v : Visited) : v.Grows v := ⟨rfl, id, id, .inl⟩

theorem Grows.trans (h₁ : v.Grows v') (h₂ : v'.Grows v'') : v.Grows v'' := by
  refine ⟨h₂.files.trans h₁.files, fun h => h₂.bodies (h₁.bodies h), fun h => h₁.visits (h₂.visits h), ?_⟩
  intro x hx
  rcases h₂.texts hx with hx | hkeeps
  · exact h₁.texts hx
  · right
    intro file start stop htext
    obtain ⟨visit, hvisit⟩ := hkeeps file start stop htext
    exact ⟨visit, h₁.visits hvisit⟩

theorem grows_addEntry (v : Visited) (entry : MapEntry) : v.Grows (v.addEntry entry) := ⟨rfl, id, id, .inl⟩

theorem grows_addExpansion (v : Visited) (body parent callSite : Nat) (filled : Option String) :
    v.Grows (v.addVisit (.expansion body parent callSite filled)).2 := by
  refine ⟨rfl, id, fun {visit file} h => ?_, .inl⟩
  change (v.visits.push _)[visit]? = _ at h
  rw [Array.getElem?_push] at h
  split at h
  · cases h
  · exact h

theorem grows_addBody {body : MacroBody} (h : v.KeepsText body) : v.Grows (v.addBody body).2 := by
  refine ⟨rfl, getElem?_push, id, fun hx => ?_⟩
  rcases Array.mem_push.1 hx with hx | rfl
  · exact .inl hx
  · exact .inr h

/-- Every number of a file stands for a file, and every file has one number. -/
structure Numbered (v : Visited) : Prop where
  /-- Every file has one number. -/
  distinct : v.files.Distinct
  /-- A file that has been visited is there. -/
  visits : ∀ {visit file : Nat}, v.visits[visit]? = some (.file file) → ∃ f, v.files.get? file = some f
  /-- A file in which the text of a body is kept is there. -/
  texts : ∀ {x : MacroBody}, x ∈ v.bodies → ∀ {file start stop : Nat}, x.text = .fileRange file start stop →
    ∃ f, v.files.get? file = some f

theorem Numbered.grows (h : v.Numbered) (hgrows : v.Grows v') : v'.Numbered := by
  refine ⟨?_, ?_, ?_⟩
  · rw [hgrows.files]
    exact h.distinct
  · intro visit file hvisit
    rw [hgrows.files]
    exact h.visits (hgrows.visits hvisit)
  · intro x hx file start stop htext
    rw [hgrows.files]
    rcases hgrows.texts hx with hx | hkeeps
    · exact h.texts hx htext
    · obtain ⟨visit, hvisit⟩ := hkeeps file start stop htext
      exact h.visits hvisit

theorem Numbered.addFile (h : v.Numbered) (path contents : String) :
    (v.addFile path contents).2.Numbered := by
  have hkept : ∀ {file : Nat}, (∃ f, v.files.get? file = some f) →
      ∃ f, (v.files.register path contents).2.get? file = some f := by
    rintro file ⟨f, hf⟩
    obtain ⟨g, hg, -⟩ := h.distinct.get?_register path contents hf
    exact ⟨g, hg⟩
  refine ⟨h.distinct.register path contents, ?_, fun hx _ _ _ htext => hkept (h.texts hx htext)⟩
  intro visit file hvisit
  change (v.visits.push _)[visit]? = _ at hvisit
  rw [Array.getElem?_push] at hvisit
  split at hvisit
  · cases hvisit
    exact ⟨_, v.files.get?_register_self path contents⟩
  · exact hkept (h.visits hvisit)

end Visited

/-! ## Reading -/

namespace Reader

variable {r r' : Reader} {top : Frame} {below : List Frame}

theorem grows_leave (r : Reader) (below : List Frame) : r.visited.Grows (r.leave below).visited := by
  cases below with
  | nil => exact .refl _
  | cons parent below => exact r.visited.grows_addEntry _

theorem grows_define (r : Reader) (d : Predefined) : r.visited.Grows (r.define d).visited :=
  Visited.grows_addBody fun _ _ _ htext => nomatch htext

/-- A definition is kept in the file that the frame reads, or it has a text of its own. -/
theorem grows_register {base : Nat} {d : Definition} (h : r.register top base d = .ok r') :
    r.visited.Grows r'.visited := by
  unfold register at h
  obtain ⟨name, -, h⟩ := Halt.bind_eq_ok h
  obtain ⟨params, -, h⟩ := Halt.bind_eq_ok h
  simp only [bind, Except.bind, pure, Except.pure] at h
  split at h
  next file hfile _ =>
    cases h
    refine Visited.grows_addBody fun _ _ _ htext => ?_
    cases htext
    unfold fileOf? at hfile
    split at hfile
    next hvisit =>
      cases hfile
      exact ⟨_, hvisit⟩
    next => cases hfile
  next =>
    split at h
    next => cases h
    next =>
      cases h
      exact Visited.grows_addBody fun _ _ _ htext => nomatch htext

theorem grows_perform {text : String} {bs : Bytes} {effect : Effect}
    (h : r.perform top text bs effect = .ok r') : r.visited.Grows r'.visited := by
  unfold perform at h
  split at h
  · cases h
    exact .refl _
  · cases h
    exact .refl _
  · split at h
    · obtain ⟨rest, -, h⟩ := Halt.bind_eq_ok h
      split at h <;> cases h <;> exact .refl _
    · cases h
      exact .refl _
  · split at h
    · split at h
      · exact grows_register h
      · cases h
        exact .refl _
    · cases h
      exact .refl _

theorem grows_expand {body callSite : Nat} {name : String} {loc : LinearLoc} {t : Token}
    (h : r.expand body name loc top callSite = .ok (t, r')) : r.visited.Grows r'.visited := by
  obtain ⟨-, filled, w, rfl⟩ := entered_of_expand h
  exact (r.visited.grows_addExpansion _ _ _ _).trans (Visited.grows_addEntry _ _)

theorem grows_readName {start : Nat} {loc : LinearLoc} {name : String} {t : Token}
    (h : r.readName top below start loc name = .ok (t, r')) : r.visited.Grows r'.visited := by
  cases nameRead_of_readName h with
  | plain | missing _ | unfinished _ => exact .refl _
  | used _ _ hexpand => exact (grows_expand hexpand :)
  | usedAlone hexpand => exact (grows_expand hexpand :)

/-- A step pushes no file. -/
theorem grows_step {t? : Option Token} (h : r.step = .ok (t?, r')) : r.visited.Grows r'.visited := by
  unfold step at h
  split at h
  · cases h
    exact .refl _
  · split at h
    · split at h
      · cases h
        exact grows_leave _ _
      · cases h
    · unfold take at h
      simp only [bind, Except.bind, throw, throwThe, MonadExceptOf.throw, pure, Except.pure] at h
      split at h
      · cases h
      · split at h
        · cases h
          exact .refl _
        · split at h
          · cases h
          · split at h
            · cases h
            next r₁ hperform =>
              have hgrows := grows_perform hperform
              split at h
              · split at h
                · cases h
                next hname =>
                  cases h
                  exact hgrows.trans (grows_readName hname)
              · cases h
                exact hgrows

theorem grows_readToken {t : Token} (h : r.readToken = .ok (t, r')) : r.visited.Grows r'.visited := by
  obtain ⟨before, hskips, hstep⟩ := readToken_eq_ok_iff.1 h
  clear h
  induction hskips with
  | refl => exact grows_step hstep
  | step hfirst _ ih => exact (grows_step hfirst).trans (ih hstep)

end Reader

/-! ## Requests -/

/-- What a reader is asked to do. -/
inductive Request where
  /-- To start to read a file. -/
  | push (path contents : String)
  /-- To define a macro. -/
  | define (d : Predefined)
  /-- To read a token. -/
  | read

namespace Request

/-- The text that the file with the given path has after a request, if it had the given text. -/
def textAt (path text : String) : Request → String
  | push path' contents => if Text.samePath path path' then contents else text
  | _ => text

/-- The text that the file with the given path has after some requests, if it had the given text. -/
def textAfter (path text : String) (requests : List Request) : String := requests.foldl (textAt path) text

theorem textAt_congr {path path' : String} (h : Text.samePath path path' = true) (text : String)
    (request : Request) : textAt path text request = textAt path' text request := by
  cases request with
  | push other contents =>
    have hsame : Text.samePath path other = Text.samePath path' other := by
      rw [Bool.eq_iff_iff, Text.samePath_iff, Text.samePath_iff, Text.samePath_iff.1 h]
    simp only [textAt, hsame]
  | define d => rfl
  | read => rfl

theorem textAfter_congr {path path' : String} (h : Text.samePath path path' = true) (text : String)
    (requests : List Request) : textAfter path text requests = textAfter path' text requests := by
  induction requests generalizing text with
  | nil => rfl
  | cons request requests ih =>
    show textAfter path (textAt path text request) requests =
      textAfter path' (textAt path' text request) requests
    rw [textAt_congr h, ih]

/-- A file that is pushed with its own text only keeps it. -/
theorem textAfter_eq_self {path text : String} {requests : List Request}
    (h : ∀ path' contents, push path' contents ∈ requests → Text.samePath path path' = true →
      contents = text) :
    textAfter path text requests = text := by
  induction requests with
  | nil => rfl
  | cons request requests ih =>
    have hfirst : textAt path text request = text := by
      cases request with
      | push path' contents =>
        rw [textAt]
        split
        next hsame => exact h path' contents List.mem_cons_self hsame
        next => rfl
      | define d => rfl
      | read => rfl
    show textAfter path (textAt path text request) requests = text
    rw [hfirst]
    exact ih fun path' contents hmem => h path' contents (List.mem_cons_of_mem _ hmem)

/-- A file that is pushed more than once always has the same text. -/
structure Agree (requests : List Request) : Prop where
  /-- Under the same path stands the same text. -/
  eq : ∀ {path contents path' contents' : String}, push path contents ∈ requests →
    push path' contents' ∈ requests → Text.samePath path path' = true → contents = contents'

theorem Agree.left {before after : List Request} (h : Agree (before ++ after)) : Agree before :=
  ⟨fun hfirst hsecond => h.eq (List.mem_append_left _ hfirst) (List.mem_append_left _ hsecond)⟩

end Request

namespace Visited

variable {v v' v'' : Visited} {before after requests : List Request} {m : Nat} {body : MacroBody}

/-- What was visited at one time, and after some requests. -/
structure Retold (v : Visited) (requests : List Request) (v' : Visited) : Prop where
  /-- Bodies keep their numbers. -/
  bodies : ∀ {body : Nat} {x : MacroBody}, v.bodies[body]? = some x → v'.bodies[body]? = some x
  /-- Files keep their numbers and paths, and they have the last text that was pushed. -/
  files : ∀ {file : Nat} {f : SourceFile}, v.files.get? file = some f →
    ∃ g, v'.files.get? file = some g ∧ Text.samePath f.path g.path = true ∧
      g.contents = Request.textAfter f.path f.contents requests

theorem Retold.append (h₁ : v.Retold before v') (h₂ : v'.Retold after v'') :
    v.Retold (before ++ after) v'' := by
  refine ⟨fun h => h₂.bodies (h₁.bodies h), fun hf => ?_⟩
  obtain ⟨g, hg, hsame, hcontents⟩ := h₁.files hf
  obtain ⟨g', hg', hsame', hcontents'⟩ := h₂.files hg
  refine ⟨g', hg', Text.samePath_iff.2 ((Text.samePath_iff.1 hsame).trans (Text.samePath_iff.1 hsame')), ?_⟩
  rw [hcontents', hcontents, ← Request.textAfter_congr hsame, Request.textAfter, Request.textAfter,
    Request.textAfter, List.foldl_append]

/-- Requests that push no file change no text. -/
theorem Grows.retold (h : v.Grows v')
    (hread : ∀ path text, Request.textAfter path text requests = text) : v.Retold requests v' := by
  refine ⟨h.bodies, fun {file f} hf => ⟨f, ?_, Text.samePath_iff.2 rfl, (hread _ _).symm⟩⟩
  rw [h.files, hf]

theorem Numbered.retold_addFile (h : v.Numbered) (path contents : String) :
    v.Retold [.push path contents] (v.addFile path contents).2 :=
  ⟨id, h.distinct.get?_register path contents⟩

end Visited

namespace Reader

variable {r r' : Reader} {request : Request} {requests before after : List Request}

/-- What a reader does when it is asked. -/
def serve (r : Reader) : Request → Except Halt Reader
  | .push path contents => .ok (r.push path contents).2
  | .define d => .ok (r.define d)
  | .read => do
    let (_, r') ← r.readToken
    return r'

/-- What a reader does when it is asked for one thing after another. -/
def serveAll (r : Reader) (requests : List Request) : Except Halt Reader := requests.foldlM serve r

/-- One request changes the text of a file that it pushes, and no other one. -/
theorem retold_serve (hnumbered : r.visited.Numbered) (h : r.serve request = .ok r') :
    r'.visited.Numbered ∧ r.visited.Retold [request] r'.visited := by
  cases request with
  | push path contents =>
    cases h
    rw [push_eq]
    have hentry := (r.visited.addFile path contents).2.grows_addEntry
      ⟨r.nextLoc, r.visited.visits.size, 0⟩
    have hsame : (r.visited.addFile path contents).2.Retold []
        ((r.visited.addFile path contents).2.addEntry ⟨r.nextLoc, r.visited.visits.size, 0⟩) :=
      hentry.retold fun _ _ => rfl
    exact ⟨(hnumbered.addFile path contents).grows hentry,
      (hnumbered.retold_addFile path contents).append hsame⟩
  | define d =>
    cases h
    have hgrows := r.grows_define d
    exact ⟨hnumbered.grows hgrows, hgrows.retold fun _ _ => rfl⟩
  | read =>
    obtain ⟨⟨t, r₁⟩, hread, h⟩ := Halt.bind_eq_ok h
    cases h
    have hgrows := grows_readToken hread
    exact ⟨hnumbered.grows hgrows, hgrows.retold fun _ _ => rfl⟩

theorem retold_serveAll (hnumbered : r.visited.Numbered) (h : r.serveAll requests = .ok r') :
    r'.visited.Numbered ∧ r.visited.Retold requests r'.visited := by
  induction requests generalizing r with
  | nil =>
    cases h
    exact ⟨hnumbered, (Visited.Grows.refl _).retold fun _ _ => rfl⟩
  | cons request requests ih =>
    rw [serveAll, List.foldlM_cons] at h
    obtain ⟨r₁, hfirst, hrest⟩ := Halt.bind_eq_ok h
    obtain ⟨hnumbered₁, hretold⟩ := retold_serve hnumbered hfirst
    obtain ⟨hnumbered', hretold'⟩ := ih hnumbered₁ hrest
    exact ⟨hnumbered', hretold.append hretold'⟩

theorem numbered_new (config : Configuration) : (new .empty config).visited.Numbered :=
  List.foldlRecOn (motive := fun r => r.visited.Numbered) config.predefined define
    ⟨Registry.distinct_empty, by simp [Visited.empty], by simp [Visited.empty]⟩
    fun r hnumbered d _ => hnumbered.grows (r.grows_define d)

end Reader

/-! ## The texts of bodies -/

namespace Visited

variable {v v' : Visited} {requests : List Request} {m : Nat} {body : MacroBody}

theorem bodyText_literal (hbody : v.bodies[m]? = some body) {text : String}
    (htext : body.text = .literal text) :
    v.bodyText m = .ok text := by
  obtain ⟨text', htext', hbytes⟩ := (Window.sound_whole text).text_eq
  obtain rfl : text' = text := Text.bytes_injective (hbytes.trans (Window.bytes_whole text))
  unfold Visited.bodyText Visited.bodyWindow
  rw [hbody]
  simp only [Halt.require_some, htext, bind, Except.bind]
  exact htext'

theorem bodyText_fileRange (hbody : v.bodies[m]? = some body) {file start stop : Nat}
    (htext : body.text = .fileRange file start stop) {f : SourceFile} (hf : v.files.get? file = some f) :
    v.bodyText m = Halt.require (Text.slice? f.contents start stop) := by
  unfold Visited.bodyText Visited.bodyWindow
  rw [hbody]
  simp only [Halt.require_some, htext, hf, bind, Except.bind]
  rfl

/-- A text that is not kept in a file stays. -/
theorem Retold.bodyText_literal (h : v.Retold requests v') (hm : m < v.bodies.size) {text : String}
    (htext : v.bodies[m].text = .literal text) : v.bodyText m = .ok text ∧ v'.bodyText m = .ok text := by
  have hbody : v.bodies[m]? = some v.bodies[m] := Array.getElem?_eq_getElem hm
  exact ⟨Visited.bodyText_literal hbody htext, Visited.bodyText_literal (h.bodies hbody) htext⟩

/-- A text that is kept in a file is what the last text of the file has in its place. -/
theorem Retold.bodyText_fileRange (h : v.Retold requests v') (hnumbered : v.Numbered) (hm : m < v.bodies.size)
    {file start stop : Nat} (htext : v.bodies[m].text = .fileRange file start stop) :
    ∃ f, v.files.get? file = some f ∧ v.bodyText m = Halt.require (Text.slice? f.contents start stop) ∧
      v'.bodyText m =
        Halt.require (Text.slice? (Request.textAfter f.path f.contents requests) start stop) := by
  have hbody : v.bodies[m]? = some v.bodies[m] := Array.getElem?_eq_getElem hm
  obtain ⟨f, hf⟩ := hnumbered.texts (Array.getElem_mem hm) htext
  obtain ⟨g, hg, -, hcontents⟩ := h.files hf
  refine ⟨f, hf, Visited.bodyText_fileRange hbody htext hf, ?_⟩
  rw [Visited.bodyText_fileRange (h.bodies hbody) htext hg, hcontents]

end Visited

/-! ## Files that are pushed again -/

namespace Visited

variable {v v' : Visited} {path contents : String}

/-- No text changes if a file is pushed that is new, or has the text that it had. -/
theorem Numbered.keeps_addFile (h : v.Numbered)
    (hsame : ∀ {file : Nat} {f : SourceFile}, v.files.get? file = some f →
      Text.samePath f.path path = true → f.contents = contents) :
    v.Keeps (v.addFile path contents).2 := by
  refine ⟨fun hf => ?_, getElem?_push, id⟩
  obtain ⟨g, hg, -, hcontents⟩ := h.distinct.get?_register path contents hf
  refine ⟨g, hg, ?_⟩
  split at hcontents
  next hpath => rw [hcontents, hsame hf hpath]
  next => exact hcontents

end Visited

namespace Reader

variable {r r' : Reader} {path contents : String}

/-- A reader that has been asked for some things, when no file was pushed with two texts. -/
structure Told (requests : List Request) (r : Reader) : Prop where
  /-- The reader is in order. -/
  sound : r.Sound
  /-- Files are numbered by their paths. -/
  numbered : r.visited.Numbered
  /-- A file has a text that was pushed. -/
  pushed : ∀ {file : Nat} {f : SourceFile}, r.visited.files.get? file = some f →
    .push f.path f.contents ∈ requests

variable {request : Request} {requests before after : List Request}

theorem Told.push (h : r.Told requests) (hagree : Request.Agree (requests ++ [.push path contents])) :
    (r.push path contents).2.Told (requests ++ [.push path contents]) := by
  have hkeeps : r.visited.Keeps (r.visited.addFile path contents).2 := by
    refine h.numbered.keeps_addFile fun hf hsame => hagree.eq ?_ ?_ hsame
    · exact List.mem_append_left _ (h.pushed hf)
    · exact List.mem_append_right _ (List.mem_singleton_self _)
  have hserve : r.serve (.push path contents) = .ok (r.push path contents).2 := rfl
  refine ⟨h.sound.pushKept hkeeps, (retold_serve h.numbered hserve).1, ?_⟩
  intro file f hf
  rw [push_eq] at hf
  rcases h.numbered.distinct.of_register hf with ⟨-, rfl⟩ | ⟨hold, -⟩
  · exact List.mem_append_right _ (List.mem_singleton_self _)
  · exact List.mem_append_left _ (h.pushed hold)

/-- Requests that push no file leave the files as they are. -/
theorem Told.grows (h : r.Told requests) (hsound : r'.Sound) (hgrows : r.visited.Grows r'.visited) :
    r'.Told (requests ++ [request]) := by
  refine ⟨hsound, h.numbered.grows hgrows, fun hf => ?_⟩
  rw [hgrows.files] at hf
  exact List.mem_append_left _ (h.pushed hf)

/-- A request is always served when no file is pushed with two texts. -/
theorem Told.serve (h : r.Told requests) (hagree : Request.Agree (requests ++ [request])) :
    ∃ r', r.serve request = .ok r' ∧ r'.Told (requests ++ [request]) := by
  cases request with
  | push path contents => exact ⟨_, rfl, h.push hagree⟩
  | define d => exact ⟨_, rfl, h.grows (sound_define h.sound d) (r.grows_define d)⟩
  | read =>
    obtain ⟨t, r', hread, hsound⟩ := h.sound.readToken
    refine ⟨r', ?_, h.grows hsound (grows_readToken hread)⟩
    rw [Reader.serve, hread]
    rfl

theorem told_serveAll (config : Configuration) (hagree : Request.Agree requests) :
    ∃ r, (new .empty config).serveAll requests = .ok r ∧ r.Told requests := by
  induction requests using List.reverseRecOn with
  | nil =>
    refine ⟨_, rfl, sound_new config, numbered_new config, fun {file f} hf => ?_⟩
    rw [(blank_new config).1.files] at hf
    simp [Registry.empty, Registry.get?] at hf
  | append_singleton requests request ih =>
    obtain ⟨r, hserve, htold⟩ := ih hagree.left
    obtain ⟨r', hserve', htold'⟩ := htold.serve hagree
    refine ⟨r', ?_, htold'⟩
    rw [serveAll, List.foldlM_append, show List.foldlM _ _ requests = _ from hserve]
    show List.foldlM Reader.serve r [request] = _
    rw [List.foldlM_cons, hserve']
    rfl

end Reader

/-- A macro keeps its text if it was not kept in a file.  If it was, the text is what is found in its place
in the last text that was pushed under the path of the file.  So it is kept if no such file is pushed with
another text; and if no file is pushed with two texts at all, every macro has a text and keeps it. -/
theorem bodyText_served {config : Configuration} {before after : List Request} {r r' : Reader}
    (hbefore : (Reader.new .empty config).serveAll before = .ok r) (hafter : r.serveAll after = .ok r')
    {m : Nat} (hm : m < r.visited.bodies.size) :
    (∀ text, r.visited.bodies[m].text = .literal text →
      r.visited.bodyText m = .ok text ∧ r'.visited.bodyText m = .ok text) ∧
    (∀ file start stop, r.visited.bodies[m].text = .fileRange file start stop →
      ∃ f, r.visited.files.get? file = some f ∧
        r.visited.bodyText m = Halt.require (Text.slice? f.contents start stop) ∧
        r'.visited.bodyText m =
          Halt.require (Text.slice? (Request.textAfter f.path f.contents after) start stop)) ∧
    ((∀ file f, r.visited.files.get? file = some f → ∀ path contents, .push path contents ∈ after →
        Text.samePath f.path path = true → contents = f.contents) →
      r'.visited.bodyText m = r.visited.bodyText m) ∧
    (Request.Agree (before ++ after) →
      ∃ text, r.visited.bodyText m = .ok text ∧ r'.visited.bodyText m = .ok text) := by
  obtain ⟨hnumbered, -⟩ := Reader.retold_serveAll (Reader.numbered_new config) hbefore
  obtain ⟨-, hretold⟩ := Reader.retold_serveAll hnumbered hafter
  have hliteral := fun text (htext : r.visited.bodies[m].text = .literal text) =>
    hretold.bodyText_literal hm htext
  have hrange := fun file start stop (htext : r.visited.bodies[m].text = .fileRange file start stop) =>
    hretold.bodyText_fileRange hnumbered hm htext
  have hkept : (∀ file f, r.visited.files.get? file = some f → ∀ path contents, .push path contents ∈ after →
      Text.samePath f.path path = true → contents = f.contents) →
      r'.visited.bodyText m = r.visited.bodyText m := by
    intro hsame
    cases htext : r.visited.bodies[m].text with
    | literal text =>
      obtain ⟨hold, hnew⟩ := hliteral text htext
      rw [hold, hnew]
    | fileRange file start stop =>
      obtain ⟨f, hf, hold, hnew⟩ := hrange file start stop htext
      rw [hold, hnew, Request.textAfter_eq_self (hsame file f hf)]
  refine ⟨hliteral, hrange, hkept, fun hagree => ?_⟩
  obtain ⟨r₁, hbefore₁, htold⟩ := Reader.told_serveAll config hagree.left
  obtain rfl : r₁ = r := Except.ok.inj (hbefore₁.symm.trans hbefore)
  obtain ⟨text, htext⟩ := htold.sound.visited.bodyText hm
  refine ⟨text, htext, (hkept fun file f hf path contents hpush hsame => ?_).trans htext⟩
  exact (hagree.eq (List.mem_append_left _ (htold.pushed hf)) (List.mem_append_right _ hpush) hsame).symm

/-- A file is pushed, and its definition is read. -/
def pushedOnce : List Request := [.push "s/a.h" "#define A x\n", .read]

/-- The file is pushed again, under another spelling of its path. -/
def pushedAgain : List Request := [.define ⟨"B", "y", false⟩, .push "s//a.h" "#define A x\n", .read]

theorem agree_pushedAgain : Request.Agree (pushedOnce ++ pushedAgain) := by
  have hall : ∀ {path contents : String}, .push path contents ∈ pushedOnce ++ pushedAgain →
      contents = "#define A x\n" := by
    intro path contents hmem
    simp only [pushedOnce, pushedAgain, List.cons_append, List.nil_append, List.mem_cons, Request.push.injEq,
      reduceCtorEq, List.not_mem_nil, false_or, or_false] at hmem
    rcases hmem with ⟨-, heq⟩ | ⟨-, heq⟩ <;> exact heq
  exact ⟨fun hfirst hsecond _ => (hall hfirst).trans (hall hsecond).symm⟩

theorem bodyText_served_twoSpellings : ∃ r r',
    (Reader.new .empty {}).serveAll pushedOnce = .ok r ∧ r.serveAll pushedAgain = .ok r' ∧
    r.visited.bodyText 0 = .ok "x" ∧ r'.visited.bodyText 0 = .ok "x" := by
  obtain ⟨r', hboth, -⟩ := Reader.told_serveAll {} agree_pushedAgain
  rw [Reader.serveAll, List.foldlM_append] at hboth
  obtain ⟨r, hbefore, hafter⟩ := Halt.bind_eq_ok hboth
  have hshown : ((Reader.new .empty {}).serveAll pushedOnce).toOption.map
      (fun r => (r.visited.bodies.size, (r.visited.bodyText 0).toOption)) = some (1, some "x") := by
    decide +kernel
  rw [show (Reader.new .empty {}).serveAll pushedOnce = .ok r from hbefore] at hshown
  obtain ⟨hsize, htext⟩ := Prod.mk.inj (Option.some.inj hshown)
  replace hsize : r.visited.bodies.size = 1 := hsize
  have hlt : 0 < r.visited.bodies.size := by
    rw [hsize]
    exact Nat.one_pos
  obtain ⟨-, -, -, hkept⟩ := bodyText_served hbefore hafter hlt
  obtain ⟨text, hold, hnew⟩ := hkept agree_pushedAgain
  rw [hold] at htext
  obtain rfl : text = "x" := Option.some.inj htext
  exact ⟨r, r', hbefore, hafter, hold, hnew⟩

/-- A file that is pushed again with another text changes the text of a macro, or leaves it without
one. -/
theorem bodyText_retold : ∃ r r' r'',
    (Reader.new .empty {}).serveAll [.push "a.h" "#define A x\n", .read, .read] = .ok r ∧
    r.serveAll [.push "a.h" "#define B y\nA"] = .ok r' ∧ r.serveAll [.push "a.h" "A"] = .ok r'' ∧
    r.visited.bodyText 0 = .ok "x" ∧ r'.visited.bodyText 0 = .ok "y" ∧
    r''.visited.bodyText 0 = .error .outOfRange := by
  have hall : ((Reader.new .empty {}).serveAll [.push "a.h" "#define A x\n", .read, .read]).toOption.map
      (fun r => (r.visited.bodyText 0, (r.push "a.h" "#define B y\nA").2.visited.bodyText 0,
        (r.push "a.h" "A").2.visited.bodyText 0)) =
      some (.ok "x", .ok "y", .error .outOfRange) := by
    decide +kernel
  obtain ⟨r, hserve, hshown⟩ := Halt.of_toOption_map hall
  simp only [Prod.mk.injEq] at hshown
  exact ⟨r, _, _, hserve, rfl, rfl, hshown⟩

end CppDecl
