import CppDecl.Proofs.Reader
import CppDecl.Tokens

/-!
# When reading ends

A macro is not expanded inside itself, so expansions do not nest deeper than there are macros, and
reading ends — unless the text that is read defines macros on and on.  The guard against expanding
a macro inside itself goes by the number of the definition, and defining a macro again gives a new
number.  A replacement text that holds a line break and a directive can therefore bring about a
definition each time it is expanded, and the new definition is not guarded.

So reading ends exactly if the number of definitions stays bounded while tokens are read
(`tokenizeWithin_ends_iff`).  In particular it ends if definitions in the text take no effect.
`tokenizeWithin_endless` is about a source for which it does not end.

The proof that it ends has two inductions.  The outer one is on the definitions that may still be
made.  While none is made, the inner one is on the macros that are not being expanded, and within
that on the text left in the top frame: a frame on top has fewer such macros, and when it is taken
off, the frame below has less text than before.
-/

namespace CppDecl

namespace Reader

variable {r r' r'' : Reader} {top : Frame} {below : List Frame}

/-! ## Runs -/

/-- The reader comes to the end of its text after some steps. -/
inductive Ends : Reader → Prop
  /-- Nothing is left to be read. -/
  | done {r : Reader} (frames : r.frames = []) : Ends r
  /-- It comes to the end after one more step. -/
  | step {r r' : Reader} {t? : Option Token} (step : r.step = .ok (t?, r')) (rest : Ends r') :
      Ends r

/-- The reader is in a later state after some steps. -/
inductive Reaches : Reader → Reader → Prop
  | refl (r : Reader) : Reaches r r
  | step {r r' r'' : Reader} {t? : Option Token} (step : r.step = .ok (t?, r'))
      (rest : Reaches r' r'') : Reaches r r''

theorem Reaches.trans (h₁ : Reaches r r') (h₂ : Reaches r' r'') : Reaches r r'' := by
  induction h₁ with
  | refl _ => exact h₂
  | step hstep _ ih => exact .step hstep (ih h₂)

theorem Sound.reaches (h : r.Sound) (hreaches : Reaches r r') : r'.Sound := by
  induction hreaches with
  | refl _ => exact h
  | step hstep _ ih =>
    obtain ⟨_, _, heq, hsound, -⟩ := h.step
    rw [hstep] at heq
    cases heq
    exact ih hsound

/-! ## Definitions -/

/-- Bodies are never taken away. -/
theorem Move.bodies_le {t? : Option Token} (h : r.Move t? r') :
    r.visited.bodies.size ≤ r'.visited.bodies.size := by
  cases h with
  | ended _ => exact Nat.le_refl _
  | @left top below _ _ =>
    cases below with
    | nil => exact Nat.le_refl _
    | cons parent below => exact Nat.le_refl _
  | passed hpasses _ =>
    rcases hpasses.visited with heq | ⟨-, body, heq⟩
    · rw [heq]
    · rw [heq]
      show _ ≤ (r.visited.bodies.push body).size
      rw [Array.size_push]
      exact Nat.le_succ _
  | entered henters _ =>
    obtain ⟨filled, heq⟩ := henters.visited
    rw [heq]
    exact Nat.le_refl _

theorem Sound.bodies_le (h : r.Sound) {t? : Option Token} (hstep : r.step = .ok (t?, r')) :
    r.visited.bodies.size ≤ r'.visited.bodies.size := by
  obtain ⟨_, _, heq, -, hmove⟩ := h.step
  rw [hstep] at heq
  cases heq
  exact hmove.bodies_le

/-- However far the reader goes, there are no more bodies than `bound`. -/
def Bounded (bound : Nat) (r : Reader) : Prop :=
  ∀ r', Reaches r r' → r'.visited.bodies.size ≤ bound

theorem Bounded.reaches {bound : Nat} (h : Bounded bound r) (hreaches : Reaches r r') :
    Bounded bound r' :=
  fun r'' hlater => h r'' (hreaches.trans hlater)

/-- How many macros are not being expanded. -/
def spare (bodies : Nat) (frames : List Frame) : Nat := bodies - (active frames).length

/-- There are no more macros being expanded than there are macros. -/
theorem Sound.active_length_le (h : r.Sound) :
    (active r.frames).length ≤ r.visited.bodies.size := by
  have hsubset : active r.frames ⊆ List.range r.visited.bodies.size := by
    intro body hbody
    exact List.mem_range.2 (h.active_lt body hbody)
  have hle := (h.nodup.subperm hsubset).length_le
  rwa [List.length_range] at hle

/-- Entering a macro leaves one macro less that is not being expanded. -/
theorem Enters.spare_lt {n body : Nat} {w : Window} (h : r.Enters top below n body w r')
    (hsound : r'.Sound) (hbodies : r'.visited.bodies.size = r.visited.bodies.size) :
    spare r'.visited.bodies.size r'.frames < spare r.visited.bodies.size r.frames := by
  have hle := hsound.active_length_le
  have hactive : active r'.frames = body :: active r.frames := by
    rw [h.frames_eq, h.frames]
    rfl
  rw [hactive, List.length_cons] at hle
  unfold spare
  rw [hactive, List.length_cons, hbodies]
  omega

/-- The reader ends if it does once the top frame has been taken off.  No definition may be made
until then, or the reader has to end after it. -/
theorem ends_of_below {bound bodies : Nat}
    (hmore : ∀ r', r'.Sound → Bounded bound r' → bodies < r'.visited.bodies.size → Ends r') :
    ∀ (k n : Nat) (r : Reader) (top : Frame) (below : List Frame), r.Sound → Bounded bound r →
      r.visited.bodies.size = bodies → r.frames = top :: below → spare bodies r.frames = k →
      top.rest.length = n →
      (∀ r', Reaches r r' → r'.frames = below → r'.visited.bodies.size = bodies → Ends r') →
      Ends r := by
  intro k
  induction k using Nat.strongRecOn with
  | ind k ihk =>
  intro n
  induction n using Nat.strongRecOn with
  | ind n ihn =>
  intro r top below hsound hbound hbodies hframes hspare hlength hbelow
  obtain ⟨t?, r₁, hstep, hsound₁, hmove⟩ := hsound.step
  refine .step hstep ?_
  have hreaches : Reaches r r₁ := .step hstep (.refl r₁)
  have hbound₁ := hbound.reaches hreaches
  have hle := hmove.bodies_le
  rcases Nat.lt_or_eq_of_le hle with hlt | heq
  · -- a definition was made
    exact hmore r₁ hsound₁ hbound₁ (by omega)
  have hbodies₁ : r₁.visited.bodies.size = bodies := by omega
  cases hmove with
  | ended hnil =>
    rw [hframes] at hnil
    cases hnil
  | left hframes' _ =>
    rw [hframes] at hframes'
    cases hframes'
    exact hbelow _ hreaches (frames_leave r below) hbodies₁
  | @passed top' below' m _ _ hpasses _ =>
    have hframes' := hpasses.frames
    rw [hframes] at hframes'
    cases hframes'
    have hpos := hpasses.pos
    have hle := hpasses.le
    have hrest : (top.advance m).rest.length = top.rest.length - m := List.length_drop
    refine ihn _ (by omega) r₁ _ below hsound₁ hbound₁ hbodies₁ hpasses.frames_eq ?_ rfl ?_
    · rw [← hspare, hpasses.frames_eq, hframes]
      rfl
    · exact fun r' hr' => hbelow r' (hreaches.trans hr')
  | @entered top' below' m body w _ name henters _ =>
    have hframes' := henters.frames
    rw [hframes] at hframes'
    cases hframes'
    have hpos := henters.pos
    have hle := henters.le
    have hrest : (top.advance m).rest.length = top.rest.length - m := List.length_drop
    have hfewer := henters.spare_lt hsound₁ heq.symm
    rw [hbodies₁, hbodies, hspare] at hfewer
    refine ihk _ hfewer _ r₁ _ _ hsound₁ hbound₁ hbodies₁ henters.frames_eq rfl rfl ?_
    -- the frame of the expansion has been taken off, and the frame below has less text left
    intro r₂ hr₂ hframes₂ hbodies₂
    have hreaches₂ := hreaches.trans hr₂
    refine ihn _ (by omega) r₂ _ below (hsound.reaches hreaches₂) (hbound.reaches hreaches₂)
      hbodies₂ hframes₂ ?_ rfl ?_
    · rw [← hspare, hframes₂, hframes]
      rfl
    · exact fun r' hr' => hbelow r' (hreaches₂.trans hr')

/-- A reader ends if the number of definitions stays bounded. -/
theorem Sound.ends {bound : Nat} (h : r.Sound) (hbound : Bounded bound r) : Ends r := by
  induction hmissing : bound - r.visited.bodies.size using Nat.strongRecOn generalizing r with
  | ind missing ih =>
  have hmore : ∀ r', r'.Sound → Bounded bound r' →
      r.visited.bodies.size < r'.visited.bodies.size → Ends r' := by
    intro r' hsound hbound' hlt
    have hle := hbound' r' (.refl r')
    exact ih _ (by omega) hsound hbound' rfl
  -- one frame after the other is taken off
  have hstack : ∀ (frames : List Frame) (r' : Reader), r'.Sound → Bounded bound r' →
      r'.visited.bodies.size = r.visited.bodies.size → r'.frames = frames → Ends r' := by
    intro frames
    induction frames with
    | nil => exact fun r' _ _ _ hframes => .done hframes
    | cons top below ihframes =>
      intro r' hsound hbound' hbodies hframes
      refine ends_of_below hmore _ _ r' top below hsound hbound' hbodies hframes rfl rfl ?_
      intro r'' hreaches hframes' hbodies'
      exact ihframes r'' (hsound.reaches hreaches) (hbound'.reaches hreaches) hbodies' hframes'
  exact hstack _ r h hbound rfl rfl

/-! ## Reading all tokens -/

/-- If the reader comes to its end, all tokens can be read. -/
theorem Ends.readAll (h : Ends r) : ∃ budget result, ∀ larger, budget ≤ larger →
    r.readAll larger = .ok result := by
  have hsucc : ∀ {budget larger : Nat}, budget + 1 ≤ larger → ∃ n, larger = n + 1 ∧ budget ≤ n :=
    fun {budget larger} hle => ⟨larger - 1, by omega, by omega⟩
  induction h with
  | @done r hframes =>
    refine ⟨1, ([⟨r.endLoc, .endOfFile, ""⟩], r), ?_⟩
    intro larger hlarger
    obtain ⟨n, rfl, -⟩ := hsucc hlarger
    rw [Reader.readAll, readToken_of_frames_nil hframes]
    rfl
  | @step r r' t? hstep _ ih =>
    obtain ⟨budget, result, hall⟩ := ih
    cases t? with
    | none =>
      refine ⟨budget + 1, result, ?_⟩
      intro larger hlarger
      obtain ⟨n, rfl, hn⟩ := hsucc hlarger
      rw [← hall (n + 1) (Nat.le_succ_of_le hn), Reader.readAll, Reader.readAll,
        readToken_of_step hstep]
    | some token =>
      have hread : r.readToken = .ok (token, r') := by rw [readToken_eq, hstep]
      by_cases hend : token.kind = .endOfFile
      · refine ⟨1, ([token], r'), ?_⟩
        intro larger hlarger
        obtain ⟨n, rfl, -⟩ := hsucc hlarger
        rw [Reader.readAll, hread]
        simp only [bind, Except.bind, hend, if_true]
        rfl
      · refine ⟨budget + 1, (token :: result.1, result.2), ?_⟩
        intro larger hlarger
        obtain ⟨n, rfl, hn⟩ := hsucc hlarger
        rw [Reader.readAll, hread]
        simp only [bind, Except.bind, hend, if_false, hall n hn]
        rfl

theorem Skips.reaches (h : Skips r r') : Reaches r r' := by
  induction h with
  | refl r => exact .refl r
  | step hstep _ ih => exact .step hstep ih

theorem reaches_of_readToken {token : Token} (h : r.readToken = .ok (token, r')) :
    Reaches r r' := by
  obtain ⟨before, hskips, hstep⟩ := readToken_eq_ok_iff.1 h
  exact hskips.reaches.trans (.step hstep (.refl r'))

theorem Sound.bodies_le_of_reaches (h : r.Sound) (hreaches : Reaches r r') :
    r.visited.bodies.size ≤ r'.visited.bodies.size := by
  induction hreaches with
  | refl _ => exact Nat.le_refl _
  | step hstep hrest ih =>
    exact Nat.le_trans (h.bodies_le hstep) (ih (h.reaches (.step hstep (.refl _))))

theorem Reaches.ends (h : Reaches r r') (hends : Ends r') : Ends r := by
  induction h with
  | refl _ => exact hends
  | step hstep _ ih => exact .step hstep (ih hends)

/-- If all tokens can be read, the reader comes to its end. -/
theorem Sound.ends_of_readAll {budget : Nat} {result : List Token × Reader} (h : r.Sound)
    (hall : r.readAll budget = .ok result) : Ends r := by
  induction budget generalizing r result with
  | zero => cases hall
  | succ budget ih =>
    rw [Reader.readAll] at hall
    obtain ⟨⟨token, r₁⟩, hread, hall⟩ := Halt.bind_eq_ok hall
    have hreaches := reaches_of_readToken hread
    simp only at hall
    split at hall
    next hend => exact hreaches.ends (.done (h.readToken_end hread hend).1)
    next =>
      obtain ⟨rest, hrest, -⟩ := Halt.bind_eq_ok hall
      exact hreaches.ends (ih (h.reaches hreaches) hrest)

/-- Reading more at the end of the file changes nothing. -/
theorem readMany_of_frames_nil (h : r.frames = []) {count : Nat} {tokens : List Token}
    (hmany : r.readMany count = .ok (tokens, r')) : r' = r := by
  induction count generalizing tokens with
  | zero =>
    cases hmany
    rfl
  | succ count ih =>
    obtain ⟨token, r₁, rest, hfirst, hrest, -⟩ := readMany_succ_eq_ok_iff.1 hmany
    rw [readToken_of_frames_nil h] at hfirst
    cases hfirst
    exact ih hrest

/-- However many tokens are read, there are no more bodies than after all of them. -/
theorem Sound.bodies_le_of_readAll {budget count : Nat} {all tokens : List Token} {last : Reader}
    (h : r.Sound) (hall : r.readAll budget = .ok (all, last))
    (hmany : r.readMany count = .ok (tokens, r')) :
    r'.visited.bodies.size ≤ last.visited.bodies.size := by
  induction budget generalizing r r' all count tokens with
  | zero => cases hall
  | succ budget ih =>
    rw [Reader.readAll] at hall
    obtain ⟨⟨token, r₁⟩, hread, hall⟩ := Halt.bind_eq_ok hall
    have hreaches := reaches_of_readToken hread
    have hsound := h.reaches hreaches
    have hfirst := h.bodies_le_of_reaches hreaches
    -- reading one token more than `count` is reading `count` tokens after the first one
    have hlater : ∀ {count tokens}, r.readMany (count + 1) = .ok (tokens, r') →
        ∃ rest, r₁.readMany count = .ok (rest, r') := by
      intro count tokens hmany
      obtain ⟨token', r₂, rest, hfirst, hrest, -⟩ := readMany_succ_eq_ok_iff.1 hmany
      rw [hread] at hfirst
      cases hfirst
      exact ⟨rest, hrest⟩
    simp only at hall
    split at hall
    next hend =>
      cases hall
      cases count with
      | zero =>
        cases hmany
        exact hfirst
      | succ count =>
        obtain ⟨rest, hrest⟩ := hlater hmany
        rw [readMany_of_frames_nil (h.readToken_end hread hend).1 hrest]
    next =>
      obtain ⟨⟨rest, r₂⟩, hrest, hall⟩ := Halt.bind_eq_ok hall
      cases hall
      cases count with
      | zero =>
        cases hmany
        have hnone : r₁.readMany 0 = .ok ([], r₁) := rfl
        exact Nat.le_trans hfirst (ih hsound hrest hnone)
      | succ count =>
        obtain ⟨rest', hrest'⟩ := hlater hmany
        exact ih hsound hrest hrest'

/-- Whatever state the reader comes to, it comes to a token after it. -/
theorem Sound.readMany_of_reaches (h : r.Sound) (hreaches : Reaches r r') :
    ∃ count tokens r'', r.readMany count = .ok (tokens, r'') ∧
      r'.visited.bodies.size ≤ r''.visited.bodies.size := by
  have hsucc : ∃ count tokens r'', r.readMany (count + 1) = .ok (tokens, r'') ∧
      r'.visited.bodies.size ≤ r''.visited.bodies.size := by
    induction hreaches with
    | refl r =>
      obtain ⟨tokens, r'', hmany⟩ := h.readMany 1
      obtain ⟨token, r₁, rest, hread, hrest, rfl⟩ := readMany_succ_eq_ok_iff.1 hmany
      cases hrest
      exact ⟨0, _, _, hmany, h.bodies_le_of_reaches (reaches_of_readToken hread)⟩
    | @step r₁ r₂ r₃ t? hstep _ ih =>
      obtain ⟨count, tokens, r'', hmany, hle⟩ := ih (h.reaches (.step hstep (.refl r₂)))
      cases t? with
      | none =>
        refine ⟨count, tokens, r'', ?_, hle⟩
        rw [Reader.readMany, readToken_of_step hstep]
        exact hmany
      | some token =>
        refine ⟨count + 1, token :: tokens, r'', ?_, hle⟩
        refine readMany_succ_eq_ok_iff.2 ⟨token, r₂, tokens, ?_, hmany, rfl⟩
        rw [readToken_eq, hstep]
  obtain ⟨count, hcount⟩ := hsucc
  exact ⟨count + 1, hcount⟩

end Reader

/-! ## Tokenizing -/

/-- Tokenizing ends exactly if the number of definitions stays bounded, however many tokens are
read. -/
theorem tokenizeWithin_ends_iff (config : Configuration) (path source : String) :
    (∃ budget result, ∀ larger, budget ≤ larger →
      tokenizeWithin larger config path source = .ok result) ↔
    ∃ bound, ∀ count, ∃ tokens r,
      ((Reader.new .empty config).push path source).2.readMany count = .ok (tokens, r) ∧
        r.visited.bodies.size ≤ bound := by
  have hsound := Reader.sound_pushed config path source
  constructor
  · rintro ⟨budget, result, hends⟩
    obtain ⟨⟨all, last⟩, hall, -⟩ := Halt.bind_eq_ok (hends budget (Nat.le_refl _))
    refine ⟨last.visited.bodies.size, ?_⟩
    intro count
    obtain ⟨tokens, r, hmany⟩ := hsound.readMany count
    exact ⟨tokens, r, hmany, hsound.bodies_le_of_readAll hall hmany⟩
  · rintro ⟨bound, hbound⟩
    have hbounded : Reader.Bounded bound ((Reader.new .empty config).push path source).2 := by
      intro r' hreaches
      obtain ⟨count, tokens, r'', hmany, hle⟩ := hsound.readMany_of_reaches hreaches
      obtain ⟨tokens', r₃, hmany', hle'⟩ := hbound count
      rw [hmany] at hmany'
      cases hmany'
      exact Nat.le_trans hle hle'
    obtain ⟨budget, ⟨all, last⟩, hall⟩ := (hsound.ends hbounded).readAll
    refine ⟨budget, ⟨all.dropLast, last.errors, last.visited⟩, ?_⟩
    intro larger hlarger
    show (((Reader.new .empty config).push path source).2.readAll larger >>= _) = _
    rw [hall larger hlarger]
    rfl

/-- No body is added if definitions in the text take no effect. -/
theorem Reader.Move.ignored {r r' : Reader} {t? : Option Token} (h : r.Move t? r')
    (hignored : r.registerDefines = false) :
    r'.registerDefines = false ∧ r'.visited.bodies.size = r.visited.bodies.size := by
  cases h with
  | ended _ => exact ⟨hignored, rfl⟩
  | @left top below _ _ =>
    cases below with
    | nil => exact ⟨hignored, rfl⟩
    | cons parent below => exact ⟨hignored, rfl⟩
  | passed hpasses _ =>
    rcases hpasses.visited with heq | ⟨henabled, -⟩
    · exact ⟨hpasses.registerDefines_eq.trans hignored, by rw [heq]⟩
    · rw [hignored] at henabled
      cases henabled
  | entered henters _ =>
    obtain ⟨filled, heq⟩ := henters.visited
    exact ⟨henters.registerDefines_eq.trans hignored, by rw [heq]; rfl⟩

/-- Definitions in the text are the only way to more definitions. -/
theorem Reader.Sound.bounded_of_ignored {r : Reader} (h : r.Sound)
    (hignored : r.registerDefines = false) :
    Reader.Bounded r.visited.bodies.size r := by
  intro r' hreaches
  suffices r'.visited.bodies.size = r.visited.bodies.size from Nat.le_of_eq this
  induction hreaches with
  | refl _ => rfl
  | step hstep _ ih =>
    obtain ⟨_, _, heq, hsound, hmove⟩ := h.step
    rw [hstep] at heq
    cases heq
    have hkept := hmove.ignored hignored
    rw [ih hsound hkept.1, hkept.2]

/-- Tokenizing ends if definitions in the text take no effect. -/
theorem tokenizeWithin_ends_of_ignored (config : Configuration)
    (hignored : config.registerDefines = false) (path source : String) :
    ∃ budget result, ∀ larger, budget ≤ larger →
      tokenizeWithin larger config path source = .ok result := by
  have hsound := Reader.sound_pushed config path source
  have hregister : ((Reader.new .empty config).push path source).2.registerDefines = false := by
    rw [← hignored]
    exact (Reader.blank_new config).2
  obtain ⟨budget, ⟨all, last⟩, hall⟩ :=
    (hsound.ends (hsound.bounded_of_ignored hregister)).readAll
  refine ⟨budget, ⟨all.dropLast, last.errors, last.visited⟩, ?_⟩
  intro larger hlarger
  show (((Reader.new .empty config).push path source).2.readAll larger >>= _) = _
  rw [hall larger hlarger]
  rfl

/-! ## A source without an end -/

namespace Reader

variable {r r' : Reader} {top : Frame} {below : List Frame}

/-- A macro with a text of its own and without parameters is entered with that text. -/
theorem expand_literal {body : Nat} {definition : MacroBody}
    (hbody : r.visited.bodies[body]? = some definition) (hparams : definition.params = [])
    {text : String} (hliteral : definition.text = .literal text) (name : String) (loc : LinearLoc)
    (parent : Frame) (callSite : Nat) :
    r.expand body name loc parent callSite = .ok (⟨loc, .macroUse, name⟩,
      { r with
        visited :=
          (r.visited.addVisit (.expansion body parent.visit (callSite % offsetRange) none)).2 }.enter
        (Frame.ofWindow r.visited.visits.size (some body) ⟨text, 0, text.utf8ByteSize⟩) loc) := by
  have hwindow :
      (r.visited.addVisit (.expansion body parent.visit (callSite % offsetRange) none)).2.window
        r.visited.visits.size = .ok ⟨text, 0, text.utf8ByteSize⟩ := by
    unfold Visited.window
    rw [show (r.visited.addVisit _).2.visits[r.visited.visits.size]? = some _ from
      Array.getElem?_push_size]
    show (Halt.require r.visited.bodies[body]? >>= _) = _
    rw [hbody]
    show Visited.bodyWindow _ definition = _
    rw [Visited.bodyWindow, hliteral]
  unfold Reader.expand
  simp only [hbody, Halt.require_some, hparams, if_true, bind, Except.bind, pure, Except.pure,
    Visited.fst_addVisit, hwindow]

/-- A macro without arguments is entered when its name is read. -/
theorem deal_use {scan : Scan} (hkind : scan.kind? = some .identifier)
    (heffect : scan.effect = .nothing) {name : String}
    (htext : Text.ofBytes? (top.rest.take scan.len) = some name) {body : Nat}
    (hactive : (r.behind scan top below).activeMacro? name = some body) {definition : MacroBody}
    (hbody : r.visited.bodies[body]? = some definition) (hargs : definition.takesArgs = false)
    (hparams : definition.params = []) {text : String} (hliteral : definition.text = .literal text) :
    r.deal scan top below = .ok (some ⟨r.locOf top, .macroUse, name⟩,
      { r.behind scan top below with
        args := []
        visited := (r.visited.addVisit (.expansion body top.visit
          ((top.pos - top.start) % offsetRange) none)).2 }.enter
        (Frame.ofWindow r.visited.visits.size (some body) ⟨text, 0, text.utf8ByteSize⟩)
        (r.locOf top)) := by
  unfold deal
  rw [hkind, heffect, htext]
  have hvisited : (r.behind scan top below).visited = r.visited := rfl
  rw [← hvisited] at hbody ⊢
  generalize r.behind scan top below = r₁ at hactive hbody
  have hexpand := expand_literal (r := { r₁ with args := [] }) hbody hparams hliteral name
    (r.locOf top) (top.advance scan.len) (top.pos - top.start)
  simp only [perform, Halt.require_some, bind, Except.bind, if_true]
  unfold Reader.readName
  rw [hactive]
  simp only [hbody, Halt.require_some, hargs, bind, Except.bind, Bool.false_eq_true, if_false]
  rw [show (top.advance scan.len).start = top.start from rfl, hexpand]
  rfl

/-- In an expansion, a definition without parameters is registered with its text. -/
theorem deal_define {scan : Scan} (hkind : scan.kind? = some .directive) {offset : Nat}
    (heffect : scan.effect = .define offset) {text : String}
    (htext : Text.ofBytes? (top.rest.take scan.len) = some text) (henabled : r.registerDefines = true)
    {body parent callSite : Nat} {filled : Option String}
    (hvisit : r.visited.visits[top.visit]? = some (.expansion body parent callSite filled))
    {d : Definition} (hd : Definition.parse? ((top.rest.take scan.len).drop offset) = some d)
    (hparams : d.params? = none) {name replacement : String} (hname : Text.ofBytes? d.name = some name)
    (hreplacement : Text.ofBytes? (Definition.joinLines d.body) = some replacement) :
    r.deal scan top below = .ok (some ⟨r.locOf top, .directive, text⟩,
      { r.behind scan top below with
        visited := (r.visited.addBody ⟨name, .literal replacement, false, []⟩).2
        macros := r.macros.insert name r.visited.bodies.size }) := by
  unfold deal
  rw [hkind, heffect, htext]
  simp only [perform, Halt.require_some, bind, Except.bind, behind, henabled, if_true, hd]
  unfold register fileOf?
  simp only [hvisit, hname, hparams, Halt.require_some, bind, Except.bind, pure, Except.pure,
    Option.getD_none, List.mapM_nil, hreplacement, Option.isSome_none]
  rfl

/-- A sound reader with the given bodies, macros and frames, in which definitions take effect. -/
structure Shows (r : Reader) (lineStart : Bool) (bodies : Array MacroBody) (macros : MacroTable)
    (frames : List Frame) : Prop where
  /-- The reader is in order. -/
  sound : r.Sound
  /-- Definitions take effect. -/
  registerDefines : r.registerDefines = true
  /-- A `>` is read as usual. -/
  closeAnglesOnly : r.closeAnglesOnly = false
  /-- Whether the next lexeme stands at the start of a line. -/
  lineStart : r.lineStart = lineStart
  /-- The bodies. -/
  bodies : r.visited.bodies = bodies
  /-- The macros. -/
  macros : r.macros = macros
  /-- The frames. -/
  frames : r.frames = frames

section
variable {lineStart : Bool} {bodies : Array MacroBody} {macros : MacroTable} (b : UInt8) (bs : Bytes)
  (scan : Scan)

theorem Shows.step_eq_deal (h : r.Shows lineStart bodies macros (top :: below)) (hrest : top.rest = b :: bs)
    (hscan : Lexeme.scanFrom false lineStart 0 b bs = scan) :
    r.step = r.deal scan top below := by
  obtain ⟨w, -, hreads⟩ := h.sound.window h.frames
  refine Reader.step_eq_deal h.frames hrest hreads.missing_eq ?_
  rw [h.closeAnglesOnly, h.lineStart]
  exact hscan

theorem Shows.skip (h : r.Shows lineStart bodies macros (top :: below)) (hrest : top.rest = b :: bs)
    (hscan : Lexeme.scanFrom false lineStart 0 b bs = scan)
    (hkind : scan.kind? = none) :
    ∃ r', Reaches r r' ∧ r'.Shows scan.lineStart bodies macros (top.advance scan.len :: below) := by
  have hstep : r.step = .ok (none, r.behind scan top below) := by
    rw [h.step_eq_deal b bs scan hrest hscan, deal, hkind]
  have hreaches : Reaches r (r.behind scan top below) := .step hstep (.refl _)
  exact ⟨_, hreaches, h.sound.reaches hreaches, h.registerDefines, h.closeAnglesOnly, rfl,
    h.bodies, h.macros, rfl⟩

theorem Shows.leave (h : r.Shows lineStart bodies macros (top :: below)) (hrest : top.rest = []) :
    ∃ r', Reaches r r' ∧ r'.Shows lineStart bodies macros below := by
  obtain ⟨w, -, hreads⟩ := h.sound.window h.frames
  have hstep : r.step = .ok (none, r.leave below) := by
    rw [Reader.step, h.frames]
    simp only [hrest, hreads.missing_eq, if_true]
  have hreaches : Reaches r (r.leave below) := .step hstep (.refl _)
  have hsound := h.sound.reaches hreaches
  refine ⟨_, hreaches, ?_⟩
  cases below with
  | nil => exact ⟨hsound, h.registerDefines, h.closeAnglesOnly, h.lineStart, h.bodies, h.macros, rfl⟩
  | cons parent below =>
    exact ⟨hsound, h.registerDefines, h.closeAnglesOnly, h.lineStart, h.bodies, h.macros, rfl⟩

theorem Shows.use (h : r.Shows lineStart bodies macros (top :: below)) (hrest : top.rest = b :: bs)
    (hscan : Lexeme.scanFrom false lineStart 0 b bs = scan)
    (hkind : scan.kind? = some .identifier) (heffect : scan.effect = .nothing) (name : String)
    (htext : Text.ofBytes? ((b :: bs).take scan.len) = some name) {body : Nat}
    (hfind : macros.find? name = some body) (hinactive : body ∉ active (top :: below))
    {text : String} (hbody : bodies[body]? = some ⟨name, .literal text, false, []⟩) :
    ∃ r' f, Reaches r r' ∧
      r'.Shows scan.lineStart bodies macros (f :: top.advance scan.len :: below) ∧
      f.rest = Text.bytes text ∧ f.body? = some body := by
  have hactive : (r.behind scan top below).activeMacro? name = some body := by
    unfold Reader.activeMacro?
    rw [show (r.behind scan top below).macros = macros from h.macros, hfind]
    simp only
    rw [if_neg]
    intro hany
    rw [← active_advance scan.len] at hinactive
    obtain ⟨f, hf, hf'⟩ := List.any_eq_true.1 hany
    exact hinactive (List.mem_filterMap.2 ⟨f, hf, by simpa using hf'⟩)
  rw [← hrest] at htext
  rw [← h.bodies] at hbody
  have hstep := (h.step_eq_deal b bs scan hrest hscan).trans
    (deal_use hkind heffect htext hactive hbody rfl rfl rfl)
  have hreaches := Reaches.step hstep (.refl _)
  refine ⟨_, _, hreaches, ⟨h.sound.reaches hreaches, h.registerDefines, h.closeAnglesOnly,
    rfl, h.bodies, h.macros, rfl⟩, ?_, rfl⟩
  exact Window.bytes_whole text

theorem Shows.define (h : r.Shows lineStart bodies macros (top :: below)) (hrest : top.rest = b :: bs)
    (hscan : Lexeme.scanFrom false lineStart 0 b bs = scan) {active : Nat}
    (hbody : top.body? = some active) (hkind : scan.kind? = some .directive) {offset : Nat}
    (heffect : scan.effect = .define offset) (text : String)
    (htext : Text.ofBytes? ((b :: bs).take scan.len) = some text) (d : Definition)
    (hd : Definition.parse? (((b :: bs).take scan.len).drop offset) = some d)
    (hparams : d.params? = none) (name replacement : String)
    (hname : Text.ofBytes? d.name = some name)
    (hreplacement : Text.ofBytes? (Definition.joinLines d.body) = some replacement) :
    ∃ r', Reaches r r' ∧
      r'.Shows scan.lineStart (bodies.push ⟨name, .literal replacement, false, []⟩)
        (macros.insert name bodies.size) (top.advance scan.len :: below) := by
  rw [← hrest] at htext hd
  have hstacked := h.sound.stacked
  rw [h.frames] at hstacked
  cases hstacked with
  | file _ hfile _ =>
    rw [hbody] at hfile
    cases hfile
  | expansion hvisit _ _ =>
    have hstep := (h.step_eq_deal b bs scan hrest hscan).trans
      (deal_define hkind heffect htext h.registerDefines hvisit hd hparams hname hreplacement)
    have hreaches := Reaches.step hstep (.refl _)
    refine ⟨_, hreaches, h.sound.reaches hreaches, h.registerDefines, h.closeAnglesOnly, rfl,
      ?_, ?_, rfl⟩
    · show r.visited.bodies.push _ = _
      rw [h.bodies]
    · show r.macros.insert name r.visited.bodies.size = _
      rw [h.macros, h.bodies]

end

/-- A reader that is about to read the text `A B` of the macro `B`, where `A` defines `B` anew. -/
structure Turns (r : Reader) : Prop where
  /-- The text is next, and the macro `A` is there and not being expanded. -/
  shows_ : ∃ lineStart bodies macros top below definer,
    r.Shows lineStart bodies macros (top :: below) ∧
    top.rest = Text.bytes "A B" ∧ macros.find? "A" = some definer ∧
    definer ∉ active (top :: below) ∧
    bodies[definer]? = some ⟨"A", .literal " \n#define B A B", false, []⟩

/-- After one turn there is another one, and one more body. -/
theorem Turns.next (h : r.Turns) :
    ∃ r', Reaches r r' ∧ r'.Turns ∧ r.visited.bodies.size < r'.visited.bodies.size := by
  obtain ⟨lineStart, bodies, macros, top, below, definer, h₀, hrest, hfind, hinactive, hbody⟩ := h.shows_
  -- `A` is entered
  obtain ⟨r₁, f, hreach₁, h₁, htext, hactive⟩ := h₀.use 65 [32, 66]
    { kind? := some .identifier, len := 1, seen := 2 } (by rw [hrest]; decide)
    (by cases lineStart <;> decide) rfl rfl "A" (by decide) hfind hinactive hbody
  -- the line break in its text is skipped
  obtain ⟨r₂, hreach₂, h₂⟩ := h₁.skip 32 (Text.bytes "\n#define B A B")
    { kind? := none, len := 2, seen := 3, lineStart := true }
    (by rw [htext]; decide) (by decide) rfl
  -- the directive in its text defines `B`
  have hrest₂ : (f.advance 2).rest = Text.bytes "#define B A B" := by
    show f.rest.drop 2 = _
    rw [htext]
    decide
  obtain ⟨r₃, hreach₃, h₃⟩ := h₂.define 35 (Text.bytes "define B A B")
    { kind? := some .directive, len := 13, seen := 14, lineStart := true, effect := .define 7 }
    (by rw [hrest₂]; decide) (by decide) hactive rfl rfl "#define B A B" (by decide)
    ⟨[66], none, 3, [65, 32, 66]⟩ (by decide) rfl "B" "A B"
    (by decide) (by decide)
  -- its frame is taken off
  obtain ⟨r₄, hreach₄, h₄⟩ := h₃.leave (by
    show (f.advance 2).rest.drop 13 = _
    rw [hrest₂]
    decide)
  -- the new `B` is entered
  obtain ⟨r₅, hreach₅, h₅⟩ := h₄.skip 32 [66]
    { kind? := none, len := 1, seen := 2, lineStart := true }
    (by show top.rest.drop 1 = _; rw [hrest]; decide) (by decide) rfl
  have hlt : ∀ body ∈ active (top :: below), body < bodies.size := by
    rw [← h₀.frames, ← h₀.bodies]
    exact h₀.sound.active_lt
  obtain ⟨r₆, g, hreach₆, h₆, hg, hnew⟩ := h₅.use 66 []
    { kind? := some .identifier, len := 1, seen := 2 }
    (by show (top.rest.drop 1).drop 1 = _; rw [hrest]; decide) (by decide) rfl rfl
    "B" (by decide) (MacroTable.find?_insert_self _ _ _)
    (fun hmem => Nat.lt_irrefl _ (hlt _ hmem)) Array.getElem?_push_size
  have hdefiner : definer < bodies.size := (Array.getElem?_eq_some_iff.1 hbody).1
  refine ⟨r₆, ?_, ⟨_, _, _, g, _, definer, h₆, hg, ?_, ?_, Visited.getElem?_push hbody⟩, ?_⟩
  · exact hreach₁.trans (hreach₂.trans (hreach₃.trans (hreach₄.trans (hreach₅.trans hreach₆))))
  · rw [MacroTable.find?_insert (by decide)]
    exact hfind
  · show definer ∉ (g :: top :: below).filterMap Frame.body?
    rw [List.filterMap_cons_some hnew, List.mem_cons, not_or]
    exact ⟨Nat.ne_of_lt hdefiner, hinactive⟩
  · rw [h₀.bodies, h₆.bodies, Array.size_push]
    exact Nat.lt_succ_self _

/-- Turn after turn, there are more bodies than any given number. -/
theorem Turns.unbounded (h : r.Turns) (n : Nat) :
    ∃ r', Reaches r r' ∧ n ≤ r'.visited.bodies.size := by
  have hturns : ∃ r', Reaches r r' ∧ r'.Turns ∧ n ≤ r'.visited.bodies.size := by
    induction n with
    | zero => exact ⟨r, .refl r, h, Nat.zero_le _⟩
    | succ n ih =>
      obtain ⟨r₁, hreaches₁, hturns₁, hle⟩ := ih
      obtain ⟨r₂, hreaches₂, hturns₂, hlt⟩ := hturns₁.next
      exact ⟨r₂, hreaches₁.trans hreaches₂, hturns₂, Nat.succ_le_of_lt (Nat.lt_of_le_of_lt hle hlt)⟩
  obtain ⟨r', hreaches, -, hle⟩ := hturns
  exact ⟨r', hreaches, hle⟩

theorem reaches_of_readMany {count : Nat} {tokens : List Token}
    (h : r.readMany count = .ok (tokens, r')) : Reaches r r' := by
  induction count generalizing r tokens with
  | zero =>
    cases h
    exact .refl _
  | succ count ih =>
    obtain ⟨token, r₁, rest, hfirst, hrest, -⟩ := readMany_succ_eq_ok_iff.1 h
    exact (reaches_of_readToken hfirst).trans (ih hrest)

/-- Reading all tokens of a sound reader can only fail for want of a larger budget. -/
theorem Sound.readAll_error (h : r.Sound) {budget : Nat} {halt : Halt}
    (herror : r.readAll budget = .error halt) : halt = .exhausted := by
  induction budget generalizing r with
  | zero =>
    cases herror
    rfl
  | succ budget ih =>
    obtain ⟨token, r₁, hread, hsound⟩ := h.readToken
    rw [Reader.readAll, hread] at herror
    simp only [bind, Except.bind] at herror
    split at herror
    · cases herror
    · split at herror
      next herror' =>
        cases herror
        exact ih hsound herror'
      next => cases herror

end Reader

/-- A source in which `A` defines `B` anew, and `B` uses `A` and then `B`. -/
def endless : String := "#define A \\\n\n#define B A B\nA B"

/-- The first turn is reached after four tokens. -/
theorem endless_turns : ∃ r, Reader.Reaches ((Reader.new .empty {}).push "a.h" endless).2 r ∧
    r.Turns := by
  have hstate : (((Reader.new .empty {}).push "a.h" endless).2.readMany 4).toOption.any
      (fun result => decide (result.2.closeAnglesOnly = false ∧ result.2.registerDefines = true ∧
        result.2.frames.map Frame.rest = [Text.bytes "A B", []] ∧
        result.2.frames.map Frame.body? = [some 1, none] ∧ result.2.macros.find? "A" = some 0 ∧
        result.2.visited.bodies[0]? =
          some ⟨"A", .literal " \n#define B A B", false, []⟩)) = true := by
    decide +kernel
  cases hread : ((Reader.new .empty {}).push "a.h" endless).2.readMany 4 with
  | error halt =>
    rw [hread] at hstate
    cases hstate
  | ok result =>
    obtain ⟨tokens, r⟩ := result
    rw [hread] at hstate
    obtain ⟨hclose, hregister, hrests, hbodies, hfind, hbody⟩ := of_decide_eq_true hstate
    have hreaches := Reader.reaches_of_readMany hread
    have hsound := (Reader.sound_pushed {} "a.h" endless).reaches hreaches
    obtain ⟨top, below, hframes⟩ : ∃ top below, r.frames = top :: below := by
      cases hframes : r.frames with
      | nil =>
        rw [hframes] at hrests
        cases hrests
      | cons top below => exact ⟨top, below, rfl⟩
    have hactive : Reader.active r.frames = [1] := by
      have hmap : Reader.active r.frames = (r.frames.map Frame.body?).filterMap id := by
        rw [List.filterMap_map]
        rfl
      rw [hmap, hbodies]
      rfl
    rw [hframes] at hrests hactive
    refine ⟨r, hreaches, ⟨r.lineStart, r.visited.bodies, r.macros, top, below, 0,
      ⟨hsound, hregister, hclose, rfl, rfl, rfl, hframes⟩, ?_, hfind, ?_, hbody⟩⟩
    · exact (List.cons.inj hrests).1
    · rw [hactive]
      decide

/-- Tokenizing `endless` never ends: no budget is enough. -/
theorem tokenizeWithin_endless (budget : Nat) :
    tokenizeWithin budget {} "a.h" endless = .error .exhausted := by
  have hsound := Reader.sound_pushed {} "a.h" endless
  cases hresult : tokenizeWithin budget {} "a.h" endless with
  | error halt =>
    change (((Reader.new .empty {}).push "a.h" endless).2.readAll budget >>= _) = _ at hresult
    cases hall : ((Reader.new .empty {}).push "a.h" endless).2.readAll budget with
    | error halt' =>
      rw [hall] at hresult
      cases hresult
      rw [hsound.readAll_error hall]
    | ok result =>
      rw [hall] at hresult
      cases hresult
  | ok result =>
    obtain ⟨⟨all, last⟩, hall, -⟩ := Halt.bind_eq_ok hresult
    obtain ⟨r, hreaches, hturns⟩ := endless_turns
    obtain ⟨r', hreaches', hmany⟩ := hturns.unbounded (last.visited.bodies.size + 1)
    obtain ⟨count, tokens, r'', hread, hle⟩ := hsound.readMany_of_reaches (hreaches.trans hreaches')
    have hbound := hsound.bodies_le_of_readAll hall hread
    omega

/-- So it is not true that tokenizing always ends. -/
theorem not_tokenizes_endless : ¬ ∃ budget result,
    tokenizeWithin budget {} "a.h" endless = .ok result := by
  rintro ⟨budget, result, hresult⟩
  rw [tokenizeWithin_endless] at hresult
  cases hresult

end CppDecl
