import CppDecl.Proofs.Reader
import CppDecl.Tokens

/-!
# Plain texts

A text is read *plainly* if no macro is defined beforehand and definitions in the text take no
effect.  Reading is then the same as cutting the text into lexemes, one behind the other.  `Lexes`
says what comes of that: the tokens and the faults of a run of bytes, from the lexeme at its start
and what comes of the rest.  Every text can be cut (`exists_lexes`), and what is cut out of it is
what reading gives, if the budget allows one token more than there are (`Lexes.tokenizeWithin_eq`).

`tokenizeWithin_lossless` says that nothing is lost on the way.  A lexeme is a token, or it is made
of blanks, or one of its faults names its first byte.  So tokens have the text at their places, and a
stretch between tokens with more than blanks in it has a place that some fault names.
-/

namespace CppDecl

open Text (Whole)
open Byte (isBlank)

/-! ## Definitions -/

/-- How a text is read plainly. -/
def plainly : Configuration := { registerDefines := false }

/-- What comes of a run of bytes that is cut into lexemes: tokens and faults, in order.  The first
byte has the given offset, and stands at the start of a line or not. -/
inductive Lexes : Nat → Bool → Bytes → List Token → List LexError → Prop
  /-- Nothing comes of no bytes. -/
  | done {base : Nat} {lineStart : Bool} : Lexes base lineStart [] [] []
  /-- The first lexeme is no token. -/
  | skip {base : Nat} {lineStart : Bool} {b : UInt8} {bs : Bytes} {scan : Scan}
      {tokens : List Token} {errors : List LexError}
      (scanned : Lexeme.scanFrom false lineStart 0 b bs = scan) (kind_eq : scan.kind? = none)
      (rest : Lexes (base + scan.len) scan.lineStart ((b :: bs).drop scan.len) tokens errors) :
      Lexes base lineStart (b :: bs) tokens (scan.faults.map (Fault.locate base) ++ errors)
  /-- The first lexeme is a token. -/
  | token {base : Nat} {lineStart : Bool} {b : UInt8} {bs : Bytes} {scan : Scan}
      {kind : TokenKind} {text : String} {tokens : List Token} {errors : List LexError}
      (scanned : Lexeme.scanFrom false lineStart 0 b bs = scan) (kind_eq : scan.kind? = some kind)
      (text_eq : Text.bytes text = (b :: bs).take scan.len)
      (rest : Lexes (base + scan.len) scan.lineStart ((b :: bs).drop scan.len) tokens errors) :
      Lexes base lineStart (b :: bs) (⟨base, kind, text⟩ :: tokens)
        (scan.faults.map (Fault.locate base) ++ errors)

/-- The offset lies in the token. -/
def Token.Covers (t : Token) (offset : Nat) : Prop :=
  t.loc ≤ offset ∧ offset < t.loc + t.text.utf8ByteSize

/-- A stretch of a text of the given length that lies outside of all tokens and cannot be made any
longer. -/
structure Uncovered (tokens : List Token) (length start stop : Nat) : Prop where
  /-- The stretch is not empty. -/
  nonempty : start < stop
  /-- The stretch lies in the text. -/
  inside : stop ≤ length
  /-- No offset of the stretch lies in a token. -/
  outside : ∀ offset, start ≤ offset → offset < stop → ∀ t ∈ tokens, ¬ t.Covers offset
  /-- Right before the stretch there is a token, or nothing. -/
  front : start = 0 ∨ ∃ t ∈ tokens, t.Covers (start - 1)
  /-- Right behind the stretch there is a token, or nothing. -/
  back : stop = length ∨ ∃ t ∈ tokens, t.Covers stop

/-- The fault names a place in the stretch: it was noticed there, or something unfinished began
there. -/
def LexError.NamesIn (e : LexError) (start stop : Nat) : Prop :=
  (start ≤ e.loc ∧ e.loc < stop) ∨ (start ≤ e.other ∧ e.other < stop)

/-- A run of bytes is made of the texts of the tokens in order, with blanks around them. -/
inductive Spaced : Bytes → List Token → Prop
  /-- Behind the last token there are blanks. -/
  | last {gap : Bytes} (blank : ∀ b ∈ gap, isBlank b = true) : Spaced gap []
  /-- Blanks, a token, and the others. -/
  | token {gap bs : Bytes} {t : Token} {tokens : List Token}
      (blank : ∀ b ∈ gap, isBlank b = true) (rest : Spaced bs tokens) :
      Spaced (gap ++ (Text.bytes t.text ++ bs)) (t :: tokens)

/-- Tokens and faults tell all that is in a source. -/
structure Lossless (source : String) (result : Tokens) : Prop where
  /-- The text of a token is what the source has at its place. -/
  text : ∀ t ∈ result.tokens, ∃ start : Nat, t.loc = start ∧
    Text.slice? source start (start + t.text.utf8ByteSize) = some t.text
  /-- Tokens are in order and do not overlap. -/
  order : result.tokens.Pairwise fun t u => t.loc + (t.text.utf8ByteSize : LinearLoc) ≤ u.loc
  /-- A fault names a place in each stretch outside of the tokens, unless the stretch is blank. -/
  told : ∀ start stop, Uncovered result.tokens source.utf8ByteSize start stop →
    (∃ offset b, start ≤ offset ∧ offset < stop ∧ (Text.bytes source)[offset]? = some b ∧
      isBlank b = false) →
    ∃ e ∈ result.errors, e.NamesIn start stop
  /-- Without faults the source is the texts of the tokens with blanks around them. -/
  spaced : result.errors = [] → Spaced (Text.bytes source) result.tokens

/-! ## Skipped lexemes -/

namespace Lexeme

theorem kind_literal {beyond : Nat} {mark : UInt8} {lead : Nat} {faults : List Fault} {bs : Bytes}
    (h : (literal beyond mark lead faults bs).kind? = none) :
    ∃ f ∈ (literal beyond mark lead faults bs).faults, f.other? = some 0 := by
  unfold literal at h ⊢
  split at h
  · cases h
  next hend =>
    simp only
    exact ⟨_, List.mem_append_right _ (List.mem_singleton_self _), rfl⟩

theorem kind_rawLiteral {lead : Nat} {bs : Bytes} (h : (rawLiteral lead bs).kind? = none) :
    ∃ f ∈ (rawLiteral lead bs).faults, f.other? = some 0 := by
  unfold rawLiteral at h ⊢
  simp only at h ⊢
  split
  · exact ⟨_, List.mem_singleton_self _, rfl⟩
  next b rest hdrop =>
    rw [hdrop] at h
    simp only at h
    split
    next hparen =>
      rw [if_pos hparen] at h
      split
      next n hn =>
        rw [hn] at h
        cases h
      · exact ⟨_, List.mem_singleton_self _, rfl⟩
    · exact ⟨_, List.mem_singleton_self _, rfl⟩

theorem kind_word {beyond : Nat} {bs : Bytes} (h : (word beyond bs).kind? = none) :
    ∃ f ∈ (word beyond bs).faults, f.other? = some 0 := by
  unfold word at h ⊢
  simp only at h ⊢
  split
  next hdrop =>
    rw [hdrop] at h
    cases h
  next mark rest hdrop =>
    rw [hdrop] at h
    simp only at h
    split
    next hraw =>
      rw [if_pos hraw] at h
      exact kind_rawLiteral h
    next hraw =>
      rw [if_neg hraw] at h
      split
      next hmark =>
        rw [if_pos hmark] at h
        exact kind_literal h
      next hmark =>
        rw [if_neg hmark] at h
        cases h

theorem kind_blockComment {bs : Bytes} (h : (blockComment bs).kind? = none) :
    ∃ f ∈ (blockComment bs).faults, f.other? = some 0 := by
  unfold blockComment at h ⊢
  split at h
  · cases h
  · exact ⟨_, List.mem_singleton_self _, rfl⟩

/-- A lexeme that is no token is made of blanks, or one of its faults names its first byte. -/
theorem scanFrom_skipped {closeAnglesOnly lineStart : Bool} {beyond : Nat} {b : UInt8} {bs : Bytes}
    (h : (scanFrom closeAnglesOnly lineStart beyond b bs).kind? = none) :
    (∀ c ∈ (b :: bs).take (scanFrom closeAnglesOnly lineStart beyond b bs).len,
        isBlank c = true) ∨
      ∃ f ∈ (scanFrom closeAnglesOnly lineStart beyond b bs).faults,
        f.offset = 0 ∨ f.other? = some 0 := by
  have hbegun : ∀ {faults : List Fault}, (∃ f ∈ faults, f.other? = some 0) →
      ∃ f ∈ faults, f.offset = 0 ∨ f.other? = some 0 := fun ⟨f, hf, hother⟩ => ⟨f, hf, .inr hother⟩
  revert h
  fun_cases scanFrom closeAnglesOnly lineStart beyond b bs with
  | case1 =>
    intro _
    left
    show ∀ c ∈ (b :: bs).take ((b :: bs).takeWhile isBlank).length, isBlank c = true
    rw [← List.prefix_iff_eq_take.1 (List.takeWhile_prefix _)]
    exact fun c hc => List.all_eq_true.1 List.all_takeWhile c hc
  | case2 =>
    rw [kind_directive]
    rintro ⟨⟩
  | case3 | case10 => exact fun _ => .inr ⟨_, List.mem_singleton_self _, .inl rfl⟩
  | case4 | case7 | case8 => rintro ⟨⟩
  | case5 => exact fun h => .inr (hbegun (kind_blockComment h))
  | case6 => exact fun h => .inr (hbegun (kind_literal h))
  | case9 => exact fun h => .inr (hbegun (kind_word h))

end Lexeme

/-! ## Cutting texts -/

variable {base : Nat} {lineStart : Bool} {bs : Bytes} {tokens : List Token}
  {errors : List LexError}

/-- Every whole run of bytes can be cut into lexemes. -/
theorem exists_lexes (h : Whole bs) (base : Nat) (lineStart : Bool) :
    ∃ tokens errors, Lexes base lineStart bs tokens errors := by
  induction hlength : bs.length using Nat.strongRecOn generalizing bs base lineStart with
  | ind n ih =>
    cases bs with
    | nil => exact ⟨[], [], .done⟩
    | cons b bs =>
      have hfits := Lexeme.fits_scanFrom false lineStart b bs
      generalize hscan : Lexeme.scanFrom false lineStart 0 b bs = scan at hfits
      obtain ⟨htaken, hbehind⟩ := h.cut hfits.cut
      have hpos := hfits.pos
      have hle := hfits.le
      obtain ⟨tokens, errors, hrest⟩ := ih ((b :: bs).drop scan.len).length
        (by rw [List.length_drop]; omega) hbehind (base + scan.len) scan.lineStart rfl
      cases hkind : scan.kind? with
      | none => exact ⟨_, _, .skip hscan hkind hrest⟩
      | some kind =>
        obtain ⟨text, htext⟩ := htaken
        exact ⟨_, _, .token hscan hkind htext hrest⟩

/-- A lexeme that is a token does not stand for the end of the file or the use of a macro. -/
theorem lexical_of_scanFrom {b : UInt8} {scan : Scan} {kind : TokenKind}
    (h : Lexeme.scanFrom false lineStart 0 b bs = scan) (hkind : scan.kind? = some kind) :
    kind ≠ .endOfFile ∧ kind ≠ .macroUse := by
  subst h
  exact (Lexeme.fits_scanFrom false lineStart b bs).lexical kind hkind

/-- There are no more tokens than bytes. -/
theorem Lexes.length_le (h : Lexes base lineStart bs tokens errors) :
    tokens.length ≤ bs.length := by
  induction h with
  | done => exact Nat.le_refl 0
  | @skip base lineStart b bs scan tokens errors hscan _ _ ih =>
    rw [List.length_drop] at ih
    omega
  | @token base lineStart b bs scan kind text tokens errors hscan _ _ _ ih =>
    have hpos := (Lexeme.fits_scanFrom false lineStart b bs).pos
    have hle := (Lexeme.fits_scanFrom false lineStart b bs).le
    rw [hscan] at hpos hle
    rw [List.length_drop] at ih
    rw [List.length_cons]
    omega

/-- A token is known by its place, its kind and its bytes. -/
theorem Token.eq_some {t? : Option Token} {loc : LinearLoc} {kind : TokenKind} {text : String}
    {bs : Bytes} (hkind : t?.map Token.kind = some kind)
    (ht : ∀ t ∈ t?, t.loc = loc ∧ Text.bytes t.text = bs) (htext : Text.bytes text = bs) :
    t? = some ⟨loc, kind, text⟩ := by
  obtain ⟨t, rfl, rfl⟩ := Option.map_eq_some_iff.1 hkind
  obtain ⟨rfl, hbytes⟩ := ht t rfl
  rw [← Text.bytes_injective (hbytes.trans htext.symm)]

/-! ## Reading plainly -/

namespace Reader

variable {r r' : Reader}

/-- If definitions take no effect, a directive can do no more than to request a file. -/
theorem perform_ignored (h : r.registerDefines = false) (f : Frame) (text : String) (bs : Bytes)
    (effect : Effect) : ∃ inclusions, r.perform f text bs effect = .ok { r with inclusions } := by
  unfold perform
  split
  · exact ⟨r.inclusions, rfl⟩
  · exact ⟨_, rfl⟩
  · rw [if_neg (by simp [h])]
    exact ⟨r.inclusions, rfl⟩
  · rw [if_neg (by simp [h])]
    exact ⟨r.inclusions, rfl⟩

/-- If no macro is defined, a name stands for itself. -/
theorem readName_of_macros_nil (h : r.macros = []) (top : Frame) (below : List Frame) (start : Nat)
    (loc : LinearLoc) (name : String) :
    r.readName top below start loc name = .ok (⟨loc, .identifier, name⟩, r) := by
  have hnone : r.activeMacro? name = none := by
    rw [activeMacro?, h]
    rfl
  rw [readName, hnone]

/-- A reader has a run of bytes before it and nothing else, and no macro is defined. -/
structure Bare (r : Reader) (base : Nat) (lineStart : Bool) (bs : Bytes) : Prop where
  /-- The reader is in order. -/
  sound : r.Sound
  /-- There is one frame, which has the bytes. -/
  frame : ∃ top, r.frames = [top] ∧ top.rest = bs ∧ r.locOf top = base
  /-- Whether the next byte stands at the start of a line. -/
  lineStart_eq : r.lineStart = lineStart
  /-- A `>` is read as the longest token that starts with it. -/
  closeAnglesOnly_eq : r.closeAnglesOnly = false
  /-- No macro is defined. -/
  macros_eq : r.macros = []

/-- The reader behind a lexeme. -/
theorem Bare.behind {b : UInt8} {scan : Scan} {top : Frame} (h : r.Bare base lineStart (b :: bs))
    (hscan : Lexeme.scanFrom false lineStart 0 b bs = scan) (hframes : r.frames = [top]) :
    (r.behind scan top []).Bare (base + scan.len) scan.lineStart ((b :: bs).drop scan.len) ∧
      (r.behind scan top []).errors = r.errors ++ scan.faults.map (Fault.locate base) := by
  obtain ⟨_, hframes', hrest, hloc⟩ := h.frame
  obtain ⟨rfl, -⟩ := List.cons_eq_cons.1 (hframes.symm.trans hframes')
  obtain ⟨w, -, hreads⟩ := h.sound.window hframes
  have hfits : scan.Fits top.rest := by
    rw [hrest, ← hscan]
    exact Lexeme.fits_scanFrom false lineStart b bs
  obtain ⟨-, hafter⟩ := hreads.whole.cut hfits.cut
  refine ⟨⟨h.sound.advance hframes hfits.le hafter rfl rfl rfl,
    ⟨top.advance scan.len, rfl, congrArg _ hrest, ?_⟩, rfl, h.closeAnglesOnly_eq, h.macros_eq⟩,
    by rw [← hloc]; rfl⟩
  have hle := hfits.le
  have hlength := hreads.length_eq
  simp only [locOf, Frame.remaining, Frame.advance, Reader.behind] at hloc ⊢
  grind

/-- What a step does with a lexeme, whatever is done at its end: `P` is known of the reader then. -/
theorem Bare.step_of_perform {P : Frame → Reader → Prop} {b : UInt8} {scan : Scan}
    (h : r.Bare base lineStart (b :: bs)) (hscan : Lexeme.scanFrom false lineStart 0 b bs = scan)
    (hbehind : ∀ top, P top (r.behind scan top []))
    (hperform : ∀ top text, ∃ r', (r.behind scan top []).perform top text (top.rest.take scan.len)
      scan.effect = .ok r' ∧ r'.macros = [] ∧ P top r') :
    ∃ top t? r', r.frames = [top] ∧ r.step = .ok (t?, r') ∧ P top r' ∧
      t?.map Token.kind = scan.kind? ∧
      ∀ t ∈ t?, t.loc = base ∧ Text.bytes t.text = (b :: bs).take scan.len := by
  obtain ⟨top, hframes, hrest, hloc⟩ := h.frame
  obtain ⟨w, -, hreads⟩ := h.sound.window hframes
  have hfits : scan.Fits top.rest := by
    rw [hrest, ← hscan]
    exact Lexeme.fits_scanFrom false lineStart b bs
  obtain ⟨t?, r', hdeal, -⟩ := h.sound.deal hframes hfits
  have hscan' : Lexeme.scanFrom r.closeAnglesOnly r.lineStart 0 b bs = scan := by
    rw [h.closeAnglesOnly_eq, h.lineStart_eq]
    exact hscan
  refine ⟨top, t?, r', hframes, (step_eq_deal hframes hrest hreads.missing_eq hscan').trans hdeal, ?_⟩
  unfold Reader.deal at hdeal
  split at hdeal
  next hnone =>
    cases hdeal
    exact ⟨hbehind top, hnone.symm, by simp⟩
  next kind hsome =>
    obtain ⟨text, htext, hdeal⟩ := Halt.bind_eq_ok hdeal
    obtain ⟨r₁, hr₁, hmacros, hP⟩ := hperform top text
    have hbytes := Text.ofBytes?_eq_some_iff.1 (Halt.require_eq_ok htext)
    rw [hrest] at hbytes
    simp only [hr₁, bind, Except.bind] at hdeal
    split at hdeal
    next hname =>
      rw [readName_of_macros_nil hmacros] at hdeal
      cases hdeal
      refine ⟨hP, by rw [hsome, hname]; rfl, ?_⟩
      rintro t ⟨⟩
      exact ⟨hloc, hbytes⟩
    next =>
      cases hdeal
      refine ⟨hP, hsome.symm, ?_⟩
      rintro t ⟨⟩
      exact ⟨hloc, hbytes⟩

/-- A reader that has read all of its text leaves the frame. -/
theorem Bare.step_nil (h : r.Bare base lineStart []) : r.step = .ok (none, r.leave []) := by
  obtain ⟨top, hframes, hrest, -⟩ := h.frame
  obtain ⟨w, -, hreads⟩ := h.sound.window hframes
  exact step_of_rest_nil hframes hrest hreads.missing_eq

/-- A reader has a run of bytes of a plain text before it, and nothing else. -/
structure Faces (r : Reader) (base : Nat) (lineStart : Bool) (bs : Bytes) : Prop where
  /-- The reader is in order. -/
  sound : r.Sound
  /-- There is one frame, which has the bytes. -/
  frame : ∃ top, r.frames = [top] ∧ top.rest = bs ∧ r.locOf top = base
  /-- Whether the next byte stands at the start of a line. -/
  lineStart_eq : r.lineStart = lineStart
  /-- A `>` is read as the longest token that starts with it. -/
  closeAnglesOnly_eq : r.closeAnglesOnly = false
  /-- No macro is defined. -/
  macros_eq : r.macros = []
  /-- Definitions take no effect. -/
  registerDefines_eq : r.registerDefines = false

theorem Faces.bare (h : r.Faces base lineStart bs) : r.Bare base lineStart bs :=
  ⟨h.sound, h.frame, h.lineStart_eq, h.closeAnglesOnly_eq, h.macros_eq⟩

/-- What a step of a plain reader does: the first lexeme is passed, its faults are noted, and it is
given if it is a token. -/
theorem Faces.step {b : UInt8} {scan : Scan} (h : r.Faces base lineStart (b :: bs))
    (hscan : Lexeme.scanFrom false lineStart 0 b bs = scan) :
    ∃ t? r', r.step = .ok (t?, r') ∧
      r'.Faces (base + scan.len) scan.lineStart ((b :: bs).drop scan.len) ∧
      r'.errors = r.errors ++ scan.faults.map (Fault.locate base) ∧
      t?.map Token.kind = scan.kind? ∧
      ∀ t ∈ t?, t.loc = base ∧ Text.bytes t.text = (b :: bs).take scan.len := by
  -- whatever is done with the lexeme, it can only have requested a file
  obtain ⟨top, t?, _, hframes, hstep, ⟨inclusions, rfl⟩, hsame⟩ := h.bare.step_of_perform hscan
    (P := fun top r' => ∃ inclusions, r' = { r.behind scan top [] with inclusions })
    (fun _ => ⟨r.inclusions, rfl⟩) fun top text => by
      obtain ⟨inclusions, hperform⟩ := perform_ignored (r := r.behind scan top [])
        h.registerDefines_eq top text (top.rest.take scan.len) scan.effect
      exact ⟨_, hperform, h.macros_eq, inclusions, rfl⟩
  obtain ⟨hbehind, herrors⟩ := h.bare.behind hscan hframes
  exact ⟨t?, _, hstep, ⟨hbehind.sound.congr rfl rfl rfl, hbehind.frame, hbehind.lineStart_eq,
    hbehind.closeAnglesOnly_eq, hbehind.macros_eq, h.registerDefines_eq⟩, herrors, hsame⟩

/-- Reading the rest of a plain text gives the tokens that it can be cut into, if the budget allows
them and the end of the file. -/
theorem Faces.readAll (h : r.Faces base lineStart bs) (hlexes : Lexes base lineStart bs tokens errors) :
    ∃ last r', r'.errors = r.errors ++ errors ∧ ∀ budget, r.readAll budget =
      if tokens.length < budget then .ok (tokens ++ [last], r') else .error .exhausted := by
  induction hlexes generalizing r with
  | done =>
    have hread := readToken_of_step h.bare.step_nil
    rw [readToken_of_frames_nil (r := r.leave []) rfl] at hread
    refine ⟨⟨(r.leave []).endLoc, .endOfFile, ""⟩, r.leave [], (List.append_nil r.errors).symm,
      fun budget => ?_⟩
    cases budget with
    | zero => rfl
    | succ budget =>
      rw [Reader.readAll, hread]
      simp only [List.length_nil, Nat.zero_lt_succ, if_true]
      rfl
  | @skip base lineStart b bs scan tokens errors hscan hkind _ ih =>
    obtain ⟨t?, r₁, hstep, hplain, herrors, hnone, -⟩ := h.step hscan
    obtain rfl : t? = none := by simpa [hkind] using hnone
    obtain ⟨last, r', herrors', hall⟩ := ih hplain
    refine ⟨last, r', by rw [herrors', herrors, List.append_assoc], fun budget => ?_⟩
    rw [← hall budget]
    cases budget with
    | zero => rfl
    | succ budget => rw [Reader.readAll, Reader.readAll, readToken_of_step hstep]
  | @token base lineStart b bs scan kind text tokens errors hscan hkind htext _ ih =>
    obtain ⟨t?, r₁, hstep, hplain, herrors, hsome, ht⟩ := h.step hscan
    obtain rfl := Token.eq_some (hsome.trans hkind) ht htext
    obtain ⟨last, r', herrors', hall⟩ := ih hplain
    refine ⟨last, r', by rw [herrors', herrors, List.append_assoc], fun budget => ?_⟩
    have hread : r.readToken = .ok (⟨base, kind, text⟩, r₁) :=
      readToken_eq_ok_iff.2 ⟨r, .refl r, hstep⟩
    cases budget with
    | zero => rfl
    | succ budget =>
      rw [Reader.readAll, hread]
      simp only [bind, Except.bind, (lexical_of_scanFrom hscan hkind).1, if_false, hall budget,
        List.length_cons, Nat.succ_lt_succ_iff]
      by_cases henough : tokens.length < budget
      · simp only [if_pos henough]
        rfl
      · simp only [if_neg henough]

/-- A reader at the start of a plain text. -/
theorem plain_pushed (path source : String) :
    ((new .empty plainly).push path source).2.Faces 0 true (Text.bytes source) := by
  refine ⟨sound_pushed plainly path source, ⟨_, rfl, ?_, ?_⟩, rfl, rfl, rfl, rfl⟩
  · exact Window.bytes_whole source
  · simp [push_eq, locOf, Frame.ofWindow, Frame.remaining, Reader.enter, nextLoc, new, plainly]

end Reader

/-- Reading a text plainly gives what it can be cut into, if the budget allows one token more. -/
theorem Lexes.tokenizeWithin_eq {source : String}
    (h : Lexes 0 true (Text.bytes source) tokens errors) (path : String) :
    ∃ visited, ∀ budget, tokenizeWithin budget plainly path source =
      if tokens.length < budget then .ok ⟨tokens, errors, visited⟩ else .error .exhausted := by
  obtain ⟨last, r', herrors, hall⟩ := (Reader.plain_pushed path source).readAll h
  refine ⟨r'.visited, fun budget => ?_⟩
  have heq : tokenizeWithin budget plainly path source =
      (((Reader.new .empty plainly).push path source).2.readAll budget).bind fun result =>
        .ok ⟨result.1.dropLast, result.2.errors, result.2.visited⟩ := rfl
  rw [heq, hall budget]
  split
  · simp only [Except.bind, List.dropLast_concat, herrors]
    rfl
  · rfl

/-! ## Nothing is lost -/

/-- A text that stands behind the border of a character is a stretch of the whole. -/
theorem slice?_of_prefix {source text : String} {start : Nat}
    (hstart : start ≤ (Text.bytes source).length) (hwhole : Whole ((Text.bytes source).drop start))
    (htext : Text.bytes text <+: (Text.bytes source).drop start) :
    Text.slice? source start (start + text.utf8ByteSize) = some text := by
  obtain ⟨behind, hbehind⟩ := htext
  have hbehindWhole : Whole behind := Whole.of_append (by rwa [hbehind]) (Text.whole_bytes text)
  have hsource : Text.bytes source =
      (Text.bytes source).take start ++ (Text.bytes text ++ behind) := by
    rw [hbehind, List.take_append_drop]
  have hsound := Window.sound_of_append hsource (Text.whole_bytes text) hbehindWhole
  rw [List.length_take, Nat.min_eq_left hstart, Text.length_bytes] at hsound
  obtain ⟨slice, hslice, hbytes⟩ := hsound.text_eq
  have hsame : Text.bytes slice = Text.bytes text := by
    rw [hbytes, Window.bytes, Nat.add_sub_cancel_left, ← hbehind, ← Text.length_bytes,
      List.take_left]
  rw [Text.bytes_injective hsame] at hslice
  exact Halt.require_eq_ok hslice

theorem Spaced.gap {gap : Bytes} (h : Spaced bs tokens) (hgap : ∀ b ∈ gap, isBlank b = true) :
    Spaced (gap ++ bs) tokens := by
  cases h with
  | last hblank => exact .last (by simpa [or_imp, forall_and] using ⟨hgap, hblank⟩)
  | token hblank hrest =>
    rw [← List.append_assoc]
    exact .token (by simpa [or_imp, forall_and] using ⟨hgap, hblank⟩) hrest

namespace Lexes

/-- Tokens stand where their texts are, and behind the border of a character. -/
theorem text_at (h : Lexes base lineStart bs tokens errors) (hwhole : Whole bs) {t : Token}
    (ht : t ∈ tokens) : ∃ n : Nat, t.loc = base + n ∧ n ≤ bs.length ∧ Whole (bs.drop n) ∧
      Text.bytes t.text <+: bs.drop n := by
  -- a token of the rest is one of the whole
  have hrest : ∀ {base len : Nat} {bs : Bytes}, len ≤ bs.length →
      (∃ n : Nat, t.loc = (base + len : Nat) + n ∧ n ≤ (bs.drop len).length ∧
        Whole ((bs.drop len).drop n) ∧ Text.bytes t.text <+: (bs.drop len).drop n) →
      ∃ n : Nat, t.loc = base + n ∧ n ≤ bs.length ∧ Whole (bs.drop n) ∧
        Text.bytes t.text <+: bs.drop n := by
    rintro base len bs hle ⟨n, hloc, hn, hbehind, htext⟩
    rw [List.drop_drop] at hbehind htext
    rw [List.length_drop] at hn
    exact ⟨len + n, by rw [hloc]; grind, by omega, hbehind, htext⟩
  induction h with
  | done => cases ht
  | @skip base lineStart b bs scan tokens errors hscan _ _ ih =>
    have hfits := Lexeme.fits_scanFrom false lineStart b bs
    rw [hscan] at hfits
    exact hrest hfits.le (ih (hwhole.cut hfits.cut).2 ht)
  | @token base lineStart b bs scan kind text tokens errors hscan _ htext _ ih =>
    have hfits := Lexeme.fits_scanFrom false lineStart b bs
    rw [hscan] at hfits
    rcases List.mem_cons.1 ht with rfl | ht
    · exact ⟨0, by simp, Nat.zero_le _, hwhole, by rw [htext]; exact List.take_prefix _ _⟩
    · exact hrest hfits.le (ih (hwhole.cut hfits.cut).2 ht)

/-- No token stands before the first byte. -/
theorem le_loc (h : Lexes base lineStart bs tokens errors) :
    ∀ t ∈ tokens, (base : LinearLoc) ≤ t.loc := by
  induction h with
  | done => simp
  | skip _ _ _ ih =>
    intro t ht
    have := ih t ht
    grind
  | token _ _ _ _ ih =>
    intro t ht
    rcases List.mem_cons.1 ht with rfl | ht
    · exact Int.le_refl _
    · have := ih t ht
      grind

/-- The text of a first token is as long as the lexeme. -/
theorem size_token {b : UInt8} {scan : Scan} {text : String}
    (hscan : Lexeme.scanFrom false lineStart 0 b bs = scan)
    (htext : Text.bytes text = (b :: bs).take scan.len) : text.utf8ByteSize = scan.len := by
  have hle := (Lexeme.fits_scanFrom false lineStart b bs).le
  rw [hscan] at hle
  rw [← Text.length_bytes, htext, List.length_take, Nat.min_eq_left hle]

/-- Tokens are in order and do not overlap. -/
theorem order (h : Lexes base lineStart bs tokens errors) :
    tokens.Pairwise fun t u => t.loc + (t.text.utf8ByteSize : LinearLoc) ≤ u.loc := by
  induction h with
  | done => exact .nil
  | skip _ _ _ ih => exact ih
  | @token base lineStart b bs scan kind text tokens errors hscan _ htext hrest ih =>
    refine .cons (fun u hu => ?_) ih
    have hle := hrest.le_loc u hu
    rwa [Nat.cast_add, ← size_token hscan htext] at hle

/-- A byte lies in a token, or it lies behind a place that a fault names, with no token between the
two.  The place is not before `low`. -/
def Told (tokens : List Token) (errors : List LexError) (low offset : Nat) : Prop :=
  (∃ t ∈ tokens, t.Covers offset) ∨
    ∃ place, low ≤ place ∧ place ≤ offset ∧
      (∀ i, place ≤ i → i ≤ offset → ∀ t ∈ tokens, ¬ t.Covers i) ∧
      ∃ e ∈ errors, e.loc = place ∨ e.other = place

/-- What the rest of a text tells is told if faults come before, and a token that ends where the
rest begins. -/
theorem Told.behind {low low' offset : Nat} {faults : List LexError}
    (h : Told tokens errors low offset) (before : List Token) (hlow : low' ≤ low)
    (hbefore : ∀ t ∈ before, t.loc + (t.text.utf8ByteSize : LinearLoc) ≤ low) :
    Told (before ++ tokens) (faults ++ errors) low' offset := by
  rcases h with ⟨t, ht, hcovers⟩ | ⟨place, hle, hplace, houtside, e, he, hnamed⟩
  · exact .inl ⟨t, List.mem_append_right _ ht, hcovers⟩
  · refine .inr ⟨place, hlow.trans hle, hplace, ?_, e, List.mem_append_right _ he, hnamed⟩
    intro i hi hi' t ht
    rcases List.mem_append.1 ht with ht | ht
    · rintro ⟨-, hlt⟩
      have hend := hbefore t ht
      grind
    · exact houtside i hi hi' t ht

/-- A byte that is not blank is told. -/
theorem told (h : Lexes base lineStart bs tokens errors) {n : Nat} {b : UInt8}
    (hb : bs[n]? = some b) (hblank : isBlank b = false) : Told tokens errors base (base + n) := by
  -- a byte behind the first lexeme is one of the rest
  have hrest : ∀ {base len : Nat} {bs : Bytes} {tokens : List Token} {errors : List LexError},
      (∀ {n : Nat}, (bs.drop len)[n]? = some b → Told tokens errors (base + len) (base + len + n)) →
      ∀ {n : Nat}, bs[n]? = some b → ¬ n < len → Told tokens errors (base + len) (base + n) := by
    intro base len bs tokens errors ih n hb hn
    have htold := ih (n := n - len) (by rwa [List.getElem?_drop, Nat.add_sub_of_le (by omega)])
    rwa [Nat.add_assoc, Nat.add_sub_of_le (by omega)] at htold
  induction h generalizing n with
  | done => cases hb
  | @skip base lineStart c bs scan tokens errors hscan hkind hlexes ih =>
    by_cases hn : n < scan.len
    · -- the byte lies in the lexeme that is skipped, whose first byte is named
      right
      have hskipped := Lexeme.scanFrom_skipped (hscan.symm ▸ hkind)
      rw [hscan] at hskipped
      rcases hskipped with hall | ⟨f, hf, hnamed⟩
      · have hmem : b ∈ (c :: bs).take scan.len :=
          List.mem_iff_getElem?.2 ⟨n, by rw [List.getElem?_take_of_lt hn]; exact hb⟩
        rw [hall b hmem] at hblank
        cases hblank
      · refine ⟨base, Nat.le_refl base, Nat.le_add_right base n, ?_, f.locate base,
          List.mem_append_left _ (List.mem_map_of_mem hf), ?_⟩
        · rintro i - hi t ht ⟨hle, -⟩
          have hlow := hlexes.le_loc t ht
          grind
        · rcases hnamed with hoffset | hother
          · exact .inl (by simp [Fault.locate, hoffset])
          · exact .inr (by simp [Fault.locate, hother])
    · exact (hrest ih hb hn).behind [] (Nat.le_add_right _ _) (by simp)
  | @token base lineStart c bs scan kind text tokens errors hscan hkind htext _ ih =>
    have hsize := size_token hscan htext
    by_cases hn : n < scan.len
    · refine .inl ⟨_, List.mem_cons_self, by simp, ?_⟩
      simp only [hsize]
      grind
    · exact (hrest ih hb hn).behind [⟨base, kind, text⟩] (Nat.le_add_right _ _) (by simp [hsize])

/-- Without faults all that is skipped is blank. -/
theorem spaced (h : Lexes base lineStart bs tokens errors) (hnone : errors = []) :
    Spaced bs tokens := by
  induction h with
  | done => exact .last (by simp)
  | @skip base lineStart b bs scan tokens errors hscan hkind _ ih =>
    obtain ⟨hfaults, hnone⟩ := List.append_eq_nil_iff.1 hnone
    have hskipped := Lexeme.scanFrom_skipped (hscan.symm ▸ hkind)
    rw [hscan, List.map_eq_nil_iff.1 hfaults] at hskipped
    have hblank := hskipped.resolve_right (by simp)
    have hspaced := (ih hnone).gap hblank
    rwa [List.take_append_drop] at hspaced
  | @token base lineStart b bs scan kind text tokens errors hscan hkind htext _ ih =>
    obtain ⟨-, hnone⟩ := List.append_eq_nil_iff.1 hnone
    have hspaced := @Spaced.token [] _ ⟨base, kind, text⟩ _ (by simp) (ih hnone)
    rwa [List.nil_append, htext, List.take_append_drop] at hspaced

end Lexes

/-- What a source is cut into tells all that is in it. -/
theorem Lexes.lossless {source : String} (h : Lexes 0 true (Text.bytes source) tokens errors)
    (visited : Visited) : Lossless source ⟨tokens, errors, visited⟩ := by
  refine ⟨?_, h.order, ?_, h.spaced⟩
  · intro t ht
    obtain ⟨start, hloc, hle, hwhole, htext⟩ := h.text_at (Text.whole_bytes source) ht
    exact ⟨start, by simpa using hloc, slice?_of_prefix hle hwhole htext⟩
  · rintro start stop hstretch ⟨offset, b, hstart, hstop, hb, hblank⟩
    have htold := h.told hb hblank
    rw [Nat.zero_add] at htold
    rcases htold with ⟨t, ht, hcovers⟩ | ⟨place, -, hplace, houtside, e, he, hnamed⟩
    · exact absurd hcovers (hstretch.outside offset hstart hstop t ht)
    · -- the stretch cannot start behind the place, since no token stands in between
      have hle : start ≤ place := by
        rcases hstretch.front with hzero | ⟨t, ht, hcovers⟩
        · omega
        · by_contra hlt
          exact houtside (start - 1) (by omega) (by omega) t ht hcovers
      refine ⟨e, he, hnamed.imp ?_ ?_⟩
      · intro hloc
        grind
      · intro hother
        grind

/-- A source that is read plainly always has tokens, and nothing is lost.  It is enough if the budget
is larger than the source. -/
theorem tokenizeWithin_lossless (path source : String) : ∃ result,
    (∀ budget, source.utf8ByteSize < budget →
      tokenizeWithin budget plainly path source = .ok result) ∧
    (∀ budget result', tokenizeWithin budget plainly path source = .ok result' →
      result' = result) ∧
    Lossless source result := by
  obtain ⟨tokens, errors, hlexes⟩ := exists_lexes (Text.whole_bytes source) 0 true
  obtain ⟨visited, hread⟩ := hlexes.tokenizeWithin_eq path
  refine ⟨⟨tokens, errors, visited⟩, ?_, ?_, hlexes.lossless visited⟩
  · intro budget hbudget
    have hlength := hlexes.length_le
    rw [Text.length_bytes] at hlength
    rw [hread budget, if_pos (by omega)]
  · intro budget result' hresult
    rw [hread budget] at hresult
    split at hresult
    · cases hresult
      rfl
    · cases hresult

end CppDecl
