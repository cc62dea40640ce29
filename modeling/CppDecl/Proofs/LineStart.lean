import CppDecl.Proofs.Extent
import CppDecl.Proofs.Invocation
import CppDecl.Proofs.LastByte
import CppDecl.Proofs.Traversal
import CppDecl.Tokens

/-!
# Directives at the start of a line

A `#` is a directive if it stands at the start of a line.  A reader has one flag for that, which every
lexeme of every frame sets anew.  For the source itself the flag means what it should as long as the
source is read: there is nothing but blanks between the `#` and the newline in front of it.

An expansion does not get in the way, since the name in front of it is not blank, unless the expansion is
left at the start of a line.  That is so if it ends with a comment to the end of the line or with a
directive.  The flag then stays set in the source behind the use, and a `#` there is a directive in the
middle of a line (`LeftAtLineStart`).  `Reader.Traverses.directive_iff` says that there is no other
exception, and `directive_behind_use` is about one.
-/

namespace CppDecl

open Byte
open Text (EndsWith Run)

/-- Whether there are only blanks between an offset of a text and the last newline in front of it, or the
start of the text. -/
def Text.lineBlank (text : Bytes) (offset : Nat) : Bool :=
  ((text.take offset).reverse.takeWhile (· != newline)).all isBlank

/-- An expansion in the source was left at the start of a line, and there are only blanks in the source
between that place and the offset. -/
def Reader.LeftAtLineStart (start r : Reader) (text : Bytes) (offset : Nat) : Prop :=
  ∃ (earlier : Reader) (expansion file : Frame) (older newer : List Reading),
    start.Traverses older earlier ∧ earlier.Traverses newer r ∧
    earlier.frames = [expansion, file] ∧ expansion.rest = [] ∧ earlier.lineStart = true ∧
    file.pos ≤ offset ∧ ((text.take offset).drop file.pos).all isBlank = true

namespace Text

variable {text bs : Bytes} {m n : Nat} {c : UInt8}

theorem lineBlank_succ (h : text[m]? = some c) :
    lineBlank text (m + 1) = (c == newline || (isBlank c && lineBlank text m)) := by
  rw [lineBlank, List.take_add_one, h, Option.toList_some, List.reverse_append, List.reverse_singleton,
    List.singleton_append, List.takeWhile_cons]
  by_cases hc : c = newline
  · simp [hc]
  · simp [hc, lineBlank]

theorem EndsWith.lineBlank (h : EndsWith (text.drop m) n c) :
    ∃ k, Text.lineBlank text (m + n) = (c == newline || (isBlank c && Text.lineBlank text k)) := by
  obtain ⟨k, rfl, hc⟩ := h
  rw [List.getElem?_drop] at hc
  exact ⟨m + k, lineBlank_succ hc⟩

/-- Over blanks a line stays blank, and behind a newline it is. -/
theorem Run.lineBlank (h : Run isBlank (text.drop m) n) :
    Text.lineBlank text (m + n) = (Text.lineBlank text m || ((text.drop m).take n).contains newline) := by
  induction n with
  | zero => simp
  | succ n ih =>
    have hlt : n < (text.drop m).length := h.le
    have hc := List.getElem?_eq_getElem hlt
    have hrun : Run isBlank (text.drop m) n :=
      ⟨Nat.le_of_lt hlt, fun b hb => h.all b (List.take_subset_take_left _ (Nat.le_succ n) hb)⟩
    have hblank : isBlank (text.drop m)[n] = true :=
      h.all _ (List.mem_take_iff_getElem.2 ⟨n, by omega, rfl⟩)
    have hsucc := lineBlank_succ (m := m + n) (by rwa [← List.getElem?_drop])
    rw [Nat.add_assoc] at hsucc
    rw [hsucc, ih hrun, hblank, List.take_add_one, hc]
    simp only [Option.toList_some, List.contains_append, Bool.true_and]
    generalize (text.drop m)[n] = b
    rw [Bool.or_comm, Bool.or_assoc]
    congr 2
    rw [List.contains_cons, List.contains_nil, Bool.or_false, BEq.comm]

end Text

namespace Lexeme

variable {lineStart : Bool} {bs : Bytes} {scan : Scan}

/-- An identifier ends with no blank. -/
theorem Classed.identifier_endsWith (h : Classed lineStart bs scan) (hkind : scan.kind? = some .identifier)
    (hpos : 0 < scan.len) : ∃ c, EndsWith bs scan.len c ∧ isBlank c = false := by
  cases h with
  | blanks | lineComment => cases hkind
  | blockComment => exact absurd (kind_of_blockComment _ hkind) (by decide)
  | literal => exact absurd (kind_of_literal _ hkind) (by decide)
  | rawLiteral => exact absurd (kind_of_rawLiteral _ hkind) (by decide)
  | @punctuator kind rest seen hmem _ =>
    cases hkind
    exact absurd hmem (by decide)
  | number => cases hkind
  | @identifier name rest seen hall =>
    have hrun : Run isIdentifierByte (name ++ rest) name.length := ⟨by simp, by rwa [List.take_left]⟩
    obtain ⟨c, hlast, hc⟩ := hrun.endsWith hpos
    exact ⟨c, hlast, not_isBlank_of_isIdentifierByte hc⟩
  | garbage => cases hkind

end Lexeme

namespace Reader

variable {r r' : Reader} {readings : List Reading} {path source : String} {top : Frame}
  {below : List Frame} {t? : Option Token} {config : Configuration}

/-! ## Steps -/

/-- How the frames and the flag are behind a lexeme of the top frame. -/
inductive Leaves (top : Frame) (below : List Frame) (scan : Scan) (r : Reader) : Prop
  /-- The lexeme is passed, and no more. -/
  | lexeme (frames : r.frames = top.advance scan.len :: below) (lineStart : r.lineStart = scan.lineStart)
  /-- All that is left is passed. -/
  | all {f : Frame} (frames : r.frames = f :: below) (body : f.body? = top.body?) (rest : f.rest = [])
      (pos : top.pos + scan.len ≤ f.pos)
  /-- A macro is entered, and what is passed ends with no blank. -/
  | entered {new : Frame} {n : Nat} {c : UInt8} (frames : r.frames = new :: top.advance n :: below)
      (last : EndsWith top.rest n c) (not_blank : isBlank c = false) (le : scan.len ≤ n)

/-- What a name leaves behind it, once it has been passed. -/
theorem leaves_of_name {scan : Scan} {start : Nat} {loc : LinearLoc} {name : String} {t : Token}
    {c : UInt8} {w : Window} (hreads : top.Reads w) (hframes : r.frames = top.advance scan.len :: below)
    (hlineStart : r.lineStart = scan.lineStart) (hlast : EndsWith top.rest scan.len c)
    (hc : isBlank c = false)
    (hname : r.NameRead (top.advance scan.len) below start loc name t r') :
    Leaves top below scan r' := by
  have hmissing := hreads.missing_eq
  cases hname with
  | plain | missing _ => exact .lexeme hframes hlineStart
  | unfinished _ =>
    refine .all rfl rfl rfl ?_
    show _ ≤ top.stop
    have hlength := hreads.length_eq
    have hle := hlast.le
    omega
  | @used _ stop _ _ _ _ hfound _ hexpand =>
    obtain ⟨-, ⟨new, hnew⟩, -, -⟩ := expand_eq_ok hexpand
    rw [show (top.advance scan.len).missing = 0 by simp [Frame.advance, hmissing]] at hfound
    have hclose := (Arguments.read_endsWith hfound).append (top.rest.take scan.len)
    rw [show (top.advance scan.len).rest = top.rest.drop scan.len from rfl, List.take_append_drop,
      List.length_take, Nat.min_eq_left hlast.le] at hclose
    rw [Frame.advance_advance _ _ _ hmissing] at hnew
    exact .entered hnew hclose (by decide) (Nat.le_add_right _ stop)
  | usedAlone hexpand =>
    obtain ⟨-, ⟨new, hnew⟩, -, -⟩ := expand_eq_ok hexpand
    rw [show ({ r with args := [] } : Reader).frames = r.frames from rfl, hframes] at hnew
    exact .entered hnew hlast hc (Nat.le_refl _)

/-- What a lexeme leaves behind it. -/
theorem Sound.leaves (h : r.Sound) (hframes : r.frames = top :: below) {b : UInt8} {bs : Bytes}
    (hrest : top.rest = b :: bs) (hstep : r.step = .ok (t?, r')) :
    Leaves top below (Lexeme.scanFrom r.closeAnglesOnly r.lineStart 0 b bs) r' := by
  obtain ⟨w, hw, hreads⟩ := h.window hframes
  have hfits := Lexeme.fits_scanFrom r.closeAnglesOnly r.lineStart b bs
  rw [step_eq_deal hframes hrest hreads.missing_eq rfl] at hstep
  have hdealt := dealt_of_deal (by rwa [hrest]) hstep
  cases hdealt with
  | skipped => exact .lexeme rfl rfl
  | name hkind _ hread =>
    have hb : b ≠ hash := by
      rintro rfl
      cases Lexeme.kind_hash hkind
    obtain ⟨c, hlast, hc⟩ := (Lexeme.classed_scanFrom r.closeAnglesOnly r.lineStart bs
      hb).identifier_endsWith hkind hfits.pos
    rw [← hrest] at hlast
    exact leaves_of_name hreads rfl rfl hlast hc hread
  | token _ _ hperform =>
    rw [← hrest] at hfits
    obtain ⟨_, hperform', hdirected⟩ := perform_directed (r := r.behind _ top below) hw hreads hfits _
    rw [hperform] at hperform'
    cases hperform'
    obtain ⟨hframes', hlineStart'⟩ := hdirected.frames_eq
    exact .lexeme hframes' hlineStart'

/-! ## The source -/

variable {start r'' : Reader} {text : Bytes} {file : Frame} {older newer : List Reading} {pos n : Nat}

/-- The source may be read on as long as there are only blanks. -/
theorem LeftAtLineStart.blanks (h : LeftAtLineStart start r text pos) (htraverses : r.Traverses newer r')
    (hpos : pos ≤ text.length) (hrun : Run isBlank (text.drop pos) n) :
    LeftAtLineStart start r' text (pos + n) := by
  obtain ⟨earlier, expansion, file, older, newer', holder, hnewer, hframes, hrest, hstart, hle, hblank⟩ := h
  refine ⟨earlier, expansion, file, older, newer ++ newer', holder, hnewer.trans htraverses, hframes, hrest,
    hstart, Nat.le_trans hle (Nat.le_add_right pos n), ?_⟩
  rw [List.take_add, List.drop_append_of_le_length (by simp; omega), List.all_append, hblank, Bool.true_and]
  exact List.all_eq_true.2 hrun.all

theorem LeftAtLineStart.later (h : LeftAtLineStart start r text pos) (htraverses : r.Traverses newer r') :
    LeftAtLineStart start r' text pos := by
  obtain ⟨earlier, expansion, file, older, newer', holder, hnewer, hall⟩ := h
  exact ⟨earlier, expansion, file, older, newer ++ newer', holder, hnewer.trans htraverses, hall⟩

/-- What the flag says about the source, which is read by a frame. -/
structure Marked (text : Bytes) (start r : Reader) (file : Frame) : Prop where
  /-- If the flag is set, the source is at the start of a line, or an expansion was left that way. -/
  lineStart : r.frames = [file] → r.lineStart = true →
    Text.lineBlank text file.pos = true ∨ LeftAtLineStart start r text file.pos
  /-- At the start of a line the flag is set. -/
  lineBlank : r.frames = [file] → Text.lineBlank text file.pos = true → r.lineStart = true
  /-- While an expansion is read, the source is not at the start of a line. -/
  above : r.frames ≠ [file] → Text.lineBlank text file.pos = false

theorem Marked.idle (h : Marked text start r file) (hidle : r.Idles r') (htraverses : r.Traverses newer r') :
    Marked text start r' file := by
  refine ⟨?_, ?_, ?_⟩
  · rw [hidle.frames, hidle.lineStart]
    exact fun hframes hstart => (h.lineStart hframes hstart).imp_right fun hleft => hleft.later htraverses
  · rw [hidle.frames, hidle.lineStart]
    exact h.lineBlank
  · rw [hidle.frames]
    exact h.above

/-- A lexeme of the source sets the flag as it should be. -/
theorem Marked.lexeme (h : Marked text start r top) (hframes : r.frames = [top])
    (htext : top.rest = text.drop top.pos) {b : UInt8} {bs : Bytes} (hrest : top.rest = b :: bs)
    {scan : Scan} (hscan : Lexeme.scanFrom r.closeAnglesOnly r.lineStart 0 b bs = scan)
    (hframes' : r'.frames = [top.advance scan.len]) (hlineStart : r'.lineStart = scan.lineStart)
    (hmore : (top.advance scan.len).rest ≠ []) (htraverses : r.Traverses newer r') :
    Marked text start r' (top.advance scan.len) := by
  have hpos : top.pos ≤ text.length := by
    by_contra hlt
    rw [htext, List.drop_eq_nil_of_le (by omega)] at hrest
    cases hrest
  by_cases hb : isBlank b = true
  · -- blanks
    have hblanks : scan = Lexeme.blanks r.lineStart (text.drop top.pos) := by
      rw [← hscan, Lexeme.scanFrom, if_pos hb, ← hrest, htext]
    have hrun := Run.takeWhile isBlank (text.drop top.pos)
    have htake : (text.drop top.pos).take scan.len = (text.drop top.pos).takeWhile isBlank := by
      rw [hblanks]
      exact (List.prefix_iff_eq_take.1 (List.takeWhile_prefix isBlank)).symm
    have hlen : scan.len = ((text.drop top.pos).takeWhile isBlank).length := by rw [hblanks]; rfl
    rw [← hlen] at hrun
    have hline := hrun.lineBlank
    rw [htake] at hline
    have hflag : r'.lineStart =
        (r.lineStart || ((text.drop top.pos).takeWhile isBlank).contains newline) := by
      rw [hlineStart, hblanks]
      rfl
    refine ⟨fun _ hstart => ?_, fun _ hstart => ?_, fun hne => absurd hframes' hne⟩
    · rw [hflag, Bool.or_eq_true] at hstart
      rcases hstart with hstart | hnewline
      · rcases h.lineStart hframes hstart with hblank | hleft
        · refine .inl ?_
          rw [show (top.advance scan.len).pos = top.pos + scan.len from rfl, hline, hblank]
          rfl
        · exact .inr (hleft.blanks htraverses hpos hrun)
      · refine .inl ?_
        rw [show (top.advance scan.len).pos = top.pos + scan.len from rfl, hline, hnewline, Bool.or_true]
    · rw [show (top.advance scan.len).pos = top.pos + scan.len from rfl, hline, Bool.or_eq_true] at hstart
      rw [hflag, Bool.or_eq_true]
      exact hstart.imp_left (h.lineBlank hframes)
  · have hcloses := Lexeme.closes_scanFrom r.closeAnglesOnly r.lineStart bs (Bool.eq_false_iff.2 hb)
    rw [hscan, ← hrest, htext] at hcloses
    have hiff : Text.lineBlank text (top.pos + scan.len) = scan.lineStart := by
      cases hcloses with
      | all hall =>
        refine absurd ?_ hmore
        show top.rest.drop scan.len = []
        rw [htext]
        exact List.drop_eq_nil_of_le hall
      | newline hstarts hlast =>
        obtain ⟨_, hline⟩ := hlast.lineBlank
        rw [hline, hstarts]
        rfl
      | plain hstarts hlast hc =>
        obtain ⟨_, hline⟩ := hlast.lineBlank
        rw [hline, hstarts, hc, Bool.false_and, Bool.or_false, beq_eq_false_iff_ne]
        rintro rfl
        cases hc
    refine ⟨fun _ hstart => .inl ?_, fun _ hstart => ?_, fun hne => absurd hframes' hne⟩
    · rw [← hstart, hlineStart]
      exact hiff
    · rw [hlineStart, ← hiff]
      exact hstart

/-- What the flag says about the source stays right with every step. -/
theorem marked_step (hsound : r.Sound) (hsingle : r.Single path source)
    (h : ∀ file, [file] <:+ r.frames → file.rest ≠ [] → Marked (Text.bytes source) start r file)
    (hbefore : start.Traverses older r) (hafter : r.Traverses newer r') (hstep : r.step = .ok (t?, r')) :
    ∀ file, [file] <:+ r'.frames → file.rest ≠ [] → Marked (Text.bytes source) start r' file := by
  -- below the top frame nothing changes
  have hburied : ∀ {top : Frame} {below : List Frame} {file : Frame}, r.frames = top :: below →
      [file] <:+ below → file.rest ≠ [] → Text.lineBlank (Text.bytes source) file.pos = false := by
    intro top below file hframes hfile hmore
    refine (h file (hframes ▸ hfile.trans (List.suffix_cons top below)) hmore).above ?_
    rw [hframes]
    rintro ⟨⟩
    exact absurd (List.suffix_nil.1 hfile) (List.cons_ne_nil _ _)
  have hdeeper : ∀ {f file : Frame} {below : List Frame}, r'.frames = f :: below → [file] <:+ below →
      Text.lineBlank (Text.bytes source) file.pos = false → Marked (Text.bytes source) start r' file := by
    intro f file below hframes' hfile hline
    have hne : r'.frames ≠ [file] := by
      rw [hframes']
      rintro ⟨⟩
      exact absurd (List.suffix_nil.1 hfile) (List.cons_ne_nil _ _)
    exact ⟨fun hframes => absurd hframes hne, fun hframes => absurd hframes hne, fun _ => hline⟩
  intro file hfile hmore
  cases hframes : r.frames with
  | nil =>
    rw [step_of_frames_nil hframes] at hstep
    cases hstep
    exact h file hfile hmore
  | cons top below =>
    obtain ⟨w, -, hreads⟩ := hsound.window hframes
    cases hrest : top.rest with
    | nil =>
      rw [step_of_rest_nil hframes hrest hreads.missing_eq] at hstep
      cases hstep
      rw [frames_leave] at hfile
      have hline := hburied hframes hfile hmore
      have hlineStart : (r.leave below).lineStart = r.lineStart := by cases below <;> rfl
      refine ⟨fun hsource hstart => .inr ?_, fun _ hblank => ?_, fun _ => hline⟩
      · rw [frames_leave] at hsource
        subst hsource
        rw [hlineStart] at hstart
        refine ⟨r, top, file, older, newer, hbefore, hafter, hframes, hrest, hstart, Nat.le_refl _, ?_⟩
        rw [List.drop_eq_nil_of_le (by simp)]
        rfl
      · rw [hline] at hblank
        cases hblank
    | cons b bs =>
      cases hsound.leaves hframes hrest hstep with
      | lexeme hframes' hlineStart =>
        rw [hframes'] at hfile
        rcases List.suffix_cons_iff.1 hfile with heq | hfile
        · obtain ⟨rfl, rfl⟩ := List.cons.inj heq
          have htop : [top] <:+ r.frames := hframes ▸ List.suffix_refl _
          obtain ⟨-, -, -, htext⟩ := hsingle.source_frame hsound htop
          exact (h top htop (by simp [hrest])).lexeme hframes htext hrest rfl hframes' hlineStart hmore hafter
        · exact hdeeper hframes' hfile (hburied hframes hfile hmore)
      | all hframes' _ hnil _ =>
        rw [hframes'] at hfile
        rcases List.suffix_cons_iff.1 hfile with heq | hfile
        · obtain ⟨rfl, rfl⟩ := List.cons.inj heq
          exact absurd hnil hmore
        · exact hdeeper hframes' hfile (hburied hframes hfile hmore)
      | @entered new n c hframes' hlast hc _ =>
        rw [hframes'] at hfile
        rcases List.suffix_cons_iff.1 hfile with heq | hfile
        · cases heq
        refine hdeeper hframes' hfile ?_
        rcases List.suffix_cons_iff.1 hfile with heq | hfile
        · obtain ⟨rfl, rfl⟩ := List.cons.inj heq
          obtain ⟨-, -, -, htext⟩ := hsingle.source_frame hsound (f := top) ⟨[], hframes.symm⟩
          rw [htext] at hlast
          obtain ⟨_, hline⟩ := hlast.lineBlank
          rw [show (top.advance n).pos = top.pos + n from rfl, hline, hc, Bool.false_and, Bool.or_false,
            beq_eq_false_iff_ne]
          rintro rfl
          cases hc
        · exact hburied hframes hfile hmore

/-- What the flag says about the source is right on every traversal. -/
theorem Traverses.marked (h : ((new .empty config).push path source).2.Traverses readings r) :
    ∀ file, [file] <:+ r.frames → file.rest ≠ [] →
      Marked (Text.bytes source) ((new .empty config).push path source).2 r file := by
  have hidle : ∀ {q q' : Reader} {newer : List Reading},
      (∀ file, [file] <:+ q.frames → file.rest ≠ [] →
        Marked (Text.bytes source) ((new .empty config).push path source).2 q file) →
      q.Idles q' → q.Traverses newer q' → ∀ file, [file] <:+ q'.frames → file.rest ≠ [] →
        Marked (Text.bytes source) ((new .empty config).push path source).2 q' file := by
    intro q q' newer hq hidle htraverses file hfile hmore
    rw [hidle.frames] at hfile
    exact (hq file hfile hmore).idle hidle htraverses
  have hsound := sound_pushed config path source
  generalize hpushed : ((new .empty config).push path source).2 = pushed at h hidle hsound
  induction h with
  | refl =>
    intro file hfile _
    have hframes := frames_pushed config path source
    have hflag : ((new .empty config).push path source).2.lineStart = true := by rw [push_eq]
    rw [hpushed] at hframes hflag
    rw [hframes] at hfile
    obtain rfl : file = _ := List.singleton_inj.1 (hfile.eq_of_length rfl)
    exact ⟨fun _ _ => .inl rfl, fun _ _ => hflag, fun hne => absurd hframes hne⟩
  | skip hrest hstep ih =>
    exact marked_step (hrest.sound hsound) (hpushed ▸ hrest).single ih hrest (.skip (.refl _) hstep)
      hstep
  | read hrest hstep ih =>
    exact marked_step (hrest.sound hsound) (hpushed ▸ hrest).single ih hrest (.read (.refl _) hstep)
      hstep
  | adjust _ errors inclusions closeAnglesOnly ih =>
    exact hidle ih (idles_adjust _ _ _ _) (.adjust (.refl _) errors inclusions closeAnglesOnly)
  | define _ d ih => exact hidle ih (idles_define _ d) (.define (.refl _) d)

/-! ## Behind an expansion that was left at the start of a line -/

/-- A reader that left an expansion at the start of a line goes on to an offset of the source, with only
blanks before that. -/
inductive Onward (text : Bytes) (offset : Nat) (r : Reader) : Prop
  /-- The expansion is about to be left. -/
  | expansion {expansion file : Frame} (frames : r.frames = [expansion, file]) (ended : expansion.rest = [])
      (lineStart : r.lineStart = true) (le : file.pos ≤ offset)
      (blank : ((text.take offset).drop file.pos).all isBlank = true)
  /-- The source is read. -/
  | source {file : Frame} (frames : r.frames = [file]) (lineStart : r.lineStart = true)
      (le : file.pos ≤ offset) (blank : ((text.take offset).drop file.pos).all isBlank = true)
  /-- The offset lies behind. -/
  | past (lt : ∀ file, [file] <:+ r.frames → offset < file.pos)

/-- A lexeme of blanks gives no token. -/
theorem step_of_blank (hframes : r.frames = [top]) (hmissing : top.missing = 0) {b : UInt8} {bs : Bytes}
    (hrest : top.rest = b :: bs) (hb : isBlank b = true) :
    r.step = .ok (none, r.behind (Lexeme.blanks r.lineStart top.rest) top []) := by
  have hscan : Lexeme.scanFrom r.closeAnglesOnly r.lineStart 0 b bs =
      Lexeme.blanks r.lineStart top.rest := by
    rw [Lexeme.scanFrom, if_pos hb, hrest]
  rw [step_eq_deal hframes hrest hmissing hscan]
  rfl

theorem Onward.step (h : Onward text pos r) (hsound : r.Sound) (hsingle : r.Single path source)
    (htext : text = Text.bytes source) {c : UInt8} {cs : Bytes} (hat : text.drop pos = c :: cs)
    (hc : isBlank c = false) (hstep : r.step = .ok (t?, r')) : Onward text pos r' := by
  cases h with
  | @expansion expansion file hframes hended hstart hle hblank =>
    obtain ⟨w, -, hreads⟩ := hsound.window hframes
    rw [step_of_rest_nil hframes hended hreads.missing_eq] at hstep
    cases hstep
    exact .source (frames_leave r [file]) hstart hle hblank
  | @source file hframes hstart hle hblank =>
    obtain ⟨w, -, hreads⟩ := hsound.window hframes
    obtain ⟨-, -, -, hrest⟩ := hsingle.source_frame hsound (f := file) ⟨[], hframes.symm⟩
    rw [← htext] at hrest
    rcases Nat.lt_or_eq_of_le hle with hlt | rfl
    · -- the blanks are passed
      have hgap : text.drop file.pos = (text.take pos).drop file.pos ++ c :: cs := by
        have hlength : pos ≤ text.length := by
          by_contra hgt
          rw [List.drop_eq_nil_of_le (by omega)] at hat
          cases hat
        rw [← hat, ← List.drop_append_of_le_length (by rw [List.length_take]; omega), List.take_append_drop]
      have hgapLength : ((text.take pos).drop file.pos).length = pos - file.pos := by
        have hlength := congrArg List.length hat
        simp only [List.length_drop, List.length_cons, List.length_take] at hlength ⊢
        omega
      have hrun : (text.drop file.pos).takeWhile isBlank = (text.take pos).drop file.pos := by
        rw [hgap, List.takeWhile_append_of_pos (List.all_eq_true.1 hblank),
          List.takeWhile_cons_of_neg (by simp [hc]), List.append_nil]
      obtain ⟨b, gap, hcons⟩ := List.exists_cons_of_length_pos (l := (text.take pos).drop file.pos) (by omega)
      have hb : isBlank b = true := List.all_eq_true.1 hblank b (by rw [hcons]; exact List.mem_cons_self)
      have hsplit : file.rest = b :: (gap ++ c :: cs) := by
        rw [hrest, hgap, hcons]
        rfl
      rw [step_of_blank hframes hreads.missing_eq hsplit hb] at hstep
      cases hstep
      have hpos : (file.advance (Lexeme.blanks r.lineStart file.rest).len).pos = pos := by
        show file.pos + (file.rest.takeWhile isBlank).length = pos
        rw [hrest, hrun, hgapLength]
        omega
      refine .source rfl ?_ hpos.le ?_
      · show (r.lineStart || _) = true
        rw [hstart, Bool.true_or]
      · rw [hpos, List.drop_eq_nil_of_le (by simp)]
        rfl
    · refine .past fun f hf => ?_
      rw [hat] at hrest
      have hpos := (Lexeme.fits_scanFrom r.closeAnglesOnly r.lineStart c cs).pos
      have hsingleton : ∀ {g h : Frame}, [g] <:+ [h] → g = h := fun hsuffix =>
        List.singleton_inj.1 (hsuffix.eq_of_length rfl)
      cases hsound.leaves hframes hrest hstep with
      | lexeme hframes' _ =>
        rw [hframes'] at hf
        rw [hsingleton hf]
        exact Nat.lt_add_of_pos_right hpos
      | all hframes' _ _ hle' =>
        rw [hframes'] at hf
        rw [hsingleton hf]
        omega
      | @entered new n _ hframes' _ _ hle' =>
        rw [hframes'] at hf
        rcases List.suffix_cons_iff.1 hf with heq | hf
        · cases heq
        rw [hsingleton hf]
        show file.pos < file.pos + n
        omega
  | past hlt =>
    obtain ⟨_, _, heq, -, hmove⟩ := hsound.step
    rw [hstep] at heq
    cases heq
    refine .past fun f hf => ?_
    obtain ⟨g, hg, hle⟩ := hmove.bottom_le hf
    exact Nat.lt_of_lt_of_le (hlt g hg) hle

theorem Onward.idle (h : Onward text pos r) (hidle : r.Idles r') : Onward text pos r' := by
  cases h with
  | expansion hframes hended hstart hle hblank =>
    exact .expansion (hidle.frames.trans hframes) hended (hidle.lineStart.trans hstart) hle hblank
  | source hframes hstart hle hblank =>
    exact .source (hidle.frames.trans hframes) (hidle.lineStart.trans hstart) hle hblank
  | past hlt => exact .past (by rwa [hidle.frames])

/-- Where an expansion was left at the start of a line and there are only blanks since, the flag is set. -/
theorem LeftAtLineStart.lineStart {c : UInt8} {cs : Bytes}
    (h : LeftAtLineStart ((new .empty config).push path source).2 r (Text.bytes source) file.pos)
    (hframes : r.frames = [file]) (hat : (Text.bytes source).drop file.pos = c :: cs)
    (hc : isBlank c = false) : r.lineStart = true := by
  obtain ⟨earlier, expansion, file', older, newer, holder, hnewer, hearlier, hended, hstart, hle, hblank⟩ := h
  have hsound := sound_pushed config path source
  have honward : Onward (Text.bytes source) file.pos r := by
    have hfirst : Onward (Text.bytes source) file.pos earlier := .expansion hearlier hended hstart hle hblank
    clear hframes
    induction hnewer with
    | refl => exact hfirst
    | skip hrest hstep ih =>
      have htraverses := holder.trans hrest
      exact ih.step (htraverses.sound hsound) htraverses.single rfl hat hc hstep
    | read hrest hstep ih =>
      have htraverses := holder.trans hrest
      exact ih.step (htraverses.sound hsound) htraverses.single rfl hat hc hstep
    | adjust _ errors inclusions closeAnglesOnly ih => exact ih.idle (idles_adjust _ _ _ _)
    | define _ d ih => exact ih.idle (idles_define _ d)
  cases honward with
  | expansion hframes' _ hlineStart _ _ | source hframes' hlineStart _ _ => exact hlineStart
  | past hlt => exact absurd (hlt file ⟨[], hframes.symm⟩) (Nat.lt_irrefl _)

end Reader

/-! ## Directives -/

open Reader

/-- A `#` of the source is a directive if it stands at the start of a line, or behind an expansion that was
left at the start of a line.  Otherwise it is a fault, and nothing more comes of it. -/
theorem Reader.Traverses.directive_iff {config : Configuration} {path source : String}
    {readings : List Reading} {r : Reader} {file : Frame} {bs : Bytes}
    (h : ((new .empty config).push path source).2.Traverses readings r) (hframes : r.frames = [file])
    (hrest : file.rest = hash :: bs) :
    ((∃ text r', r.step = .ok (some ⟨r.nextLoc, .directive, text⟩, r')) ↔
      Text.lineBlank (Text.bytes source) file.pos = true ∨
        LeftAtLineStart ((new .empty config).push path source).2 r (Text.bytes source) file.pos) ∧
    ((¬ ∃ text r', r.step = .ok (some ⟨r.nextLoc, .directive, text⟩, r')) →
      r.step = .ok (none,
        { r with
          frames := [file.advance 1]
          lineStart := false
          errors := r.errors ++ [⟨.directiveNotAtLineStart, r.nextLoc, -1⟩] })) := by
  have hsound := h.sound (sound_pushed config path source)
  have hfile : [file] <:+ r.frames := ⟨[], hframes.symm⟩
  obtain ⟨w, hw, hreads⟩ := hsound.window hframes
  obtain ⟨-, -, -, htext⟩ := h.single.source_frame hsound hfile
  rw [hrest] at htext
  have hmarked := h.marked file hfile (by simp [hrest])
  have hdeal := step_eq_deal hframes hrest hreads.missing_eq rfl
  rw [Lexeme.scanFrom, if_neg (by decide), if_pos rfl] at hdeal
  -- the flag decides
  have hdirective : r.lineStart = true →
      ∃ text r', r.step = .ok (some ⟨r.nextLoc, .directive, text⟩, r') := by
    intro hstart
    obtain ⟨t?, r', hstep, -, -⟩ := hsound.step
    have hdealt := hstep
    rw [hdeal, if_pos hstart, Reader.deal, Lexeme.kind_directive] at hdealt
    obtain ⟨text, -, hdealt⟩ := Halt.bind_eq_ok hdealt
    obtain ⟨performed, -, hdealt⟩ := Halt.bind_eq_ok hdealt
    rw [if_neg (by decide)] at hdealt
    cases hdealt
    exact ⟨text, r', by rw [hstep, nextLoc_of_frames hframes]⟩
  have hfault : r.lineStart = false → r.step = .ok (none,
      { r with
        frames := [file.advance 1]
        lineStart := false
        errors := r.errors ++ [⟨.directiveNotAtLineStart, r.nextLoc, -1⟩] }) := by
    intro hstart
    have hlocate : [(⟨.directiveNotAtLineStart, 0, none⟩ : Fault)].map (Fault.locate (r.locOf file)) =
        [⟨.directiveNotAtLineStart, r.locOf file, -1⟩] := by
      rw [List.map_singleton, Fault.locate, Nat.cast_zero, Int.add_zero]
    rw [hdeal, hstart, nextLoc_of_frames hframes, ← hlocate]
    rfl
  have hflag : r.lineStart = true ↔ Text.lineBlank (Text.bytes source) file.pos = true ∨
      LeftAtLineStart ((new .empty config).push path source).2 r (Text.bytes source) file.pos :=
    ⟨hmarked.lineStart hframes, fun hor => hor.elim (hmarked.lineBlank hframes)
      fun hleft => hleft.lineStart hframes htext.symm (by decide)⟩
  rw [← hflag]
  cases hstart : r.lineStart with
  | true => exact ⟨iff_of_true (hdirective hstart) rfl, fun hnot => absurd (hdirective hstart) hnot⟩
  | false =>
    have hnot : ¬ ∃ text r', r.step = .ok (some ⟨r.nextLoc, .directive, text⟩, r') := by
      rintro ⟨text, r', hstep⟩
      rw [hfault hstart] at hstep
      cases hstep
    exact ⟨iff_of_false hnot Bool.false_ne_true, fun _ => hfault hstart⟩

/-- A traversal that stops before a `#` on a line with only blanks in front of it. -/
theorem Reader.Traverses.directive_iff_blank : ∃ readings r file,
    ((new .empty {}).push "t.h" "a\n \t#define A\n").2.Traverses readings r ∧ r.frames = [file] ∧
    (file.pos, file.rest) = (4, Text.bytes "#define A\n") ∧
    ∃ text r', r.step = .ok (some ⟨r.nextLoc, .directive, text⟩, r') := by
  have hall : (((new .empty {}).push "t.h" "a\n \t#define A\n").2.readMany 1).toOption.map
      (fun x => x.2.step.toOption.map fun y => (y.1, y.2.frames.map fun f => (f.pos, f.rest))) =
      some (some (none, [(4, Text.bytes "#define A\n")])) := by
    decide +kernel
  obtain ⟨⟨first, after⟩, hfirst, hrest⟩ := Halt.of_toOption_map hall
  obtain ⟨⟨token?, r⟩, hstep, hframes⟩ := Halt.of_toOption_map hrest
  obtain ⟨rfl, hframes⟩ := Prod.mk.inj hframes
  obtain ⟨file, hfile, hat⟩ := List.map_eq_singleton_iff.1 hframes
  obtain ⟨hpos, hbytes⟩ := Prod.mk.inj hat
  obtain ⟨readings, hread, -⟩ := traverses_of_readMany hfirst
  have hsplit : file.rest = hash :: Text.bytes "define A\n" := by
    rw [hbytes]
    decide +kernel
  have hdirective := Traverses.directive_iff (hread.skip hstep) hfile hsplit
  refine ⟨readings, r, file, hread.skip hstep, hfile, hat, hdirective.1.2 (.inl ?_)⟩
  rw [hpos]
  decide +kernel

/-- The expansion of `A` ends with a comment, and the `#` behind it on the line is a directive that takes
effect. -/
theorem directive_behind_use :
    (tokenizeWithin 7 {} "t.h" "#define A //\nA #define B c\nB").toOption.map
      (fun result => (result.tokens, result.errors)) =
        some ([⟨0, .directive, "#define A //\n"⟩, ⟨13, .macroUse, "A"⟩, ⟨13, .lineComment, "//"⟩,
          ⟨16, .directive, "#define B c\n"⟩, ⟨28, .macroUse, "B"⟩, ⟨28, .identifier, "c"⟩], []) ∧
    (Text.bytes "#define A //\nA #define B c\nB")[15]? = some hash ∧
    Text.lineBlank (Text.bytes "#define A //\nA #define B c\nB") 15 = false := by
  decide +kernel

end CppDecl
