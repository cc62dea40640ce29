import CppDecl.Macro.Arguments
import CppDecl.Macro.Definition
import CppDecl.Proofs.Lexeme

/-!
# Pieces of definitions and of macro uses

A definition is cut into a name, parameters and a replacement text, and what follows the name of a
macro is cut into arguments.  All cuts are made at ASCII bytes, so whole texts are cut into whole
texts.  `Definition.parse?_whole` and `Arguments.read_whole` say so, together with where the pieces
lie.
-/

namespace CppDecl

open Text (isAscii Cut AsciiRun Whole)

theorem Text.Whole.of_cons {b : UInt8} {bs : Bytes} (h : Whole (b :: bs)) (hb : isAscii b = true) :
    Whole bs :=
  (h.cut (AsciiRun.cons hb (.zero bs)).cut).2

/-- Whole texts stay whole if ASCII bytes of one class are dropped from their start. -/
theorem Text.Whole.dropWhile {p : UInt8 → Bool} (hp : ∀ b, p b = true → isAscii b = true)
    {bs : Bytes} (h : Whole bs) : Whole (bs.dropWhile p) := by
  rw [← Lexeme.drop_length_takeWhile]
  exact (h.cut (AsciiRun.takeWhile hp bs).cut).2

/-- A whole text is cut into whole texts behind the bytes of a class that has all bytes beyond
ASCII. -/
theorem Text.Whole.takeWhile {p : UInt8 → Bool} (hp : ∀ b, p b = false → isAscii b = true)
    {bs : Bytes} (h : Whole bs) :
    Whole (bs.takeWhile p) ∧ Whole (bs.drop (bs.takeWhile p).length) := by
  have hcut : Cut bs (bs.takeWhile p).length := by
    cases hrest : bs.drop (bs.takeWhile p).length with
    | nil =>
      right
      rw [← List.head?_drop, hrest]
      rfl
    | cons b rest =>
      refine .before (b := b) ?_ (Lexeme.isAscii_of_drop_takeWhile hp hrest).1
      rw [← List.head?_drop, hrest]
      rfl
  have hwhole := h.cut hcut
  rwa [← List.prefix_iff_eq_take.1 (List.takeWhile_prefix p)] at hwhole

namespace Definition

open Byte

theorem isAscii_of_isSpace (b : UInt8) (h : isSpace b = true) : isAscii b = true := by
  simp only [isSpace, Bool.or_eq_true, beq_iff_eq] at h
  rcases h with rfl | rfl <;> decide

theorem afterParameter_whole {bs : Bytes} (h : Whole bs) : Whole (afterParameter bs) := by
  have hdrop := h.dropWhile isAscii_of_isSpace
  unfold afterParameter
  split
  · exact .nil
  next b rest heq =>
    rw [heq] at hdrop
    split
    next hcomma => exact hdrop.of_cons (by rw [hcomma]; decide)
    next => exact hdrop

theorem afterParameter_suffix (bs : Bytes) : afterParameter bs <:+ bs := by
  have hdrop := List.dropWhile_suffix (l := bs) isSpace
  unfold afterParameter
  split
  · exact List.nil_suffix
  next b rest heq =>
    rw [heq] at hdrop
    split
    · exact (List.suffix_cons b rest).trans hdrop
    · exact hdrop

/-- The parameter at the start of a whole text can be cut off. -/
theorem parameterLength_whole {bs : Bytes} (h : Whole bs) :
    Whole (bs.take (parameterLength bs)) ∧ Whole (bs.drop (parameterLength bs)) := by
  unfold parameterLength
  split
  next hvariadic =>
    obtain ⟨rest, hrest⟩ := List.isPrefixOf_iff_prefix.1 hvariadic
    have hrun : AsciiRun bs 3 :=
      @Lexeme.asciiRun_of_take bs variadic (by rw [← hrest, List.take_left']; rfl) (by decide)
    exact h.cut hrun.cut
  next =>
    have hcut := h.takeWhile (fun _ => Lexeme.isAscii_of_not_isIdentifierByte)
    refine ⟨?_, hcut.2⟩
    rw [← List.prefix_iff_eq_take.1 (List.takeWhile_prefix _)]
    exact hcut.1

/-- Parameters are whole, and so is what follows them. -/
theorem parameters?_whole {bs after : Bytes} {params : List Bytes} (hbs : Whole bs)
    (h : parameters? bs = some (params, after)) :
    (∀ p ∈ params, Whole p) ∧ Whole after ∧ after <:+ bs := by
  fun_induction parameters? bs generalizing params with
  | case1 | case3 | case4 => cases h
  | case2 bs rest heq =>
    cases h
    have hdrop := hbs.dropWhile isAscii_of_isSpace
    have hsuffix := List.dropWhile_suffix (l := bs) isSpace
    rw [heq] at hdrop hsuffix
    exact ⟨by simp, hdrop.of_cons (by decide), (List.suffix_cons _ after).trans hsuffix⟩
  | case5 bs b rest heq hclose n hn params' after' hrest ih =>
    cases h
    have hdrop := hbs.dropWhile isAscii_of_isSpace
    have hsuffix := List.dropWhile_suffix (l := bs) isSpace
    rw [heq] at hdrop hsuffix
    obtain ⟨hparam, hbehind⟩ := parameterLength_whole hdrop
    rw [hn] at hparam hbehind
    obtain ⟨hparams, hafter, hlast⟩ := ih (afterParameter_whole hbehind) hrest
    refine ⟨?_, hafter, ?_⟩
    · intro p hp
      rcases List.mem_cons.1 hp with rfl | hp
      · exact hparam
      · exact hparams p hp
    · refine (hlast.trans (afterParameter_suffix _)).trans ?_
      exact ((List.drop_suffix n rest).trans (List.suffix_cons b rest)).trans hsuffix

/-- The blanks that are dropped at the end of a text. -/
theorem dropTrailingBlanks_append (bs : Bytes) :
    ∃ blanks, dropTrailingBlanks bs ++ blanks = bs ∧ ∀ b ∈ blanks, isBlank b = true := by
  refine ⟨(bs.reverse.takeWhile isBlank).reverse, ?_, ?_⟩
  · rw [dropTrailingBlanks, ← List.reverse_append, List.takeWhile_append_dropWhile,
      List.reverse_reverse]
  · intro b hb
    exact List.all_eq_true.1 List.all_takeWhile b (List.mem_reverse.1 hb)

theorem dropTrailingBlanks_whole {bs blanks : Bytes} (hbs : Whole bs)
    (h : dropTrailingBlanks bs ++ blanks = bs) (hblank : ∀ b ∈ blanks, isBlank b = true) :
    Whole (dropTrailingBlanks bs) ∧ Whole blanks := by
  rw [← h] at hbs
  refine hbs.split (.inr ?_)
  cases blanks with
  | nil => rfl
  | cons b rest => exact Lexeme.isAscii_of_isBlank b (hblank b (by simp))

/-- Where the pieces of a definition lie, and that they are whole. -/
structure Cuts (d : Definition) (bs : Bytes) : Prop where
  /-- The name is whole. -/
  name : Whole d.name
  /-- The parameters are whole. -/
  params : ∀ p ∈ d.params?.getD [], Whole p
  /-- The replacement text is whole. -/
  body : Whole d.body
  /-- The replacement text lies where the definition says, and what follows it is whole. -/
  place : ∃ before after, bs = before ++ (d.body ++ after) ∧ before.length = d.start ∧ Whole after

theorem cuts_finish {bs name rest : Bytes} {params? : Option (List Bytes)} (hname : Whole name)
    (hparams : ∀ p ∈ params?.getD [], Whole p) (hrest : Whole rest) (hsuffix : rest <:+ bs) :
    Cuts ⟨name, params?, bs.length - (rest.dropWhile isBlank).length,
      dropTrailingBlanks (rest.dropWhile isBlank)⟩ bs := by
  have hbody := hrest.dropWhile Lexeme.isAscii_of_isBlank
  obtain ⟨blanks, happend, hblank⟩ := dropTrailingBlanks_append (rest.dropWhile isBlank)
  obtain ⟨htrimmed, hblanks⟩ := dropTrailingBlanks_whole hbody happend hblank
  obtain ⟨before, hbefore⟩ := (List.dropWhile_suffix (l := rest) isBlank).trans hsuffix
  refine ⟨hname, hparams, htrimmed, before, blanks, ?_, ?_, hblanks⟩
  · rw [happend, hbefore]
  · show before.length = bs.length - (rest.dropWhile isBlank).length
    rw [← hbefore, List.length_append, Nat.add_sub_cancel]

/-- A definition cuts a whole text into whole texts. -/
theorem parse?_whole {bs : Bytes} {d : Definition} (hbs : Whole bs) (h : parse? bs = some d) :
    d.Cuts bs := by
  have hfrom := hbs.dropWhile isAscii_of_isSpace
  obtain ⟨hname, hafter⟩ := hfrom.takeWhile (fun _ => Lexeme.isAscii_of_not_isIdentifierByte)
  have hsuffix : (bs.dropWhile isSpace).drop
      ((bs.dropWhile isSpace).takeWhile isIdentifierByte).length <:+ bs :=
    (List.drop_suffix _ _).trans (List.dropWhile_suffix _)
  unfold parse? at h
  simp only at h
  split at h
  · cases h
  · split at h
    next hopen =>
      obtain ⟨⟨params, rest⟩, hparams, rfl⟩ := Option.map_eq_some_iff.1 h
      obtain ⟨tail, htail⟩ := List.head?_eq_some_iff.1 hopen
      rw [htail] at hafter hsuffix
      rw [htail, List.tail_cons] at hparams
      obtain ⟨hwhole, hrest, hlast⟩ := parameters?_whole (hafter.of_cons (by decide)) hparams
      exact cuts_finish hname hwhole hrest ((hlast.trans (List.suffix_cons _ tail)).trans hsuffix)
    next =>
      cases h
      exact cuts_finish hname (by simp) hafter hsuffix

/-- Joining lines keeps a text whole. -/
theorem joinLines_whole (bs : Bytes) : ∀ before : Bytes, Whole (before ++ bs) →
    Whole (before ++ joinLines bs) := by
  have hspace : Whole [32] := .ascii (by decide)
  -- a backslash in a whole text stands at the border of a character
  have hcut : ∀ {before rest : Bytes}, Whole (before ++ backslash :: rest) →
      Whole before ∧ Whole (backslash :: rest) := by
    intro before rest h
    exact h.split (.inr (show isAscii backslash = true by decide))
  fun_induction joinLines bs with
  | case1 => exact fun _ h => h
  | case2 d rest ih =>
    intro before h
    obtain ⟨hbefore, hrest⟩ := hcut h
    have hjoined := ih [] ((hrest.of_cons (by decide)).of_cons (by decide))
    exact hbefore.append (hspace.append hjoined)
  | case3 c d rest hc hd ih =>
    intro before h
    simp only [Bool.and_eq_true, decide_eq_true_eq] at hd
    obtain ⟨rfl, rfl⟩ := hd
    obtain ⟨hbefore, hrest⟩ := hcut h
    have hjoined :=
      ih [] (((hrest.of_cons (by decide)).of_cons (by decide)).of_cons (by decide))
    exact hbefore.append (hspace.append hjoined)
  | case4 c d rest hc hd ih =>
    intro before h
    have hjoined := ih (before ++ [backslash]) (by simpa using h)
    simpa using hjoined
  | case5 =>
    intro before h
    exact (hcut h).1.append hspace
  | case6 c hc => exact fun _ h => h
  | case7 => exact fun _ h => h
  | case8 b bs hb ih =>
    intro before h
    have hjoined := ih (before ++ [b]) (by simpa using h)
    simpa using hjoined

end Definition

namespace Arguments

open Byte

/-- Arguments that were found in a whole text are whole, and so is what follows them. -/
structure Cuts (arguments : List (Nat × Bytes)) (stop offset : Nat) (bs : Bytes) : Prop where
  /-- The arguments are whole. -/
  whole : ∀ a ∈ arguments, Whole a.2
  /-- Something was passed over. -/
  lt : offset < stop
  /-- The arguments end in the text. -/
  le : stop ≤ offset + bs.length
  /-- What follows is whole. -/
  rest : Whole (bs.drop (stop - offset))

theorem Cuts.skip {arguments : List (Nat × Bytes)} {stop offset n : Nat} {bs : Bytes}
    (h : Cuts arguments stop (offset + n) (bs.drop n)) : Cuts arguments stop offset bs := by
  have hlt := h.lt
  have hle := h.le
  have hrest := h.rest
  rw [List.length_drop] at hle
  rw [List.drop_drop, show n + (stop - (offset + n)) = stop - offset by omega] at hrest
  exact ⟨h.whole, by omega, by omega, hrest⟩

/-- Arguments end at ASCII bytes. -/
theorem isAscii_of_piece {beyond : Nat} {b : UInt8} {rest : Bytes}
    (h : piece beyond b rest = .closing ∨ piece beyond b rest = .separator) :
    isAscii b = true := by
  unfold piece at h
  split at h
  · repeat' split at h
    all_goals simp at h
  · split at h
    · split at h <;> simp at h
    · split at h
      · simp at h
      · split at h
        next hclose => rw [hclose]; decide
        next =>
          split at h
          next hcomma => rw [hcomma]; decide
          next => simp at h

/-- What is read of an argument has to be whole only together with what follows it, since an
argument is read byte by byte. -/
theorem readFrom_whole {beyond opened offset start depth : Nat} {arg bs : Bytes}
    {arguments : List (Nat × Bytes)} {stop : Nat} (hbs : Whole (arg.reverse ++ bs))
    (h : readFrom beyond opened offset start depth arg bs = .found arguments stop) :
    Cuts arguments stop offset bs := by
  fun_induction readFrom beyond opened offset start depth arg bs generalizing arguments stop with
  | case1 => cases h
  | case2 => cases h
  | case3 offset start depth arg b rest n _ ih =>
    have hrest := ih (by simpa using hbs) h
    rw [Nat.add_assoc] at hrest
    exact Cuts.skip (n := 1 + (n - 1)) (by rwa [Nat.add_comm 1 (n - 1), List.drop_succ_cons,
      Nat.add_comm (n - 1) 1])
  | case4 offset start depth arg b rest _ ih => exact (ih (by simpa using hbs) h).skip (n := 1)
  | case5 offset start depth arg b rest hpiece _ =>
    cases h
    have hascii := isAscii_of_piece (.inl hpiece)
    obtain ⟨harg, hrest⟩ := hbs.split (.inr hascii)
    refine ⟨by simpa using harg, by omega, by simp, ?_⟩
    simpa using hrest.of_cons hascii
  | case6 offset start depth arg b rest _ _ ih => exact (ih (by simpa using hbs) h).skip (n := 1)
  | case7 offset start depth arg b rest hpiece _ arguments' stop' hfound ih =>
    cases h
    have hascii := isAscii_of_piece (.inr hpiece)
    obtain ⟨harg, hrest⟩ := hbs.split (.inr hascii)
    have hmore : Cuts arguments' stop' offset (b :: rest) :=
      (ih (by simpa using hrest.of_cons hascii) hfound).skip (n := 1)
    refine ⟨?_, hmore.lt, hmore.le, hmore.rest⟩
    intro a ha
    rcases List.mem_cons.1 ha with rfl | ha
    · exact harg
    · exact hmore.whole a ha
  | case8 offset start depth arg b rest _ _ hother _ =>
    exact absurd h (hother _ _)
  | case9 offset start depth arg b rest _ _ ih =>
    exact (ih (by simpa using hbs) h).skip (n := 1)

/-- The arguments that follow a name in a whole text are whole, and so is what follows them. -/
theorem read_whole {beyond : Nat} {bs : Bytes} {arguments : List (Nat × Bytes)} {stop : Nat}
    (hbs : Whole bs) (h : read beyond bs = .found arguments stop) : Cuts arguments stop 0 bs := by
  have hrun := AsciiRun.takeWhile Lexeme.isAscii_of_isBlank bs
  have hdrop := (hbs.cut hrun.cut).2
  unfold read at h
  simp only at h
  split at h
  · cases h
  next b rest heq =>
    rw [heq] at hdrop
    split at h
    next hopen =>
      have hwhole : Whole (([] : Bytes).reverse ++ rest) :=
        hdrop.of_cons (by rw [hopen]; decide)
      have hcuts := readFrom_whole hwhole h
      have hrest : rest = bs.drop ((bs.takeWhile isBlank).length + 1) := by
        rw [← List.drop_drop, heq]
        rfl
      rw [hrest] at hcuts
      exact @Cuts.skip arguments stop 0 ((bs.takeWhile isBlank).length + 1) bs
        (by rwa [Nat.zero_add])
    next => cases h

end Arguments

end CppDecl
