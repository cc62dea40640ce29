import CppDecl.Lexeme
import CppDecl.Proofs.Text

/-!
# Extents of lexemes

A scan says how many bytes the first lexeme has.  This module shows that the count always makes
sense in a window whose text is all there: a lexeme has at least one byte and no more bytes than
there are, and it ends at the border of a character.  `Scan.Fits` collects these facts, and
`Lexeme.fits_scanFrom` has them for every run of bytes.

There is one lemma for each class of lexemes.  A lexeme ends in one of three ways: with the run
itself, right behind an ASCII byte such as a quote or a newline, or right before an ASCII byte, such
as the one that ends an identifier.  In each case the run can be cut there (`Text.Cut`).

`Lexeme.begins_scanFrom` says which kinds there are and what a lexeme of each starts with.  The last
section compares the two ways to read a `>`.
-/

namespace CppDecl

open Text (isAscii Cut Run AsciiRun EndsWith)

/-- A scan is right about the run of bytes that it was made from. -/
structure Scan.Fits (scan : Scan) (bs : Bytes) : Prop where
  /-- A lexeme is not empty. -/
  pos : 0 < scan.len
  /-- A lexeme lies in the run. -/
  le : scan.len ≤ bs.length
  /-- A lexeme ends at the border of a character. -/
  cut : Cut bs scan.len
  /-- Neither the end of the file nor the use of a macro is a lexeme. -/
  lexical : ∀ kind ∈ scan.kind?, kind ≠ .endOfFile ∧ kind ≠ .macroUse
  /-- Only a directive does anything. -/
  passive : scan.kind? ≠ some .directive → scan.effect = .nothing
  /-- What a directive works on starts behind some ASCII bytes of it. -/
  operand : ∀ n, scan.effect = .undefine n ∨ scan.effect = .define n →
    AsciiRun bs n ∧ n ≤ scan.len

namespace Lexeme

open Byte

/-! ## Classes of bytes -/

theorem isAscii_of_isBlank (b : UInt8) (h : isBlank b = true) : isAscii b = true := by
  simp only [isBlank, Bool.or_eq_true, beq_iff_eq] at h
  rcases h with ((rfl | rfl) | rfl) | rfl <;> decide

theorem isAscii_of_isDigit (b : UInt8) (h : isDigit b = true) : isAscii b = true := by
  simp only [isDigit, Bool.and_eq_true, decide_eq_true_eq] at h
  simp only [isAscii, decide_eq_true_eq]
  exact UInt8.lt_of_le_of_lt h.2 (by decide)

theorem isAscii_of_isWordByte (b : UInt8) (h : isWordByte b = true) : isAscii b = true := by
  simp only [isWordByte, isLetter, Bool.or_eq_true, Bool.and_eq_true, decide_eq_true_eq,
    beq_iff_eq] at h
  rcases h with (((h | h) | h) | rfl) | rfl
  · exact decide_eq_true (UInt8.lt_of_le_of_lt h.2 (by decide))
  · exact decide_eq_true (UInt8.lt_of_le_of_lt h.2 (by decide))
  · exact isAscii_of_isDigit b h
  · decide
  · decide

theorem isAscii_of_not_isIdentifierByte {b : UInt8} (h : isIdentifierByte b = false) :
    isAscii b = true := by
  simp only [isIdentifierByte, Bool.or_eq_false_iff, decide_eq_false_iff_not] at h
  exact decide_eq_true (UInt8.not_le.1 h.2)

theorem isAscii_of_not_isDelimiterByte {b : UInt8} (h : isDelimiterByte b = false) :
    isAscii b = true := by
  simp only [isDelimiterByte, Bool.not_eq_false', Bool.or_eq_true, beq_iff_eq] at h
  rcases h with ((h | rfl) | rfl) | rfl
  · exact isAscii_of_isBlank b h
  · decide
  · decide
  · decide

/-! ## Ends of stretches -/

/-- A count of bytes that stays in the run and can be cut at. -/
structure Stops (bs : Bytes) (n : Nat) : Prop where
  /-- The count stays in the run. -/
  le : n ≤ bs.length
  /-- The run can be cut there. -/
  cut : Cut bs n

theorem Stops.cons {bs : Bytes} {n : Nat} {b : UInt8} (hb : isAscii b = true) (h : Stops bs n) :
    Stops (b :: bs) (n + 1) :=
  ⟨Nat.succ_le_succ h.le, h.cut.cons hb⟩

theorem Stops.length (bs : Bytes) : Stops bs bs.length := ⟨Nat.le_refl _, .length bs⟩

/-- A stretch can end behind an ASCII byte. -/
theorem Stops.of_endsWith {bs : Bytes} {n : Nat} {b : UInt8} (h : EndsWith bs n b)
    (hb : isAscii b = true) : Stops bs n := ⟨h.le, h.cut hb⟩

theorem Stops.append {ys : Bytes} {n : Nat} (xs : Bytes) (h : Stops ys n) (hn : 0 < n) :
    Stops (xs ++ ys) (xs.length + n) :=
  ⟨by rw [List.length_append]; exact Nat.add_le_add_left h.le _, h.cut.append xs hn⟩

theorem Text.AsciiRun.stops_add {bs : Bytes} {m n : Nat} (hm : AsciiRun bs m)
    (hn : Stops (bs.drop m) n) : Stops bs (m + n) := by
  have hle := hn.le
  rw [List.length_drop] at hle
  exact ⟨by have := hm.le; omega, hm.cut_add hn.cut⟩

theorem pos_line (b : UInt8) (bs : Bytes) : 0 < (line (b :: bs)).1 := by
  unfold line
  split
  · exact Nat.one_pos
  · exact Nat.succ_pos _

theorem line_endsWith (bs : Bytes) : (line bs).1 = bs.length ∨ EndsWith bs (line bs).1 newline := by
  induction bs with
  | nil => exact .inl rfl
  | cons b bs ih =>
    unfold line
    split
    next h => exact .inr ⟨0, rfl, by simp [h]⟩
    next h =>
      rcases ih with hall | hends
      · exact .inl (congrArg (· + 1) hall)
      · exact .inr (hends.cons b)

theorem stops_line (bs : Bytes) : Stops bs (line bs).1 := by
  rcases line_endsWith bs with hall | hends
  · exact hall ▸ .length bs
  · exact .of_endsWith hends (by decide)

theorem pos_definitionLine (escaped : Bool) (b : UInt8) (bs : Bytes) :
    0 < (definitionLine escaped (b :: bs)).1 := by
  unfold definitionLine
  split
  · exact Nat.one_pos
  · exact Nat.succ_pos _

theorem definitionLine_endsWith (escaped : Bool) (bs : Bytes) :
    (definitionLine escaped bs).1 = bs.length ∨ EndsWith bs (definitionLine escaped bs).1 newline := by
  induction bs generalizing escaped with
  | nil => exact .inl rfl
  | cons b bs ih =>
    unfold definitionLine
    split
    next h =>
      simp only [Bool.and_eq_true, decide_eq_true_eq] at h
      exact .inr ⟨0, rfl, by simp [h.1]⟩
    next h =>
      simp only
      generalize (if b = newline || b = carriageReturn then escaped else b == backslash) = next
      rcases ih next with hall | hends
      · exact .inl (congrArg (· + 1) hall)
      · exact .inr (hends.cons b)

theorem stops_definitionLine (escaped : Bool) (bs : Bytes) :
    Stops bs (definitionLine escaped bs).1 := by
  rcases definitionLine_endsWith escaped bs with hall | hends
  · exact hall ▸ .length bs
  · exact .of_endsWith hends (by decide)

/-- The end of a comment is behind a slash. -/
theorem commentEnd?_endsWith {bs : Bytes} {n : Nat} (h : commentEnd? bs = some n) : EndsWith bs n slash := by
  induction bs generalizing n with
  | nil => cases h
  | cons b bs ih =>
    unfold commentEnd? at h
    split at h
    next hend =>
      cases h
      simp only [Bool.and_eq_true, decide_eq_true_eq] at hend
      obtain ⟨rest, rfl⟩ := List.head?_eq_some_iff.1 hend.2
      exact ⟨1, rfl, rfl⟩
    next =>
      obtain ⟨m, hm, rfl⟩ := Option.map_eq_some_iff.1 h
      exact (ih hm).cons b

/-- The end of a literal is behind its closing quote. -/
theorem literalEnd?_endsWith {mark : UInt8} {bs : Bytes} {n : Nat}
    (h : literalEnd? mark bs = some n) : EndsWith bs n mark := by
  fun_induction literalEnd? mark bs generalizing n with
  | case1 => cases h
  | case2 => cases h
  | case3 c rest ih =>
    obtain ⟨m, hm, rfl⟩ := Option.map_eq_some_iff.1 h
    exact ((ih hm).cons c).cons backslash
  | case4 bs hb =>
    cases h
    exact ⟨0, rfl, rfl⟩
  | case5 b bs _ _ ih =>
    obtain ⟨m, hm, rfl⟩ := Option.map_eq_some_iff.1 h
    exact (ih hm).cons b

/-- The end of a terminator is behind its last byte. -/
theorem terminatorEnd?_endsWith {terminator bs : Bytes} {last : UInt8} {n : Nat}
    (h : terminatorEnd? (terminator ++ [last]) bs = some n) : EndsWith bs n last := by
  induction bs generalizing n with
  | nil => cases h
  | cons b bs ih =>
    unfold terminatorEnd? at h
    split at h
    next hstarts =>
      cases h
      obtain ⟨rest, hrest⟩ := List.isPrefixOf_iff_prefix.1 hstarts
      refine ⟨terminator.length, by simp, ?_⟩
      rw [← hrest, List.append_assoc, List.getElem?_append_right (Nat.le_refl _), Nat.sub_self]
      rfl
    next =>
      obtain ⟨m, hm, rfl⟩ := Option.map_eq_some_iff.1 h
      exact (ih hm).cons b

/-! ## Blanks and comments -/

/-- A scan that does nothing is right if its length is. -/
theorem fits_of_stops {scan : Scan} {bs : Bytes} (hpos : 0 < scan.len) (hstop : Stops bs scan.len)
    (hkind : ∀ kind ∈ scan.kind?, kind ≠ .endOfFile ∧ kind ≠ .macroUse)
    (heffect : scan.effect = .nothing) : scan.Fits bs :=
  ⟨hpos, hstop.le, hstop.cut, hkind, fun _ => heffect, by simp [heffect]⟩

theorem fits_blanks (lineStart : Bool) {b : UInt8} {bs : Bytes} (hb : isBlank b = true) :
    (blanks lineStart (b :: bs)).Fits (b :: bs) := by
  have hrun := AsciiRun.takeWhile isAscii_of_isBlank (b :: bs)
  refine fits_of_stops ?_ ⟨hrun.le, hrun.cut⟩ (by simp [blanks]) rfl
  simp [blanks, hb]

theorem fits_lineComment (bs : Bytes) : (lineComment bs).Fits (slash :: slash :: bs) := by
  have hstop := ((stops_line bs).cons (b := slash) (by decide)).cons (b := slash) (by decide)
  have hlen : (lineComment bs).len = (line bs).1 + 1 + 1 := by
    simp only [lineComment]
    omega
  exact fits_of_stops (by omega) (hlen ▸ hstop) (by simp [lineComment]) rfl

theorem fits_blockComment (bs : Bytes) : (blockComment bs).Fits (slash :: star :: bs) := by
  unfold blockComment
  split
  next n hn =>
    have hend : Stops bs n := .of_endsWith (commentEnd?_endsWith hn) (by decide)
    have hstop := (hend.cons (b := star) (by decide)).cons (b := slash) (by decide)
    refine fits_of_stops (by simp) ?_ (by simp) rfl
    rwa [show n + 1 + 1 = 2 + n by omega] at hstop
  next =>
    refine fits_of_stops (by simp) ?_ (by simp) rfl
    have hstop := Stops.length (slash :: star :: bs)
    rwa [show (slash :: star :: bs).length = 2 + bs.length by simp; omega] at hstop

/-! ## Literals -/

theorem fits_literal {mark : UInt8} (hmark : isAscii mark = true) (lead : Bytes)
    (faults : List Fault) (bs : Bytes) :
    (literal 0 mark lead.length faults bs).Fits (lead ++ mark :: bs) := by
  unfold literal
  split
  next n hn =>
    have hend : Stops bs n := .of_endsWith (literalEnd?_endsWith hn) hmark
    have hstop := (hend.cons hmark).append lead (Nat.succ_pos n)
    refine fits_of_stops (by simp) ?_ (by simp) rfl
    rwa [show lead.length + (n + 1) = lead.length + 1 + n by omega] at hstop
  next =>
    refine fits_of_stops (by simp [unclosed]) ?_ (by simp) rfl
    have hstop := Stops.length (lead ++ mark :: bs)
    rw [List.length_append, List.length_cons] at hstop
    simpa [unclosed, Nat.add_assoc, Nat.add_comm 1] using hstop

theorem drop_length_takeWhile (p : UInt8 → Bool) (bs : Bytes) :
    bs.drop (bs.takeWhile p).length = bs.dropWhile p := by
  induction bs with
  | nil => rfl
  | cons b bs ih =>
    by_cases h : p b = true
    · rw [List.takeWhile_cons_of_pos h, List.dropWhile_cons_of_pos h]
      exact ih
    · rw [List.takeWhile_cons_of_neg h, List.dropWhile_cons_of_neg h]
      rfl

/-- The byte behind a stretch of bytes of one class, if there is one, is not of the class. -/
theorem isAscii_of_drop_takeWhile {p : UInt8 → Bool}
    (hp : ∀ b, p b = false → isAscii b = true) {bs rest : Bytes} {b : UInt8}
    (h : bs.drop (bs.takeWhile p).length = b :: rest) : isAscii b = true ∧ p b = false := by
  rw [drop_length_takeWhile] at h
  have hfalse : p b = false := by
    have hne : bs.dropWhile p ≠ [] := by rw [h]; exact List.cons_ne_nil b rest
    have hhead := List.head_dropWhile_not p hne
    simpa [h] using hhead
  exact ⟨hp b hfalse, hfalse⟩

theorem fits_rawLiteral (lead bs : Bytes) :
    (rawLiteral lead.length bs).Fits (lead ++ quote :: bs) := by
  have hquote : isAscii quote = true := by decide
  have happend : ∀ {n : Nat}, Stops bs n → Stops (lead ++ quote :: bs) (lead.length + 1 + n) := by
    intro n hn
    have hstop := (hn.cons hquote).append lead (Nat.succ_pos n)
    rwa [show lead.length + (n + 1) = lead.length + 1 + n by omega] at hstop
  have hsplit :
      bs.takeWhile isDelimiterByte ++ bs.drop (bs.takeWhile isDelimiterByte).length = bs := by
    rw [drop_length_takeWhile, List.takeWhile_append_dropWhile]
  unfold rawLiteral
  simp only
  split
  next hdrop =>
    have hlen : (bs.takeWhile isDelimiterByte).length = bs.length := by
      rw [hdrop, List.append_nil] at hsplit
      rw [hsplit]
    refine fits_of_stops (by simp) ?_ (by simp) rfl
    simp only [hlen]
    exact happend (.length bs)
  next b rest hdrop =>
    obtain ⟨hascii, _⟩ := isAscii_of_drop_takeWhile (fun _ => isAscii_of_not_isDelimiterByte) hdrop
    have hbs : bs = bs.takeWhile isDelimiterByte ++ b :: rest := by rw [← hdrop, hsplit]
    split
    next hparen =>
      have hinner : ∀ {n : Nat}, Stops rest n →
          Stops bs ((bs.takeWhile isDelimiterByte).length + 1 + n) := by
        intro n hn
        have hstop := (hn.cons hascii).append (bs.takeWhile isDelimiterByte) (Nat.succ_pos n)
        rwa [← hbs, show (bs.takeWhile isDelimiterByte).length + (n + 1) =
          (bs.takeWhile isDelimiterByte).length + 1 + n by omega] at hstop
      split
      next n hn =>
        have hend : Stops rest n := .of_endsWith (terminatorEnd?_endsWith hn) hquote
        have hstop := happend (hinner hend)
        refine fits_of_stops (by simp) ?_ (by simp) rfl
        simpa [Nat.add_assoc] using hstop
      next =>
        have hstop := happend (hinner (.length rest))
        refine fits_of_stops (by simp) ?_ (by simp) rfl
        simpa [Nat.add_assoc] using hstop
    next =>
      refine fits_of_stops (by simp) ?_ (by simp) rfl
      refine happend ⟨(List.takeWhile_prefix _).length_le, .before (b := b) ?_ hascii⟩
      rw [← List.head?_drop, hdrop]
      rfl

/-- A run that starts with given ASCII bytes. -/
theorem asciiRun_of_take {bs lead : Bytes} (h : bs.take lead.length = lead)
    (hlead : lead.all isAscii = true) : AsciiRun bs lead.length := by
  refine ⟨?_, by rw [h]; exact List.all_eq_true.1 hlead⟩
  have hlen := congrArg List.length h
  rw [List.length_take] at hlen
  omega

/-! ## Numbers -/

/-- Bytes that numbers are made of: word bytes, the point and the signs. -/
def isNumberByte (b : UInt8) : Bool := isWordByte b || b == dot || b == 43 || b == 45

theorem isNumberByte_of_isDigit (b : UInt8) (h : isDigit b = true) : isNumberByte b = true := by
  simp [isNumberByte, isWordByte, h]

theorem isNumberByte_of_isHexDigit (b : UInt8) (h : isHexDigit b = true) : isNumberByte b = true := by
  simp only [isHexDigit, Bool.or_eq_true, Bool.and_eq_true, decide_eq_true_eq] at h
  rcases h with (h | ⟨hlow, hhigh⟩) | ⟨hlow, hhigh⟩
  · exact isNumberByte_of_isDigit b h
  · simp [isNumberByte, isWordByte, isLetter, hlow, UInt8.le_trans hhigh (by decide : (102 : UInt8) ≤ 122)]
  · simp [isNumberByte, isWordByte, isLetter, hlow, UInt8.le_trans hhigh (by decide : (70 : UInt8) ≤ 90)]

theorem isAscii_of_isNumberByte (b : UInt8) (h : isNumberByte b = true) : isAscii b = true := by
  simp only [isNumberByte, Bool.or_eq_true, beq_iff_eq] at h
  rcases h with ((h | rfl) | rfl) | rfl
  · exact isAscii_of_isWordByte b h
  all_goals decide

theorem isNumberByte_of_mem {b : UInt8} {cs : List Char} (h : Char.ofUInt8 b ∈ cs)
    (hcs : (cs.all fun c => isNumberByte c.toUInt8) = true) : isNumberByte b = true := by
  have hb := List.all_eq_true.1 hcs _ h
  rwa [show (Char.ofUInt8 b).toUInt8 = b from UInt8.toUInt8_toUInt32 b] at hb

theorem run_sign (bs : Bytes) :
    Run isNumberByte bs ((bs.take 1).countP fun s => Char.ofUInt8 s ∈ ['+', '-']) := by
  cases bs with
  | nil => exact .zero _ _
  | cons s bs =>
    rw [List.take_succ_cons, List.take_zero, List.countP_singleton]
    split
    next hs => exact Run.cons (isNumberByte_of_mem (of_decide_eq_true hs) (by decide)) (.zero _ bs)
    next => exact .zero _ _

theorem run_digits (bs : Bytes) : Run isNumberByte bs (bs.takeWhile isDigit).length :=
  (Run.takeWhile isDigit bs).mono isNumberByte_of_isDigit

theorem run_exponent (bs : Bytes) : Run isNumberByte bs (exponent bs).1 := by
  unfold exponent
  split
  next e rest =>
    split
    next he =>
      simp only
      split
      · exact .zero _ _
      · have hdigits := (run_sign rest).add (run_digits _)
        have hrun := Run.cons (isNumberByte_of_mem he (by decide)) hdigits
        rwa [← Nat.add_assoc] at hrun
    next => exact .zero _ _
  next => exact .zero _ _

theorem run_typeMarks (bs : Bytes) : Run isNumberByte bs (typeMarks bs).1 := by
  have hrun : ∀ {n : Nat} (cs : List Char), n ≤ 3 →
      ((bs.take 3).map Char.ofUInt8).take n = cs → cs.length = n →
      (cs.all fun c => isNumberByte c.toUInt8) = true → Run isNumberByte bs n := by
    intro n cs hn hcs hlen hall
    rw [← List.map_take, List.take_take, Nat.min_eq_left hn] at hcs
    have hle : n ≤ bs.length := by
      have := congrArg List.length hcs
      rw [List.length_map, List.length_take] at this
      omega
    refine ⟨hle, fun b hb => @isNumberByte_of_mem b cs ?_ hall⟩
    rw [← hcs]
    exact List.mem_map_of_mem hb
  unfold typeMarks
  split
  next heq => exact hrun ['f'] (by decide) (by rw [heq]; rfl) rfl (by decide)
  next heq => exact hrun ['U', 'L', 'L'] (by decide) (by rw [heq]; rfl) rfl (by decide)
  next heq => exact hrun ['U', 'L'] (by decide) (by rw [heq]; rfl) rfl (by decide)
  next heq => exact hrun ['U'] (by decide) (by rw [heq]; rfl) rfl (by decide)
  next heq => exact hrun ['L', 'L'] (by decide) (by rw [heq]; rfl) rfl (by decide)
  next heq => exact hrun ['L'] (by decide) (by rw [heq]; rfl) rfl (by decide)
  next => exact .zero _ _

theorem run_numberCore (bs : Bytes) : Run isNumberByte bs (numberCore bs).1 := by
  unfold numberCore
  split
  next hhex =>
    have hlead : Run isNumberByte bs 2 := by
      have hmem : bs.take 2 ∈ hexLeads := by simpa using hhex
      have hall : (hexLeads.all fun lead => lead.length = 2 && lead.all isNumberByte) = true := by
        decide
      have hlead := List.all_eq_true.1 hall _ hmem
      rw [Bool.and_eq_true, decide_eq_true_eq, List.length_take] at hlead
      exact ⟨by omega, List.all_eq_true.1 hlead.2⟩
    exact hlead.add ((Run.takeWhile isHexDigit _).mono isNumberByte_of_isHexDigit)
  next =>
    have hfraction : Run isNumberByte (bs.drop (bs.takeWhile isDigit).length)
        (if (bs.drop (bs.takeWhile isDigit).length).head? = some dot then
          1 + ((bs.drop (bs.takeWhile isDigit).length).tail.takeWhile isDigit).length else 0) := by
      split
      next hdot =>
        cases hrest : bs.drop (bs.takeWhile isDigit).length with
        | nil =>
          rw [hrest] at hdot
          cases hdot
        | cons b rest =>
          rw [hrest] at hdot
          obtain rfl : b = dot := by simpa using hdot
          exact Run.cons (by decide) (run_digits rest)
      next => exact .zero _ _
    have hnumber := ((run_digits bs).add hfraction).add (run_exponent _)
    simpa [List.drop_drop] using hnumber

/-- A number is made of number bytes. -/
theorem run_number (bs : Bytes) : Run isNumberByte bs (number bs).len :=
  (run_numberCore bs).add (run_typeMarks _)

theorem pos_numberCore {b : UInt8} {bs : Bytes} (hb : isDigit b = true) :
    0 < (numberCore (b :: bs)).1 := by
  unfold numberCore
  split
  · simp
  · simp [hb]

theorem fits_number {b : UInt8} {bs : Bytes} (hb : isDigit b = true) :
    (number (b :: bs)).Fits (b :: bs) := by
  have hrun := (run_number (b :: bs)).ascii isAscii_of_isNumberByte
  have hpos : 0 < (numberCore (b :: bs)).1 := pos_numberCore hb
  exact fits_of_stops (by simp only [number]; omega) ⟨hrun.le, hrun.cut⟩ (by simp [number]) rfl

/-! ## Words -/

theorem fits_word {b : UInt8} {bs : Bytes} (hb : isIdentifierByte b = true) :
    (word 0 (b :: bs)).Fits (b :: bs) := by
  have hpos : 0 < ((b :: bs).takeWhile isIdentifierByte).length := by simp [hb]
  have hsplit : (b :: bs).takeWhile isIdentifierByte ++
      (b :: bs).drop ((b :: bs).takeWhile isIdentifierByte).length = b :: bs := by
    rw [drop_length_takeWhile, List.takeWhile_append_dropWhile]
  unfold word
  simp only
  split
  next hdrop =>
    have hlen : ((b :: bs).takeWhile isIdentifierByte).length = (b :: bs).length := by
      rw [hdrop, List.append_nil] at hsplit
      rw [hsplit]
    exact fits_of_stops hpos (by rw [hlen]; exact .length _) (by simp) rfl
  next mark rest hdrop =>
    obtain ⟨hascii, _⟩ :=
      isAscii_of_drop_takeWhile (fun _ => isAscii_of_not_isIdentifierByte) hdrop
    rw [hdrop] at hsplit
    split
    next hraw =>
      simp only [Bool.and_eq_true, decide_eq_true_eq] at hraw
      have hfits := fits_rawLiteral ((b :: bs).takeWhile isIdentifierByte) rest
      rwa [← hraw.1, hsplit] at hfits
    next =>
      split
      next =>
        have hfits := fun faults =>
          fits_literal hascii ((b :: bs).takeWhile isIdentifierByte) faults rest
        rw [hsplit] at hfits
        exact hfits _
      next =>
        refine fits_of_stops hpos ⟨(List.takeWhile_prefix _).length_le, ?_⟩ (by simp) rfl
        refine .before (b := mark) ?_ hascii
        rw [← List.head?_drop, hdrop]
        rfl

/-! ## Punctuators -/

/-- What the table of punctuators says about each of them. -/
theorem punctuators_spelled : ∀ kind ∈ punctuators,
    kind.spelling.utf8ByteSize = (spellingBytes kind).length ∧ 0 < (spellingBytes kind).length ∧
      (spellingBytes kind).all isAscii = true ∧ kind ≠ .endOfFile ∧ kind ≠ .macroUse ∧
      kind ≠ .directive := by
  decide

theorem punctuator?_mem {closeAnglesOnly : Bool} {bs : Bytes} {kind : TokenKind}
    (h : punctuator? closeAnglesOnly bs = some kind) :
    kind ∈ punctuators ∧ (spellingBytes kind) <+: bs := by
  obtain ⟨hstarts, hmem⟩ := List.find?_eq_some_iff_append.1 h |>.1, List.mem_of_find?_eq_some h
  exact ⟨(List.mem_filter.1 hmem).1, List.isPrefixOf_iff_prefix.1 hstarts⟩

/-! ## Directives -/

theorem bytes_of_word {name : Bytes} (h : ∀ b ∈ name, isAscii b = true) :
    Text.bytes ((Text.ofBytes? name).getD "") = name := by
  have hwhole : Text.Whole name := by
    induction name with
    | nil => exact .nil
    | cons b name ih =>
      exact (Text.Whole.ascii (h b (by simp))).append (ih fun c hc => h c (by simp [hc]))
  obtain ⟨s, hs, hbytes⟩ := hwhole.ofBytes?
  rw [hs]
  exact hbytes

theorem utf8ByteSize_word (bs : Bytes) :
    ((Text.ofBytes? (bs.takeWhile isWordByte)).getD "").utf8ByteSize =
      (bs.takeWhile isWordByte).length := by
  rw [← Text.length_bytes, bytes_of_word]
  exact fun b hb => isAscii_of_isWordByte b (List.all_eq_true.1 List.all_takeWhile b hb)

theorem fits_namedDirective {bs : Bytes} {start : Nat} {name : String}
    (hrun : AsciiRun bs (start + name.utf8ByteSize)) (hstart : 0 < start) :
    (namedDirective name start (bs.drop (start + name.utf8ByteSize))).Fits bs := by
  have hline := Text.AsciiRun.stops_add hrun (stops_line _)
  have hdefinition := Text.AsciiRun.stops_add hrun (stops_definitionLine false _)
  unfold namedDirective
  simp only
  split
  · exact ⟨by simp; omega, hline.le, hline.cut, by simp, by simp, by simp⟩
  · split
    · refine ⟨by simp; omega, hline.le, hline.cut, by simp, by simp, ?_⟩
      rintro n (h | h)
      · cases h
        exact ⟨hrun, Nat.le_add_right _ _⟩
      · cases h
    · split
      · refine ⟨by simp; omega, hdefinition.le, hdefinition.cut, by simp, by simp, ?_⟩
        rintro n (h | h)
        · cases h
        · cases h
          exact ⟨hrun, Nat.le_add_right _ _⟩
      · split
        · exact ⟨by simp; omega, hline.le, hline.cut, by simp, by simp, by simp⟩
        · exact ⟨by simp; omega, hline.le, hline.cut, by simp, by simp, by simp⟩

theorem fits_directive (bs : Bytes) : (directive bs).Fits (hash :: bs) := by
  have hhash : isAscii hash = true := by decide
  unfold directive
  simp only
  split
  next =>
    have hstop := (stops_line bs).cons hhash
    rw [Nat.add_comm] at hstop
    exact fits_of_stops (by simp) hstop (by simp) rfl
  next =>
    have hgap := AsciiRun.cons hhash (.takeWhile isAscii_of_isBlank bs)
    have hword := AsciiRun.takeWhile isAscii_of_isWordByte
      (bs.drop (bs.takeWhile isBlank).length)
    have hdrop : (hash :: bs).drop (1 + (bs.takeWhile isBlank).length) =
        bs.drop (bs.takeWhile isBlank).length := by
      rw [Nat.add_comm]
      rfl
    have hsize := utf8ByteSize_word (bs.drop (bs.takeWhile isBlank).length)
    have hrun := hgap.add (n := _) (by rw [hdrop]; exact hword)
    rw [← hsize] at hrun
    have hfits := fits_namedDirective hrun (by omega)
    rw [← List.drop_drop, hdrop] at hfits
    rw [hsize] at hfits
    exact hfits

/-! ## Any lexeme -/

/-- The first lexeme of a run of bytes fits the run. -/
theorem fits_scanFrom (closeAnglesOnly lineStart : Bool) (b : UInt8) (bs : Bytes) :
    (scanFrom closeAnglesOnly lineStart 0 b bs).Fits (b :: bs) := by
  fun_cases scanFrom closeAnglesOnly lineStart 0 b bs with
  | case1 hblank => exact fits_blanks lineStart hblank
  | case2 _ hhash _ =>
    subst hhash
    exact fits_directive bs
  | case3 _ hhash _ =>
    subst hhash
    exact fits_of_stops (by simp) ⟨by simp, .behind (b := hash) (by simp) (by decide)⟩
      (by simp) rfl
  | case4 _ _ hline =>
    simp only [Bool.and_eq_true, decide_eq_true_eq] at hline
    obtain ⟨rfl, hhead⟩ := hline
    obtain ⟨rest, rfl⟩ := List.head?_eq_some_iff.1 hhead
    exact fits_lineComment rest
  | case5 _ _ _ hblock =>
    simp only [Bool.and_eq_true, decide_eq_true_eq] at hblock
    obtain ⟨rfl, hhead⟩ := hblock
    obtain ⟨rest, rfl⟩ := List.head?_eq_some_iff.1 hhead
    exact fits_blockComment rest
  | case6 _ _ _ _ hquote =>
    have hmark : isAscii b = true := by
      simp only [Bool.or_eq_true, decide_eq_true_eq] at hquote
      rcases hquote with rfl | rfl <;> decide
    exact fits_literal hmark [] [] bs
  | case7 _ _ _ _ _ kind hkind =>
    obtain ⟨hmem, rest, hrest⟩ := punctuator?_mem hkind
    obtain ⟨hsize, hpos, hascii, hend, huse, hdir⟩ := punctuators_spelled kind hmem
    have hrun : AsciiRun (b :: bs) (spellingBytes kind).length :=
      asciiRun_of_take (by rw [← hrest, List.take_left']; rfl) hascii
    rw [← hsize] at hpos hrun
    exact fits_of_stops hpos ⟨hrun.le, hrun.cut⟩ (by simp [hend, huse]) rfl
  | case8 _ _ _ _ _ _ hdigit => exact fits_number hdigit
  | case9 _ _ _ _ _ _ _ hword => exact fits_word hword
  | case10 _ _ _ _ _ _ _ hword =>
    have hascii := isAscii_of_not_isIdentifierByte (Bool.eq_false_iff.2 hword)
    exact fits_of_stops (by simp) ⟨by simp, .behind (b := b) (by simp) hascii⟩ (by simp) rfl

/-! ## What kind a lexeme has -/

theorem kind_directive (bs : Bytes) : (directive bs).kind? = some .directive := by
  unfold directive namedDirective
  simp only
  repeat' split
  all_goals rfl

theorem kind_of_blockComment {bs : Bytes} :
    ∀ kind ∈ (blockComment bs).kind?, kind = .blockComment := by
  fun_cases blockComment bs <;> rintro _ ⟨⟩
  rfl

theorem kind_of_literal {beyond : Nat} {mark : UInt8} {lead : Nat} {faults : List Fault}
    {bs : Bytes} : ∀ kind ∈ (literal beyond mark lead faults bs).kind?, kind = .stringLiteral := by
  fun_cases literal beyond mark lead faults bs <;> rintro _ ⟨⟩
  rfl

theorem kind_of_rawLiteral {lead : Nat} {bs : Bytes} :
    ∀ kind ∈ (rawLiteral lead bs).kind?, kind = .stringLiteral := by
  fun_cases rawLiteral lead bs <;> rintro _ ⟨⟩
  rfl

theorem kind_of_word {beyond : Nat} {bs : Bytes} :
    ∀ kind ∈ (word beyond bs).kind?, kind = .identifier ∨ kind = .stringLiteral := by
  fun_cases word beyond bs with
  | case1 | case4 =>
    rintro _ ⟨⟩
    exact .inl rfl
  | case2 => exact fun kind hkind => .inr (kind_of_rawLiteral kind hkind)
  | case3 => exact fun kind hkind => .inr (kind_of_literal kind hkind)

/-- What a lexeme of some kind starts with. -/
inductive Begins (closeAnglesOnly lineStart : Bool) (b : UInt8) : TokenKind → Prop
  /-- A directive starts with a `#` at the start of a line. -/
  | directive (hash_eq : b = hash) (starts : lineStart = true) :
      Begins closeAnglesOnly lineStart b .directive
  /-- A punctuator of the table that is read as one does not start with a `#`. -/
  | punctuator {kind : TokenKind} (hash_ne : b ≠ hash)
      (mem : kind ∈ punctuators.filter (keptWhole closeAnglesOnly)) :
      Begins closeAnglesOnly lineStart b kind
  /-- Nor does a comment, a literal, a number or a name. -/
  | other {kind : TokenKind} (hash_ne : b ≠ hash)
      (mem : kind ∈ [.lineComment, .blockComment, .stringLiteral, .numericLiteral, .identifier]) :
      Begins closeAnglesOnly lineStart b kind

/-- A lexeme that is a token does not start with a blank, and its kind is one of those there are. -/
theorem begins_scanFrom {closeAnglesOnly lineStart : Bool} {beyond : Nat} {b : UInt8} {bs : Bytes} :
    ∀ kind ∈ (scanFrom closeAnglesOnly lineStart beyond b bs).kind?,
      isBlank b = false ∧ Begins closeAnglesOnly lineStart b kind := by
  fun_cases scanFrom closeAnglesOnly lineStart beyond b bs with
  | case1 | case3 | case10 => rintro _ ⟨⟩
  | case2 hblank hhash hstart =>
    rw [kind_directive]
    rintro _ ⟨⟩
    exact ⟨Bool.eq_false_iff.2 hblank, .directive hhash hstart⟩
  | case4 hblank hhash | case8 hblank hhash =>
    rintro _ ⟨⟩
    exact ⟨Bool.eq_false_iff.2 hblank, .other hhash (by decide)⟩
  | case5 hblank hhash =>
    intro kind hkind
    rw [kind_of_blockComment kind hkind]
    exact ⟨Bool.eq_false_iff.2 hblank, .other hhash (by decide)⟩
  | case6 hblank hhash =>
    intro kind hkind
    rw [kind_of_literal kind hkind]
    exact ⟨Bool.eq_false_iff.2 hblank, .other hhash (by decide)⟩
  | case7 hblank hhash _ _ _ kind hkind =>
    rintro _ ⟨⟩
    exact ⟨Bool.eq_false_iff.2 hblank, .punctuator hhash (List.mem_of_find?_eq_some hkind)⟩
  | case9 hblank hhash =>
    intro kind hkind
    refine ⟨Bool.eq_false_iff.2 hblank, .other hhash ?_⟩
    rcases kind_of_word kind hkind with rfl | rfl <;> decide

section

variable {closeAnglesOnly lineStart : Bool} {beyond : Nat} {b : UInt8} {bs : Bytes} {kind : TokenKind}

/-- What starts with a `#` is a directive if it is a token at all. -/
theorem kind_hash (h : (scanFrom closeAnglesOnly lineStart beyond hash bs).kind? = some kind) :
    kind = .directive := by
  cases (begins_scanFrom kind h).2 with
  | directive => rfl
  | punctuator hne | other hne => exact absurd rfl hne

/-- Only a `#` at the start of a line is a directive. -/
theorem directive_of_scanFrom
    (h : (scanFrom closeAnglesOnly lineStart beyond b bs).kind? = some .directive) :
    b = hash ∧ lineStart = true := by
  cases (begins_scanFrom _ h).2 with
  | directive hhash hstart => exact ⟨hhash, hstart⟩
  | punctuator _ hmem => exact absurd (List.mem_filter.1 hmem).1 (by decide)
  | other _ hmem => exact absurd hmem (by decide)

/-- No lexeme is of the kind that stands for the lack of a token. -/
theorem kind_ne_invalid (closeAnglesOnly lineStart : Bool) (beyond : Nat) (b : UInt8) (bs : Bytes) :
    (scanFrom closeAnglesOnly lineStart beyond b bs).kind? ≠ some .invalid := by
  intro h
  cases (begins_scanFrom _ h).2 with
  | punctuator _ hmem => exact absurd (List.mem_filter.1 hmem).1 (by decide)
  | other _ hmem => exact absurd hmem (by decide)

end

/-! ## Two ways to read `>` -/

/-- Bytes of the punctuators that start with `>` or `=`.  A run of them is cut into tokens in
different ways, depending on whether a `>` is always a token of its own. -/
def isAngleByte (b : UInt8) : Bool := b == 62 || b == 61

/-- What the table says about punctuators that are cut in different ways. -/
theorem punctuators_angle : ∀ kind ∈ punctuators,
    (keptWhole true kind = true ∨ (spellingBytes kind).head? = some 62) ∧
      (∀ b ∈ (spellingBytes kind).head?, isAngleByte b = true →
        (spellingBytes kind).all isAngleByte = true ∧ kind ≠ .identifier ∧
          kind.isAside = false) ∧
      (kind = .closeAngle → (spellingBytes kind).head? = some 62) := by
  have htable : ∀ kind ∈ punctuators,
      (keptWhole true kind = true ∨ (spellingBytes kind).head? = some 62) ∧
        ((spellingBytes kind).head?.any isAngleByte = true →
          (spellingBytes kind).all isAngleByte = true ∧ kind ≠ .identifier ∧
            kind.isAside = false) ∧
        (kind = .closeAngle → (spellingBytes kind).head? = some 62) := by
    decide +kernel
  intro kind hmem
  obtain ⟨hcut, hangle, hclose⟩ := htable kind hmem
  refine ⟨hcut, fun b hb hbyte => hangle ?_, hclose⟩
  rw [hb]
  exact hbyte

theorem head?_of_punctuator {kind : TokenKind} {b : UInt8} {bs : Bytes} (hmem : kind ∈ punctuators)
    (h : spellingBytes kind <+: b :: bs) : (spellingBytes kind).head? = some b := by
  have hpos := (punctuators_spelled kind hmem).2.1
  cases hspelling : spellingBytes kind with
  | nil => rw [hspelling] at hpos; cases hpos
  | cons c cs =>
    rw [hspelling] at h
    rw [(List.cons_prefix_cons.1 h).1]
    rfl

/-- If the text does not start with `>`, it does not matter how `>` is read. -/
theorem punctuator?_of_ne (closeAnglesOnly : Bool) {b : UInt8} (bs : Bytes) (hb : b ≠ 62) :
    punctuator? closeAnglesOnly (b :: bs) = punctuator? false (b :: bs) := by
  cases closeAnglesOnly with
  | false => rfl
  | true =>
    unfold punctuator?
    rw [List.find?_filter, List.find?_filter]
    apply List.find?_congr
    intro kind hmem
    rcases (punctuators_angle kind hmem).1 with hkept | hhead
    · rw [hkept]
      rfl
    · have hnot : (spellingBytes kind).isPrefixOf (b :: bs) = false := by
        rw [Bool.eq_false_iff]
        intro hprefixed
        have hstart := head?_of_punctuator hmem (List.isPrefixOf_iff_prefix.1 hprefixed)
        rw [hhead] at hstart
        exact hb (Option.some.inj hstart).symm
      simp [hnot]

theorem scanFrom_of_ne (closeAnglesOnly closeAnglesOnly' lineStart : Bool) {b : UInt8} (bs : Bytes)
    (hb : b ≠ 62) : scanFrom closeAnglesOnly lineStart 0 b bs =
      scanFrom closeAnglesOnly' lineStart 0 b bs := by
  unfold scanFrom
  rw [punctuator?_of_ne closeAnglesOnly bs hb, punctuator?_of_ne closeAnglesOnly' bs hb]
  cases hkind : punctuator? false (b :: bs) with
  | none => rfl
  | some kind =>
    obtain ⟨hmem, hstarts⟩ := punctuator?_mem hkind
    have hne : kind ≠ .closeAngle := by
      intro heq
      have hstart := head?_of_punctuator hmem hstarts
      rw [(punctuators_angle kind hmem).2.2 heq] at hstart
      exact hb (Option.some.inj hstart).symm
    have hahead : ∀ rest, aheadOfPunctuator closeAnglesOnly 0 kind rest =
        aheadOfPunctuator closeAnglesOnly' 0 kind rest := by
      intro rest
      simp only [aheadOfPunctuator, hne, decide_false, Bool.false_and]
    simp only [hahead]

theorem punctuator?_angle (closeAnglesOnly : Bool) {b : UInt8} (bs : Bytes)
    (hb : isAngleByte b = true) : ∃ kind, punctuator? closeAnglesOnly (b :: bs) = some kind := by
  have hsome : (punctuator? closeAnglesOnly (b :: bs)).isSome = true := by
    unfold punctuator?
    rw [List.find?_isSome]
    simp only [isAngleByte, Bool.or_eq_true, beq_iff_eq] at hb
    rcases hb with rfl | rfl
    · refine ⟨.closeAngle, List.mem_filter.2 ⟨by decide, by cases closeAnglesOnly <;> rfl⟩, ?_⟩
      rfl
    · refine ⟨.singleEqual, List.mem_filter.2 ⟨by decide, by cases closeAnglesOnly <;> rfl⟩, ?_⟩
      rfl
  exact Option.isSome_iff_exists.1 hsome

/-- A lexeme that starts with `>` or `=` is made of such bytes only, and it is a token that does
nothing and is no aside. -/
theorem scanFrom_angle (closeAnglesOnly lineStart : Bool) {b : UInt8} (bs : Bytes)
    (hb : isAngleByte b = true) : ∃ kind,
      (scanFrom closeAnglesOnly lineStart 0 b bs).kind? = some kind ∧ kind ≠ .identifier ∧
      kind.isAside = false ∧
      (scanFrom closeAnglesOnly lineStart 0 b bs).faults = [] ∧
      (scanFrom closeAnglesOnly lineStart 0 b bs).lineStart = false ∧
      (scanFrom closeAnglesOnly lineStart 0 b bs).effect = .nothing ∧
      ((b :: bs).take (scanFrom closeAnglesOnly lineStart 0 b bs).len).all isAngleByte = true := by
  obtain ⟨kind, hkind⟩ := punctuator?_angle closeAnglesOnly bs hb
  obtain ⟨hmem, hstarts⟩ := punctuator?_mem hkind
  have hother : isBlank b = false ∧ b ≠ hash ∧ b ≠ slash ∧ b ≠ quote ∧ b ≠ apostrophe := by
    simp only [isAngleByte, Bool.or_eq_true, beq_iff_eq] at hb
    rcases hb with rfl | rfl <;> decide
  obtain ⟨hblank, hhash, hslash, hquote, hapostrophe⟩ := hother
  obtain ⟨hall, hne, haside⟩ :=
    (punctuators_angle kind hmem).2.1 b (head?_of_punctuator hmem hstarts) hb
  have hscan : scanFrom closeAnglesOnly lineStart 0 b bs =
      { kind? := some kind, len := kind.spelling.utf8ByteSize,
        seen := kind.spelling.utf8ByteSize + aheadOfPunctuator closeAnglesOnly 0 kind
          (bs.drop (kind.spelling.utf8ByteSize - 1)) } := by
    unfold scanFrom
    simp only [hblank, hhash, hslash, hquote, hapostrophe, hkind, decide_false, Bool.false_and,
      Bool.or_self, Bool.false_eq_true, if_false]
  rw [hscan]
  refine ⟨kind, rfl, hne, haside, rfl, rfl, rfl, ?_⟩
  rw [(punctuators_spelled kind hmem).1, ← List.prefix_iff_eq_take.1 hstarts]
  exact hall

end Lexeme

end CppDecl
