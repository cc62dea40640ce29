import CppDecl.Proofs.Macro
import CppDecl.Proofs.Passing

/-!
# The last byte of a lexeme

A lexeme says whether the next one stands at the start of a line.  Apart from blanks it does so by its
last byte: that is a newline if the next lexeme stands at the start of a line, and otherwise it is no
blank.  Only a lexeme that takes all that is left may end in another way, such as a comment that breaks
off.  This is `closes_scanFrom`.

Arguments of a macro end with the closing parenthesis (`Arguments.read_endsWith`).
-/

namespace CppDecl

open Byte

/-- How a lexeme ends, depending on whether the next one stands at the start of a line. -/
inductive Scan.Closes (scan : Scan) (bs : Bytes) : Prop
  /-- It takes all that is left. -/
  | all (le : bs.length ≤ scan.len)
  /-- The next lexeme stands at the start of a line. -/
  | newline (starts : scan.lineStart = true) (last : Text.EndsWith bs scan.len newline)
  /-- The next lexeme does not stand at the start of a line. -/
  | plain {c : UInt8} (starts : scan.lineStart = false) (last : Text.EndsWith bs scan.len c)
      (not_blank : isBlank c = false)

namespace Text

/-- The last byte of a run has the property of the run. -/
theorem Run.endsWith {p : UInt8 → Bool} {bs : Bytes} {n : Nat} (h : Run p bs n) (hpos : 0 < n) :
    ∃ c, EndsWith bs n c ∧ p c = true := by
  have hlt : n - 1 < bs.length := by have := h.le; omega
  refine ⟨bs[n - 1], ⟨n - 1, by omega, List.getElem?_eq_getElem hlt⟩, h.all _ ?_⟩
  exact List.mem_take_iff_getElem.2 ⟨n - 1, by omega, rfl⟩

end Text

open Text (Run EndsWith)

namespace Lexeme

variable {lineStart : Bool} {b mark : UInt8} {bs : Bytes} {n : Nat} {scan : Scan}

/-! ## Classes of lexemes -/

theorem not_isBlank_of_isNumberByte (h : isNumberByte b = true) : isBlank b = false := by
  rw [Bool.eq_false_iff]
  intro hblank
  simp only [isBlank, Bool.or_eq_true, beq_iff_eq] at hblank
  rcases hblank with ((rfl | rfl) | rfl) | rfl <;> revert h <;> decide

theorem closes_of_run {p : UInt8 → Bool} (hstarts : scan.lineStart = false) (hpos : 0 < scan.len)
    (hrun : Run p bs scan.len) (hp : ∀ c, p c = true → isBlank c = false) : scan.Closes bs := by
  obtain ⟨c, hlast, hc⟩ := hrun.endsWith hpos
  exact .plain hstarts hlast (hp c hc)

theorem closes_blockComment : (blockComment bs).Closes (slash :: star :: bs) := by
  unfold blockComment
  split
  next n hn =>
    have hlast := ((commentEnd?_endsWith hn).cons star).cons slash
    rw [Nat.add_assoc, Nat.add_comm] at hlast
    exact .plain rfl hlast (by decide)
  next => exact .all (by simp; omega)

theorem closes_literal {lead : Bytes} {faults : List Fault} (hmark : mark = quote ∨ mark = apostrophe) :
    (literal 0 mark lead.length faults bs).Closes (lead ++ mark :: bs) := by
  unfold literal
  split
  next n hn =>
    refine .plain rfl ?_ (?_ : isBlank mark = false)
    · have hlast := ((literalEnd?_endsWith hn).cons mark).append lead
      rwa [Nat.add_comm n, ← Nat.add_assoc] at hlast
    · rcases hmark with rfl | rfl <;> decide
  next => exact .all (by simp [unclosed]; omega)

theorem closes_rawLiteral {lead : Bytes} :
    (rawLiteral lead.length bs).Closes (lead ++ quote :: bs) := by
  have hrun := Run.takeWhile isDelimiterByte bs
  have hsplit : bs.takeWhile isDelimiterByte ++ bs.drop (bs.takeWhile isDelimiterByte).length = bs := by
    rw [drop_length_takeWhile, List.takeWhile_append_dropWhile]
  generalize hdelimiter : bs.takeWhile isDelimiterByte = delimiter at hrun hsplit
  unfold rawLiteral
  simp only [hdelimiter]
  split
  next hdrop =>
    rw [hdrop, List.append_nil] at hsplit
    exact .all (by simp [← hsplit]; omega)
  next b rest hdrop =>
    rw [hdrop] at hsplit
    split
    next hparen =>
      split
      next n hn =>
        refine .plain rfl ?_ (by decide : isBlank quote = false)
        have hlast := ((((terminatorEnd?_endsWith hn).cons b).append delimiter).cons quote).append lead
        rw [hsplit] at hlast
        convert hlast using 1
        simp only
        omega
      next => exact .all (by simp [← hsplit]; omega)
    next =>
      -- the delimiter may be empty, and then the quote comes last
      rcases Nat.eq_zero_or_pos delimiter.length with hzero | hpos
      · refine .plain rfl ?_ (by decide : isBlank quote = false)
        rw [hzero]
        exact ⟨lead.length, rfl, by simp⟩
      · obtain ⟨c, hlast, hc⟩ := hrun.endsWith hpos
        refine .plain rfl ?_ (?_ : isBlank c = false)
        · have hlast' := (hlast.cons quote).append lead
          convert hlast' using 1
          simp only
          omega
        · simp only [isDelimiterByte, Bool.not_eq_true', Bool.or_eq_false_iff] at hc
          exact hc.1.1.1

theorem punctuators_close : ∀ kind ∈ punctuators, (spellingBytes kind).all fun b => !isBlank b := by
  decide +kernel

/-- A lexeme that is neither blank nor a directive ends as it should. -/
theorem Classed.closes (h : Classed lineStart bs scan) (hpos : 0 < scan.len)
    (hblank : ∀ b ∈ bs.head?, isBlank b = false) : scan.Closes bs := by
  cases h with
  | blanks =>
    cases bs with
    | nil => exact absurd hpos (Nat.lt_irrefl 0)
    | cons b bs => simp [Lexeme.blanks, hblank b rfl] at hpos
  | @lineComment bs =>
    rcases line_endsWith bs with hall | hends
    · exact .all (by simp [Lexeme.lineComment, hall]; omega)
    · refine .newline rfl ?_
      have hlast := (hends.cons slash).cons slash
      rwa [Nat.add_assoc, Nat.add_comm] at hlast
  | blockComment => exact closes_blockComment
  | literal _ hmark _ => exact closes_literal hmark
  | rawLiteral _ => exact closes_rawLiteral
  | @punctuator kind rest seen hmem _ =>
    refine closes_of_run (p := fun b => !isBlank b) rfl hpos ⟨by simp, ?_⟩ (by simp)
    rw [List.take_left]
    exact List.all_eq_true.1 (punctuators_close kind hmem)
  | number => exact closes_of_run rfl hpos (run_number bs) fun _ => not_isBlank_of_isNumberByte
  | @identifier name rest seen hall =>
    refine closes_of_run (p := isIdentifierByte) rfl hpos ⟨by simp, ?_⟩ fun _ =>
      not_isBlank_of_isIdentifierByte
    rwa [List.take_left]
  | @garbage b bs => exact .plain rfl ⟨0, rfl, rfl⟩ (hblank b rfl)

/-! ## Directives -/

theorem closes_of_line {m : Nat} (hm : m ≤ bs.length) (hlen : scan.len = m + n)
    (hstarts : scan.lineStart = true)
    (hline : n = (bs.drop m).length ∨ EndsWith (bs.drop m) n newline) : scan.Closes bs := by
  rcases hline with hall | hends
  · refine .all ?_
    rw [hlen, hall, List.length_drop]
    omega
  · refine .newline hstarts ?_
    have hlast := hends.append (bs.take m)
    rwa [List.take_append_drop, List.length_take, Nat.min_eq_left hm, ← hlen] at hlast

theorem closes_namedDirective {name : String} {start : Nat} (hle : start + name.utf8ByteSize ≤ bs.length) :
    (namedDirective name start (bs.drop (start + name.utf8ByteSize))).Closes bs := by
  have hline := line_endsWith (bs.drop (start + name.utf8ByteSize))
  have hdefinition := definitionLine_endsWith false (bs.drop (start + name.utf8ByteSize))
  unfold namedDirective
  simp only
  split
  · exact closes_of_line hle rfl rfl hline
  · split
    · exact closes_of_line hle rfl rfl hline
    · split
      · exact closes_of_line hle rfl rfl hdefinition
      · split
        · exact closes_of_line hle rfl rfl hline
        · exact closes_of_line hle rfl rfl hline

theorem closes_directive (bs : Bytes) : (directive bs).Closes (hash :: bs) := by
  unfold directive
  simp only
  split
  next => exact closes_of_line (m := 1) (by simp) rfl rfl (line_endsWith bs)
  next =>
    have hdrop : (hash :: bs).drop (1 + (bs.takeWhile isBlank).length) =
        bs.drop (bs.takeWhile isBlank).length := by
      rw [Nat.add_comm]
      rfl
    have hsize := utf8ByteSize_word (bs.drop (bs.takeWhile isBlank).length)
    have hle : 1 + (bs.takeWhile isBlank).length +
        ((bs.drop (bs.takeWhile isBlank).length).takeWhile isWordByte).length ≤
        (hash :: bs).length := by
      have hgap := (Run.takeWhile isBlank bs).le
      have hword := (Run.takeWhile isWordByte (bs.drop (bs.takeWhile isBlank).length)).le
      simp only [List.length_drop, List.length_cons] at hword ⊢
      omega
    rw [← hsize] at hle
    have hcloses := closes_namedDirective hle
    rwa [← List.drop_drop, hdrop, hsize] at hcloses

/-- A lexeme that is not blank ends as it should. -/
theorem closes_scanFrom (closeAnglesOnly lineStart : Bool) (bs : Bytes) (hb : isBlank b = false) :
    (scanFrom closeAnglesOnly lineStart 0 b bs).Closes (b :: bs) := by
  by_cases hhash : b = hash
  · subst hhash
    rw [scanFrom, if_neg (by decide), if_pos rfl]
    split
    · exact closes_directive bs
    · exact .plain rfl ⟨0, rfl, rfl⟩ (by decide)
  · refine (classed_scanFrom closeAnglesOnly lineStart bs hhash).closes
      (fits_scanFrom closeAnglesOnly lineStart b bs).pos ?_
    rintro _ ⟨⟩
    exact hb

end Lexeme

namespace Arguments

theorem eq_of_piece_closing {beyond : Nat} {b : UInt8} {rest : Bytes}
    (h : piece beyond b rest = .closing) : b = closeParen := by
  unfold piece at h
  split at h
  · repeat' split at h
    all_goals simp at h
  · split at h
    · split at h <;> simp at h
    · split at h
      · simp at h
      · split at h
        next hclose => exact hclose
        next => split at h <;> simp at h

theorem readFrom_endsWith {beyond opened offset start depth : Nat} {arg bs text : Bytes}
    {found : List (Nat × Bytes)} {stop : Nat} (htext : text.drop offset = bs)
    (h : readFrom beyond opened offset start depth arg bs = .found found stop) :
    offset < stop ∧ EndsWith text stop closeParen := by
  -- every recursive call goes on further behind in the same text
  have hnext : ∀ {offset : Nat} {b : UInt8} {rest : Bytes}, text.drop offset = b :: rest →
      text.drop (offset + 1) = rest := by
    intro offset b rest hdrop
    rw [← List.drop_drop, hdrop]
    rfl
  fun_induction readFrom beyond opened offset start depth arg bs generalizing found with
  | case1 => cases h
  | case2 => cases h
  | case3 offset start depth arg b rest n _ ih =>
    obtain ⟨hlt, hends⟩ := ih (by rw [← List.drop_drop, hnext htext]) h
    exact ⟨by omega, hends⟩
  | case4 offset start depth arg b rest _ ih => exact (ih (hnext htext) h).imp_left Nat.lt_of_succ_lt
  | case5 offset start depth arg b rest hpiece _ =>
    cases h
    refine ⟨Nat.lt_succ_self _, offset, rfl, ?_⟩
    rw [← eq_of_piece_closing hpiece, ← Nat.add_zero offset, ← List.getElem?_drop, htext]
    rfl
  | case6 offset start depth arg b rest _ _ ih => exact (ih (hnext htext) h).imp_left Nat.lt_of_succ_lt
  | case7 offset start depth arg b rest _ _ found' stop' hfound ih =>
    cases h
    exact (ih (hnext htext) hfound).imp_left Nat.lt_of_succ_lt
  | case8 offset start depth arg b rest _ _ hother _ => exact absurd h (hother _ _)
  | case9 offset start depth arg b rest _ _ ih => exact (ih (hnext htext) h).imp_left Nat.lt_of_succ_lt

/-- Arguments end behind the closing parenthesis. -/
theorem read_endsWith {beyond : Nat} {bs : Bytes} {found : List (Nat × Bytes)} {stop : Nat}
    (h : read beyond bs = .found found stop) : EndsWith bs stop closeParen := by
  unfold read at h
  simp only at h
  split at h
  · cases h
  next b rest hdrop =>
    split at h
    next =>
      refine (readFrom_endsWith ?_ h).2
      rw [← List.drop_drop, hdrop]
      rfl
    next => cases h

end Arguments

end CppDecl
