import CppDecl.Proofs.Characters
import CppDecl.Proofs.LastByte
import CppDecl.Proofs.Passing
import CppDecl.Tokens

/-!
# Raw literals

A raw literal chooses its own end.  Behind its opening quote stands a delimiter, then a parenthesis and
the text, and what ends it is its *terminator*: a parenthesis, the same delimiter and a quote.  Nothing
else means anything in the text, no quote, no parenthesis, no backslash and no part of the terminator.

`rawLiteral_ends` says that the literal ends behind the first occurrence of the terminator, and that
there is no token if the terminator does not occur, but one fault at the end of the source.

The terminator is looked for byte by byte, and its occurrence is said of the text.  These are the same,
since it starts and ends with an ASCII character, so a cut on either side of it is one between
characters (`Text.occurs_of_bytes`).
-/

namespace CppDecl

open Byte
open Text (Whole isAscii)

/-! ## First occurrences -/

namespace Text

/-- A mark stands in a text between `before` and `after`, and it does not stand further in front. -/
structure FirstOccurs (mark before after text : String) : Prop where
  /-- The mark stands there. -/
  text_eq : text = before ++ mark ++ after
  /-- What is in front of any other occurrence is not shorter. -/
  first : ∀ before' after', text = before' ++ mark ++ after' → before.length ≤ before'.length

variable {mark text : String} {before middle after : Bytes} {first last : UInt8}

/-- A mark that starts and ends with an ASCII character stands in a text where its bytes stand in
those of the text. -/
theorem occurs_of_bytes (hmark : bytes mark = first :: (middle ++ [last])) (hfirst : isAscii first = true)
    (hlast : isAscii last = true) (h : bytes text = before ++ (bytes mark ++ after)) :
    ∃ front back, text = front ++ mark ++ back ∧ bytes front = before ∧ bytes back = after := by
  have hwhole : Whole (before ++ (bytes mark ++ after)) := ⟨text, h⟩
  have hseam : Seam before (bytes mark ++ after) := .inr (by rw [hmark]; exact hfirst)
  obtain ⟨⟨front, hfront⟩, hrest⟩ := hwhole.split hseam
  have hseam' : Seam (bytes mark) after := by
    left
    rw [hmark, ← List.cons_append, List.getLast?_concat]
    exact hlast
  obtain ⟨-, back, hback⟩ := hrest.split hseam'
  refine ⟨front, back, bytes_injective ?_, hfront, hback⟩
  rw [h, bytes_append, bytes_append, hfront, hback, List.append_assoc]

/-- Where a mark stands in a text, the text goes on with it. -/
theorem prefix_drop_of_occurs {before after : String} (h : text = before ++ mark ++ after) :
    mark.toList <+: text.toList.drop before.length := by
  rw [h, String.append_assoc, String.toList_append, String.toList_append, ← String.length_toList,
    List.drop_left]
  exact List.prefix_append _ _

/-- Of two texts that another one starts with, the one with fewer characters has fewer bytes. -/
theorem length_bytes_le {front front' back back' : String} (h : front ++ back = front' ++ back')
    (hle : front.length ≤ front'.length) : (bytes front).length ≤ (bytes front').length := by
  have hchars : front.toList ++ back.toList = front'.toList ++ back'.toList := by
    rw [← String.toList_append, ← String.toList_append, h]
  have hprefix : front.toList <+: front'.toList := by
    refine List.prefix_of_prefix_length_le (List.prefix_append _ back.toList) ?_ ?_
    · rw [hchars]
      exact List.prefix_append _ _
    · rwa [String.length_toList, String.length_toList]
  obtain ⟨more, hmore⟩ := hprefix
  rw [bytes_eq_flatMap, bytes_eq_flatMap, ← hmore, List.flatMap_append, List.length_append]
  exact Nat.le_add_right _ _

end Text

namespace Lexeme

variable {terminator bs : Bytes} {n : Nat}

/-- The end of a terminator is that of its first occurrence. -/
theorem occurs_of_terminatorEnd? (h : terminatorEnd? terminator bs = some n) :
    ∃ before after, bs = before ++ (terminator ++ after) ∧ n = before.length + terminator.length ∧
      ∀ before' after', bs = before' ++ (terminator ++ after') → before.length ≤ before'.length := by
  induction bs generalizing n with
  | nil => cases h
  | cons b bs ih =>
    rw [terminatorEnd?] at h
    split at h
    next hstarts =>
      cases h
      obtain ⟨after, hafter⟩ := List.isPrefixOf_iff_prefix.1 hstarts
      exact ⟨[], after, hafter.symm, (Nat.zero_add _).symm, fun _ _ _ => Nat.zero_le _⟩
    next hstarts =>
      obtain ⟨m, hm, rfl⟩ := Option.map_eq_some_iff.1 h
      obtain ⟨before, after, hbs, rfl, hfirst⟩ := ih hm
      refine ⟨b :: before, after, by rw [hbs, List.cons_append], by rw [List.length_cons]; omega, ?_⟩
      intro before' after' heq
      cases before' with
      | nil => exact absurd (List.isPrefixOf_iff_prefix.2 ⟨after', heq.symm⟩) hstarts
      | cons b' before' => exact Nat.succ_le_succ (hfirst before' after' (List.cons.inj heq).2)

/-- If there is no end of a terminator, the terminator does not occur. -/
theorem not_occurs_of_terminatorEnd? (hne : terminator ≠ []) (h : terminatorEnd? terminator bs = none)
    (before after : Bytes) : bs ≠ before ++ (terminator ++ after) := by
  induction bs generalizing before with
  | nil => simp [hne]
  | cons b bs ih =>
    rw [terminatorEnd?] at h
    split at h
    next => cases h
    next hstarts =>
      rw [Option.map_eq_none_iff] at h
      intro heq
      cases before with
      | nil => exact hstarts (List.isPrefixOf_iff_prefix.2 ⟨after, heq.symm⟩)
      | cons b' before => exact ih h before (List.cons.inj heq).2

/-! ## Raw literals -/

/-- What a raw lead and a quote begin is a raw literal. -/
theorem scanFrom_rawLead {lead : Bytes} (hlead : lead ∈ rawLeads) (closeAnglesOnly lineStart : Bool)
    (beyond : Nat) (inside : Bytes) :
    ∃ b bs, lead ++ quote :: inside = b :: bs ∧
      scanFrom closeAnglesOnly lineStart beyond b bs = rawLiteral lead.length inside := by
  have hall : (rawLeads.all fun lead => lead.all isIdentifierByte &&
      lead.head?.any fun b => isIdentifierByte b && !isDigit b) = true := by decide +kernel
  have hbytes := List.all_eq_true.1 hall lead hlead
  cases lead with
  | nil => simp at hbytes
  | cons b lead =>
    simp only [List.head?_cons, Option.any_some, Bool.and_eq_true, Bool.not_eq_true'] at hbytes
    obtain ⟨hword, hb, hdigit⟩ := hbytes
    have hrun : (b :: lead ++ quote :: inside).takeWhile isIdentifierByte = b :: lead := by
      rw [List.takeWhile_append_of_pos (List.all_eq_true.1 hword), List.takeWhile_cons_of_neg (by decide),
        List.append_nil]
    refine ⟨b, lead ++ quote :: inside, rfl, ?_⟩
    rw [scanFrom_word closeAnglesOnly lineStart beyond _ hb hdigit]
    unfold word
    rw [← List.cons_append, hrun]
    simp only [List.drop_left]
    rw [if_pos (by simpa using hlead)]

/-- A raw literal ends where the terminator first ends, or it takes all that there is. -/
theorem rawLiteral_delimited (lead : Nat) {delimiter : Bytes}
    (hdelimiter : ∀ b ∈ delimiter, isDelimiterByte b = true) (bs : Bytes) :
    rawLiteral lead (delimiter ++ openParen :: bs) =
      match terminatorEnd? (closeParen :: delimiter ++ [quote]) bs with
      | some n =>
        { kind? := some .stringLiteral, len := lead + 1 + delimiter.length + 1 + n,
          seen := lead + 1 + delimiter.length + 1 + bs.length + 1 }
      | none =>
        { kind? := none, len := lead + 1 + delimiter.length + 1 + bs.length,
          seen := lead + 1 + delimiter.length + 1 + bs.length + 1,
          faults := [⟨.endInLiteral, lead + 1 + delimiter.length + 1 + bs.length, some 0⟩] } := by
  have hrun : (delimiter ++ openParen :: bs).takeWhile isDelimiterByte = delimiter := by
    rw [List.takeWhile_append_of_pos hdelimiter, List.takeWhile_cons_of_neg (by decide), List.append_nil]
  unfold rawLiteral
  simp only [hrun, List.drop_left]
  exact if_pos trivial

end Lexeme

/-! ## Raw literals in a source -/

namespace RawLiteral

/-- What may stand in front of the opening quote. -/
def leads : List String := ["R", "LR", "uR", "UR", "u8R"]

/-- What must not stand in a delimiter: blanks, parentheses and the backslash. -/
def marks : List Char := [' ', '\t', '\r', '\n', '(', ')', '\\']

/-- A delimiter has none of the marks. -/
def IsDelimiter (delimiter : String) : Prop := ∀ c ∈ delimiter.toList, c ∉ marks

instance (delimiter : String) : Decidable (IsDelimiter delimiter) :=
  List.decidableBAll (· ∉ marks) delimiter.toList

/-- What a literal has in front of its text. -/
def opening (lead delimiter : String) : String := lead ++ "\"" ++ delimiter ++ "("

/-- What ends a literal. -/
def terminator (delimiter : String) : String := ")" ++ delimiter ++ "\""

variable {lead delimiter : String}

theorem bytes_opening (lead delimiter : String) : Text.bytes (opening lead delimiter) =
    Text.bytes lead ++ quote :: (Text.bytes delimiter ++ [openParen]) := by
  have hquote : Text.bytes "\"" = [quote] := by decide +kernel
  have hopen : Text.bytes "(" = [openParen] := by decide +kernel
  rw [opening, Text.bytes_append, Text.bytes_append, Text.bytes_append, hquote, hopen]
  simp

theorem bytes_terminator (delimiter : String) : Text.bytes (terminator delimiter) =
    closeParen :: (Text.bytes delimiter ++ [quote]) := by
  have hquote : Text.bytes "\"" = [quote] := by decide +kernel
  have hclose : Text.bytes ")" = [closeParen] := by decide +kernel
  rw [terminator, Text.bytes_append, Text.bytes_append, hquote, hclose]
  simp

theorem bytes_mem_rawLeads (h : lead ∈ leads) : Text.bytes lead ∈ Lexeme.rawLeads := by
  have hall : ∀ lead ∈ leads, Text.bytes lead ∈ Lexeme.rawLeads := by decide +kernel
  exact hall lead h

/-- The bytes of a delimiter may stand in one. -/
theorem IsDelimiter.bytes (h : IsDelimiter delimiter) :
    ∀ b ∈ Text.bytes delimiter, Lexeme.isDelimiterByte b = true := by
  intro b hb
  have hne : ∀ m ∈ marks.map Char.toUInt8, b ≠ m := by
    intro m hm
    obtain ⟨mark, hmark, rfl⟩ := List.mem_map.1 hm
    have hascii : ∀ mark ∈ marks, mark.toNat < 128 := by simp [marks]
    rintro rfl
    exact Text.not_mem_bytes (hascii mark hmark) (fun hmem => h mark hmem hmark) hb
  have hbytes : marks.map Char.toUInt8 =
      [32, 9, carriageReturn, newline, openParen, closeParen, backslash] := by decide +kernel
  simp only [hbytes, List.forall_mem_cons] at hne
  obtain ⟨hspace, htab, hreturn, hnewline, hopen, hclose, hbackslash, -⟩ := hne
  simp only [Lexeme.isDelimiterByte, isBlank, Bool.not_eq_true', Bool.or_eq_false_iff, beq_eq_false_iff_ne]
  exact ⟨⟨⟨⟨⟨⟨hspace, htab⟩, hreturn⟩, hnewline⟩, hopen⟩, hclose⟩, hbackslash⟩

end RawLiteral

open RawLiteral

variable {lead delimiter : String}

/-- How a source that begins with a raw literal is scanned. -/
theorem scanFrom_opening (hlead : lead ∈ leads) (hdelimiter : IsDelimiter delimiter)
    (closeAnglesOnly lineStart : Bool) (text : Bytes) :
    ∃ b bs, Text.bytes (opening lead delimiter) ++ text = b :: bs ∧
      Lexeme.scanFrom closeAnglesOnly lineStart 0 b bs =
        let start := (Text.bytes (opening lead delimiter)).length
        match Lexeme.terminatorEnd? (Text.bytes (terminator delimiter)) text with
        | some n =>
          { kind? := some .stringLiteral, len := start + n, seen := start + text.length + 1 }
        | none =>
          { kind? := none, len := start + text.length, seen := start + text.length + 1,
            faults := [⟨.endInLiteral, start + text.length, some 0⟩] } := by
  have hlength : (Text.bytes (opening lead delimiter)).length =
      (Text.bytes lead).length + 1 + (Text.bytes delimiter).length + 1 := by
    rw [bytes_opening]
    simp only [List.length_append, List.length_cons, List.length_nil]
    omega
  obtain ⟨b, bs, hbytes, hscan⟩ := Lexeme.scanFrom_rawLead (bytes_mem_rawLeads hlead) closeAnglesOnly
    lineStart 0 (Text.bytes delimiter ++ openParen :: text)
  refine ⟨b, bs, ?_, ?_⟩
  · rw [← hbytes, bytes_opening]
    simp
  · rw [hscan, Lexeme.rawLiteral_delimited _ hdelimiter.bytes, bytes_terminator, hlength, List.cons_append]

/-- The terminator ends first where it occurs first. -/
theorem terminatorEnd?_of_firstOccurs {inner rest text : String}
    (h : Text.FirstOccurs (terminator delimiter) inner rest text) :
    Lexeme.terminatorEnd? (Text.bytes (terminator delimiter)) (Text.bytes text) =
      some (Text.bytes (inner ++ terminator delimiter)).length := by
  have htext : Text.bytes text =
      Text.bytes inner ++ (Text.bytes (terminator delimiter) ++ Text.bytes rest) := by
    rw [h.text_eq, Text.bytes_append, Text.bytes_append, List.append_assoc]
  cases hend : Lexeme.terminatorEnd? (Text.bytes (terminator delimiter)) (Text.bytes text) with
  | none =>
    have hne : Text.bytes (terminator delimiter) ≠ [] := by simp [bytes_terminator]
    exact absurd htext (Lexeme.not_occurs_of_terminatorEnd? hne hend _ _)
  | some n =>
    obtain ⟨before, after, hbytes, rfl, hfirst⟩ := Lexeme.occurs_of_terminatorEnd? hend
    obtain ⟨front, back, hfront, rfl, -⟩ :=
      Text.occurs_of_bytes (bytes_terminator delimiter) (by decide) (by decide) hbytes
    have hle : (Text.bytes inner).length ≤ (Text.bytes front).length := by
      have hsame : inner ++ (terminator delimiter ++ rest) = front ++ (terminator delimiter ++ back) := by
        rw [← String.append_assoc, ← String.append_assoc, ← h.text_eq, hfront]
      exact Text.length_bytes_le hsame (h.first front back hfront)
    rw [Nat.le_antisymm (hfirst _ _ htext) hle, Text.bytes_append, List.length_append]

/-- A terminator that does not occur ends nowhere. -/
theorem terminatorEnd?_of_not_occurs {text : String}
    (h : ∀ inner rest, text ≠ inner ++ terminator delimiter ++ rest) :
    Lexeme.terminatorEnd? (Text.bytes (terminator delimiter)) (Text.bytes text) = none := by
  rw [Option.eq_none_iff_forall_ne_some]
  intro n hend
  obtain ⟨before, after, hbytes, -, -⟩ := Lexeme.occurs_of_terminatorEnd? hend
  obtain ⟨front, back, hfront, -, -⟩ :=
    Text.occurs_of_bytes (bytes_terminator delimiter) (by decide) (by decide) hbytes
  exact h front back hfront

/-- A raw literal that a source begins with ends behind the first occurrence of its terminator,
whatever stands in front of it.  If the terminator does not occur, there is no token, and the one fault
is noticed at the end of the source and leads back to the start. -/
theorem rawLiteral_ends (config : Configuration) (path : String) (hlead : lead ∈ leads)
    (hdelimiter : IsDelimiter delimiter) (text : String) :
    (∀ inner rest, Text.FirstOccurs (terminator delimiter) inner rest text →
      ∃ r' top,
        ((Reader.new .empty config).push path (opening lead delimiter ++ text)).2.readToken =
          .ok (⟨0, .stringLiteral, opening lead delimiter ++ inner ++ terminator delimiter⟩, r') ∧
        r'.frames = [top] ∧ top.rest = Text.bytes rest ∧ r'.errors = []) ∧
    ((∀ inner rest, text ≠ inner ++ terminator delimiter ++ rest) →
      ∃ visited, ∀ budget, 0 < budget →
        tokenizeWithin budget config path (opening lead delimiter ++ text) =
          .ok ⟨[], [⟨.endInLiteral, (opening lead delimiter ++ text).utf8ByteSize, 0⟩], visited⟩) := by
  obtain ⟨top, hframes, hrest, hmissing, hloc, herrors⟩ :=
    Reader.top_pushed config path (opening lead delimiter ++ text)
  obtain ⟨b, bs, hbytes, hscan⟩ := scanFrom_opening hlead hdelimiter
    ((Reader.new .empty config).push path (opening lead delimiter ++ text)).2.closeAnglesOnly
    ((Reader.new .empty config).push path (opening lead delimiter ++ text)).2.lineStart (Text.bytes text)
  rw [← Text.bytes_append, ← hrest] at hbytes
  constructor
  · intro inner rest hfirst
    have hsource : Text.bytes (opening lead delimiter ++ text) =
        Text.bytes (opening lead delimiter ++ inner ++ terminator delimiter) ++ Text.bytes rest := by
      rw [← Text.bytes_append, hfirst.text_eq]
      simp only [String.append_assoc]
    have hlength : (Text.bytes (opening lead delimiter ++ inner ++ terminator delimiter)).length =
        (Text.bytes (opening lead delimiter)).length +
          (Text.bytes (inner ++ terminator delimiter)).length := by
      rw [String.append_assoc, Text.bytes_append, List.length_append]
    rw [terminatorEnd?_of_firstOccurs hfirst] at hscan
    simp only [← hlength] at hscan
    have htaken : Text.bytes (opening lead delimiter ++ inner ++ terminator delimiter) =
        top.rest.take (Text.bytes (opening lead delimiter ++ inner ++ terminator delimiter)).length := by
      rw [hrest, hsource, List.take_left]
    have hread := Reader.readToken_lexeme hframes hbytes hmissing hscan rfl (by decide) rfl htaken
    rw [hloc] at hread
    refine ⟨_, _, hread, rfl, ?_, ?_⟩
    · show top.rest.drop _ = _
      rw [hrest, hsource, List.drop_left]
    · show _ ++ [] = []
      rw [List.append_nil, herrors]
  · intro hnever
    have hlength : (Text.bytes (opening lead delimiter)).length + (Text.bytes text).length =
        top.rest.length := by
      rw [hrest, Text.bytes_append, List.length_append]
    rw [terminatorEnd?_of_not_occurs hnever] at hscan
    simp only [hlength] at hscan
    obtain ⟨r', hread, herrors'⟩ := Reader.readToken_skipped hframes hbytes hmissing hscan rfl rfl
    rw [herrors, hloc, List.nil_append, hrest, Text.length_bytes] at herrors'
    refine ⟨r'.visited, fun budget hbudget => ?_⟩
    obtain ⟨n, rfl⟩ := Nat.exists_eq_succ_of_ne_zero (Nat.ne_of_gt hbudget)
    have hall : ((Reader.new .empty config).push path (opening lead delimiter ++ text)).2.readAll (n + 1) =
        .ok ([⟨r'.endLoc, .endOfFile, ""⟩], r') := by
      rw [Reader.readAll, hread]
      rfl
    have heq : tokenizeWithin (n + 1) config path (opening lead delimiter ++ text) =
        (((Reader.new .empty config).push path (opening lead delimiter ++ text)).2.readAll (n + 1)).bind
          fun result => .ok ⟨result.1.dropLast, result.2.errors, result.2.visited⟩ := rfl
    rw [heq, hall, Except.bind, herrors']
    simp [Fault.locate]

/-- A literal whose delimiter ends with a quote.  Part of the terminator stands in front of it, and it
stands there twice. -/
theorem rawLiteral_ends_partialTerminator :
    (∃ r', ((Reader.new .empty {}).push "t.h" "u8R\"a\"(x)a\"b)a\"\" z)a\"\"").2.readToken =
      .ok (⟨0, .stringLiteral, "u8R\"a\"(x)a\"b)a\"\""⟩, r') ∧ r'.errors = []) ∧
    ∃ visited, tokenizeWithin 1 {} "t.h" "u8R\"a\"(x)a\"b" =
      .ok ⟨[], [⟨.endInLiteral, 12, 0⟩], visited⟩ := by
  have hdelimiter : IsDelimiter "a\"" := by decide
  have hlead : "u8R" ∈ leads := by decide
  constructor
  · have hfirst : Text.FirstOccurs (terminator "a\"") "x)a\"b" " z)a\"\"" "x)a\"b)a\"\" z)a\"\"" := by
      refine ⟨by decide +kernel, fun before' after' heq => ?_⟩
      by_contra hlt
      have hall : ∀ n < 5, ¬ (terminator "a\"").toList <+: "x)a\"b)a\"\" z)a\"\"".toList.drop n := by
        decide +kernel
      exact hall _ (Nat.lt_of_not_le hlt) (Text.prefix_drop_of_occurs heq)
    obtain ⟨r', top, hread, -, -, herrors⟩ :=
      (rawLiteral_ends {} "t.h" hlead hdelimiter _).1 _ _ hfirst
    exact ⟨r', hread, herrors⟩
  · have hnever : ∀ inner rest, "x)a\"b" ≠ inner ++ terminator "a\"" ++ rest := by
      intro inner rest heq
      have hall : ∀ n < 6, ¬ (terminator "a\"").toList <+: "x)a\"b".toList.drop n := by
        decide +kernel
      refine hall _ ?_ (Text.prefix_drop_of_occurs heq)
      have hlength := congrArg String.length heq
      rw [String.length_append, String.length_append, show "x)a\"b".length = 5 by decide] at hlength
      omega
    obtain ⟨visited, htokens⟩ := (rawLiteral_ends {} "t.h" hlead hdelimiter "x)a\"b").2 hnever
    have hsource : opening "u8R" "a\"" ++ "x)a\"b" = "u8R\"a\"(x)a\"b" := by decide
    have hsize : "u8R\"a\"(x)a\"b".utf8ByteSize = 12 := by decide +kernel
    rw [hsource, hsize] at htokens
    exact ⟨visited, htokens 1 (by decide)⟩

end CppDecl
