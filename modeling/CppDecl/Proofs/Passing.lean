import CppDecl.Macro.Arguments
import CppDecl.Proofs.Printing

/-!
# Passing over lexemes

The arguments of a macro are read byte by byte, with no regard to lexemes.  Still a lexeme that is no
parenthesis and no comma is mostly passed over as a whole (`Lexeme.Classed.passed`): its bytes mean
nothing there, or it is a comment or a literal, which both ways of reading end at the same mark.

Raw literals are the exception.  Arguments are read as if there were none, so a raw literal is passed
over from its quote as a plain one is.  It is passed over as a whole only if the plain one would end
with it.

`Lexeme.Classed` says what a lexeme is made of, one class after the other.  All that is shown of
lexemes here is shown from the classes.
-/

namespace CppDecl

open Byte
open Text (Run)

namespace Lexeme

/-! ## Classes of lexemes -/

/-- What a raw literal has behind its opening quote. -/
def rawInside? (bs : Bytes) : Option Bytes :=
  let lead := bs.takeWhile isIdentifierByte
  match bs.drop lead.length with
  | [] => none
  | mark :: inside => if mark = quote && rawLeads.contains lead then some inside else none

/-- A raw literal ends with the first quote in it that no backslash takes with it, as a literal does
that is not raw. -/
def ClosedByQuote (bs : Bytes) : Prop :=
  ∀ inside ∈ rawInside? bs, literalEnd? quote inside = some inside.length

instance (bs : Bytes) : Decidable (ClosedByQuote bs) :=
  match h : rawInside? bs with
  | none => .isTrue fun inside hmem => by rw [h] at hmem; cases hmem
  | some inside => decidable_of_iff (literalEnd? quote inside = some inside.length)
      ⟨fun hend inside' hmem => by rw [h] at hmem; cases hmem; exact hend, fun hall => hall inside h⟩

/-- The first lexeme of a run of bytes that is no directive, by its class. -/
inductive Classed (lineStart : Bool) : Bytes → Scan → Prop
  /-- Blanks. -/
  | blanks {bs : Bytes} : Classed lineStart bs (blanks lineStart bs)
  /-- A comment to the end of the line. -/
  | lineComment {bs : Bytes} : Classed lineStart (slash :: slash :: bs) (lineComment bs)
  /-- A comment between marks. -/
  | blockComment {bs : Bytes} : Classed lineStart (slash :: star :: bs) (blockComment bs)
  /-- A plain literal.  What stands before its quote may be a fault. -/
  | literal {lead bs : Bytes} {mark : UInt8} {faults : List Fault}
      (lead_all : ∀ b ∈ lead, isIdentifierByte b = true) (marked : mark = quote ∨ mark = apostrophe)
      (faults_at : ∀ f ∈ faults, f.offset = 0) :
      Classed lineStart (lead ++ mark :: bs) (literal 0 mark lead.length faults bs)
  /-- A raw literal. -/
  | rawLiteral {lead bs : Bytes} (mem : lead ∈ rawLeads) :
      Classed lineStart (lead ++ quote :: bs) (rawLiteral lead.length bs)
  /-- A punctuator.  A slash does not begin a comment. -/
  | punctuator {kind : TokenKind} {rest : Bytes} {seen : Nat} (mem : kind ∈ punctuators)
      (alone : kind = .forwardSlash → ∀ b ∈ rest.head?, b ≠ slash ∧ b ≠ star) :
      Classed lineStart (spellingBytes kind ++ rest)
        { kind? := some kind, len := (spellingBytes kind).length, seen }
  /-- A number. -/
  | number {bs : Bytes} : Classed lineStart bs (number bs)
  /-- An identifier. -/
  | identifier {name rest : Bytes} {seen : Nat} (all : ∀ b ∈ name, isIdentifierByte b = true) :
      Classed lineStart (name ++ rest) { kind? := some .identifier, len := name.length, seen }
  /-- A byte that starts nothing. -/
  | garbage {b : UInt8} {bs : Bytes} :
      Classed lineStart (b :: bs) { kind? := none, len := 1, faults := [⟨.garbage, 0, none⟩] }

variable {lineStart : Bool} {b : UInt8} {bs : Bytes} {scan : Scan} {kind : TokenKind}

theorem classed_word : Classed lineStart bs (word 0 bs) := by
  have hall : ∀ b ∈ bs.takeWhile isIdentifierByte, isIdentifierByte b = true :=
    fun b hb => List.all_eq_true.1 List.all_takeWhile b hb
  have hsplit : bs.takeWhile isIdentifierByte ++ bs.drop (bs.takeWhile isIdentifierByte).length = bs := by
    rw [drop_length_takeWhile, List.takeWhile_append_dropWhile]
  generalize hlead : bs.takeWhile isIdentifierByte = lead at hall hsplit
  unfold word
  simp only [hlead]
  split
  next hdrop =>
    rw [hdrop] at hsplit
    rw [← hsplit]
    exact .identifier hall
  next mark rest hdrop =>
    rw [hdrop] at hsplit
    rw [← hsplit]
    split
    next hraw =>
      simp only [Bool.and_eq_true, decide_eq_true_eq, List.contains_iff_mem] at hraw
      rw [hraw.1]
      exact .rawLiteral hraw.2
    next =>
      split
      next hmark =>
        refine .literal hall (by simpa using hmark) ?_
        split <;> simp
      next => exact .identifier hall

theorem classed_scanFrom (closeAnglesOnly lineStart : Bool) (bs : Bytes) (hb : b ≠ hash) :
    Classed lineStart (b :: bs) (scanFrom closeAnglesOnly lineStart 0 b bs) := by
  fun_cases scanFrom closeAnglesOnly lineStart 0 b bs with
  | case1 => exact .blanks
  | case2 _ hhash | case3 _ hhash => exact absurd hhash hb
  | case4 _ _ hline =>
    simp only [Bool.and_eq_true, decide_eq_true_eq] at hline
    obtain ⟨rfl, hhead⟩ := hline
    obtain ⟨tail, rfl⟩ := List.head?_eq_some_iff.1 hhead
    exact .lineComment
  | case5 _ _ _ hblock =>
    simp only [Bool.and_eq_true, decide_eq_true_eq] at hblock
    obtain ⟨rfl, hhead⟩ := hblock
    obtain ⟨tail, rfl⟩ := List.head?_eq_some_iff.1 hhead
    exact .blockComment
  | case6 _ _ _ _ hquote =>
    exact @Classed.literal _ [] bs b [] (by simp) (by simpa using hquote) (by simp)
  | case7 _ _ hline hblock _ kind hkind len =>
    obtain ⟨hmem, rest, hrest⟩ := punctuator?_mem hkind
    have hlen : len = (spellingBytes kind).length := (punctuators_spelled kind hmem).1
    rw [hlen, ← hrest]
    refine .punctuator hmem ?_
    rintro rfl c hc
    rw [show spellingBytes .forwardSlash = [slash] by decide, List.singleton_append] at hrest
    obtain ⟨rfl, rfl⟩ := List.cons.inj hrest
    simp only [Bool.and_eq_true, decide_eq_true_eq, true_and] at hline hblock
    exact ⟨fun h => hline (h ▸ hc), fun h => hblock (h ▸ hc)⟩
  | case8 => exact .number
  | case9 => exact classed_word
  | case10 => exact .garbage

/-- A fault is noticed in the lexeme, or right behind it. -/
theorem Classed.offset_le (h : Classed lineStart bs scan) : ∀ f ∈ scan.faults, f.offset ≤ scan.len := by
  cases h with
  | blanks | lineComment | punctuator _ _ | number | identifier _ => exact List.forall_mem_nil _
  | blockComment =>
    unfold Lexeme.blockComment
    split
    · exact List.forall_mem_nil _
    · exact List.forall_mem_singleton.2 (Nat.le_refl _)
  | literal _ _ hfaults =>
    unfold Lexeme.literal
    split
    · exact fun f hf => by rw [hfaults f hf]; exact Nat.zero_le _
    · intro f hf
      rcases List.mem_append.1 hf with hf | hf
      · rw [hfaults f hf]
        exact Nat.zero_le _
      · rw [List.mem_singleton.1 hf]
  | rawLiteral _ =>
    unfold Lexeme.rawLiteral
    simp only
    split
    · exact List.forall_mem_singleton.2 (Nat.le_refl _)
    · split
      · split
        · exact List.forall_mem_nil _
        · exact List.forall_mem_singleton.2 (Nat.le_refl _)
      · exact List.forall_mem_singleton.2 (Nat.le_refl _)
  | garbage => exact List.forall_mem_singleton.2 (Nat.zero_le 1)

theorem kind?_blockComment : (blockComment bs).kind? = none ∨
    (blockComment bs).kind? = some .blockComment := by
  unfold blockComment
  split
  · exact .inr rfl
  · exact .inl rfl

theorem kind?_literal {beyond lead : Nat} {mark : UInt8} {faults : List Fault} :
    (literal beyond mark lead faults bs).kind? = none ∨
      (literal beyond mark lead faults bs).kind? = some .stringLiteral := by
  unfold literal
  split
  · exact .inr rfl
  · exact .inl rfl

theorem kind?_rawLiteral {lead : Nat} : (rawLiteral lead bs).kind? = none ∨
    (rawLiteral lead bs).kind? = some .stringLiteral := by
  unfold rawLiteral
  simp only
  split
  · exact .inl rfl
  · split
    · split
      · exact .inr rfl
      · exact .inl rfl
    · exact .inl rfl

/-- Parentheses and commas are punctuators. -/
theorem Classed.spelled (h : Classed lineStart bs scan) (hkind : scan.kind? = some kind)
    (hmark : kind ∈ [.openParen, .closeParen, .comma]) :
    ∃ rest, bs = spellingBytes kind ++ rest ∧ scan.len = (spellingBytes kind).length := by
  have hother : ∀ kind', scan.kind? = none ∨ scan.kind? = some kind' →
      kind' ∈ [TokenKind.openParen, .closeParen, .comma] := by
    rw [hkind]
    rintro kind' (hnone | hsome)
    · cases hnone
    · cases hsome
      exact hmark
  cases h with
  | punctuator _ _ =>
    cases hkind
    exact ⟨_, rfl, rfl⟩
  | blanks | garbage => cases hkind
  | lineComment => exact absurd (hother .lineComment (.inr rfl)) (by decide)
  | blockComment => exact absurd (hother _ kind?_blockComment) (by decide)
  | literal _ _ _ => exact absurd (hother _ kind?_literal) (by decide)
  | rawLiteral _ => exact absurd (hother _ kind?_rawLiteral) (by decide)
  | number => exact absurd (hother .numericLiteral (.inr rfl)) (by decide)
  | identifier _ => exact absurd (hother .identifier (.inr rfl)) (by decide)

end Lexeme

/-! ## Passing over bytes -/

namespace Arguments

/-- The next `n` bytes are passed over, and become part of the argument. -/
def Passed (bs : Bytes) (n : Nat) : Prop :=
  ∀ opened offset start depth arg, readFrom 0 opened offset start depth arg bs =
    readFrom 0 opened (offset + n) start depth ((bs.take n).reverse ++ arg) (bs.drop n)

/-- Bytes without any meaning between the parentheses of a macro use. -/
def isInert (b : UInt8) : Bool :=
  !([slash, quote, apostrophe, openParen, closeParen, comma].contains b)

variable {lineStart : Bool} {b : UInt8} {bs rest : Bytes} {m n : Nat} {scan : Scan}

theorem isInert_of {p : UInt8 → Bool}
    (hp : ∀ m ∈ [slash, quote, apostrophe, openParen, closeParen, comma], p m = false) (b : UInt8)
    (hb : p b = true) : isInert b = true := by
  rw [isInert, Bool.not_eq_true', List.contains_eq_mem, decide_eq_false_iff_not]
  intro hmem
  rw [hp b hmem] at hb
  cases hb

theorem isInert_of_isIdentifierByte (b : UInt8) : isIdentifierByte b = true → isInert b = true :=
  isInert_of (by decide +kernel) b

theorem Passed.zero (bs : Bytes) : Passed bs 0 := fun _ _ _ _ _ => rfl

theorem Passed.add (hm : Passed bs m) (hn : Passed (bs.drop m) n) : Passed bs (m + n) := by
  intro opened offset start depth arg
  rw [hm, hn, List.take_add, List.reverse_append, List.append_assoc, List.drop_drop, Nat.add_assoc]

/-- A piece without meaning is passed over. -/
theorem Passed.of_piece (h : piece 0 b bs = .plain (1 + n)) : Passed (b :: bs) (1 + n) := by
  intro opened offset start depth arg
  rw [readFrom.eq_def]
  simp only [h]
  rw [Nat.add_sub_cancel_left, Nat.add_assoc, Nat.add_comm 1 n, List.take_succ_cons,
    List.drop_succ_cons, List.reverse_cons, List.append_assoc]
  rfl

theorem piece_of_isInert (h : isInert b = true) : piece 0 b bs = .plain 1 := by
  simp only [isInert, Bool.not_eq_true', List.contains_eq_mem, decide_eq_false_iff_not, List.mem_cons,
    not_or] at h
  obtain ⟨hslash, hquote, hapostrophe, hopen, hclose, hcomma, -⟩ := h
  simp only [piece, hslash, hquote, hapostrophe, hopen, hclose, hcomma, decide_false, Bool.or_self,
    Bool.false_eq_true, if_false]

theorem Passed.inert (h : Run isInert bs n) : Passed bs n := by
  induction n generalizing bs with
  | zero => exact .zero bs
  | succ n ih =>
    cases bs with
    | nil => exact absurd h.le (Nat.not_succ_le_zero n)
    | cons b bs =>
      have hb : isInert b = true := h.all b (by simp)
      have hbs : Run isInert bs n :=
        ⟨Nat.le_of_succ_le_succ h.le, fun c hc => h.all c (List.mem_cons_of_mem b hc)⟩
      rw [Nat.add_comm]
      exact (of_piece (n := 0) (piece_of_isInert hb)).add (ih hbs)

theorem Passed.identifierBytes {xs : Bytes} (h : ∀ b ∈ xs, isIdentifierByte b = true) (rest : Bytes) :
    Passed (xs ++ rest) xs.length :=
  .inert ⟨by simp, by simpa using fun b hb => isInert_of_isIdentifierByte b (h b hb)⟩

theorem piece_literal {mark : UInt8} (hmark : mark = quote ∨ mark = apostrophe)
    (h : Lexeme.literalEnd? mark bs = some n) : piece 0 mark bs = .plain (1 + n) := by
  have hslash : mark ≠ slash := by rcases hmark with rfl | rfl <;> decide
  rw [piece.eq_def, if_neg hslash, if_pos (by simpa using hmark), h]

theorem piece_blockComment (h : Lexeme.commentEnd? bs = some n) :
    piece 0 slash (star :: bs) = .plain (2 + n) := by
  rw [piece.eq_def, if_pos rfl]
  simp only
  rw [if_neg (by decide), if_true, h]

theorem piece_slash {c : UInt8} (h : c ≠ slash ∧ c ≠ star) : piece 0 slash (c :: bs) = .plain 1 := by
  rw [piece.eq_def, if_pos rfl]
  simp only
  rw [if_neg h.1, if_neg h.2]

end Arguments

namespace Lexeme

open Arguments (Passed isInert)

variable {lineStart : Bool} {bs : Bytes} {scan : Scan} {kind : TokenKind}

theorem rawInside?_append {lead : Bytes} (h : lead ∈ rawLeads) (inside : Bytes) :
    rawInside? (lead ++ quote :: inside) = some inside := by
  have hall : (rawLeads.all fun lead => lead.all isIdentifierByte) = true := by decide +kernel
  have hlead := List.all_eq_true.1 (List.all_eq_true.1 hall lead h)
  have hrun : (lead ++ quote :: inside).takeWhile isIdentifierByte = lead := by
    rw [List.takeWhile_append_of_pos hlead, List.takeWhile_cons_of_neg (by decide), List.append_nil]
  rw [rawInside?, hrun]
  simp only [List.drop_left]
  rw [if_pos (by simpa using h)]

/-- What the table of punctuators says about bytes that mean something in a macro use. -/
theorem punctuators_inert : ∀ kind ∈ punctuators,
    kind ∈ [.openParen, .closeParen, .comma, .forwardSlash, .slashEqual] ∨
      (spellingBytes kind).all isInert = true := by
  decide +kernel

theorem passed_punctuator {rest : Bytes} (hmem : kind ∈ punctuators)
    (halone : kind = .forwardSlash → ∀ b ∈ rest.head?, b ≠ slash ∧ b ≠ star) (hrest : rest ≠ [])
    (hkind : kind ∉ [.openParen, .closeParen, .comma]) :
    Passed (spellingBytes kind ++ rest) (spellingBytes kind).length := by
  rcases punctuators_inert kind hmem with hmark | hinert
  · simp only [List.mem_cons, List.not_mem_nil, or_false, not_or] at hmark hkind
    obtain rfl | rfl : kind = .forwardSlash ∨ kind = .slashEqual := by tauto
    · obtain ⟨c, rest, rfl⟩ := List.exists_cons_of_ne_nil hrest
      exact .of_piece (n := 0) (Arguments.piece_slash (halone rfl c rfl))
    · have hslash : Passed (slash :: 61 :: rest) (1 + 0) := .of_piece (Arguments.piece_slash (by decide))
      exact hslash.add (.of_piece (n := 0) (Arguments.piece_of_isInert (by decide)))
  · exact .inert ⟨by simp, by simpa using hinert⟩

/-- A lexeme without faults is passed over as a whole, if it is no parenthesis and no comma and does
not end the text. -/
theorem Classed.passed (h : Classed lineStart bs scan) (hfaults : scan.faults = [])
    (hraw : ClosedByQuote (bs.take scan.len)) (hrest : bs.drop scan.len ≠ [])
    (hkind : ∀ kind ∈ scan.kind?, kind ∉ [.openParen, .closeParen, .comma]) : Passed bs scan.len := by
  cases h with
  | blanks => exact .inert ((Run.takeWhile isBlank bs).mono (Arguments.isInert_of (by decide +kernel)))
  | @lineComment bs =>
    show Passed _ (2 + (line bs).1)
    rw [show 2 + (line bs).1 = 1 + (1 + (line bs).1) by omega]
    refine .of_piece ?_
    rw [← Nat.add_assoc]
    rfl
  | @blockComment bs =>
    unfold Lexeme.blockComment at hfaults ⊢
    split
    next n hend =>
      simp only
      rw [show 2 + n = 1 + (1 + n) by omega]
      exact .of_piece ((Arguments.piece_blockComment hend).trans (by rw [← Nat.add_assoc]))
    next hend =>
      rw [hend] at hfaults
      cases hfaults
  | @literal lead bs mark faults hlead hmark _ =>
    unfold Lexeme.literal at hfaults ⊢
    split
    next n hend =>
      simp only
      rw [Nat.add_assoc]
      refine (Passed.identifierBytes hlead _).add ?_
      rw [List.drop_left]
      exact .of_piece (Arguments.piece_literal hmark hend)
    next hend =>
      rw [hend] at hfaults
      simp at hfaults
  | @rawLiteral lead bs hmem =>
    have hlead : ∀ b ∈ lead, isIdentifierByte b = true := by
      have hall : (rawLeads.all fun lead => lead.all isIdentifierByte) = true := by decide +kernel
      exact List.all_eq_true.1 (List.all_eq_true.1 hall lead hmem)
    have hle := (fits_rawLiteral lead bs).le
    obtain ⟨m, hlen⟩ := Nat.exists_eq_add_of_lt (@lead_lt_rawLiteral lead.length bs)
    rw [hlen] at hraw hle ⊢
    rw [Nat.add_assoc, List.length_append, List.length_cons] at hle
    rw [Nat.add_assoc, List.take_length_add_append, List.take_succ_cons] at hraw
    have hend := hraw _ (rawInside?_append hmem _)
    have hend := @literalEnd?_printed _ [] (bs.drop m) quote (by rwa [List.append_nil])
    rw [List.take_append_drop, List.length_take, Nat.min_eq_left (by omega)] at hend
    rw [Nat.add_assoc, Nat.add_comm m]
    refine (Passed.identifierBytes hlead _).add ?_
    rw [List.drop_left]
    exact .of_piece (Arguments.piece_literal (.inl rfl) hend)
  | punctuator hmem halone =>
    rw [List.drop_left] at hrest
    exact passed_punctuator hmem halone hrest (hkind _ rfl)
  | number => exact .inert ((run_number bs).mono (Arguments.isInert_of (by decide +kernel)))
  | identifier hall => exact .identifierBytes hall _
  | garbage => cases hfaults

end Lexeme

end CppDecl
