import CppDecl.Proofs.Replacement

/-!
# Pasting

The mark `##` removes the blanks at the end of what has been written so far.  So a text that ends in
the name before the mark is written as it would be by itself but for blanks at its end, and the text
behind the mark follows on that (`substitute_pasted`).  There are such blanks if the name stands for
nothing and there were blanks before it.  Then they are lost, although they stand before the operand
of the mark and not beside it (`substitute_pasted_nothing`).
-/

namespace CppDecl

open Byte
open Text (encoded)

namespace Substitution

variable {c : Char} {rest : List Char} {ps : List (List Char)} {params args : List String}

/-! ## Blanks at the end -/

/-- A text without the blanks at its end. -/
def dropGap (s : String) : String := String.ofList (s.toList.reverse.dropWhile isGap).reverse

theorem dropGap_eq_self_iff {s : String} :
    dropGap s = s ↔ ∀ c ∈ s.toList.getLast?, isGap c = false := by
  rw [← String.toList_inj, dropGap, String.toList_ofList, List.reverse_eq_iff, ← List.head?_reverse]
  cases s.toList.reverse with
  | nil => simp
  | cons c cs =>
    cases hc : isGap c with
    | false => simp [hc]
    | true =>
      rw [List.dropWhile_cons_of_pos hc]
      simp only [List.head?_cons, Option.mem_some_iff, forall_eq', hc]
      refine iff_of_false (fun h => ?_) (by simp)
      have hle := (List.dropWhile_suffix (l := cs) isGap).length_le
      rw [h, List.length_cons] at hle
      omega

theorem getLast?_dropGap (s : String) : ∀ c ∈ (dropGap s).toList.getLast?, isGap c = false := by
  intro c hc
  have hnot := List.head?_dropWhile_not isGap s.toList.reverse
  rw [dropGap, String.toList_ofList, List.getLast?_reverse] at hc
  rw [Option.mem_def.1 hc] at hnot
  simpa using hnot

/-! ## Pieces around the mark -/

theorem not_isIdentifierChar_of_isGap (h : isGap c = true) : isIdentifierChar c = false := by
  simp only [isGap, Bool.or_eq_true, beq_iff_eq] at h
  rcases h with rfl | rfl <;> simp [isIdentifierChar]

theorem not_isQuote_of_isGap (h : isGap c = true) : ¬ IsQuote c := by
  simp only [isGap, Bool.or_eq_true, beq_iff_eq] at h
  rcases h with rfl | rfl <;> simp [IsQuote]

theorem not_isQuote_of_isIdentifierChar (h : isIdentifierChar c = true) : ¬ IsQuote c := by
  rintro (rfl | rfl) <;> simp [isIdentifierChar] at h

/-- Blanks fall into single characters. -/
theorem inPieces_gap {gap : List Char} (h : ∀ c ∈ gap, isGap c = true) :
    InPieces gap (gap.map fun c => [c]) := by
  induction gap with
  | nil => exact .nil
  | cons c gap ih =>
    obtain ⟨hc, hgap⟩ := List.forall_mem_cons.1 h
    exact .other (not_isQuote_of_isGap hc) (not_isIdentifierChar_of_isGap hc) (ih hgap)

/-- An identifier is one piece. -/
theorem IsIdentifier.inPieces {name : String} (h : IsIdentifier name) :
    InPieces name.toList [name.toList] := by
  obtain ⟨c, word, hchars, -, hall⟩ := h.eq_cons
  have hrun := @InPieces.run c word [] [] hall (by simp) .nil
  rw [List.append_nil] at hrun
  rwa [hchars]

theorem IsIdentifier.hash_notMem {name : String} (h : IsIdentifier name) : '#' ∉ name.toList :=
  fun hmem => ne_hash_of_isIdentifierChar (h.all _ hmem) rfl

/-- The mark `##` is one piece with the blanks behind it. -/
theorem pieces_paste {gap : List Char} (hgap : ∀ c ∈ gap, isGap c = true)
    (hrest : rest.head?.any isIdentifierChar = true) :
    pieces (encoded ('#' :: '#' :: (gap ++ rest))) = .paste :: pieces (encoded rest) := by
  rw [Text.encoded_cons_of_lt (by decide), Text.encoded_cons_of_lt (by decide), pieces_cons, firstPiece,
    if_neg (by decide), if_pos (by decide), List.head?_cons, if_pos (by decide), List.tail_cons]
  simp only
  rw [takeWhile_isSpace_encoded hgap hrest, Nat.add_comm, List.drop_succ_cons, Text.encoded_append,
    List.drop_left]

/-- A text with the mark in it is cut into the pieces of the three texts and of the blanks. -/
theorem pieces_pasted {pre name gap gap' rest : String} (hps : InPieces pre.toList ps)
    (hpre : ∀ c ∈ pre.toList, c ≠ '#' ∧ ¬ IsQuote c)
    (hlast : ∀ c ∈ pre.toList.getLast?, isIdentifierChar c = false) (hname : IsIdentifier name)
    (hgap : ∀ c ∈ gap.toList, isGap c = true) (hgap' : ∀ c ∈ gap'.toList, isGap c = true)
    (hrest : rest.toList.head?.any isIdentifierChar = true) :
    pieces (encoded (pre ++ name ++ gap ++ "##" ++ gap' ++ rest).toList) =
      ps.map bodyPiece ++ ([name.toList].map bodyPiece ++
        ((gap.toList.map fun c => [c]).map bodyPiece ++ .paste :: pieces (encoded rest.toList))) := by
  have hgaphash : '#' ∉ gap.toList := fun h => by simpa [isGap] using hgap _ h
  have hmark : ∀ c ∈ ('#' :: '#' :: (gap'.toList ++ rest.toList)).head?, isIdentifierChar c = false := by
    simp [isIdentifierChar]
  have hborder : ∀ c ∈ (gap.toList ++ '#' :: '#' :: (gap'.toList ++ rest.toList)).head?,
      isIdentifierChar c = false := by
    intro c hc
    cases hchars : gap.toList with
    | nil => exact hmark c (by rwa [hchars] at hc)
    | cons d more =>
      rw [hchars] at hc
      obtain rfl : d = c := by simpa using hc
      exact not_isIdentifierChar_of_isGap (hgap _ (by simp [hchars]))
  have hchars : (pre ++ name ++ gap ++ "##" ++ gap' ++ rest).toList = pre.toList ++ (name.toList ++
      (gap.toList ++ '#' :: '#' :: (gap'.toList ++ rest.toList))) := by simp
  rw [hchars, hps.pieces_eq (fun h => (hpre _ h).1 rfl) (.inr ⟨fun c hc => (hpre c hc).2, .inl hlast⟩),
    hname.inPieces.pieces_eq hname.hash_notMem
      (.inr ⟨fun c hc => not_isQuote_of_isIdentifierChar (hname.all c hc), .inr hborder⟩),
    (inPieces_gap hgap).pieces_eq hgaphash
      (.inr ⟨fun c hc => not_isQuote_of_isGap (hgap c hc), .inr hmark⟩),
    pieces_paste hgap' hrest]

/-! ## Writing -/

/-- Pasting goes back to the last character that is no blank, and not beyond it. -/
theorem foldl_write_append (lookup : String → Option String) (ps : List (BodyPiece String))
    {out : List Char} (hout : ∀ c ∈ out.head?, isGap c = false) (done : List Char) :
    ps.foldl (write lookup) (done ++ out) = ps.foldl (write lookup) done ++ out := by
  have hpaste : ∀ done : List Char, (done ++ out).dropWhile isGap = done.dropWhile isGap ++ out := by
    intro done
    have hstop : out.dropWhile isGap = out := by
      cases out with
      | nil => rfl
      | cons c out => exact List.dropWhile_cons_of_neg (by rw [hout c rfl]; exact Bool.false_ne_true)
    rw [List.dropWhile_append, hstop]
    split
    next hempty => rw [List.isEmpty_iff.1 hempty, List.nil_append]
    next => rfl
  induction ps generalizing done with
  | nil => rfl
  | cons p ps ih =>
    rw [List.foldl_cons, List.foldl_cons, ← ih]
    congr 1
    cases p with
    | verbatim text => simp only [write, List.append_assoc]
    | name text => simp only [write, List.append_assoc]
    | stringize gap name =>
      simp only [write]
      split <;> rw [List.append_assoc]
    | paste => exact hpaste done

/-- What a text becomes is written behind what was written before it. -/
theorem foldl_inPieces {body : String} (h : InPieces body.toList ps) (hhash : '#' ∉ body.toList)
    {text : String} (htext : substitute params args body = .ok text) (out : List Char) :
    (ps.map charPiece).foldl (write (argument? params args)) out = text.toList.reverse ++ out := by
  have hjoin := (h.substitute_eq hhash).symm.trans htext
  rw [foldl_charPiece, Except.ok.inj hjoin]

/-- Blanks are written as they are. -/
theorem foldl_gap {gap : List Char} (hgap : ∀ c ∈ gap, isGap c = true) (out : List Char) :
    ((gap.map fun c => [c]).map charPiece).foldl (write (argument? params args)) out =
      gap.reverse ++ out := by
  induction gap generalizing out with
  | nil => rfl
  | cons c gap ih =>
    obtain ⟨hc, hgap⟩ := List.forall_mem_cons.1 hgap
    have hpiece : charPiece [c] = .verbatim (String.ofList [c]) := by
      rw [charPiece, startsName, String.toList_ofList, List.head?_cons, Option.any_some,
        not_isIdentifierChar_of_isGap hc, Bool.false_and, if_neg Bool.false_ne_true]
    rw [List.map_cons, List.map_cons, List.foldl_cons, hpiece, ih hgap, write, String.toList_ofList,
      List.reverse_singleton, List.reverse_cons, List.append_assoc]

/-- Pasting removes the blanks at the end of what is written for the text before the mark and the
name at its end.  What is written for the text behind the mark follows on that.  So all three are
written as they are by themselves, next to each other, exactly if what is written for the first two
has no blank at its end. -/
theorem substitute_pasted (params args : List String) {pre name gap gap' rest : String}
    (hpre : ∀ c ∈ pre.toList, c ≠ '#' ∧ ¬ IsQuote c)
    (hlast : ∀ c ∈ pre.toList.getLast?, isIdentifierChar c = false) (hname : IsIdentifier name)
    (hgap : ∀ c ∈ gap.toList, isGap c = true) (hgap' : ∀ c ∈ gap'.toList, isGap c = true)
    (hrest : rest.toList.head?.any isIdentifierChar = true) :
    ∃ front operand back, substitute params args pre = .ok front ∧
      substitute params args name = .ok operand ∧ substitute params args rest = .ok back ∧
      substitute params args (pre ++ name ++ gap ++ "##" ++ gap' ++ rest) =
        .ok (dropGap (front ++ operand) ++ back) ∧
      (substitute params args (pre ++ name ++ gap ++ "##" ++ gap' ++ rest) =
          .ok (front ++ operand ++ back) ↔
        ∀ c ∈ (front ++ operand).toList.getLast?, isGap c = false) := by
  obtain ⟨front, hfront⟩ := substitute_ok params args pre
  obtain ⟨operand, hoperand⟩ := substitute_ok params args name
  obtain ⟨ps, hps⟩ := exists_inPieces pre.toList
  obtain ⟨qs, hqs⟩ := mapM_decode (pieces_whole (Text.whole_encoded rest.toList))
  have hpieces : (pieces (encoded (pre ++ name ++ gap ++ "##" ++ gap' ++ rest).toList)).mapM
      BodyPiece.decode = .ok (ps.map charPiece ++ ([name.toList].map charPiece ++
        ((gap.toList.map fun c => [c]).map charPiece ++ .paste :: qs))) := by
    rw [pieces_pasted hps hpre hlast hname hgap hgap' hrest]
    refine mapM_append_ok (mapM_bodyPiece _) (mapM_append_ok (mapM_bodyPiece _)
      (mapM_append_ok (mapM_bodyPiece _) ?_))
    rw [List.mapM_cons, hqs]
    rfl
  have hwritten : substitute params args (pre ++ name ++ gap ++ "##" ++ gap' ++ rest) =
      .ok (dropGap (front ++ operand) ++
        String.ofList (qs.foldl (write (argument? params args)) []).reverse) := by
    have hdrop : (operand.toList.reverse ++ (front.toList.reverse ++ [])).dropWhile isGap =
        [] ++ (dropGap (front ++ operand)).toList.reverse := by
      simp [dropGap]
    rw [substitute_eq hpieces, List.foldl_append,
      foldl_inPieces hps (fun h => (hpre _ h).1 rfl) hfront, List.foldl_append,
      foldl_inPieces hname.inPieces hname.hash_notMem hoperand, List.foldl_append, foldl_gap hgap,
      List.foldl_cons, write, List.dropWhile_append_of_pos (by simpa using hgap), hdrop,
      foldl_write_append _ _ (by simpa using getLast?_dropGap (front ++ operand)), List.reverse_append,
      List.reverse_reverse, String.ofList_append, String.ofList_toList]
  refine ⟨front, operand, _, hfront, hoperand, substitute_eq hqs, hwritten, ?_⟩
  rw [hwritten, ← dropGap_eq_self_iff, Except.ok.injEq, String.append_left_inj]

theorem substitute_pasted_kept : (∀ c ∈ "x +".toList, c ≠ '#' ∧ ¬ IsQuote c) ∧
    substitute ["a"] [" f "] "x +a ## _1" = .ok "x +f_1" := by
  have hpre : ∀ c ∈ "x +".toList, c ≠ '#' ∧ ¬ IsQuote c := by simp [IsQuote]
  have hname : IsIdentifier "a" := ⟨by decide +kernel, by simp [isIdentifierChar]⟩
  obtain ⟨front, operand, back, hfront, hoperand, hback, hwritten, -⟩ :=
    @substitute_pasted ["a"] [" f "] "x +" "a" " " " " "_1" hpre (by simp [isIdentifierChar]) hname
      (by simp [isGap]) (by simp [isGap]) (by simp [isIdentifierChar])
  obtain rfl : "x +" = front := by
    have h : substitute ["a"] [" f "] "x +" = .ok "x +" := by decide +kernel
    exact Except.ok.inj (h.symm.trans hfront)
  obtain rfl : "f" = operand := by
    have h : substitute ["a"] [" f "] "a" = .ok "f" := by decide +kernel
    exact Except.ok.inj (h.symm.trans hoperand)
  obtain rfl : "_1" = back := by
    have h : substitute ["a"] [" f "] "_1" = .ok "_1" := by decide +kernel
    exact Except.ok.inj (h.symm.trans hback)
  refine ⟨hpre, hwritten.trans ?_⟩
  decide +kernel

/-- The blank before a name that stands for nothing is lost. -/
theorem substitute_pasted_nothing : substitute ["a"] [""] "x " = .ok "x " ∧
    substitute ["a"] [""] "a" = .ok "" ∧ substitute ["a"] [""] "y" = .ok "y" ∧
    substitute ["a"] [""] "x a ## y" = .ok "xy" := by
  decide +kernel

end Substitution

end CppDecl
