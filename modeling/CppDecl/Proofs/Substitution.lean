import CppDecl.Macro.Substitution
import CppDecl.Proofs.Macro

/-!
# Pieces of replacement texts

A replacement text is cut byte by byte, and each piece is asked for its text.  All cuts are made
beside ASCII bytes, so the pieces of a whole text are whole (`pieces_whole`), and putting arguments
into a replacement text always has an answer (`substitute_ok`), whatever the arguments are.
-/

namespace CppDecl

open Text (isAscii AsciiRun Whole)

/-- All texts of a piece have a property. -/
def BodyPiece.All {α : Type} (P : α → Prop) : BodyPiece α → Prop
  | .verbatim text => P text
  | .name text => P text
  | .stringize gap word => P gap ∧ P word
  | .paste => True

/-- A piece of whole texts has a text. -/
theorem BodyPiece.All.decode {piece : BodyPiece Bytes} (h : piece.All Whole) :
    ∃ piece', piece.decode = .ok piece' := by
  cases piece with
  | verbatim text =>
    obtain ⟨s, hs, -⟩ := h.ofBytes?
    exact ⟨.verbatim s, by rw [BodyPiece.decode, hs]; rfl⟩
  | name text =>
    obtain ⟨s, hs, -⟩ := h.ofBytes?
    exact ⟨.name s, by rw [BodyPiece.decode, hs]; rfl⟩
  | stringize gap word =>
    obtain ⟨s, hs, -⟩ := h.1.ofBytes?
    obtain ⟨t, ht, -⟩ := h.2.ofBytes?
    exact ⟨.stringize s t, by rw [BodyPiece.decode, hs, ht]; rfl⟩
  | paste => exact ⟨.paste, rfl⟩

namespace Substitution

open Byte

/-- A literal ends behind its closing quote, or with the text. -/
theorem stops_literalLength {mark : UInt8} (hmark : isAscii mark = true) (bs : Bytes) :
    Lexeme.Stops bs (literalLength mark bs) := by
  unfold literalLength
  cases h : Lexeme.literalEnd? mark bs with
  | none => exact .length bs
  | some n => exact .of_endsWith (Lexeme.literalEnd?_endsWith h) hmark

/-- A whole text does not start in the middle of a character. -/
theorem takeWhile_isContinuation {bs : Bytes} (h : Whole bs) : bs.takeWhile isContinuation = [] := by
  cases bs with
  | nil => rfl
  | cons b bs => exact List.takeWhile_cons_of_neg (by rw [h.head]; exact Bool.false_ne_true)

/-- The first piece of a whole text is whole, and so is what follows it. -/
theorem firstPiece_whole {b : UInt8} {bs : Bytes} (h : Whole (b :: bs)) :
    (firstPiece b bs).1.All Whole ∧ Whole (bs.drop (firstPiece b bs).2) := by
  unfold firstPiece
  split
  next hmark =>
    -- a literal
    have hb : isAscii b = true := by
      simp only [Bool.or_eq_true, decide_eq_true_eq] at hmark
      rcases hmark with rfl | rfl <;> decide
    exact h.cut ((stops_literalLength hb bs).cons hb).cut
  next =>
    split
    next hhash =>
      have hbs : Whole bs := h.of_cons (by rw [hhash]; decide)
      split
      next hpaste =>
        obtain ⟨tail, rfl⟩ := List.head?_eq_some_iff.1 hpaste
        refine ⟨trivial, ?_⟩
        rw [List.tail_cons, Nat.add_comm, List.drop_succ_cons]
        exact ((hbs.of_cons (by decide)).cut
          (AsciiRun.takeWhile Definition.isAscii_of_isSpace tail).cut).2
      next =>
        obtain ⟨hgap, hbehind⟩ :=
          hbs.cut (AsciiRun.takeWhile Definition.isAscii_of_isSpace bs).cut
        rw [← List.prefix_iff_eq_take.1 (List.takeWhile_prefix _)] at hgap
        obtain ⟨hword, hrest⟩ :=
          hbehind.takeWhile fun _ => Lexeme.isAscii_of_not_isIdentifierByte
        rw [List.drop_drop] at hrest
        exact ⟨⟨hgap, hword⟩, hrest⟩
    next =>
      split
      next hident =>
        obtain ⟨hrun, hrest⟩ := h.takeWhile fun _ => Lexeme.isAscii_of_not_isIdentifierByte
        rw [List.takeWhile_cons_of_pos hident] at hrun hrest
        refine ⟨?_, hrest⟩
        split <;> exact hrun
      next hident =>
        have hb := Lexeme.isAscii_of_not_isIdentifierByte (Bool.eq_false_iff.2 hident)
        have hbs : Whole bs := h.of_cons hb
        simp only [takeWhile_isContinuation hbs]
        exact ⟨.ascii hb, hbs⟩

/-- The pieces of a whole text are whole. -/
theorem pieces_whole {bs : Bytes} (h : Whole bs) : ∀ piece ∈ pieces bs, piece.All Whole := by
  fun_induction pieces bs with
  | case1 => simp
  | case2 b rest piece n hfirst ih =>
    obtain ⟨hpiece, hrest⟩ := firstPiece_whole h
    rw [hfirst] at hpiece hrest
    intro p hp
    rcases List.mem_cons.1 hp with rfl | hp
    · exact hpiece
    · exact ih hrest p hp

/-- Whole pieces all have texts. -/
theorem mapM_decode {ps : List (BodyPiece Bytes)} (h : ∀ piece ∈ ps, piece.All Whole) :
    ∃ ps', ps.mapM BodyPiece.decode = .ok ps' := by
  induction ps with
  | nil => exact ⟨[], rfl⟩
  | cons p ps ih =>
    obtain ⟨p', hp⟩ := (h p List.mem_cons_self).decode
    obtain ⟨ps', hps⟩ := ih fun q hq => h q (List.mem_cons_of_mem _ hq)
    exact ⟨p' :: ps', by rw [List.mapM_cons, hp, hps]; rfl⟩

/-- Arguments can be put into every replacement text. -/
theorem substitute_ok (params args : List String) (body : String) :
    ∃ text, substitute params args body = .ok text := by
  obtain ⟨ps, hps⟩ := mapM_decode (pieces_whole (Text.whole_bytes body))
  exact ⟨_, by rw [substitute, hps]; rfl⟩

end Substitution

end CppDecl
