import CppDecl.Macro.Substitution
import CppDecl.Proofs.Lexeme

/-!
# Characters and their bytes

Texts are read byte by byte, and what they are made of is said of their characters.  An ASCII character
is one byte, and no byte of another character is ASCII (`Text.ne_of_mem_utf8EncodeChar`), so a mark is
found among the bytes where it is found among the characters.

Identifiers are made of letters, digits, `_`, `$` and all characters beyond ASCII.  All bytes of these
are identifier bytes, and no others are (`Substitution.takeWhile_encoded`).
-/

namespace CppDecl

open Byte
open Text (Whole isAscii)

/-! ## Encoded characters -/

namespace Text

/-- The UTF-8 bytes of some characters. -/
def encoded (cs : List Char) : Bytes := cs.flatMap String.utf8EncodeChar

variable {c : Char} {cs ds : List Char}

@[simp]
theorem encoded_nil : encoded [] = [] := rfl

theorem encoded_cons : encoded (c :: cs) = String.utf8EncodeChar c ++ encoded cs := List.flatMap_cons

@[simp]
theorem encoded_append : encoded (cs ++ ds) = encoded cs ++ encoded ds := List.flatMap_append

theorem bytes_eq_encoded (s : String) : bytes s = encoded s.toList := bytes_eq_flatMap s

theorem ofBytes?_encoded (cs : List Char) : ofBytes? (encoded cs) = some (String.ofList cs) :=
  ofBytes?_eq_some_iff.2 (bytes_ofList cs)

theorem whole_encoded (cs : List Char) : Whole (encoded cs) := ⟨String.ofList cs, bytes_ofList cs⟩

/-- An ASCII character is one byte. -/
theorem utf8EncodeChar_of_lt (h : c.toNat < 128) : String.utf8EncodeChar c = [c.toUInt8] := by
  have hle : c.val.toNat ≤ 127 := Nat.le_of_lt_succ h
  simp only [String.utf8EncodeChar, if_pos hle, Char.toUInt8]
  rfl

theorem encoded_cons_of_lt (h : c.toNat < 128) : encoded (c :: cs) = c.toUInt8 :: encoded cs := by
  rw [encoded_cons, utf8EncodeChar_of_lt h, List.singleton_append]

/-- The bytes of a character beyond ASCII are beyond ASCII as well. -/
theorem le_of_mem_utf8EncodeChar (h : 128 ≤ c.toNat) {b : UInt8}
    (hb : b ∈ String.utf8EncodeChar c) : 128 ≤ b := by
  rcases utf8EncodeChar_ascii c with ⟨a, ha, -⟩ | hall
  · have hlength : c.utf8Size = 1 := by rw [← String.length_utf8EncodeChar, ha, List.length_singleton]
    have hsmall := Char.utf8Size_eq_one_iff.1 hlength
    exact absurd (UInt32.le_iff_toNat_le.1 hsmall) (Nat.not_le.2 h)
  · have hnot := hall b hb
    simpa [isAscii, UInt8.not_lt] using hnot

/-- Behind the first byte of a character, all its bytes are beyond ASCII. -/
theorem utf8EncodeChar_eq_cons (c : Char) :
    ∃ b bs, String.utf8EncodeChar c = b :: bs ∧ ∀ b ∈ bs, 128 ≤ b := by
  by_cases h : c.toNat < 128
  · exact ⟨_, [], utf8EncodeChar_of_lt h, by simp⟩
  · obtain ⟨b, bs, hc, -⟩ := head_utf8EncodeChar c
    refine ⟨b, bs, hc, fun a ha => le_of_mem_utf8EncodeChar (Nat.not_lt.1 h) ?_⟩
    rw [hc]
    exact List.mem_cons_of_mem b ha

theorem toNat_toUInt8 (h : c.toNat < 128) : c.toUInt8.toNat = c.toNat := by
  show c.val.toUInt8.toNat = c.val.toNat
  rw [UInt32.toNat_toUInt8]
  exact Nat.mod_eq_of_lt (Nat.lt_trans h (by decide))

theorem ne_toUInt8_of_le (h : c.toNat < 128) {b : UInt8} (hb : 128 ≤ b) : b ≠ c.toUInt8 := by
  rintro rfl
  have hle := UInt8.le_iff_toNat_le.1 hb
  rw [toNat_toUInt8 h] at hle
  exact absurd h (Nat.not_lt.2 hle)

/-- No ASCII character is a byte of another one. -/
theorem ne_of_mem_utf8EncodeChar {mark : Char} (hmark : mark.toNat < 128) (hne : c ≠ mark)
    {b : UInt8} (hb : b ∈ String.utf8EncodeChar c) : b ≠ mark.toUInt8 := by
  by_cases h : c.toNat < 128
  · rw [utf8EncodeChar_of_lt h, List.mem_singleton] at hb
    rintro rfl
    exact hne (Char.toNat_inj.1 (by rw [← toNat_toUInt8 h, ← hb, toNat_toUInt8 hmark]))
  · exact ne_toUInt8_of_le hmark (le_of_mem_utf8EncodeChar (Nat.not_lt.1 h) hb)

/-- A character of ASCII that is not in a text is not among its bytes. -/
theorem not_mem_bytes {mark : Char} (hmark : mark.toNat < 128) {s : String} (h : mark ∉ s.toList) :
    mark.toUInt8 ∉ bytes s := by
  rw [bytes_eq_encoded]
  intro hmem
  obtain ⟨c, hc, hb⟩ := List.mem_flatMap.1 hmem
  refine ne_of_mem_utf8EncodeChar hmark ?_ hb rfl
  rintro rfl
  exact h hc

end Text

/-! ## Characters of identifiers -/

namespace Substitution

open Text (encoded)

/-- Characters of identifiers: letters, digits, `_`, `$` and all characters beyond ASCII. -/
def isIdentifierChar (c : Char) : Bool :=
  c.isAlphanum || c == '_' || c == '$' || 128 ≤ c.toNat

/-- The piece starts like an identifier. -/
def startsName (piece : String) : Bool :=
  piece.toList.head?.any fun c => isIdentifierChar c && !c.isDigit

/-- The text is an identifier. -/
structure IsIdentifier (name : String) : Prop where
  /-- It does not start with a digit. -/
  starts : startsName name = true
  /-- It has identifier characters only. -/
  all : ∀ c ∈ name.toList, isIdentifierChar c = true

variable {c : Char} {word rest : List Char} {name : String}

theorem isIdentifierByte_toUInt8 (h : c.toNat < 128) :
    isIdentifierByte c.toUInt8 = isIdentifierChar c := by
  have hall : ∀ n : Fin 128, isIdentifierByte (Char.ofNat n).toUInt8 =
      isIdentifierChar (Char.ofNat n) := by decide +kernel
  have hchar := hall ⟨c.toNat, h⟩
  rwa [Char.ofNat_toNat] at hchar

theorem isDigit_toUInt8 (h : c.toNat < 128) : Byte.isDigit c.toUInt8 = c.isDigit := by
  have hall : ∀ n : Fin 128, Byte.isDigit (Char.ofNat n).toUInt8 = (Char.ofNat n).isDigit := by
    decide +kernel
  have hchar := hall ⟨c.toNat, h⟩
  rwa [Char.ofNat_toNat] at hchar

/-- A character that is none of identifiers is a byte that is none. -/
theorem lt_of_not_isIdentifierChar (h : isIdentifierChar c = false) : c.toNat < 128 := by
  simp only [isIdentifierChar, Bool.or_eq_false_iff, decide_eq_false_iff_not] at h
  exact Nat.not_le.1 h.2

/-- All bytes of an identifier character are identifier bytes. -/
theorem isIdentifierByte_of_mem (h : isIdentifierChar c = true) {b : UInt8}
    (hb : b ∈ String.utf8EncodeChar c) : isIdentifierByte b = true := by
  by_cases hc : c.toNat < 128
  · rw [Text.utf8EncodeChar_of_lt hc, List.mem_singleton] at hb
    rw [hb, isIdentifierByte_toUInt8 hc, h]
  · simp [isIdentifierByte, Text.le_of_mem_utf8EncodeChar (Nat.not_lt.1 hc) hb]

theorem isIdentifierByte_of_mem_encoded (hword : ∀ c ∈ word, isIdentifierChar c = true) :
    ∀ b ∈ encoded word, isIdentifierByte b = true := by
  intro b hb
  obtain ⟨c, hc, hb⟩ := List.mem_flatMap.1 hb
  exact isIdentifierByte_of_mem (hword c hc) hb

/-- The identifier bytes at the start of a text are those of its identifier characters. -/
theorem takeWhile_encoded (hword : ∀ c ∈ word, isIdentifierChar c = true)
    (hrest : ∀ c ∈ rest.head?, isIdentifierChar c = false) :
    (encoded (word ++ rest)).takeWhile isIdentifierByte = encoded word := by
  have hnone : (encoded rest).takeWhile isIdentifierByte = [] := by
    cases rest with
    | nil => rfl
    | cons c rest =>
      have hc := hrest c rfl
      have hlt := lt_of_not_isIdentifierChar hc
      rw [Text.encoded_cons_of_lt hlt, List.takeWhile_cons_of_neg]
      rw [isIdentifierByte_toUInt8 hlt, hc]
      exact Bool.false_ne_true
  rw [Text.encoded_append, List.takeWhile_append_of_pos (isIdentifierByte_of_mem_encoded hword), hnone,
    List.append_nil]

theorem isDigit_of_utf8EncodeChar {b : UInt8} {bs : Bytes} (h : String.utf8EncodeChar c = b :: bs) :
    Byte.isDigit b = c.isDigit := by
  by_cases hc : c.toNat < 128
  · rw [Text.utf8EncodeChar_of_lt hc] at h
    cases h
    exact isDigit_toUInt8 hc
  · have hb := Text.le_of_mem_utf8EncodeChar (Nat.not_lt.1 hc) (h ▸ List.mem_cons_self)
    have hbyte : ¬ b ≤ 57 := fun h => absurd (UInt8.le_trans hb h) (by decide)
    have hchar : ¬ c.val ≤ 57 := fun h => hc (Nat.lt_of_le_of_lt (UInt32.le_iff_toNat_le.1 h) (by decide))
    simp [Byte.isDigit, Char.isDigit, hbyte, hchar]

theorem ne_hash_of_isIdentifierChar (h : isIdentifierChar c = true) : c ≠ '#' := by
  rintro rfl
  simp [isIdentifierChar] at h

/-- An identifier has a first character, which is no digit. -/
theorem IsIdentifier.eq_cons (h : IsIdentifier name) : ∃ c word, name.toList = c :: word ∧
    c.isDigit = false ∧ ∀ d ∈ c :: word, isIdentifierChar d = true := by
  have hstarts := h.starts
  have hall := h.all
  rw [startsName] at hstarts
  cases hchars : name.toList with
  | nil => rw [hchars] at hstarts; cases hstarts
  | cons c word =>
    rw [hchars] at hstarts hall
    exact ⟨c, word, rfl, by simpa using (Bool.and_eq_true_iff.1 hstarts).2, hall⟩

/-- An identifier has a first byte, which is no digit. -/
theorem IsIdentifier.bytes_eq_cons (h : IsIdentifier name) : ∃ b bs, Text.bytes name = b :: bs ∧
    isDigit b = false ∧ ∀ a ∈ b :: bs, isIdentifierByte a = true := by
  obtain ⟨c, word, hchars, hdigit, hall⟩ := h.eq_cons
  obtain ⟨b, bs, hc, -⟩ := Text.utf8EncodeChar_eq_cons c
  have hbytes := isIdentifierByte_of_mem_encoded hall
  rw [Text.bytes_eq_encoded, hchars]
  rw [Text.encoded_cons, hc, List.cons_append] at hbytes ⊢
  exact ⟨b, bs ++ encoded word, rfl, by rw [isDigit_of_utf8EncodeChar hc, hdigit], hbytes⟩

/-- The blanks before an identifier character are those of the text. -/
theorem takeWhile_isSpace_encoded {gap : List Char} (hgap : ∀ c ∈ gap, isGap c = true)
    (hrest : rest.head?.any isIdentifierChar = true) :
    (encoded (gap ++ rest)).takeWhile isSpace = encoded gap := by
  have hall : ∀ b ∈ encoded gap, isSpace b = true := by
    intro b hb
    obtain ⟨c, hc, hb⟩ := List.mem_flatMap.1 hb
    have hc := hgap c hc
    simp only [isGap, Bool.or_eq_true, beq_iff_eq] at hc
    rcases hc with rfl | rfl
    all_goals
      rw [Text.utf8EncodeChar_of_lt (by decide), List.mem_singleton] at hb
      rw [hb]
      decide
  have hnone : (encoded rest).takeWhile isSpace = [] := by
    cases rest with
    | nil => rfl
    | cons c rest =>
      obtain ⟨b, bs, hc, -⟩ := Text.utf8EncodeChar_eq_cons c
      have hb : isIdentifierByte b = true :=
        isIdentifierByte_of_mem (by simpa using hrest) (hc ▸ List.mem_cons_self)
      rw [Text.encoded_cons, hc, List.cons_append, List.takeWhile_cons_of_neg]
      intro hspace
      simp only [isSpace, Bool.or_eq_true, beq_iff_eq] at hspace
      rcases hspace with rfl | rfl <;> revert hb <;> decide
  rw [Text.encoded_append, List.takeWhile_append_of_pos hall, hnone, List.append_nil]

end Substitution

end CppDecl
