import CppDecl.Text.Byte
import Mathlib

/-!
# Cutting texts at byte offsets

A run of bytes is *whole* if it is the UTF-8 form of a text.  Reading cuts whole runs into pieces
and asks for the text of each piece, so the pieces have to be whole as well.

Every byte of a character beyond ASCII is 128 or more.  Hence a cut with an ASCII byte on either
side of it, or with nothing on one side, cannot go through the middle of a character: it is a
*seam* (`Seam`), and both sides of a seam in a whole run are whole (`Whole.split`).
-/

namespace CppDecl.Text

/-- The bytes are those of a text. -/
def Whole (bs : Bytes) : Prop := ∃ s, bytes s = bs

/-- Bytes below 128, each of which is a character by itself. -/
def isAscii (b : UInt8) : Bool := b < 128

/-- The two runs meet at the border of a character: the last byte of the first, or the first byte
of the second, is ASCII, or is missing. -/
def Seam (xs ys : Bytes) : Prop :=
  xs.getLast?.all isAscii = true ∨ ys.head?.all isAscii = true

/-! ## Texts and their bytes -/

theorem bytes_ofList (cs : List Char) :
    bytes (String.ofList cs) = cs.flatMap String.utf8EncodeChar := by
  simp [bytes, String.ofList, List.utf8Encode, String.toUTF8_eq_toByteArray]

theorem bytes_eq_flatMap (s : String) :
    bytes s = s.toList.flatMap String.utf8EncodeChar := by
  rw [← bytes_ofList, String.ofList_toList]

theorem length_bytes (s : String) : (bytes s).length = s.utf8ByteSize := by
  simp [bytes, String.toUTF8_eq_toByteArray, String.size_toByteArray]

theorem bytes_injective {s t : String} (h : bytes s = bytes t) : s = t := by
  have hdata : s.toByteArray.data = t.toByteArray.data :=
    Array.toList_inj.1 (by simpa [bytes, String.toUTF8_eq_toByteArray] using h)
  have harray : s.toByteArray = t.toByteArray := ByteArray.ext hdata
  exact String.toByteArray_inj.1 harray

theorem bytes_append (s t : String) : bytes (s ++ t) = bytes s ++ bytes t := by
  simp [bytes, String.toUTF8_eq_toByteArray, String.toByteArray_append]

theorem ofBytes?_eq_some_iff {bs : Bytes} {s : String} :
    ofBytes? bs = some s ↔ bytes s = bs := by
  unfold ofBytes? String.fromUTF8?
  constructor
  · intro h
    split at h
    next hvalid =>
      cases h
      simp [bytes, String.toUTF8_eq_toByteArray, String.fromUTF8]
    next => cases h
  · intro h
    have harray : (⟨bs.toArray⟩ : ByteArray) = s.toByteArray := by
      apply ByteArray.ext
      rw [← h]
      simp [bytes, String.toUTF8_eq_toByteArray]
    have hvalid : (⟨bs.toArray⟩ : ByteArray).IsValidUTF8 := harray ▸ s.isValidUTF8
    rw [dif_pos hvalid]
    congr 1
    exact String.toByteArray_inj.1 harray

@[simp]
theorem ofBytes?_bytes (s : String) : ofBytes? (bytes s) = some s :=
  ofBytes?_eq_some_iff.2 rfl

theorem Whole.ofBytes? {bs : Bytes} (h : Whole bs) : ∃ s, ofBytes? bs = some s ∧ bytes s = bs := by
  obtain ⟨s, rfl⟩ := h
  exact ⟨s, ofBytes?_bytes s, rfl⟩

theorem whole_bytes (s : String) : Whole (bytes s) := ⟨s, rfl⟩

theorem Whole.nil : Whole [] := ⟨"", by simp [bytes_eq_flatMap]⟩

theorem Whole.append {xs ys : Bytes} (hx : Whole xs) (hy : Whole ys) : Whole (xs ++ ys) := by
  obtain ⟨s, rfl⟩ := hx
  obtain ⟨t, rfl⟩ := hy
  exact ⟨s ++ t, bytes_append s t⟩

theorem whole_iff {bs : Bytes} : Whole bs ↔ (⟨bs.toArray⟩ : ByteArray).IsValidUTF8 := by
  constructor
  · rintro ⟨s, rfl⟩
    have harray : (⟨(bytes s).toArray⟩ : ByteArray) = s.toByteArray :=
      ByteArray.ext (by simp [bytes, String.toUTF8_eq_toByteArray])
    exact harray ▸ s.isValidUTF8
  · intro h
    exact ⟨String.fromUTF8 _ h, by simp [bytes, String.toUTF8_eq_toByteArray, String.fromUTF8]⟩

/-- What follows a character in a whole run is whole. -/
theorem Whole.of_utf8EncodeChar {c : Char} {bs : Bytes}
    (h : Whole (String.utf8EncodeChar c ++ bs)) : Whole bs := by
  have harray : (⟨(String.utf8EncodeChar c ++ bs).toArray⟩ : ByteArray) =
      [c].utf8Encode ++ ⟨bs.toArray⟩ := ByteArray.ext (by simp [List.utf8Encode_singleton])
  rw [whole_iff, harray, ByteArray.isValidUTF8_utf8Encode_singleton_append_iff] at h
  exact whole_iff.2 h

/-- What follows a whole run in a whole run is whole. -/
theorem Whole.of_append {xs ys : Bytes} (h : Whole (xs ++ ys)) (hxs : Whole xs) : Whole ys := by
  obtain ⟨s, rfl⟩ := hxs
  rw [bytes_eq_flatMap] at h
  generalize s.toList = cs at h
  induction cs with
  | nil => exact h
  | cons c cs ih =>
    rw [List.flatMap_cons, List.append_assoc] at h
    exact ih h.of_utf8EncodeChar

/-! ## Characters beyond ASCII -/

/-- A character is one ASCII byte, or only bytes beyond ASCII. -/
theorem utf8EncodeChar_ascii (c : Char) :
    (∃ b, String.utf8EncodeChar c = [b] ∧ isAscii b = true) ∨
      ∀ b ∈ String.utf8EncodeChar c, isAscii b = false := by
  unfold String.utf8EncodeChar
  simp only
  split
  next h =>
    refine .inl ⟨_, rfl, ?_⟩
    simp only [isAscii, decide_eq_true_eq, UInt8.lt_iff_toNat_lt, UInt8.toNat_ofNat']
    exact Nat.lt_of_le_of_lt (Nat.mod_le _ _) (by simpa using Nat.lt_succ_of_le h)
  next =>
    right
    split
    · simp [isAscii, UInt8.lt_iff_toNat_lt, UInt8.toNat_ofNat']
      omega
    · split
      · simp [isAscii, UInt8.lt_iff_toNat_lt, UInt8.toNat_ofNat']
        omega
      · simp [isAscii, UInt8.lt_iff_toNat_lt, UInt8.toNat_ofNat']
        omega

/-- A single ASCII byte is a text. -/
theorem Whole.ascii {b : UInt8} (h : isAscii b = true) : Whole [b] := by
  have hb : b.toNat < 128 := by simpa [isAscii, UInt8.lt_iff_toNat_lt] using h
  have hvalid : b.toNat.isValidChar := by
    left
    omega
  refine ⟨String.ofList [Char.ofNatAux b.toNat hvalid], ?_⟩
  rw [bytes_ofList]
  simp only [List.flatMap_cons, List.flatMap_nil, List.append_nil, String.utf8EncodeChar]
  have hval : (Char.ofNatAux b.toNat hvalid).val.toNat = b.toNat := by
    rfl
  rw [hval, if_pos (by omega)]
  simp

/-- The first byte of a character does not continue an earlier one. -/
theorem head_utf8EncodeChar (c : Char) :
    ∃ b bs, String.utf8EncodeChar c = b :: bs ∧ Byte.isContinuation b = false := by
  have hnot : ∀ n : Nat, n < 128 ∨ 192 ≤ n ∧ n < 256 →
      Byte.isContinuation (UInt8.ofNat n) = false := by
    intro n hn
    simp only [Byte.isContinuation, Bool.and_eq_false_iff, decide_eq_false_iff_not,
      UInt8.le_iff_toNat_le, UInt8.lt_iff_toNat_lt, UInt8.toNat_ofNat', UInt8.reduceToNat]
    omega
  unfold String.utf8EncodeChar
  simp only
  split
  · exact ⟨_, _, rfl, hnot _ (by omega)⟩
  · split
    · exact ⟨_, _, rfl, hnot _ (by omega)⟩
    · split
      · exact ⟨_, _, rfl, hnot _ (by omega)⟩
      · exact ⟨_, _, rfl, hnot _ (by omega)⟩

/-- A whole run starts with the first byte of a character. -/
theorem Whole.head {b : UInt8} {bs : Bytes} (h : Whole (b :: bs)) :
    Byte.isContinuation b = false := by
  obtain ⟨s, hs⟩ := h
  rw [bytes_eq_flatMap] at hs
  cases hchars : s.toList with
  | nil =>
    rw [hchars] at hs
    cases hs
  | cons c cs =>
    obtain ⟨b', bs', hc, hb'⟩ := head_utf8EncodeChar c
    rw [hchars, List.flatMap_cons, hc, List.cons_append] at hs
    cases hs
    exact hb'

/-- An offset behind which a run is whole lies between two characters. -/
theorem isBoundary_of_whole {bs : Bytes} {n : Nat} (hn : n ≤ bs.length) (h : Whole (bs.drop n)) :
    isBoundary bs n = true := by
  unfold isBoundary
  split
  next b rest heq =>
    rw [heq] at h
    rw [h.head]
    rfl
  next heq =>
    rw [List.drop_eq_nil_iff] at heq
    exact beq_iff_eq.2 (Nat.le_antisymm hn heq)

/-! ## Seams -/

/-- A cut that leaves part of a character on both sides is not a seam. -/
theorem not_seam_of_mem {c : Char} {xs ys zs : Bytes} (hx : xs ≠ []) (hy : ys ≠ [])
    (h : String.utf8EncodeChar c = xs ++ ys) : ¬ Seam xs (ys ++ zs) := by
  have hhigh : ∀ b ∈ xs ++ ys, isAscii b = false := by
    rcases utf8EncodeChar_ascii c with ⟨b, hb, _⟩ | hall
    · rw [hb] at h
      have hlen := congrArg List.length h
      have hxpos := List.length_pos_iff.2 hx
      have hypos := List.length_pos_iff.2 hy
      simp only [List.length_cons, List.length_nil, List.length_append] at hlen
      omega
    · rwa [h] at hall
  rintro (hlast | hhead)
  · rw [List.getLast?_eq_some_getLast hx, Option.all_some,
      hhigh _ (List.mem_append_left _ (List.getLast_mem hx))] at hlast
    cases hlast
  · obtain ⟨b, bs, rfl⟩ := List.exists_cons_of_ne_nil hy
    rw [List.cons_append, List.head?_cons, Option.all_some, hhigh b (by simp)] at hhead
    cases hhead

private theorem split_flatMap (cs : List Char) : ∀ (xs ys : Bytes),
    cs.flatMap String.utf8EncodeChar = xs ++ ys → Seam xs ys → Whole xs ∧ Whole ys := by
  induction cs with
  | nil =>
    intro xs ys h _
    obtain ⟨rfl, rfl⟩ := List.append_eq_nil_iff.1 h.symm
    exact ⟨.nil, .nil⟩
  | cons c cs ih =>
    intro xs ys h hseam
    have hchar : Whole (String.utf8EncodeChar c) :=
      ⟨String.ofList [c], by rw [bytes_ofList, List.flatMap_cons, List.flatMap_nil, List.append_nil]⟩
    have hrest : Whole (cs.flatMap String.utf8EncodeChar) := ⟨String.ofList cs, bytes_ofList cs⟩
    rw [List.flatMap_cons, List.append_eq_append_iff] at h
    rcases h with ⟨more, rfl, hys⟩ | ⟨more, hc, rfl⟩
    · -- the cut lies behind the first character
      cases more with
      | nil =>
        rw [List.nil_append] at hys
        exact ⟨by simpa using hchar, hys ▸ hrest⟩
      | cons b bs =>
        have hseam' : Seam (b :: bs) ys := by
          simpa only [Seam, List.getLast?_append, List.getLast?_cons, Option.some_or] using hseam
        obtain ⟨hmore, hy⟩ := ih _ _ hys hseam'
        exact ⟨hchar.append hmore, hy⟩
    · -- the cut lies inside the first character, or at one of its ends
      by_cases hx : xs = []
      · subst hx
        rw [List.nil_append] at hc
        exact ⟨.nil, hc ▸ hchar.append hrest⟩
      · by_cases hmore : more = []
        · subst hmore
          rw [List.append_nil] at hc
          exact ⟨hc ▸ hchar, hrest⟩
        · exact absurd hseam (not_seam_of_mem hx hmore hc)

/-- Both sides of a seam in a whole run are whole. -/
theorem Whole.split {xs ys : Bytes} (h : Whole (xs ++ ys)) (hseam : Seam xs ys) :
    Whole xs ∧ Whole ys := by
  obtain ⟨s, hs⟩ := h
  rw [bytes_eq_flatMap] at hs
  exact split_flatMap s.toList xs ys hs hseam

/-! ## Cuts at an offset -/

/-- The run can be cut at an offset: the byte before it or the byte behind it is ASCII, or is
missing. -/
def Cut (bs : Bytes) (n : Nat) : Prop :=
  (0 < n → bs[n - 1]?.all isAscii = true) ∨ bs[n]?.all isAscii = true

theorem Cut.zero (bs : Bytes) : Cut bs 0 := .inl fun h => absurd h (Nat.lt_irrefl 0)

theorem Cut.length (bs : Bytes) : Cut bs bs.length := .inr (by simp)

theorem Cut.before {bs : Bytes} {n : Nat} {b : UInt8} (h : bs[n]? = some b)
    (hb : isAscii b = true) : Cut bs n := .inr (by rw [h]; exact hb)

theorem Cut.behind {bs : Bytes} {n : Nat} {b : UInt8} (h : bs[n]? = some b)
    (hb : isAscii b = true) : Cut bs (n + 1) := .inl fun _ => by rw [Nat.add_sub_cancel, h]; exact hb

/-- A cut behind the first byte of a run stays one if the run is put behind another. -/
theorem Cut.append {ys : Bytes} {n : Nat} (xs : Bytes) (h : Cut ys n) (hn : 0 < n) :
    Cut (xs ++ ys) (xs.length + n) := by
  rcases h with hlast | hnext
  · left
    intro _
    rw [List.getElem?_append_right (by omega),
      show xs.length + n - 1 - xs.length = n - 1 by omega]
    exact hlast hn
  · right
    rw [List.getElem?_append_right (by omega), Nat.add_sub_cancel_left]
    exact hnext

/-- Any cut stays one if an ASCII byte is put in front. -/
theorem Cut.cons {bs : Bytes} {n : Nat} {b : UInt8} (hb : isAscii b = true) (h : Cut bs n) :
    Cut (b :: bs) (n + 1) := by
  cases n with
  | zero => exact .behind (b := b) (by simp) hb
  | succ n =>
    have := h.append [b] (Nat.succ_pos n)
    rwa [List.length_singleton, Nat.add_comm, List.singleton_append] at this

theorem Cut.seam {bs : Bytes} {n : Nat} (h : Cut bs n) : Seam (bs.take n) (bs.drop n) := by
  rcases h with hlast | hnext
  · by_cases hn : n = 0
    · subst hn
      exact .inl (by simp)
    · by_cases hle : n ≤ bs.length
      · left
        rw [List.getLast?_take, if_neg hn, List.getElem?_eq_getElem (by omega), Option.some_or,
          ← List.getElem?_eq_getElem]
        exact hlast (Nat.pos_of_ne_zero hn)
      · right
        rw [List.drop_eq_nil_of_le (by omega)]
        rfl
  · right
    rwa [List.head?_drop]

/-- Both parts of a whole run are whole where it can be cut. -/
theorem Whole.cut {bs : Bytes} {n : Nat} (h : Whole bs) (hcut : Cut bs n) :
    Whole (bs.take n) ∧ Whole (bs.drop n) := by
  have hbs : Whole (bs.take n ++ bs.drop n) := by rwa [List.take_append_drop]
  exact hbs.split hcut.seam

/-! ## Last bytes -/

/-- A text has a given byte right before the offset `n`. -/
def EndsWith (bs : Bytes) (n : Nat) (c : UInt8) : Prop := ∃ m, n = m + 1 ∧ bs[m]? = some c

theorem EndsWith.pos {bs : Bytes} {n : Nat} {c : UInt8} (h : EndsWith bs n c) : 0 < n := by
  obtain ⟨m, rfl, -⟩ := h
  exact Nat.succ_pos m

theorem EndsWith.le {bs : Bytes} {n : Nat} {c : UInt8} (h : EndsWith bs n c) : n ≤ bs.length := by
  obtain ⟨m, rfl, hc⟩ := h
  exact (List.getElem?_eq_some_iff.1 hc).1

/-- A text can be cut behind an ASCII byte. -/
theorem EndsWith.cut {bs : Bytes} {n : Nat} {c : UInt8} (h : EndsWith bs n c)
    (hc : isAscii c = true) : Cut bs n := by
  obtain ⟨m, rfl, hat⟩ := h
  exact .behind hat hc

theorem EndsWith.append {bs : Bytes} {n : Nat} {c : UInt8} (h : EndsWith bs n c) (front : Bytes) :
    EndsWith (front ++ bs) (front.length + n) c := by
  obtain ⟨m, rfl, hc⟩ := h
  refine ⟨front.length + m, rfl, ?_⟩
  rwa [List.getElem?_append_right (Nat.le_add_right _ _), Nat.add_sub_cancel_left]

theorem EndsWith.cons {bs : Bytes} {n : Nat} {c : UInt8} (h : EndsWith bs n c) (b : UInt8) :
    EndsWith (b :: bs) (n + 1) c := by
  have happend := h.append [b]
  rwa [List.length_singleton, Nat.add_comm] at happend

/-! ## Runs of bytes -/

/-- A text starts with `n` bytes that all have a property. -/
structure Run (p : UInt8 → Bool) (bs : Bytes) (n : Nat) : Prop where
  /-- The text is long enough. -/
  le : n ≤ bs.length
  /-- Its first bytes have the property. -/
  all : ∀ b ∈ bs.take n, p b = true

namespace Run

variable {p q : UInt8 → Bool} {bs : Bytes} {m n : Nat}

theorem zero (p : UInt8 → Bool) (bs : Bytes) : Run p bs 0 := ⟨Nat.zero_le _, by simp⟩

theorem add (hm : Run p bs m) (hn : Run p (bs.drop m) n) : Run p bs (m + n) := by
  have hle := hn.le
  rw [List.length_drop] at hle
  refine ⟨by have := hm.le; omega, ?_⟩
  intro b hb
  rw [List.take_add, List.mem_append] at hb
  rcases hb with hb | hb
  · exact hm.all b hb
  · exact hn.all b hb

theorem cons {b : UInt8} (hb : p b = true) (h : Run p bs n) : Run p (b :: bs) (1 + n) :=
  add ⟨by simp, by simpa using hb⟩ h

theorem mono (hpq : ∀ b, p b = true → q b = true) (h : Run p bs n) : Run q bs n :=
  ⟨h.le, fun b hb => hpq b (h.all b hb)⟩

theorem takeWhile (p : UInt8 → Bool) (bs : Bytes) : Run p bs (bs.takeWhile p).length := by
  refine ⟨(List.takeWhile_prefix p).length_le, ?_⟩
  intro b hb
  rw [← List.prefix_iff_eq_take.1 (List.takeWhile_prefix p)] at hb
  exact List.all_eq_true.1 List.all_takeWhile b hb

end Run

/-! ## Runs of ASCII bytes -/

/-- The run starts with `n` ASCII bytes. -/
structure AsciiRun (bs : Bytes) (n : Nat) : Prop where
  /-- The run is long enough. -/
  le : n ≤ bs.length
  /-- Its first bytes are ASCII. -/
  ascii : ∀ b ∈ bs.take n, isAscii b = true

theorem Run.ascii {p : UInt8 → Bool} {bs : Bytes} {n : Nat} (h : Run p bs n)
    (hp : ∀ b, p b = true → isAscii b = true) : AsciiRun bs n := ⟨h.le, (h.mono hp).all⟩

theorem AsciiRun.run {bs : Bytes} {n : Nat} (h : AsciiRun bs n) : Run isAscii bs n := ⟨h.le, h.ascii⟩

theorem AsciiRun.zero (bs : Bytes) : AsciiRun bs 0 := (Run.zero isAscii bs).ascii fun _ h => h

theorem AsciiRun.add {bs : Bytes} {m n : Nat} (hm : AsciiRun bs m) (hn : AsciiRun (bs.drop m) n) :
    AsciiRun bs (m + n) :=
  (hm.run.add hn.run).ascii fun _ h => h

theorem AsciiRun.cons {bs : Bytes} {n : Nat} {b : UInt8} (hb : isAscii b = true)
    (h : AsciiRun bs n) : AsciiRun (b :: bs) (1 + n) :=
  (Run.cons hb h.run).ascii fun _ h => h

theorem AsciiRun.takeWhile {p : UInt8 → Bool} (hp : ∀ b, p b = true → isAscii b = true)
    (bs : Bytes) : AsciiRun bs (bs.takeWhile p).length :=
  (Run.takeWhile p bs).ascii hp

/-- Behind a run of ASCII bytes, what can be cut can be cut in the whole as well. -/
theorem AsciiRun.cut_add {bs : Bytes} {m n : Nat} (hm : AsciiRun bs m)
    (hn : Cut (bs.drop m) n) : Cut bs (m + n) := by
  rcases Nat.eq_zero_or_pos n with rfl | hpos
  · rcases Nat.eq_zero_or_pos m with rfl | hmpos
    · exact .zero bs
    · left
      intro _
      have hlt : m - 1 < bs.length := by have := hm.le; omega
      rw [Nat.add_zero, List.getElem?_eq_getElem hlt, Option.all_some]
      exact hm.ascii _ (List.mem_take_iff_getElem.2 ⟨m - 1, by omega, rfl⟩)
  · have hcut := hn.append (bs.take m) hpos
    rwa [List.take_append_drop, List.length_take, Nat.min_eq_left hm.le] at hcut

theorem AsciiRun.cut {bs : Bytes} {n : Nat} (h : AsciiRun bs n) : Cut bs n := by
  simpa using h.cut_add (.zero _)

end CppDecl.Text
