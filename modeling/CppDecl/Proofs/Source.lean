import CppDecl.Proofs.Text
import CppDecl.Source

/-!
# Lines and columns

The position of a byte offset is found by a binary search in a table of line starts.  Here it is shown
to be what it should be: the line is one more than the newlines before the offset, and the column is
one more than the bytes behind the last of them.

The table for a text is that for the bytes before the offset, followed by starts behind the offset
(`lineStarts_split`).  So the search ends between the two parts, and the entry that it finds is the
last of the first part.
-/

namespace CppDecl

/-- The line and the column of a byte offset, counted in the text itself. -/
def Text.positionAt (bs : Bytes) (offset : Nat) : Position :=
  ⟨(bs.take offset).count Byte.newline + 1,
    ((bs.take offset).reverse.takeWhile (· != Byte.newline)).length + 1⟩

/-- An offset is on the line that starts at `start`. -/
structure Text.OnLine (bs : Bytes) (start offset : Nat) : Prop where
  /-- The line starts at the offset or before it. -/
  le : start ≤ offset
  /-- It starts behind a newline, or with the text. -/
  starts : start = 0 ∨ 0 < start ∧ bs[start - 1]? = some Byte.newline
  /-- It goes on up to the offset. -/
  unbroken : ∀ i, start ≤ i → i < offset → bs[i]? ≠ some Byte.newline

/-- Positions in the order in which they are read: by line, and by column on one line. -/
def Position.key (p : Position) : ℕ ×ₗ ℕ := toLex (p.line, p.column)

/-! ## Halving -/

/-- A property that holds below an index and fails from there on is partitioned there. -/
theorem partitionPoint_eq {p : Nat → Bool} {lo hi n : Nat} (hlo : lo ≤ n) (hhi : n ≤ hi)
    (hbelow : ∀ i, lo ≤ i → i < n → p i = true) (hfrom : ∀ i, n ≤ i → i < hi → p i = false) :
    partitionPoint p lo hi = n := by
  fun_induction partitionPoint p lo hi with
  | case1 lo hi hlt mid hmid ih =>
    have hn : mid < n := by
      by_contra hle
      rw [hfrom mid (Nat.not_lt.1 hle) (by omega)] at hmid
      cases hmid
    exact ih hn hhi (fun i hi => hbelow i (by omega)) hfrom
  | case2 lo hi hlt mid hmid ih =>
    have hn : n ≤ mid := by
      by_contra hle
      exact hmid (hbelow mid (by omega) (Nat.not_le.1 hle))
    exact ih hlo hn hbelow fun i hi hlt => hfrom i hi (by omega)
  | case3 lo hi hlt => omega

/-! ## Line starts -/

theorem lineStartsFrom_append (xs ys : Bytes) (base : Nat) :
    lineStartsFrom base (xs ++ ys) =
      lineStartsFrom base xs ++ lineStartsFrom (base + xs.length) ys := by
  induction xs generalizing base with
  | nil => rfl
  | cons b xs ih =>
    rw [List.cons_append, lineStartsFrom, lineStartsFrom, ih, List.length_cons]
    rw [show base + 1 + xs.length = base + (xs.length + 1) by omega]
    split
    · rfl
    · rfl

/-- Line starts lie behind the offset from which they are counted, and not behind the text. -/
theorem mem_lineStartsFrom {bs : Bytes} {base start : Nat} (h : start ∈ lineStartsFrom base bs) :
    base < start ∧ start ≤ base + bs.length := by
  induction bs generalizing base with
  | nil => cases h
  | cons b bs ih =>
    rw [List.length_cons]
    have hlater : start ∈ lineStartsFrom (base + 1) bs →
        base < start ∧ start ≤ base + (bs.length + 1) := by
      intro hmem
      have hbounds := ih hmem
      omega
    unfold lineStartsFrom at h
    split at h
    · rcases List.mem_cons.1 h with rfl | h
      · omega
      · exact hlater h
    · exact hlater h

theorem length_lineStartsFrom (bs : Bytes) (base : Nat) :
    (lineStartsFrom base bs).length = bs.count Byte.newline := by
  induction bs generalizing base with
  | nil => rfl
  | cons b bs ih =>
    unfold lineStartsFrom
    split
    next h => rw [h, List.length_cons, ih, List.count_cons_self]
    next h => rw [ih, List.count_cons_of_ne h]

theorem lineStartsFrom_eq_nil {bs : Bytes} (h : ∀ b ∈ bs, b ≠ Byte.newline) (base : Nat) :
    lineStartsFrom base bs = [] := by
  rw [← List.length_eq_zero_iff, length_lineStartsFrom, List.count_eq_zero]
  exact fun hmem => h _ hmem rfl

/-- The table consists of the line starts up to an offset and those behind it. -/
theorem lineStarts_split {bs : Bytes} {offset : Nat} (h : offset ≤ bs.length) :
    0 :: lineStartsFrom 0 bs =
      (0 :: lineStartsFrom 0 (bs.take offset)) ++ lineStartsFrom offset (bs.drop offset) := by
  have hsplit := lineStartsFrom_append (bs.take offset) (bs.drop offset) 0
  rw [List.take_append_drop, List.length_take, Nat.min_eq_left h, Nat.zero_add] at hsplit
  rw [hsplit, List.cons_append]

/-- A text up to its last newline, and the line behind that. -/
theorem Text.lastLine (bs : Bytes) : ∃ front line, bs = front ++ line ∧
    (front = [] ∨ ∃ lines, front = lines ++ [Byte.newline]) ∧ (∀ b ∈ line, b ≠ Byte.newline) ∧
    line.length = (bs.reverse.takeWhile (· != Byte.newline)).length := by
  refine ⟨(bs.reverse.dropWhile (· != Byte.newline)).reverse,
    (bs.reverse.takeWhile (· != Byte.newline)).reverse, ?_, ?_, ?_, List.length_reverse⟩
  · rw [← List.reverse_append, List.takeWhile_append_dropWhile, List.reverse_reverse]
  · cases hfront : bs.reverse.dropWhile (· != Byte.newline) with
    | nil => exact .inl rfl
    | cons b front =>
      have hhead := List.head?_dropWhile_not (· != Byte.newline) bs.reverse
      rw [hfront] at hhead
      have hb : b = Byte.newline := by simpa using hhead
      exact .inr ⟨front.reverse, by rw [List.reverse_cons, hb]⟩
  · intro b hb
    have hne := List.all_eq_true.1 List.all_takeWhile b (List.mem_reverse.1 hb)
    simpa using hne

/-- The last line of a text starts behind its last newline. -/
theorem getLast_lineStarts (bs : Bytes) : ∃ start,
    (0 :: lineStartsFrom 0 bs).getLast? = some start ∧
      start + (bs.reverse.takeWhile (· != Byte.newline)).length = bs.length := by
  obtain ⟨front, line, hsplit, hfront, hline, hlength⟩ := Text.lastLine bs
  refine ⟨front.length, ?_, by rw [← hlength, hsplit, List.length_append]⟩
  rw [hsplit, lineStartsFrom_append, lineStartsFrom_eq_nil hline, List.append_nil]
  rcases hfront with rfl | ⟨lines, rfl⟩
  · rfl
  · rw [lineStartsFrom_append, Nat.zero_add, lineStartsFrom, if_pos rfl, lineStartsFrom,
      ← List.cons_append, List.getLast?_concat, List.length_append, List.length_singleton]

/-- What is behind the last newline of the text before an offset is the line of the offset. -/
theorem Text.onLine_of_length {bs : Bytes} {start offset : Nat} (h : offset ≤ bs.length)
    (hstart : start + ((bs.take offset).reverse.takeWhile (· != Byte.newline)).length = offset) :
    OnLine bs start offset := by
  obtain ⟨front, line, hsplit, hfront, hline, hlength⟩ := lastLine (bs.take offset)
  have htake := congrArg List.length hsplit
  rw [List.length_take, Nat.min_eq_left h, List.length_append] at htake
  obtain rfl : start = front.length := by omega
  have hget : ∀ i, i < offset → bs[i]? = (front ++ line)[i]? := by
    intro i hi
    rw [← hsplit, List.getElem?_take_of_lt hi]
  refine ⟨by omega, ?_, ?_⟩
  · rcases hfront with rfl | ⟨lines, rfl⟩
    · exact .inl rfl
    · right
      rw [List.length_append, List.length_singleton] at htake ⊢
      refine ⟨by omega, ?_⟩
      rw [Nat.add_sub_cancel, hget lines.length (by omega), List.append_assoc,
        List.getElem?_append_right (Nat.le_refl _), Nat.sub_self]
      rfl
  · intro i hle hlt hi
    rw [hget i hlt, List.getElem?_append_right hle] at hi
    exact hline _ (List.mem_of_getElem? hi) rfl

/-! ## The search -/

namespace SourceFile

/-- The search ends behind the starts of the lines before the offset. -/
theorem linesUpTo_ofText (path contents : String) {offset : Nat}
    (h : offset ≤ (Text.bytes contents).length) :
    (ofText path contents).linesUpTo offset =
      ((Text.bytes contents).take offset).count Byte.newline + 1 := by
  have hlength : ((Text.bytes contents).take offset).length = offset := by
    rw [List.length_take, Nat.min_eq_left h]
  unfold linesUpTo ofText
  simp only [lineStarts_split h, List.size_toArray, Array.getD_eq_getD_getElem?, List.getElem?_toArray]
  rw [← length_lineStartsFrom _ 0, ← List.length_cons (a := 0)]
  generalize hfront : 0 :: lineStartsFrom 0 ((Text.bytes contents).take offset) = front
  have hbefore : ∀ start ∈ front, start ≤ offset := by
    intro start hstart
    rw [← hfront, List.mem_cons] at hstart
    rcases hstart with rfl | hstart
    · exact Nat.zero_le _
    · have hbound := (mem_lineStartsFrom hstart).2
      omega
  refine partitionPoint_eq (Nat.zero_le _) (by rw [List.length_append]; omega) ?_ ?_
  · intro i _ hi
    rw [List.getElem?_append_left hi, List.getElem?_eq_getElem hi]
    exact decide_eq_true (hbefore _ (List.getElem_mem hi))
  · intro i hle hi
    rw [List.length_append] at hi
    have hi' : i - front.length < (lineStartsFrom offset ((Text.bytes contents).drop offset)).length := by
      omega
    rw [List.getElem?_append_right hle, List.getElem?_eq_getElem hi']
    have hbound := (mem_lineStartsFrom (List.getElem_mem hi')).1
    exact decide_eq_false (Nat.not_le.2 hbound)

/-- The search finds the start of the line of the offset. -/
theorem lineStarts_linesUpTo (path contents : String) {offset : Nat}
    (h : offset ≤ (Text.bytes contents).length) : ∃ start,
    (ofText path contents).lineStarts[(ofText path contents).linesUpTo offset - 1]? = some start ∧
      start + (((Text.bytes contents).take offset).reverse.takeWhile (· != Byte.newline)).length =
        offset := by
  obtain ⟨start, hlast, hstart⟩ := getLast_lineStarts ((Text.bytes contents).take offset)
  rw [List.length_take, Nat.min_eq_left h] at hstart
  refine ⟨start, ?_, hstart⟩
  rw [linesUpTo_ofText path contents h, ← length_lineStartsFrom _ 0, Nat.add_sub_cancel]
  simp only [ofText, lineStarts_split h, List.getElem?_toArray]
  rw [List.getElem?_append_left (by rw [List.length_cons]; omega), ← hlast, List.getLast?_eq_getElem?,
    List.length_cons, Nat.add_sub_cancel]

/-- The table of line starts gives the line and the column. -/
theorem position_ofText (path contents : String) {offset : Nat}
    (h : offset ≤ (Text.bytes contents).length) :
    (ofText path contents).position offset = Text.positionAt (Text.bytes contents) offset := by
  obtain ⟨start, hentry, hstart⟩ := lineStarts_linesUpTo path contents h
  unfold position Text.positionAt
  simp only [Array.getD_eq_getD_getElem?, hentry, Option.getD_some]
  rw [linesUpTo_ofText path contents h, Nat.add_sub_cancel]
  congr 1
  omega

end SourceFile

/-! ## The order of positions -/

/-- A later offset has a later position. -/
theorem Text.positionAt_lt {bs : Bytes} {offset offset' : Nat} (hlt : offset < offset')
    (hle : offset' ≤ bs.length) : (positionAt bs offset).key < (positionAt bs offset').key := by
  obtain ⟨mid, hmid⟩ : ∃ mid, bs.take offset' = bs.take offset ++ mid :=
    ⟨(bs.drop offset).take (offset' - offset), by
      rw [← List.take_add, Nat.add_sub_cancel' (Nat.le_of_lt hlt)]⟩
  have hlength := congrArg List.length hmid
  rw [List.length_append, List.length_take, List.length_take] at hlength
  simp only [Position.key, Prod.Lex.toLex_lt_toLex, positionAt, hmid, List.count_append,
    List.reverse_append]
  rcases Nat.eq_zero_or_pos (mid.count Byte.newline) with hcount | hcount
  · -- there is no newline between the two, so the column grows
    have hnone : ∀ b ∈ mid.reverse, (b != Byte.newline) = true := by
      intro b hb
      have hne := List.count_eq_zero.1 hcount
      simp only [bne_iff_ne]
      rintro rfl
      exact hne (List.mem_reverse.1 hb)
    right
    rw [List.takeWhile_append_of_pos hnone, List.length_append, List.length_reverse]
    omega
  · left
    omega

/-- No two offsets of a text have the same line and column. -/
theorem Text.positionAt_ne {bs : Bytes} {offset offset' : Nat} (hlt : offset < offset')
    (hle : offset' ≤ bs.length) : positionAt bs offset ≠ positionAt bs offset' :=
  fun heq => absurd (positionAt_lt hlt hle) (heq ▸ lt_irrefl _)

/-! ## Exactness -/

namespace SourceFile

/-- Offsets of a text are in the order of their positions. -/
theorem strictMonoOn_position (path contents : String) :
    StrictMonoOn (fun offset => ((ofText path contents).position offset).key)
      (Set.Iic (Text.bytes contents).length) := by
  intro offset h offset' h' hlt
  simp only [position_ofText path contents h, position_ofText path contents h']
  exact Text.positionAt_lt hlt h'

/-- No entry of the table is behind the end of the text. -/
theorem le_of_mem_lineStarts {path contents : String} {start : Nat}
    (h : start ∈ (ofText path contents).lineStarts) : start ≤ (Text.bytes contents).length := by
  rw [ofText, List.mem_toArray, List.mem_cons] at h
  rcases h with rfl | h
  · exact Nat.zero_le _
  · simpa using (mem_lineStartsFrom h).2

/-- The search gives the start of the line, from which the column is counted. -/
theorem position_onLine (path contents : String) {offset : Nat}
    (h : offset ≤ (Text.bytes contents).length) : ∃ start,
    (ofText path contents).lineStarts[(ofText path contents).linesUpTo offset - 1]? = some start ∧
      Text.OnLine (Text.bytes contents) start offset ∧
      (ofText path contents).position offset =
        ⟨1 + ((Text.bytes contents).take offset).count Byte.newline, 1 + (offset - start)⟩ := by
  obtain ⟨start, hentry, hstart⟩ := lineStarts_linesUpTo path contents h
  refine ⟨start, hentry, Text.onLine_of_length h hstart, ?_⟩
  rw [position_ofText path contents h, Text.positionAt, Nat.add_comm 1, Nat.add_comm 1]
  congr 1
  omega

/-- Neither the line nor the column is more than one greater than the offset. -/
theorem position_le (path contents : String) {offset : Nat}
    (h : offset ≤ (Text.bytes contents).length) :
    ((ofText path contents).position offset).line ≤ offset + 1 ∧
      ((ofText path contents).position offset).column ≤ offset + 1 := by
  have hlength : ((Text.bytes contents).take offset).length = offset := by
    rw [List.length_take, Nat.min_eq_left h]
  have hline := List.count_le_length (a := Byte.newline) (l := (Text.bytes contents).take offset)
  have hcolumn := (List.takeWhile_prefix (· != Byte.newline)
    (l := ((Text.bytes contents).take offset).reverse)).length_le
  rw [List.length_reverse] at hcolumn
  rw [position_ofText path contents h]
  exact ⟨Nat.succ_le_succ (hline.trans_eq hlength), Nat.succ_le_succ (hcolumn.trans_eq hlength)⟩

/-- The line of an offset is one more than the newlines before it, and the column one more than the
distance from the start of its line.  The search finds that start in the table and does not end before
the first entry, so nothing is subtracted from less, and all numbers fit into 32 bits.  Later offsets
have later positions. -/
theorem position_exact (path contents : String)
    (hsize : (Text.bytes contents).length < 2 ^ 32 - 1) :
    let bs := Text.bytes contents
    let file := ofText path contents
    (∀ offset ≤ bs.length, ∃ start,
      1 ≤ file.linesUpTo offset ∧ file.lineStarts[file.linesUpTo offset - 1]? = some start ∧
      Text.OnLine bs start offset ∧
      file.position offset = ⟨1 + (bs.take offset).count Byte.newline, 1 + (offset - start)⟩ ∧
      (file.position offset).line < 2 ^ 32 ∧ (file.position offset).column < 2 ^ 32) ∧
    (∀ start ∈ file.lineStarts, start < 2 ^ 32) ∧
    StrictMonoOn (fun offset => (file.position offset).key) (Set.Iic bs.length) ∧
    Set.InjOn file.position (Set.Iic bs.length) := by
  have hmono := strictMonoOn_position path contents
  refine ⟨?_, ?_, hmono, fun a ha b hb heq => hmono.injOn ha hb (congrArg Position.key heq)⟩
  · intro offset h
    obtain ⟨start, hentry, hline, hposition⟩ := position_onLine path contents h
    have hlines := linesUpTo_ofText path contents h
    have hle := position_le path contents h
    exact ⟨start, by omega, hentry, hline, hposition, by omega, by omega⟩
  · intro start hstart
    have hle := le_of_mem_lineStarts hstart
    omega

/-- A text with a newline at its start, an empty line and no newline at its end. -/
theorem position_exact_emptyLine :
    (Text.bytes "\nab\n\nc").length < 2 ^ 32 - 1 ∧
      (ofText "t.h" "\nab\n\nc").position 4 = ⟨3, 1⟩ ∧
      Set.InjOn (ofText "t.h" "\nab\n\nc").position (Set.Iic 6) := by
  have hsize : (Text.bytes "\nab\n\nc").length < 2 ^ 32 - 1 := by decide +kernel
  have hexact := position_exact "t.h" "\nab\n\nc" hsize
  exact ⟨hsize, by decide +kernel, hexact.2.2.2⟩

end SourceFile

end CppDecl
