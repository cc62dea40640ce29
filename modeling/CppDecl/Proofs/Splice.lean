import CppDecl.Proofs.Text
import CppDecl.Splice

/-!
# What splicing inserts

`Splice.inserted` says what a text is to be with splices applied: each of its bytes once and in order,
and in front of it the texts of the splices whose place that is.  `Splice.apply` copies from place to
place instead.  It goes through the splices in the order of their offsets, so a place is never before
what has been copied, and the two agree for the splices in that order (`bytes_applyFrom`).

The order of the offsets is that of the places, but it is finer: splices past the end have one place
and may have different offsets.  There alone the order may be another than the one given
(`insertedAt_byOffset`).
-/

namespace CppDecl.Splice

/-- The splices that are applied: those whose place is not inside a character. -/
def landing (source : String) (splices : List Splice) : List Splice :=
  splices.filter fun s => (s.place source).IsValid source

/-- What is inserted at a byte offset: the texts of the splices there, in the order of the list. -/
def insertedAt (source : String) (splices : List Splice) (pos : Nat) : Bytes :=
  ((landing source splices).filter fun s => (s.place source).byteIdx = pos).flatMap
    fun s => Text.bytes s.text

/-- The byte at an offset, or nothing at the end, behind what is inserted there. -/
def piece (source : String) (splices : List Splice) (pos : Nat) : Bytes :=
  insertedAt source splices pos ++ (Text.bytes source)[pos]?.toList

/-- A text with all insertions, offset by offset. -/
def inserted (source : String) (splices : List Splice) : Bytes :=
  (List.range (source.utf8ByteSize + 1)).flatMap (piece source splices)

/-- A text from an offset on with all insertions. -/
def insertedFrom (source : String) (splices : List Splice) (pos : Nat) : Bytes :=
  (List.range' pos (source.utf8ByteSize + 1 - pos)).flatMap (piece source splices)

variable {source : String} {splices rest : List Splice} {s : Splice} {pos stop : Nat}

/-! ## Stretches of a text -/

theorem place_le (source : String) (s : Splice) :
    (s.place source).byteIdx ≤ source.utf8ByteSize := Nat.min_le_right ..

/-- What is copied between two positions are the bytes there. -/
theorem bytes_extract (start stop : source.Pos) : Text.bytes (source.extract start stop) =
    ((Text.bytes source).drop start.offset.byteIdx).take
      (stop.offset.byteIdx - start.offset.byteIdx) := by
  simp [Text.bytes, String.toUTF8_eq_toByteArray, ByteArray.data_extract, List.extract_eq_take_drop]

/-- The bytes of a stretch, one by one. -/
theorem flatMap_getElem? (bs : Bytes) (pos count : Nat) :
    (List.range' pos count).flatMap (fun i => bs[i]?.toList) = (bs.drop pos).take count := by
  induction count generalizing pos with
  | zero => rfl
  | succ count ih =>
    rw [List.range'_succ, List.flatMap_cons, ih]
    cases hdrop : bs.drop pos with
    | nil =>
      have hle := List.drop_eq_nil_iff.1 hdrop
      rw [List.getElem?_eq_none hle, List.drop_eq_nil_of_le (by omega), List.take_nil, List.take_nil]
      rfl
    | cons b behind =>
      have hget : bs[pos]? = some b := by
        rw [← List.head?_drop, hdrop, List.head?_cons]
      have hbehind : bs.drop (pos + 1) = behind := by
        rw [← List.tail_drop, hdrop, List.tail_cons]
      rw [hget, hbehind]
      rfl

/-! ## Insertions, splice by splice -/

theorem insertedAt_eq_nil (h : ∀ s ∈ splices, (s.place source).byteIdx ≠ pos) :
    insertedAt source splices pos = [] := by
  have hnone : (landing source splices).filter (fun s => (s.place source).byteIdx = pos) = [] := by
    rw [List.filter_eq_nil_iff]
    intro s hs
    simpa using h s (List.mem_of_mem_filter hs)
  rw [insertedAt, hnone, List.flatMap_nil]

theorem insertedAt_cons_of_not_isValid (h : ¬ (s.place source).IsValid source) :
    insertedAt source (s :: rest) = insertedAt source rest := by
  funext pos
  rw [insertedAt, landing, List.filter_cons_of_neg (by simpa using h)]
  rfl

theorem insertedAt_cons_self (h : (s.place source).IsValid source) :
    insertedAt source (s :: rest) (s.place source).byteIdx =
      Text.bytes s.text ++ insertedAt source rest (s.place source).byteIdx := by
  rw [insertedAt, landing, List.filter_cons_of_pos (by simpa using h),
    List.filter_cons_of_pos (by simp), List.flatMap_cons]
  rfl

theorem insertedAt_cons_of_ne (h : (s.place source).byteIdx ≠ pos) :
    insertedAt source (s :: rest) pos = insertedAt source rest pos := by
  by_cases hvalid : (s.place source).IsValid source
  · rw [insertedAt, landing, List.filter_cons_of_pos (by simpa using hvalid),
      List.filter_cons_of_neg (by simpa using h)]
    rfl
  · rw [insertedAt_cons_of_not_isValid hvalid]

/-- Up to the first place nothing is inserted. -/
theorem insertedFrom_eq_append (hle : pos ≤ stop) (hstop : stop ≤ source.utf8ByteSize)
    (h : ∀ s ∈ splices, stop ≤ (s.place source).byteIdx) :
    insertedFrom source splices pos =
      ((Text.bytes source).drop pos).take (stop - pos) ++ insertedFrom source splices stop := by
  have hrange : List.range' pos (source.utf8ByteSize + 1 - pos) =
      List.range' pos (stop - pos) ++ List.range' stop (source.utf8ByteSize + 1 - stop) := by
    have happend := List.range'_append_1 (s := pos) (m := stop - pos)
      (n := source.utf8ByteSize + 1 - stop)
    rw [Nat.add_sub_cancel' hle] at happend
    rw [happend]
    congr 1
    omega
  have hplain : ∀ i ∈ List.range' pos (stop - pos),
      piece source splices i = (Text.bytes source)[i]?.toList := by
    intro i hi
    have hlt := (List.mem_range'_1.1 hi).2
    rw [piece, insertedAt_eq_nil, List.nil_append]
    intro s hs
    have hplace := h s hs
    omega
  rw [insertedFrom, hrange, List.flatMap_append, List.flatMap_congr hplain, flatMap_getElem?,
    insertedFrom]

/-- A splice puts its text in front of all that the others make of the text from its place on. -/
theorem insertedFrom_cons (h : (s.place source).IsValid source) :
    insertedFrom source (s :: rest) (s.place source).byteIdx =
      Text.bytes s.text ++ insertedFrom source rest (s.place source).byteIdx := by
  have hcount : source.utf8ByteSize + 1 - (s.place source).byteIdx =
      (source.utf8ByteSize - (s.place source).byteIdx) + 1 := by
    have hle := place_le source s
    omega
  have hbehind : ∀ i ∈ List.range' ((s.place source).byteIdx + 1)
      (source.utf8ByteSize - (s.place source).byteIdx),
      piece source (s :: rest) i = piece source rest i := by
    intro i hi
    have hlt := (List.mem_range'_1.1 hi).1
    rw [piece, insertedAt_cons_of_ne (by omega), piece]
  rw [insertedFrom, hcount, List.range'_succ, List.flatMap_cons, List.flatMap_congr hbehind, piece,
    insertedAt_cons_self h, insertedFrom, hcount, List.range'_succ, List.flatMap_cons, piece]
  simp only [List.append_assoc]

/-- Splices in the order of their places insert what they are to insert. -/
theorem bytes_applyFrom (hsorted : splices.Pairwise fun s t => s.place source ≤ t.place source)
    {copied : source.Pos} (hcopied : ∀ s ∈ splices, copied.offset ≤ s.place source) :
    Text.bytes (applyFrom source copied splices) =
      insertedFrom source splices copied.offset.byteIdx := by
  induction splices generalizing copied with
  | nil =>
    have hle : copied.offset.byteIdx ≤ source.utf8ByteSize := copied.isValid.le_rawEndPos
    rw [applyFrom, bytes_extract, insertedFrom_eq_append hle (Nat.le_refl _) (by simp), insertedFrom,
      Nat.add_sub_cancel_left]
    simp [piece, insertedAt, landing, ← Text.length_bytes]
  | cons s rest ih =>
    obtain ⟨hs, hrest⟩ := List.pairwise_cons.1 hsorted
    have hnext := hcopied s List.mem_cons_self
    rw [applyFrom]
    by_cases hvalid : (s.place source).IsValid source
    · rw [dif_pos ⟨hnext, hvalid⟩, Text.bytes_append, Text.bytes_append, bytes_extract,
        ih hrest fun t ht => hs t ht, insertedFrom_eq_append hnext (place_le source s),
        insertedFrom_cons hvalid, List.append_assoc]
      · rfl
      · intro t ht
        rcases List.mem_cons.1 ht with rfl | ht
        · exact Nat.le_refl _
        · exact hs t ht
    · rw [dif_neg fun h => hvalid h.2,
        ih hrest fun t ht => hcopied t (List.mem_cons_of_mem s ht), insertedFrom, insertedFrom]
      unfold piece
      rw [insertedAt_cons_of_not_isValid hvalid]

/-! ## The order of the splices -/

theorem offset_trans (s t u : Splice) : decide (s.offset ≤ t.offset) = true →
    decide (t.offset ≤ u.offset) = true → decide (s.offset ≤ u.offset) = true := by
  simpa only [decide_eq_true_eq] using Nat.le_trans

theorem offset_total (s t : Splice) :
    (decide (s.offset ≤ t.offset) || decide (t.offset ≤ s.offset)) = true := by
  simpa using Nat.le_total s.offset t.offset

theorem pairwise_byOffset (splices : List Splice) :
    (byOffset splices).Pairwise fun s t => s.offset ≤ t.offset := by
  have hsorted : (byOffset splices).Pairwise fun s t => decide (s.offset ≤ t.offset) = true :=
    List.pairwise_mergeSort offset_trans offset_total splices
  exact hsorted.imp of_decide_eq_true

theorem pairwise_place (source : String) (splices : List Splice) :
    (byOffset splices).Pairwise fun s t => s.place source ≤ t.place source :=
  (pairwise_byOffset splices).imp fun h => min_le_min_right source.utf8ByteSize h

/-- Splices given in the order of their offsets stay in the order given. -/
theorem filter_byOffset {p : Splice → Bool}
    (h : (splices.filter p).Pairwise fun s t => s.offset ≤ t.offset) :
    (byOffset splices).filter p = splices.filter p := by
  have hsublist : (splices.filter p).Sublist (byOffset splices) :=
    List.sublist_mergeSort offset_trans offset_total (h.imp decide_eq_true) List.filter_sublist
  have hfilter := hsublist.filter p
  simp only [List.filter_filter, Bool.and_self] at hfilter
  have hlength := ((List.mergeSort_perm splices fun s t => s.offset ≤ t.offset).filter p).length_eq
  exact (hfilter.eq_of_length hlength.symm).symm

/-- So what is inserted at an offset comes in the order given if the splices there are in the order of
their offsets. -/
theorem insertedAt_byOffset
    (h : (splices.filter fun s => (s.place source).byteIdx = pos).Pairwise
      fun s t => s.offset ≤ t.offset) :
    insertedAt source (byOffset splices) pos = insertedAt source splices pos := by
  unfold insertedAt landing
  rw [List.filter_comm, filter_byOffset h, List.filter_comm]

/-- In front of the end, the splices at one place have one offset. -/
theorem insertedAt_byOffset_of_lt (h : pos < source.utf8ByteSize) :
    insertedAt source (byOffset splices) pos = insertedAt source splices pos := by
  apply insertedAt_byOffset
  rw [List.pairwise_filter]
  refine List.pairwise_of_forall fun s t hs ht => ?_
  have hs : min s.offset source.utf8ByteSize = pos := of_decide_eq_true hs
  have ht : min t.offset source.utf8ByteSize = pos := of_decide_eq_true ht
  omega

/-- A text with all insertions is what is in front of the end, and the insertions at the end. -/
theorem inserted_eq_append (source : String) (splices : List Splice) :
    inserted source splices =
      (List.range source.utf8ByteSize).flatMap (piece source splices) ++
        insertedAt source splices source.utf8ByteSize := by
  have hend : (Text.bytes source)[source.utf8ByteSize]? = none := by
    rw [← Text.length_bytes, List.getElem?_length]
  rw [inserted, List.range_succ, List.flatMap_append, List.flatMap_singleton, piece, hend,
    Option.toList_none, List.append_nil]

/-! ## The result -/

theorem bytes_apply (source : String) (splices : List Splice) :
    Text.bytes (apply source splices) = inserted source (byOffset splices) := by
  rw [apply, bytes_applyFrom (pairwise_place source splices) fun _ _ => Nat.zero_le _, insertedFrom,
    inserted, List.range_eq_range']
  rfl

theorem bytes_apply_eq_inserted_iff (source : String) (splices : List Splice) :
    Text.bytes (apply source splices) = inserted source splices ↔
      insertedAt source (byOffset splices) source.utf8ByteSize =
        insertedAt source splices source.utf8ByteSize := by
  have hfront : (List.range source.utf8ByteSize).flatMap (piece source (byOffset splices)) =
      (List.range source.utf8ByteSize).flatMap (piece source splices) := by
    apply List.flatMap_congr
    intro pos hpos
    rw [piece, insertedAt_byOffset_of_lt (List.mem_range.1 hpos), piece]
  rw [bytes_apply, inserted_eq_append, inserted_eq_append, hfront, List.append_cancel_left_eq]

/-- The splices at or past the end of a text. -/
def atEnd (source : String) (splices : List Splice) : List Splice :=
  splices.filter fun s => source.utf8ByteSize ≤ s.offset

theorem filter_place_end (source : String) (splices : List Splice) :
    splices.filter (fun s => (s.place source).byteIdx = source.utf8ByteSize) = atEnd source splices := by
  refine List.filter_congr fun s _ => ?_
  simp [place]

/-- Splicing inserts, and only inserts: the result is the text with the splices inserted in the order
of their offsets.  At an offset in front of the end that is the order given.  So all is inserted in the
order given if and only if the texts at the end come out in that order, as they do if the splices at or
past the end are given in the order of their offsets. -/
theorem apply_inserts (source : String) (splices : List Splice) :
    Text.bytes (apply source splices) = inserted source (byOffset splices) ∧
      (∀ pos < source.utf8ByteSize,
        insertedAt source (byOffset splices) pos = insertedAt source splices pos) ∧
      (Text.bytes (apply source splices) = inserted source splices ↔
        insertedAt source (byOffset splices) source.utf8ByteSize =
          insertedAt source splices source.utf8ByteSize) ∧
      ((atEnd source splices).Pairwise (fun s t => s.offset ≤ t.offset) →
        Text.bytes (apply source splices) = inserted source splices) := by
  have hiff := bytes_apply_eq_inserted_iff source splices
  refine ⟨bytes_apply source splices, fun _ => insertedAt_byOffset_of_lt, hiff, fun h => ?_⟩
  exact hiff.2 (insertedAt_byOffset (filter_place_end source splices ▸ h))

/-- Two splices at one offset, one inside a character, and two at and past the end. -/
theorem apply_inserts_aroundCharacter :
    (atEnd "aéb" [⟨4, "!"⟩, ⟨2, "x"⟩, ⟨1, "<"⟩, ⟨1, ">"⟩, ⟨9, "?"⟩]).Pairwise
        (fun s t => s.offset ≤ t.offset) ∧
      Text.bytes (apply "aéb" [⟨4, "!"⟩, ⟨2, "x"⟩, ⟨1, "<"⟩, ⟨1, ">"⟩, ⟨9, "?"⟩]) =
        inserted "aéb" [⟨4, "!"⟩, ⟨2, "x"⟩, ⟨1, "<"⟩, ⟨1, ">"⟩, ⟨9, "?"⟩] ∧
      apply "aéb" [⟨4, "!"⟩, ⟨2, "x"⟩, ⟨1, "<"⟩, ⟨1, ">"⟩, ⟨9, "?"⟩] = "a<>éb!?" := by
  have hordered : (atEnd "aéb" [⟨4, "!"⟩, ⟨2, "x"⟩, ⟨1, "<"⟩, ⟨1, ">"⟩, ⟨9, "?"⟩]).Pairwise
      (fun s t => s.offset ≤ t.offset) := by decide +kernel
  exact ⟨hordered, (apply_inserts _ _).2.2.2 hordered, by cbv⟩

/-- Two splices past the end are inserted in the order of their offsets and not as they are given. -/
theorem apply_reorders_pastEnd :
    apply "x" [⟨3, "b"⟩, ⟨2, "a"⟩] = "xab" ∧
      inserted "x" [⟨3, "b"⟩, ⟨2, "a"⟩] = Text.bytes "xba" ∧
      Text.bytes (apply "x" [⟨3, "b"⟩, ⟨2, "a"⟩]) ≠ inserted "x" [⟨3, "b"⟩, ⟨2, "a"⟩] := by
  have hresult : apply "x" [⟨3, "b"⟩, ⟨2, "a"⟩] = "xab" := by cbv
  have hinserted : inserted "x" [⟨3, "b"⟩, ⟨2, "a"⟩] = Text.bytes "xba" := by decide +kernel
  refine ⟨hresult, hinserted, ?_⟩
  rw [hresult, hinserted]
  decide +kernel

end CppDecl.Splice
