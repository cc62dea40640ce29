import CppDecl.Proofs.LastByte

/-!
# What stands behind a space

A lexeme that ends before a space does not depend on what stands behind the space
(`Lexeme.told_scanFrom`).  How many bytes were looked at may differ, since a raw literal looks for its end
in all of the text, so that count is left out (`Scan.told`).

The same goes for the arguments of a macro.  If they end before the space, they are found there whatever
follows it (`Arguments.read_before`).  If no parenthesis is found up to the space, and none follows
on it, then there are no arguments (`Arguments.read_missing`).
-/

namespace CppDecl

open Byte

/-- What a scan says of its lexeme, without how many bytes were looked at. -/
def Scan.told (scan : Scan) : Scan := { scan with seen := 0 }

open Text (Run)

namespace Lexeme

variable {p : UInt8 → Bool} {xs ys v : Bytes} {b mark : UInt8} {n lead : Nat} {lineStart : Bool}

/-! ## Stretches -/

/-- A space ends a stretch of bytes that are no spaces. -/
theorem takeWhile_space (hp : p space = false) (xs v : Bytes) :
    (xs ++ space :: v).takeWhile p = xs.takeWhile p := by
  rw [List.takeWhile_append, List.takeWhile_cons_of_neg (by simp [hp]), List.append_nil]
  split
  next hall => exact (List.takeWhile_prefix p).eq_of_length hall |>.symm
  next => rfl

/-- A stretch that ends before the end of the text ends there whatever comes behind. -/
theorem takeWhile_before (hlt : ((xs ++ ys).takeWhile p).length < xs.length) :
    ∀ zs, (xs ++ zs).takeWhile p = xs.takeWhile p := by
  have hstops : ¬ (xs.takeWhile p).length = xs.length := by
    intro hall
    rw [List.takeWhile_append, if_pos hall, List.length_append] at hlt
    omega
  intro zs
  rw [List.takeWhile_append, if_neg hstops]

/-- What ends with a mark ends there whatever comes behind. -/
theorem some_before {f : Bytes → Option Nat}
    (hprinted : ∀ {xs ys zs : Bytes}, f (xs ++ ys) = some xs.length → f (xs ++ zs) = some xs.length)
    (h : f (xs ++ ys) = some n) (hle : n ≤ xs.length) (zs : Bytes) : f (xs ++ zs) = some n := by
  have htake : (xs.take n).length = n := by rw [List.length_take, Nat.min_eq_left hle]
  have hsplit : ∀ bs, xs ++ bs = xs.take n ++ (xs.drop n ++ bs) := by
    intro bs
    rw [← List.append_assoc, List.take_append_drop]
  have hmark : f (xs.take n ++ (xs.drop n ++ ys)) = some (xs.take n).length := by rw [← hsplit, h, htake]
  rw [hsplit, hprinted hmark, htake]

theorem line_before (h : (line (xs ++ ys)).1 ≤ xs.length) (hys : ys ≠ []) (zs : Bytes) :
    (line (xs ++ zs)).1 = (line (xs ++ ys)).1 := by
  induction xs with
  | nil =>
    obtain ⟨y, ys, rfl⟩ := List.exists_cons_of_ne_nil hys
    exact absurd h (Nat.not_le.2 (pos_line y ys))
  | cons x xs ih =>
    simp only [List.cons_append, line] at h ⊢
    split
    next => rfl
    next hx =>
      rw [if_neg hx] at h
      exact congrArg (· + 1) (ih (Nat.le_of_succ_le_succ h))

theorem definitionLine_before {escaped : Bool} (h : (definitionLine escaped (xs ++ ys)).1 ≤ xs.length)
    (hys : ys ≠ []) (zs : Bytes) :
    (definitionLine escaped (xs ++ zs)).1 = (definitionLine escaped (xs ++ ys)).1 := by
  induction xs generalizing escaped with
  | nil =>
    obtain ⟨y, ys, rfl⟩ := List.exists_cons_of_ne_nil hys
    exact absurd h (Nat.not_le.2 (pos_definitionLine escaped y ys))
  | cons x xs ih =>
    simp only [List.cons_append, definitionLine] at h ⊢
    split
    next => rfl
    next hx =>
      rw [if_neg hx] at h
      exact congrArg (· + 1) (ih (Nat.le_of_succ_le_succ h))

/-! ## Classes of lexemes -/

theorem told_blanks (hle : (blanks lineStart (b :: (xs ++ space :: ys))).len ≤ xs.length + 1) (v : Bytes) :
    (blanks lineStart (b :: (xs ++ space :: v))).told =
      (blanks lineStart (b :: (xs ++ space :: ys))).told := by
  have hlt : ((b :: xs ++ space :: ys).takeWhile isBlank).length < (b :: xs).length := by
    refine Nat.lt_of_le_of_ne hle fun hall => ?_
    rw [List.takeWhile_append] at hall
    split at hall
    · rw [List.takeWhile_cons_of_pos (by decide : isBlank space = true)] at hall
      simp at hall
    next hstops => exact hstops hall
  have hrun : ∀ zs, (b :: (xs ++ zs)).takeWhile isBlank = (b :: xs).takeWhile isBlank :=
    takeWhile_before hlt
  simp only [blanks, hrun]

theorem told_blockComment (hle : (blockComment (xs ++ ys)).len ≤ 2 + xs.length) (hys : ys ≠ [])
    (zs : Bytes) : (blockComment (xs ++ zs)).told = (blockComment (xs ++ ys)).told := by
  have hpos := List.length_pos_iff.2 hys
  unfold blockComment at hle ⊢
  cases hend : commentEnd? (xs ++ ys) with
  | none =>
    rw [hend] at hle
    simp only [List.length_append] at hle
    omega
  | some n =>
    rw [hend] at hle
    rw [some_before commentEnd?_printed hend (by simp only at hle; omega) zs]

theorem told_lineComment (hle : (lineComment (xs ++ ys)).len ≤ 2 + xs.length) (hys : ys ≠ [])
    (zs : Bytes) : (lineComment (xs ++ zs)).told = (lineComment (xs ++ ys)).told := by
  have hlength : (line (xs ++ ys)).1 ≤ xs.length := by
    simp only [lineComment] at hle
    omega
  have hline := line_before hlength hys zs
  simp only [lineComment, Scan.told, hline]

theorem told_literal {faults : List Fault}
    (hle : (literal 0 mark lead faults (xs ++ ys)).len ≤ lead + 1 + xs.length)
    (hys : ys ≠ []) (zs : Bytes) :
    (literal 0 mark lead faults (xs ++ zs)).told = (literal 0 mark lead faults (xs ++ ys)).told := by
  unfold literal at hle ⊢
  cases hend : literalEnd? mark (xs ++ ys) with
  | none =>
    rw [hend] at hle
    exact absurd (by simpa [unclosed] using hle) hys
  | some n =>
    rw [hend] at hle
    rw [some_before literalEnd?_printed hend (by simp only at hle; omega) zs]

theorem told_rawLiteral (hle : (rawLiteral lead (xs ++ space :: ys)).len ≤ lead + 1 + xs.length) (v : Bytes) :
    (rawLiteral lead (xs ++ space :: v)).told = (rawLiteral lead (xs ++ space :: ys)).told := by
  have hdelimiter := takeWhile_space (p := isDelimiterByte) (by decide) xs
  have hdrop : ∀ v, (xs ++ space :: v).drop (xs.takeWhile isDelimiterByte).length =
      xs.drop (xs.takeWhile isDelimiterByte).length ++ space :: v := fun v =>
    List.drop_append_of_le_length (List.takeWhile_prefix isDelimiterByte).length_le
  have hlength := (Run.takeWhile isDelimiterByte xs).le
  unfold rawLiteral at hle ⊢
  simp only [hdelimiter, hdrop] at hle ⊢
  cases hrest : xs.drop (xs.takeWhile isDelimiterByte).length with
  | nil => simp only [List.nil_append, if_neg (by decide : space ≠ openParen)]
  | cons c rest =>
    have hxs := congrArg List.length hrest
    rw [List.length_drop, List.length_cons] at hxs
    simp only [hrest, List.cons_append] at hle ⊢
    by_cases hc : c = openParen
    · simp only [if_pos hc] at hle ⊢
      cases hend : terminatorEnd? (closeParen :: (xs.takeWhile isDelimiterByte ++ [quote]))
          (rest ++ space :: ys) with
      | none =>
        simp only [hend, List.length_append, List.length_cons] at hle
        omega
      | some n =>
        simp only [hend] at hle
        rw [some_before (terminatorEnd?_printed (by simp)) hend (by omega) (space :: v)]
        rfl
    · simp only [if_neg hc]

theorem told_word (hle : (word 0 (xs ++ space :: ys)).len ≤ xs.length) (v : Bytes) :
    (word 0 (xs ++ space :: v)).told = (word 0 (xs ++ space :: ys)).told := by
  have hlead := takeWhile_space (p := isIdentifierByte) (by decide) xs
  have hdrop : ∀ v, (xs ++ space :: v).drop (xs.takeWhile isIdentifierByte).length =
      xs.drop (xs.takeWhile isIdentifierByte).length ++ space :: v := fun v =>
    List.drop_append_of_le_length (List.takeWhile_prefix isIdentifierByte).length_le
  unfold word at hle ⊢
  simp only [hlead, hdrop] at hle ⊢
  cases hrest : xs.drop (xs.takeWhile isIdentifierByte).length with
  | nil => rfl
  | cons mark rest =>
    have hxs := congrArg List.length hrest
    rw [List.length_drop, List.length_cons] at hxs
    simp only [hrest, List.cons_append] at hle ⊢
    split
    next hraw =>
      rw [if_pos hraw] at hle
      exact told_rawLiteral (by omega) v
    next hraw =>
      rw [if_neg hraw] at hle
      split
      next hmark =>
        rw [if_pos hmark] at hle
        exact told_literal (by omega) (List.cons_ne_nil _ _) _
      next => rfl

theorem told_number (hle : (number (xs ++ space :: ys)).len ≤ xs.length) (v : Bytes) :
    (number (xs ++ space :: v)).told = (number (xs ++ space :: ys)).told := by
  have hlen := (settled_numberCore.add settled_typeMarks) xs (space :: ys) (space :: v) hle (by simp)
  simp only [number, Scan.told, Scan.mk.injEq, and_true, true_and]
  exact hlen

/-- A punctuator ends before a space. -/
theorem punctuator?_space (closeAnglesOnly : Bool) (xs v : Bytes) :
    punctuator? closeAnglesOnly (xs ++ space :: v) = punctuator? closeAnglesOnly xs := by
  refine List.find?_congr fun kind hkind => ?_
  have hspace := (punctuators_apart kind (List.mem_filter.1 hkind).1).1
  rw [Bool.eq_iff_iff, List.isPrefixOf_iff_prefix, List.isPrefixOf_iff_prefix]
  refine ⟨fun hprefix => ?_, fun hprefix => hprefix.trans (List.prefix_append _ _)⟩
  by_cases hle : (spellingBytes kind).length ≤ xs.length
  · exact List.prefix_of_prefix_length_le hprefix (List.prefix_append _ _) hle
  · have hlonger : xs ++ [space] <+: spellingBytes kind := by
      refine List.prefix_of_prefix_length_le (?_ : _ <+: xs ++ space :: v) hprefix ?_
      · exact ⟨v, by rw [List.append_assoc, List.singleton_append]⟩
      · rw [List.length_append, List.length_singleton]
        omega
    exact absurd (hlonger.subset (List.mem_append_right _ (List.mem_singleton_self _))) hspace

/-! ## Directives -/

theorem told_namedDirective {name : String} {start : Nat}
    (hle : (namedDirective name start (xs ++ ys)).len ≤ start + name.utf8ByteSize + xs.length)
    (hys : ys ≠ []) (zs : Bytes) :
    (namedDirective name start (xs ++ zs)).told = (namedDirective name start (xs ++ ys)).told := by
  have hline : ∀ {n}, n + (line (xs ++ ys)).1 ≤ n + xs.length → (line (xs ++ zs)).1 = (line (xs ++ ys)).1 :=
    fun h => line_before (Nat.le_of_add_le_add_left h) hys zs
  unfold namedDirective at hle ⊢
  simp only at hle ⊢
  by_cases hinclude : name = "include"
  · simp only [if_pos hinclude] at hle ⊢
    simp only [Scan.told, hline hle]
  by_cases hundef : name = "undef"
  · simp only [if_neg hinclude, if_pos hundef] at hle ⊢
    simp only [Scan.told, hline hle]
  by_cases hdefine : name = "define"
  · simp only [if_neg hinclude, if_neg hundef, if_pos hdefine] at hle ⊢
    simp only [Scan.told, definitionLine_before (Nat.le_of_add_le_add_left hle) hys zs]
  simp only [if_neg hinclude, if_neg hundef, if_neg hdefine] at hle ⊢
  by_cases hignored : ignoredDirectives.contains name = true
  · simp only [if_pos hignored] at hle ⊢
    simp only [Scan.told, hline hle]
  · simp only [if_neg hignored] at hle ⊢
    simp only [Scan.told, hline hle]

theorem le_namedDirective (name : String) (start : Nat) (bs : Bytes) :
    start ≤ (namedDirective name start bs).len := by
  unfold namedDirective
  simp only
  repeat' split
  all_goals simp only; omega

theorem told_directive (hle : (directive (xs ++ space :: ys)).len ≤ xs.length + 1) (v : Bytes) :
    (directive (xs ++ space :: v)).told = (directive (xs ++ space :: ys)).told := by
  have hempty : ∀ v, ((xs ++ space :: v).takeWhile isBlank).contains newline = true →
      directive (xs ++ space :: v) =
        { kind? := some .directive, len := 1 + (line (xs ++ space :: v)).1, lineStart := true } := by
    intro v hnewline
    rw [directive, if_pos hnewline]
  have hline : 1 + (line (xs ++ space :: ys)).1 ≤ xs.length + 1 →
      (line (xs ++ space :: v)).1 = (line (xs ++ space :: ys)).1 := fun h =>
    line_before (by omega) (List.cons_ne_nil _ _) _
  by_cases hall : (xs.takeWhile isBlank).length = xs.length
  · -- there is no name in front of the space, so the line ends there
    have hgap : ∀ v, (xs ++ space :: v).takeWhile isBlank = xs ++ (space :: v).takeWhile isBlank := by
      intro v
      rw [List.takeWhile_append, if_pos hall]
    have hnewline : ((xs ++ space :: ys).takeWhile isBlank).contains newline = true := by
      by_contra hnone
      rw [directive, if_neg hnone] at hle
      have hstart := Nat.le_trans (le_namedDirective _ _ _) hle
      rw [hgap, List.takeWhile_cons_of_pos (by decide : isBlank space = true), List.length_append,
        List.length_cons] at hstart
      omega
    rw [hempty ys hnewline] at hle ⊢
    have hmem : newline ∈ xs := by
      rcases line_endsWith (xs ++ space :: ys) with hlength | ⟨m, hm, hat⟩
      · simp only [hlength, List.length_append, List.length_cons] at hle
        omega
      · simp only [hm] at hle
        rw [List.getElem?_append_left (by omega)] at hat
        exact List.mem_of_getElem? hat
    have hnewline' : ((xs ++ space :: v).takeWhile isBlank).contains newline = true := by
      rw [hgap, List.contains_iff_mem]
      exact List.mem_append_left _ hmem
    rw [hempty v hnewline']
    simp only [hline hle]
  · have hgap : ∀ v, (xs ++ space :: v).takeWhile isBlank = xs.takeWhile isBlank := by
      intro v
      rw [List.takeWhile_append, if_neg hall]
    by_cases hnewline : (xs.takeWhile isBlank).contains newline = true
    · rw [hempty ys (by rwa [hgap])] at hle ⊢
      rw [hempty v (by rwa [hgap])]
      simp only [hline hle]
    · have hdrop : ∀ v, (xs ++ space :: v).drop (xs.takeWhile isBlank).length =
          xs.drop (xs.takeWhile isBlank).length ++ space :: v := fun v =>
        List.drop_append_of_le_length (List.takeWhile_prefix isBlank).length_le
      have hlength := (Run.takeWhile isBlank xs).le
      unfold directive at hle ⊢
      simp only [hgap, if_neg hnewline, hdrop] at hle ⊢
      generalize hinner : xs.drop (xs.takeWhile isBlank).length = inner at hle ⊢
      have hinnerLength : inner.length = xs.length - (xs.takeWhile isBlank).length := by
        rw [← hinner, List.length_drop]
      have hname := takeWhile_space (p := isWordByte) (by decide) inner
      have hbehind : ∀ v, (inner ++ space :: v).drop (inner.takeWhile isWordByte).length =
          inner.drop (inner.takeWhile isWordByte).length ++ space :: v := fun v =>
        List.drop_append_of_le_length (List.takeWhile_prefix isWordByte).length_le
      have hnameLength := (Run.takeWhile isWordByte inner).le
      simp only [hname, hbehind] at hle ⊢
      refine told_namedDirective ?_ (List.cons_ne_nil _ _) _
      rw [utf8ByteSize_word, List.length_drop, hinnerLength]
      omega

/-! ## Any lexeme -/

theorem head?_space (xs v : Bytes) : (xs ++ space :: v).head? = some (xs.headD space) := by
  cases xs <;> rfl

/-- A lexeme that ends before a space is the same whatever stands behind the space. -/
theorem told_scanFrom {closeAnglesOnly : Bool}
    (hle : (scanFrom closeAnglesOnly lineStart 0 b (xs ++ space :: ys)).len ≤ xs.length + 1) (v : Bytes) :
    (scanFrom closeAnglesOnly lineStart 0 b (xs ++ space :: v)).told =
      (scanFrom closeAnglesOnly lineStart 0 b (xs ++ space :: ys)).told := by
  -- the second byte of a comment stands before the space
  have hmark : ∀ {c : UInt8}, c ≠ space → some (xs.headD space) = some c → ∃ rest, xs = c :: rest := by
    intro c hc hhead
    cases xs with
    | nil => exact absurd (Option.some.inj hhead) (Ne.symm hc)
    | cons x rest => exact ⟨rest, by rw [← Option.some.inj hhead]; rfl⟩
  unfold scanFrom at hle ⊢
  simp only [head?_space] at hle ⊢
  by_cases hb : isBlank b = true
  · rw [if_pos hb] at hle ⊢
    rw [if_pos hb]
    exact told_blanks hle v
  rw [if_neg hb] at hle ⊢
  rw [if_neg hb]
  by_cases hhash : b = hash
  · rw [if_pos hhash] at hle ⊢
    rw [if_pos hhash]
    cases lineStart with
    | true => exact told_directive hle v
    | false => rfl
  rw [if_neg hhash] at hle ⊢
  rw [if_neg hhash]
  by_cases hline : b = slash && some (xs.headD space) = some slash
  · rw [if_pos hline] at hle ⊢
    rw [if_pos hline]
    simp only [Bool.and_eq_true, decide_eq_true_eq] at hline
    obtain ⟨rest, rfl⟩ := hmark (by decide) hline.2
    rw [List.cons_append, List.tail_cons, List.length_cons] at hle
    exact told_lineComment (by omega) (List.cons_ne_nil _ _) _
  rw [if_neg hline] at hle ⊢
  rw [if_neg hline]
  by_cases hblock : b = slash && some (xs.headD space) = some Byte.star
  · rw [if_pos hblock] at hle ⊢
    rw [if_pos hblock]
    simp only [Bool.and_eq_true, decide_eq_true_eq] at hblock
    obtain ⟨rest, rfl⟩ := hmark (by decide) hblock.2
    rw [List.cons_append, List.tail_cons, List.length_cons] at hle
    exact told_blockComment (by omega) (List.cons_ne_nil _ _) _
  rw [if_neg hblock] at hle ⊢
  rw [if_neg hblock]
  by_cases hquote : b = quote || b = apostrophe
  · rw [if_pos hquote] at hle ⊢
    rw [if_pos hquote]
    exact told_literal (by omega) (List.cons_ne_nil _ _) _
  rw [if_neg hquote] at hle ⊢
  rw [if_neg hquote]
  simp only [← List.cons_append, punctuator?_space] at hle ⊢
  cases hpunctuator : punctuator? closeAnglesOnly (b :: xs) with
  | some kind => rfl
  | none =>
    rw [hpunctuator] at hle
    simp only at hle ⊢
    by_cases hdigit : isDigit b = true
    · rw [if_pos hdigit] at hle ⊢
      rw [if_pos hdigit]
      exact told_number hle v
    rw [if_neg hdigit] at hle ⊢
    rw [if_neg hdigit]
    by_cases hword : isIdentifierByte b = true
    · rw [if_pos hword] at hle ⊢
      rw [if_pos hword]
      exact told_word hle v
    · rw [if_neg hword, if_neg hword]

end Lexeme

namespace Arguments

variable {xs ys arg : Bytes} {b : UInt8} {opened offset start depth stop : Nat} {found : List (Nat × Bytes)}

/-- A piece that ends before a space is the same whatever stands behind the space. -/
theorem piece_before (hplain : ∀ n, piece 0 b (xs ++ space :: ys) = .plain n → n ≤ xs.length + 1)
    (hcut : ∀ cause len seen, piece 0 b (xs ++ space :: ys) ≠ .cut cause len seen) (v : Bytes) :
    piece 0 b (xs ++ space :: v) = piece 0 b (xs ++ space :: ys) := by
  unfold piece at hplain hcut ⊢
  by_cases hslash : b = slash
  · simp only [if_pos hslash] at hplain hcut ⊢
    cases xs with
    | nil => rfl
    | cons c rest =>
      simp only [List.cons_append, List.length_cons] at hplain hcut ⊢
      by_cases hline : c = slash
      · simp only [if_pos hline] at hplain ⊢
        have hle := hplain _ rfl
        have hlength : (Lexeme.line (rest ++ space :: ys)).1 ≤ rest.length := by omega
        rw [Lexeme.line_before hlength (List.cons_ne_nil _ _)]
      by_cases hblock : c = Byte.star
      · simp only [if_neg hline, if_pos hblock] at hplain hcut ⊢
        cases hend : Lexeme.commentEnd? (rest ++ space :: ys) with
        | none =>
          rw [hend] at hcut
          exact absurd rfl (hcut _ _ _)
        | some n =>
          rw [hend] at hplain
          have hle := hplain _ rfl
          rw [Lexeme.some_before Lexeme.commentEnd?_printed hend (by omega)]
      · simp only [if_neg hline, if_neg hblock]
  by_cases hquote : b = quote || b = apostrophe
  · simp only [if_neg hslash, if_pos hquote] at hplain hcut ⊢
    cases hend : Lexeme.literalEnd? b (xs ++ space :: ys) with
    | none =>
      rw [hend] at hcut
      exact absurd rfl (hcut _ _ _)
    | some n =>
      rw [hend] at hplain
      have hle := hplain _ rfl
      rw [Lexeme.some_before Lexeme.literalEnd?_printed hend (by omega)]
  · simp only [if_neg hslash, if_neg hquote]

theorem lt_readFrom {bs : Bytes} (h : readFrom 0 opened offset start depth arg bs = .found found stop) :
    offset < stop := by
  have htext : (List.replicate offset 0 ++ bs).drop offset = bs := by simp
  exact (readFrom_endsWith htext h).1

/-- Arguments that end before a space are the same whatever stands behind the space. -/
theorem readFrom_before
    (h : readFrom 0 opened offset start depth arg (xs ++ space :: ys) = .found found stop)
    (hle : stop ≤ offset + xs.length) (v : Bytes) :
    readFrom 0 opened offset start depth arg (xs ++ space :: v) = .found found stop := by
  induction hlength : xs.length using Nat.strongRecOn generalizing xs offset start depth arg found with
  | ind length ih =>
    cases xs with
    | nil => exact absurd (lt_readFrom h) (Nat.not_lt.2 hle)
    | cons b xs =>
      -- what follows the piece is read in the same way
      have hmore : ∀ {offset' start' depth' : Nat} {arg' : Bytes} {found' : List (Nat × Bytes)},
          readFrom 0 opened offset' start' depth' arg' (xs ++ space :: ys) = .found found' stop →
          offset' = offset + 1 →
          readFrom 0 opened offset' start' depth' arg' (xs ++ space :: v) = .found found' stop := by
        rintro _ start' depth' arg' found' hfound rfl
        refine ih xs.length ?_ hfound ?_ rfl
        · rw [← hlength]
          exact Nat.lt_succ_self _
        · rw [List.length_cons] at hle
          omega
      have hmark : ∀ {piece' : Piece}, piece 0 b (xs ++ space :: ys) = piece' →
          (∀ n, piece' ≠ .plain n) → (∀ cause len seen, piece' ≠ .cut cause len seen) →
          piece 0 b (xs ++ space :: v) = piece' := by
        rintro _ rfl hplain hcut
        exact piece_before (fun n hn => absurd hn (hplain n)) hcut v
      rw [List.cons_append, readFrom.eq_def] at h ⊢
      simp only at h ⊢
      cases hpiece : piece 0 b (xs ++ space :: ys) with
      | cut cause len seen =>
        rw [hpiece] at h
        cases h
      | plain n =>
        rw [hpiece] at h
        have hlt := lt_readFrom h
        rw [List.length_cons] at hle hlength
        have hn : n - 1 ≤ xs.length := by omega
        have hpiece' : piece 0 b (xs ++ space :: v) = .plain n := by
          rw [← hpiece]
          refine piece_before (fun m hm => ?_) (by simp [hpiece]) v
          rw [hpiece] at hm
          cases hm
          omega
        rw [hpiece']
        simp only [List.take_append_of_le_length hn, List.drop_append_of_le_length hn] at h ⊢
        exact ih _ (by rw [List.length_drop]; omega) h (by rw [List.length_drop]; omega) rfl
      | opening =>
        rw [hpiece] at h
        rw [hmark hpiece (by simp) (by simp)]
        exact hmore h rfl
      | closing =>
        rw [hpiece] at h
        rw [hmark hpiece (by simp) (by simp)]
        simp only at h ⊢
        by_cases hlevel : level depth ≤ 0
        · rw [if_pos hlevel] at h ⊢
          exact h
        · rw [if_neg hlevel] at h ⊢
          exact hmore h rfl
      | separator =>
        rw [hpiece] at h
        rw [hmark hpiece (by simp) (by simp)]
        simp only at h ⊢
        by_cases hlevel : level depth = 0
        · rw [if_pos hlevel] at h ⊢
          cases hrest : readFrom 0 opened (offset + 1) (offset + 1) 0 [] (xs ++ space :: ys) with
          | found found' stop' =>
            rw [hrest] at h
            cases h
            rw [hmore hrest rfl]
          | missing | unfinished =>
            rw [hrest] at h
            cases h
        · rw [if_neg hlevel] at h ⊢
          exact hmore h rfl

/-- Blanks before a parenthesis go up to the space and beyond, or end before it. -/
theorem gap_cases (xs : Bytes) :
    (∀ v, ((xs ++ space :: v).takeWhile isBlank).length = xs.length + 1 + (v.takeWhile isBlank).length ∧
      (xs ++ space :: v).drop ((xs ++ space :: v).takeWhile isBlank).length = v.dropWhile isBlank) ∨
    ∃ c rest, xs.length = (xs.takeWhile isBlank).length + 1 + rest.length ∧
      ∀ v, (xs ++ v).takeWhile isBlank = xs.takeWhile isBlank ∧
        (xs ++ v).drop (xs.takeWhile isBlank).length = c :: (rest ++ v) := by
  by_cases hall : (xs.takeWhile isBlank).length = xs.length
  · refine .inl fun v => ?_
    have hxs : xs.takeWhile isBlank = xs := (List.takeWhile_prefix isBlank).eq_of_length hall
    have hrun : (xs ++ space :: v).takeWhile isBlank = xs ++ space :: v.takeWhile isBlank := by
      rw [List.takeWhile_append, if_pos hall, List.takeWhile_cons_of_pos (by decide)]
    refine ⟨by rw [hrun, List.length_append, List.length_cons]; omega, ?_⟩
    rw [Lexeme.drop_length_takeWhile, List.dropWhile_append_of_pos (List.takeWhile_eq_self_iff.1 hxs),
      List.dropWhile_cons_of_pos (by decide)]
  · right
    have hle := (Run.takeWhile isBlank xs).le
    obtain ⟨c, rest, hrest⟩ := List.exists_cons_of_length_pos
      (l := xs.drop (xs.takeWhile isBlank).length) (by rw [List.length_drop]; omega)
    have hlength := congrArg List.length hrest
    rw [List.length_drop, List.length_cons] at hlength
    refine ⟨c, rest, by omega, fun v => ⟨by rw [List.takeWhile_append, if_neg hall], ?_⟩⟩
    rw [List.drop_append_of_le_length hle, hrest, List.cons_append]

/-- Arguments that are found before a space are found there whatever stands behind the space. -/
theorem read_before (h : read 0 (xs ++ space :: ys) = .found found stop) (hle : stop ≤ xs.length)
    (v : Bytes) : read 0 (xs ++ space :: v) = .found found stop := by
  unfold read at h ⊢
  simp only at h ⊢
  rcases gap_cases xs with hblank | ⟨c, rest, hlength, hgap⟩
  · -- the parenthesis would stand behind the space
    obtain ⟨hgap, hdrop⟩ := hblank ys
    rw [hgap, ← hgap, hdrop] at h
    split at h
    · cases h
    · split at h
      · have hlt := lt_readFrom h
        omega
      · cases h
  · obtain ⟨hrun, hdrop⟩ := hgap (space :: ys)
    obtain ⟨hrun', hdrop'⟩ := hgap (space :: v)
    rw [hrun, hdrop] at h
    rw [hrun', hdrop']
    simp only at h ⊢
    by_cases hc : c = openParen
    · rw [if_pos hc] at h ⊢
      exact readFrom_before h (by omega) v
    · rw [if_neg hc] at h
      cases h

/-- Where no parenthesis is found, there is none if what stands behind a space is replaced by something
that does not start with one. -/
theorem read_missing {looked : Nat} (h : read 0 (xs ++ space :: ys) = .missing looked) {v : Bytes}
    (hv : (v.dropWhile isBlank).head? ≠ some openParen) :
    ∃ looked', read 0 (xs ++ space :: v) = .missing looked' := by
  have hreadFrom : ∀ {opened offset start depth looked : Nat} {arg bs : Bytes},
      readFrom 0 opened offset start depth arg bs ≠ .missing looked := by
    intro opened offset start depth looked arg bs
    fun_induction readFrom 0 opened offset start depth arg bs with
    | case1 | case2 | case5 | case7 => simp
    | case3 _ _ _ _ _ _ _ _ ih | case4 _ _ _ _ _ _ _ ih | case6 _ _ _ _ _ _ _ _ ih | case9 _ _ _ _ _ _ _ _ ih =>
      exact ih
    | case8 _ _ _ _ _ _ _ _ _ ih => exact ih
  unfold read at h ⊢
  simp only at h ⊢
  rcases gap_cases xs with hblank | ⟨c, rest, -, hgap⟩
  · rw [(hblank v).2]
    split
    · exact ⟨_, rfl⟩
    next hrest =>
      rw [if_neg (by rintro rfl; exact hv (by rw [hrest]; rfl))]
      exact ⟨_, rfl⟩
  · obtain ⟨hrun, hdrop⟩ := hgap (space :: ys)
    obtain ⟨hrun', hdrop'⟩ := hgap (space :: v)
    rw [hrun, hdrop] at h
    rw [hrun', hdrop']
    simp only at h ⊢
    by_cases hc : c = openParen
    · rw [if_pos hc] at h
      exact absurd h hreadFrom
    · rw [if_neg hc]
      exact ⟨_, rfl⟩

end Arguments

end CppDecl
