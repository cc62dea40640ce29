import CppDecl.Proofs.Plain

/-!
# Printing tokens and reading them again

The texts of tokens can be printed on a line with a space between any two of them, and read again.
If they came from a text that was read plainly and had no faults, and no directive is among them,
the same tokens come back at other places (`tokenizeWithin_joined`).

A lexeme is mostly told from what follows it: another digit makes a number longer, an equals sign
makes another punctuator.  So each class of lexemes is shown to take the same bytes when what
followed them is replaced by a space, or by nothing at the end of the text (`Parted`).  Where a class
has a mark of its own at its end, as comments and literals have, nothing behind the mark matters.
Where it has none, a space ends what ended before.  Such classes count bytes one stretch after the
other, and `Settled` says that a count does not change; it holds of stretches of bytes and is kept
when one count is done behind another.

A comment to the end of the line has its newline, unless it ends with the text.  Then it is the last
token, and it is the last one in print as well.
-/

namespace CppDecl

open Byte

/-- The byte that separates printed tokens. -/
def Byte.space : UInt8 := 32

/-- The texts of tokens with a space between any two of them. -/
def joined (tokens : List Token) : String := " ".intercalate (tokens.map Token.text)

/-- What stands behind a lexeme in print, given what stood behind it before: nothing or a space, and
nothing if nothing stood there before. -/
structure Parted (before printed : Bytes) : Prop where
  /-- Nothing or a space. -/
  space : ∀ b ∈ printed.head?, b = Byte.space
  /-- What was last is last again. -/
  last : before = [] → printed = []

/-- A scan takes so many bytes as a token, and finds nothing wrong. -/
structure Scan.Takes (scan : Scan) (kind : TokenKind) (n : Nat) : Prop where
  /-- The kind of the token. -/
  kind_eq : scan.kind? = some kind
  /-- The length of the token. -/
  len_eq : scan.len = n
  /-- Nothing is wrong. -/
  faults_eq : scan.faults = []

namespace Lexeme

variable {xs ys zs : Bytes}

/-! ## Lexemes with an end mark -/

theorem line_printed (h : (line (xs ++ ys)).1 = xs.length) (hlast : ys = [] → zs = []) :
    (line (xs ++ zs)).1 = xs.length := by
  induction xs with
  | nil =>
    cases ys with
    | nil => rw [hlast rfl]; rfl
    | cons y ys => exact absurd h (Nat.ne_of_gt (pos_line y ys))
  | cons x xs ih =>
    simp only [List.cons_append, line] at h ⊢
    split
    next hnewline =>
      rw [if_pos hnewline] at h
      exact h
    next hnewline =>
      rw [if_neg hnewline] at h
      exact congrArg (· + 1) (ih (Nat.succ.inj h))

theorem commentEnd?_printed (h : commentEnd? (xs ++ ys) = some xs.length) :
    commentEnd? (xs ++ zs) = some xs.length := by
  induction xs with
  | nil => exact absurd (commentEnd?_endsWith h).pos (Nat.lt_irrefl 0)
  | cons x xs ih =>
    cases xs with
    | nil =>
      -- the mark at the end has two bytes
      simp only [List.singleton_append, commentEnd?] at h
      split at h
      · simp at h
      · obtain ⟨n, hn, hzero⟩ := Option.map_eq_some_iff.1 h
        obtain rfl : n = 0 := Nat.succ.inj hzero
        exact absurd (commentEnd?_endsWith hn).pos (Nat.lt_irrefl 0)
    | cons x' xs =>
      rw [List.cons_append, commentEnd?] at h ⊢
      rw [List.cons_append, List.head?_cons, ← List.cons_append] at h ⊢
      split
      next hmark =>
        rw [if_pos hmark] at h
        exact h
      next hmark =>
        rw [if_neg hmark] at h
        obtain ⟨n, hn, hsucc⟩ := Option.map_eq_some_iff.1 h
        obtain rfl : n = (x' :: xs).length := Nat.succ.inj hsucc
        rw [ih hn]
        rfl

theorem literalEnd?_printed {mark : UInt8} (h : literalEnd? mark (xs ++ ys) = some xs.length) :
    literalEnd? mark (xs ++ zs) = some xs.length := by
  have hpos : ∀ bs, literalEnd? mark bs ≠ some 0 := by
    intro bs
    fun_cases literalEnd? mark bs with
    | _ => simp_all
  induction hlength : xs.length using Nat.strongRecOn generalizing xs with
  | ind n ih =>
    cases xs with
    | nil => exact absurd h (hpos _)
    | cons x xs =>
      rw [List.cons_append, literalEnd?.eq_def] at h ⊢
      simp only at h ⊢
      split
      next hescape =>
        rw [if_pos hescape] at h
        cases xs with
        | nil =>
          -- the byte that a backslash takes with it belongs to the literal
          rw [List.nil_append] at h
          split at h
          · cases h
          · obtain ⟨m, -, hm⟩ := Option.map_eq_some_iff.1 h
            simp at hm
        | cons x' xs =>
          simp only [List.cons_append] at h ⊢
          obtain ⟨m, hm, hsucc⟩ := Option.map_eq_some_iff.1 h
          obtain rfl : m = xs.length := by simpa using hsucc
          rw [ih xs.length (by simp at hlength; omega) hm rfl, ← hlength]
          rfl
      next hescape =>
        rw [if_neg hescape] at h
        split
        next hmark =>
          rw [if_pos hmark] at h
          rw [← hlength]
          exact h
        next hmark =>
          rw [if_neg hmark] at h
          obtain ⟨m, hm, hsucc⟩ := Option.map_eq_some_iff.1 h
          obtain rfl : m = xs.length := Nat.succ.inj hsucc
          rw [ih xs.length (by simp at hlength; omega) hm rfl, ← hlength]
          rfl

theorem length_le_terminatorEnd {terminator bs : Bytes} {n : Nat}
    (h : terminatorEnd? terminator bs = some n) : terminator.length ≤ n := by
  induction bs generalizing n with
  | nil => cases h
  | cons b bs ih =>
    rw [terminatorEnd?] at h
    split at h
    · cases h
      exact Nat.le_refl _
    · obtain ⟨m, hm, rfl⟩ := Option.map_eq_some_iff.1 h
      exact Nat.le_succ_of_le (ih hm)

theorem isPrefixOf_append {front : Bytes} (h : front.length ≤ xs.length) :
    front.isPrefixOf (xs ++ ys) = front.isPrefixOf xs := by
  rw [Bool.eq_iff_iff, List.isPrefixOf_iff_prefix, List.isPrefixOf_iff_prefix]
  exact ⟨fun hp => List.prefix_of_prefix_length_le hp (List.prefix_append _ _) h,
    fun hp => hp.trans (List.prefix_append _ _)⟩

theorem terminatorEnd?_printed {terminator : Bytes} (hne : terminator ≠ [])
    (h : terminatorEnd? terminator (xs ++ ys) = some xs.length) :
    terminatorEnd? terminator (xs ++ zs) = some xs.length := by
  induction xs with
  | nil => exact absurd (length_le_terminatorEnd h) (by simpa using hne)
  | cons x xs ih =>
    have hle := length_le_terminatorEnd h
    rw [List.cons_append, terminatorEnd?, ← List.cons_append, isPrefixOf_append hle] at h ⊢
    split
    next hstarts =>
      rw [if_pos hstarts] at h
      exact h
    next hstarts =>
      rw [if_neg hstarts] at h
      obtain ⟨m, hm, hsucc⟩ := Option.map_eq_some_iff.1 h
      obtain rfl : m = xs.length := Nat.succ.inj hsucc
      rw [ih hm]
      rfl

/-! ## Stretches that a space ends -/

/-- A count of bytes stays the same if what stands behind the counted bytes is replaced by nothing or
a space. -/
def Settled (count : Bytes → Nat) : Prop :=
  ∀ xs ys zs : Bytes, count (xs ++ ys) ≤ xs.length → (∀ b ∈ zs.head?, b = space) →
    count (xs ++ zs) = count (xs ++ ys)

theorem takeWhile_eq_nil_of_space {p : UInt8 → Bool} (hp : p space = false)
    (h : ∀ b ∈ zs.head?, b = space) : zs.takeWhile p = [] := by
  cases zs with
  | nil => rfl
  | cons z zs => rw [h z rfl, List.takeWhile_cons_of_neg (by simp [hp])]

theorem takeWhile_printed (ys : Bytes) {p : UInt8 → Bool} (hp : p space = false)
    (hle : ((xs ++ ys).takeWhile p).length ≤ xs.length) (hspace : ∀ b ∈ zs.head?, b = space) :
    ((xs ++ zs).takeWhile p).length = ((xs ++ ys).takeWhile p).length := by
  simp only [List.takeWhile_append] at hle ⊢
  rw [takeWhile_eq_nil_of_space hp hspace]
  split
  next hall =>
    rw [if_pos hall, List.length_append] at hle
    rw [List.length_append, List.length_append, List.length_nil]
    omega
  next => rfl

theorem settled_takeWhile {p : UInt8 → Bool} (hp : p space = false) :
    Settled fun bs => (bs.takeWhile p).length :=
  fun _ ys _ hle hspace => takeWhile_printed ys hp hle hspace

/-- A count stays the same if it is made of one count and another one behind it. -/
theorem Settled.add {f g : Bytes → Nat} (hf : Settled f) (hg : Settled g) :
    Settled fun bs => f bs + g (bs.drop (f bs)) := by
  intro xs ys zs hle hspace
  simp only at hle ⊢
  have hfirst : f (xs ++ ys) ≤ xs.length := by omega
  rw [hf xs ys zs hfirst hspace]
  rw [List.drop_append_of_le_length hfirst] at hle ⊢
  rw [List.drop_append_of_le_length hfirst,
    hg _ ys zs (by rw [List.length_drop]; omega) hspace]

/-- A count stays the same if the first byte decides between two counts, and a space decides for the
second one. -/
theorem Settled.ite {q : Option UInt8 → Prop} [DecidablePred q] {f g : Bytes → Nat}
    (hnone : ¬ q none) (hblank : ¬ q (some space)) (hpos : ∀ bs, 0 < f bs) (hf : Settled f)
    (hg : Settled g) : Settled fun bs => if q bs.head? then f bs else g bs := by
  intro xs ys zs hle hspace
  simp only at hle ⊢
  cases xs with
  | cons x xs =>
    have hhead : ∀ bs : Bytes, (x :: xs ++ bs).head? = some x := fun _ => rfl
    rw [hhead] at hle ⊢
    rw [hhead]
    by_cases hq : q (some x)
    · rw [if_pos hq] at hle
      rw [if_pos hq, if_pos hq]
      exact hf _ ys zs hle hspace
    · rw [if_neg hq] at hle
      rw [if_neg hq, if_neg hq]
      exact hg _ ys zs hle hspace
  | nil =>
    have hzs : ¬ q zs.head? := by
      cases zs with
      | nil => exact hnone
      | cons z zs => rw [hspace z rfl]; exact hblank
    rw [List.nil_append] at hle ⊢
    rw [List.nil_append, if_neg hzs]
    split at hle
    next => exact absurd (hpos ys) (by rw [List.length_nil] at hle; omega)
    next hys =>
      rw [if_neg hys]
      exact hg [] ys zs hle hspace

/-- An exponent takes its letter, its sign and its digits, or nothing if there is no digit. -/
theorem exponent_cons (e : UInt8) (rest : Bytes) : (exponent (e :: rest)).1 =
    if Char.ofUInt8 e ∈ ['e', 'E'] then
      let sign := (rest.take 1).countP fun s => Char.ofUInt8 s ∈ ['+', '-']
      let digits := ((rest.drop sign).takeWhile isDigit).length
      if digits = 0 then 0 else 1 + sign + digits
    else 0 := by
  simp only [exponent]
  split
  · split <;> rfl
  · rfl

theorem exponent_of_space (h : ∀ b ∈ zs.head?, b = space) : (exponent zs).1 = 0 := by
  cases zs with
  | nil => rfl
  | cons z zs => rw [h z rfl, exponent_cons, if_neg (by decide)]

theorem settled_exponent : Settled fun bs => (exponent bs).1 := by
  intro xs ys zs hle hspace
  rcases xs with _ | ⟨e, _ | ⟨s, rest⟩⟩
  · simp only [List.nil_append, List.length_nil] at hle ⊢
    rw [exponent_of_space hspace]
    omega
  · -- the letter alone is no exponent
    have hzero : (exponent ([e] ++ zs)).1 = 0 := by
      rw [List.singleton_append, exponent_cons]
      split
      next =>
        have hsign : (zs.take 1).countP (fun s => Char.ofUInt8 s ∈ ['+', '-']) = 0 := by
          cases zs with
          | nil => rfl
          | cons z zs =>
            rw [hspace z rfl, List.take_succ_cons, List.take_zero]
            decide
        simp only [hsign, List.drop_zero, takeWhile_eq_nil_of_space (p := isDigit) (by decide) hspace]
        rfl
      next => rfl
    simp only [hzero]
    simp only [List.singleton_append, exponent_cons, List.length_singleton] at hle ⊢
    split
    next hletter =>
      rw [if_pos hletter] at hle
      split
      next => rfl
      next hdigits =>
        rw [if_neg hdigits] at hle
        omega
    next => rfl
  · have hsign : ∀ bs : Bytes, (s :: (rest ++ bs)).take 1 = [s] := fun _ => rfl
    simp only [List.cons_append, exponent_cons, hsign] at hle ⊢
    split
    next hletter =>
      rw [if_pos hletter] at hle
      have hsmall : [s].countP (fun s => Char.ofUInt8 s ∈ ['+', '-']) ≤ (s :: rest).length :=
        List.countP_le_length.trans (by simp)
      generalize [s].countP (fun s => Char.ofUInt8 s ∈ ['+', '-']) = sign at hle hsmall ⊢
      simp only [← List.cons_append, List.drop_append_of_le_length hsmall] at hle ⊢
      have hdigits : (((s :: rest).drop sign ++ zs).takeWhile isDigit).length =
          (((s :: rest).drop sign ++ ys).takeWhile isDigit).length := by
        refine takeWhile_printed ys (by decide) ?_ hspace
        rw [List.length_drop]
        simp only [List.length_cons] at hle hsmall ⊢
        split at hle <;> omega
      rw [hdigits]
    next => rfl

/-- Type marks are an `f`, or a `U` and up to two `L`s. -/
theorem typeMarks_eq (bs : Bytes) : (typeMarks bs).1 =
    if bs.head?.map Char.ofUInt8 = some 'f' then 1
    else
      ((bs.take 1).takeWhile fun b => Char.ofUInt8 b == 'U').length +
        (((bs.drop ((bs.take 1).takeWhile fun b => Char.ofUInt8 b == 'U').length).take 2).takeWhile
          fun b => Char.ofUInt8 b == 'L').length := by
  rcases bs with _ | ⟨a, bs⟩
  · rfl
  by_cases hf : Char.ofUInt8 a = 'f'
  · simp [typeMarks, hf]
  by_cases hU : Char.ofUInt8 a = 'U'
  · rcases bs with _ | ⟨b, bs⟩
    · simp [typeMarks, hU]
    by_cases hb : Char.ofUInt8 b = 'L'
    · rcases bs with _ | ⟨c, bs⟩
      · simp [typeMarks, hU, hb]
      by_cases hc : Char.ofUInt8 c = 'L'
      · simp [typeMarks, hU, hb, hc]
      · simp [typeMarks, hU, hb, hc]
    · simp [typeMarks, hU, hb]
  by_cases hL : Char.ofUInt8 a = 'L'
  · rcases bs with _ | ⟨b, bs⟩
    · simp [typeMarks, hL]
    by_cases hb : Char.ofUInt8 b = 'L'
    · simp [typeMarks, hL, hb]
    · simp [typeMarks, hL, hb]
  simp [typeMarks, hf, hU, hL]

/-- A stretch of bytes of one class stays the same also if no more than `n` of them count. -/
theorem settled_takeWhile_take {p : UInt8 → Bool} (hp : p space = false) (n : Nat) :
    Settled fun bs => ((bs.take n).takeWhile p).length := by
  intro xs ys zs hle hspace
  simp only [← List.take_takeWhile, List.length_take] at hle ⊢
  by_cases hn : n ≤ xs.length
  · rw [← List.length_take, ← List.length_take, List.take_takeWhile, List.take_takeWhile,
      List.take_append_of_le_length hn, List.take_append_of_le_length hn]
  · rw [takeWhile_printed ys hp (by omega) hspace]

theorem settled_typeMarks : Settled fun bs => (typeMarks bs).1 := by
  have hlong := (settled_takeWhile_take (p := fun b => Char.ofUInt8 b == 'U') (by decide) 1).add
    (settled_takeWhile_take (p := fun b => Char.ofUInt8 b == 'L') (by decide) 2)
  have hmarks := Settled.ite (q := fun b? => b?.map Char.ofUInt8 = some 'f') (f := fun _ => 1)
    (by decide) (by decide) (fun _ => Nat.one_pos) (fun _ _ _ _ _ => rfl) hlong
  intro xs ys zs hle hspace
  simp only [typeMarks_eq] at hle ⊢
  exact hmarks xs ys zs hle hspace

/-- The digits behind the point of a number, with the point. -/
theorem settled_fraction : Settled fun bs =>
    if bs.head? = some dot then 1 + (bs.tail.takeWhile isDigit).length else 0 := by
  refine Settled.ite (q := fun b? => b? = some dot)
    (f := fun bs => 1 + (bs.tail.takeWhile isDigit).length) (by decide) (by decide) (fun _ => by omega)
    ?_ (fun _ _ _ _ _ => rfl)
  intro xs ys zs hle hspace
  cases xs with
  | nil => simp at hle
  | cons x xs =>
    simp only [List.cons_append, List.tail_cons, List.length_cons] at hle ⊢
    rw [takeWhile_printed ys (by decide) (by omega) hspace]

/-- Whether a number starts as a hexadecimal one does not change. -/
theorem hexLeads_printed (hle : (numberCore (xs ++ ys)).1 ≤ xs.length)
    (hspace : ∀ b ∈ zs.head?, b = space) :
    hexLeads.contains ((xs ++ zs).take 2) = hexLeads.contains ((xs ++ ys).take 2) := by
  by_cases htwo : 2 ≤ xs.length
  · rw [List.take_append_of_le_length htwo, List.take_append_of_le_length htwo]
  · have hbefore : hexLeads.contains ((xs ++ ys).take 2) = false := by
      rw [Bool.eq_false_iff]
      intro hhex
      rw [numberCore, if_pos hhex] at hle
      simp only at hle
      omega
    rw [hbefore, Bool.eq_false_iff]
    intro hhex
    -- both of the leads have two bytes, and the second is no space
    have hleads : ∀ lead ∈ hexLeads, lead.length = 2 ∧ lead[0]? ≠ some space ∧
        lead[1]? ≠ some space := by decide
    obtain ⟨hlength, hfirst, hsecond⟩ := hleads _ (List.contains_iff_mem.1 hhex)
    rcases xs with _ | ⟨x, _ | ⟨x', xs⟩⟩
    · cases zs with
      | nil => simp at hlength
      | cons z zs => exact hfirst (by simp [hspace z rfl])
    · cases zs with
      | nil => simp at hlength
      | cons z zs => exact hsecond (by simp [hspace z rfl])
    · simp at htwo

theorem settled_numberCore : Settled fun bs => (numberCore bs).1 := by
  intro xs ys zs hle hspace
  have hleads := hexLeads_printed hle hspace
  simp only [numberCore, hleads] at hle ⊢
  split
  next hhex =>
    rw [if_pos hhex] at hle
    simp only at hle ⊢
    have htwo : 2 ≤ xs.length := by omega
    rw [List.drop_append_of_le_length htwo] at hle ⊢
    rw [List.drop_append_of_le_length htwo]
    rw [takeWhile_printed ys (by decide) (by rw [List.length_drop]; omega) hspace]
  next hhex =>
    rw [if_neg hhex] at hle
    have hsettled := ((settled_takeWhile (p := isDigit) (by decide)).add settled_fraction).add
      settled_exponent
    have hcount := hsettled xs ys zs
    simp only [← List.drop_drop] at hcount
    exact hcount hle hspace

theorem number_printed {kind : TokenKind} {n : Nat} (hn : n = xs.length)
    (h : (number (xs ++ ys)).Takes kind n) (hparted : Parted ys zs) :
    (number (xs ++ zs)).Takes kind n := by
  have hsettled := settled_numberCore.add settled_typeMarks
  refine ⟨h.kind_eq, ?_, rfl⟩
  exact (hsettled xs ys zs (by rw [← hn]; exact Nat.le_of_eq h.len_eq) hparted.space).trans h.len_eq

/-! ## Literals and words -/

theorem literal_printed {mark : UInt8} {lead n : Nat} {faults : List Fault} {kind : TokenKind}
    (hn : n = lead + 1 + xs.length) (h : (literal 0 mark lead faults (xs ++ ys)).Takes kind n) :
    (literal 0 mark lead faults (xs ++ zs)).Takes kind n := by
  obtain ⟨hkind, hlen, hfaults⟩ := h
  unfold literal at hkind hlen hfaults ⊢
  split at hkind
  next m hm =>
    rw [hm] at hlen hfaults
    obtain rfl : m = xs.length := by simp only at hlen; omega
    rw [literalEnd?_printed hm]
    exact ⟨hkind, hlen, hfaults⟩
  next => cases hkind

/-- A stretch of bytes of one class that ends inside a lexeme ends there whatever follows the
lexeme. -/
theorem takeWhile_inside {p : UInt8 → Bool} {b : UInt8} {rest : Bytes}
    (hdrop : (xs ++ ys).drop ((xs ++ ys).takeWhile p).length = b :: rest)
    (hlt : ((xs ++ ys).takeWhile p).length < xs.length) :
    ∃ xs', rest = xs' ++ ys ∧ xs.length = ((xs ++ ys).takeWhile p).length + 1 + xs'.length ∧
      ∀ zs, (xs ++ zs).takeWhile p = (xs ++ ys).takeWhile p ∧
        (xs ++ zs).drop ((xs ++ ys).takeWhile p).length = b :: (xs' ++ zs) := by
  have hdropWhile := hdrop
  rw [drop_length_takeWhile] at hdropWhile
  have hsplit : xs ++ ys = (xs ++ ys).takeWhile p ++ b :: rest := by
    rw [← hdropWhile, List.takeWhile_append_dropWhile]
  have hstop : p b = false := by
    have hne : (xs ++ ys).dropWhile p ≠ [] := by rw [hdropWhile]; exact List.cons_ne_nil b rest
    have hhead := List.head_dropWhile_not p hne
    simpa [hdropWhile] using hhead
  have hall : ∀ c ∈ (xs ++ ys).takeWhile p, p c = true :=
    fun c hc => List.all_eq_true.1 List.all_takeWhile c hc
  generalize (xs ++ ys).takeWhile p = front at hsplit hall hlt ⊢
  obtain ⟨xs', rfl⟩ : front ++ [b] <+: xs := by
    refine List.prefix_of_prefix_length_le (?_ : _ <+: xs ++ ys) (List.prefix_append _ _) ?_
    · exact ⟨rest, by rw [hsplit, List.append_assoc, List.singleton_append]⟩
    · rw [List.length_append, List.length_singleton]
      exact hlt
  refine ⟨xs', by simpa using hsplit.symm, by simp [Nat.add_assoc, Nat.add_comm 1],
    fun zs => ⟨?_, by simp⟩⟩
  rw [List.append_assoc, List.append_assoc, List.takeWhile_append_of_pos hall,
    List.singleton_append, List.takeWhile_cons_of_neg (by simp [hstop]), List.append_nil]

theorem rawLiteral_printed {lead n : Nat} {kind : TokenKind} (hn : n = lead + 1 + xs.length)
    (h : (rawLiteral lead (xs ++ ys)).Takes kind n) :
    (rawLiteral lead (xs ++ zs)).Takes kind n := by
  obtain ⟨hkind, hlen, -⟩ := h
  unfold rawLiteral at hkind hlen
  simp only at hkind hlen
  split at hkind
  · cases hkind
  next b rest hdrop =>
    rw [hdrop] at hlen
    simp only at hlen
    split at hkind
    next hparen =>
      rw [if_pos hparen] at hlen
      split at hkind
      next m hm =>
        rw [hm] at hlen
        simp only at hlen
        -- the literal is a delimiter, a parenthesis, and what goes up to the end of its terminator
        obtain ⟨xs', rfl, hlength, hkept⟩ := takeWhile_inside hdrop (by omega)
        obtain ⟨hdelimiter, hdrop'⟩ := hkept zs
        obtain rfl : m = xs'.length := by omega
        unfold rawLiteral
        simp only [hdelimiter, hdrop', if_pos hparen, terminatorEnd?_printed (by simp) hm]
        exact ⟨hkind, hlen, rfl⟩
      next => cases hkind
    next => cases hkind

theorem lead_lt_literal {mark : UInt8} {lead : Nat} {faults : List Fault} {bs : Bytes} :
    lead < (literal 0 mark lead faults bs).len := by
  unfold literal
  split
  · simp only
    omega
  · simp only
    omega

theorem lead_lt_rawLiteral {lead : Nat} {bs : Bytes} : lead < (rawLiteral lead bs).len := by
  unfold rawLiteral
  simp only
  split
  · simp only
    omega
  · split
    · split
      · simp only
        omega
      · simp only
        omega
    · simp only
      omega

theorem word_printed {kind : TokenKind} (h : (word 0 (xs ++ ys)).Takes kind xs.length)
    (hparted : Parted ys zs) : (word 0 (xs ++ zs)).Takes kind xs.length := by
  -- a word that is no literal ends before the space
  have hidentifier : ((xs ++ ys).takeWhile isIdentifierByte).length = xs.length →
      word 0 (xs ++ zs) =
        { kind? := some .identifier, len := xs.length, seen := xs.length + 1 } := by
    intro hlength
    have hsame : ((xs ++ zs).takeWhile isIdentifierByte).length = xs.length :=
      (takeWhile_printed ys (by decide) (Nat.le_of_eq hlength) hparted.space).trans hlength
    have hall : (xs ++ zs).takeWhile isIdentifierByte = xs :=
      (List.prefix_of_prefix_length_le (List.takeWhile_prefix _) (List.prefix_append xs zs)
        (Nat.le_of_eq hsame)).eq_of_length hsame
    simp only [word, hall, List.drop_left]
    cases zs with
    | nil => rfl
    | cons z zs =>
      obtain rfl := hparted.space z rfl
      rfl
  obtain ⟨hkind, hlen, hfaults⟩ := h
  unfold word at hkind hlen hfaults
  simp only at hkind hlen hfaults
  split at hkind
  next hdrop =>
    rw [hdrop] at hlen
    rw [hidentifier hlen]
    exact ⟨hkind, rfl, rfl⟩
  next mark rest hdrop =>
    rw [hdrop] at hlen hfaults
    simp only at hlen hfaults
    split at hkind
    next hraw =>
      rw [if_pos hraw] at hlen hfaults
      obtain ⟨xs', rfl, hlength, hkept⟩ :=
        takeWhile_inside hdrop (by rw [← hlen]; exact lead_lt_rawLiteral)
      obtain ⟨hlead, hdrop'⟩ := hkept zs
      unfold word
      simp only [hlead, hdrop', if_pos hraw]
      exact rawLiteral_printed hlength ⟨hkind, hlen, hfaults⟩
    next hraw =>
      rw [if_neg hraw] at hlen hfaults
      split at hkind
      next hmark =>
        rw [if_pos hmark] at hlen hfaults
        obtain ⟨xs', rfl, hlength, hkept⟩ :=
          takeWhile_inside hdrop (by rw [← hlen]; exact lead_lt_literal)
        obtain ⟨hlead, hdrop'⟩ := hkept zs
        unfold word
        simp only [hlead, hdrop', if_neg hraw, if_pos hmark]
        exact literal_printed hlength ⟨hkind, hlen, hfaults⟩
      next hmark =>
        rw [if_neg hmark] at hlen
        rw [hidentifier hlen]
        exact ⟨hkind, rfl, rfl⟩

/-! ## Comments and punctuators -/

theorem lineComment_printed {kind : TokenKind} {n : Nat} (hn : n = 2 + xs.length)
    (h : (lineComment (xs ++ ys)).Takes kind n) (hparted : Parted ys zs) :
    (lineComment (xs ++ zs)).Takes kind n := by
  have hlen : 2 + (line (xs ++ ys)).1 = n := h.len_eq
  have hline : (line (xs ++ zs)).1 = xs.length := line_printed (by omega) hparted.last
  exact ⟨h.kind_eq, by simp only [lineComment, hline]; exact hn.symm, rfl⟩

theorem blockComment_printed {kind : TokenKind} {n : Nat} (hn : n = 2 + xs.length)
    (h : (blockComment (xs ++ ys)).Takes kind n) : (blockComment (xs ++ zs)).Takes kind n := by
  obtain ⟨hkind, hlen, -⟩ := h
  unfold blockComment at hkind hlen ⊢
  split at hkind
  next m hm =>
    rw [hm] at hlen
    obtain rfl : m = xs.length := by simp only at hlen; omega
    rw [commentEnd?_printed hm]
    exact ⟨hkind, hlen, rfl⟩
  next => cases hkind

/-- What the table of punctuators says about spaces and words. -/
theorem punctuators_apart : ∀ kind ∈ punctuators, space ∉ spellingBytes kind ∧
    ∀ b ∈ (spellingBytes kind).head?, isIdentifierByte b = false := by
  have htable : ∀ kind ∈ punctuators, space ∉ spellingBytes kind ∧
      ((spellingBytes kind).head?.all fun b => !isIdentifierByte b) = true := by
    decide +kernel
  intro kind hmem
  obtain ⟨hspace, hhead⟩ := htable kind hmem
  refine ⟨hspace, fun b hb => ?_⟩
  rw [hb] at hhead
  simpa using hhead

/-- No punctuator starts like a word or a number. -/
theorem punctuator?_of_isIdentifierByte (closeAnglesOnly : Bool) {b : UInt8} (bs : Bytes)
    (hb : isIdentifierByte b = true) : punctuator? closeAnglesOnly (b :: bs) = none := by
  cases hkind : punctuator? closeAnglesOnly (b :: bs) with
  | none => rfl
  | some kind =>
    obtain ⟨hmem, hstarts⟩ := punctuator?_mem hkind
    have hfalse := (punctuators_apart kind hmem).2 b (head?_of_punctuator hmem hstarts)
    rw [hb] at hfalse
    cases hfalse

theorem ne_of_isIdentifierByte {b c : UInt8} (hb : isIdentifierByte b = true)
    (hc : isIdentifierByte c = false) : b ≠ c := by
  rintro rfl
  rw [hb] at hc
  cases hc

theorem not_isBlank_of_isIdentifierByte {b : UInt8} (hb : isIdentifierByte b = true) :
    isBlank b = false := by
  have hne : ∀ c, isIdentifierByte c = false → b ≠ c := fun _ => ne_of_isIdentifierByte hb
  simp [isBlank, hne 32 (by decide), hne 9 (by decide), hne carriageReturn (by decide),
    hne newline (by decide)]

/-- What starts like a word but not like a number is a word. -/
theorem scanFrom_word (closeAnglesOnly lineStart : Bool) (beyond : Nat) {b : UInt8} (bs : Bytes)
    (hb : isIdentifierByte b = true) (hdigit : isDigit b = false) :
    scanFrom closeAnglesOnly lineStart beyond b bs = word beyond (b :: bs) := by
  have hslash : b ≠ slash := ne_of_isIdentifierByte hb (by decide)
  have hquote : b ≠ quote := ne_of_isIdentifierByte hb (by decide)
  have hapostrophe : b ≠ apostrophe := ne_of_isIdentifierByte hb (by decide)
  rw [scanFrom, if_neg (by simp [not_isBlank_of_isIdentifierByte hb]),
    if_neg (ne_of_isIdentifierByte hb (by decide)), if_neg (by simp [hslash]),
    if_neg (by simp [hslash]), if_neg (by simp [hquote, hapostrophe]),
    punctuator?_of_isIdentifierByte closeAnglesOnly bs hb]
  simp only
  rw [if_neg (by simp [hdigit]), if_pos hb]

/-- No longer punctuator comes about if what follows one is replaced by nothing or a space. -/
theorem punctuator?_printed {closeAnglesOnly : Bool} {kind : TokenKind}
    (h : punctuator? closeAnglesOnly (spellingBytes kind ++ ys) = some kind)
    (hspace : ∀ b ∈ zs.head?, b = space) :
    punctuator? closeAnglesOnly (spellingBytes kind ++ zs) = some kind := by
  obtain ⟨-, front, back, hsplit, hfront⟩ := List.find?_eq_some_iff_append.1 h
  refine List.find?_eq_some_iff_append.2 ⟨?_, front, back, hsplit, fun k hk => ?_⟩
  · exact List.isPrefixOf_iff_prefix.2 (List.prefix_append _ _)
  · have hmem : k ∈ punctuators := by
      have hfiltered : k ∈ punctuators.filter (keptWhole closeAnglesOnly) := by
        rw [hsplit]
        exact List.mem_append_left _ hk
      exact (List.mem_filter.1 hfiltered).1
    have hnot := hfront k hk
    rw [Bool.not_eq_true', Bool.eq_false_iff] at hnot ⊢
    intro hstarts
    by_cases hle : (spellingBytes k).length ≤ (spellingBytes kind).length
    · rw [isPrefixOf_append hle] at hnot hstarts
      exact hnot hstarts
    · -- a longer spelling would have a space in it
      cases zs with
      | nil =>
        rw [List.append_nil] at hstarts
        exact hle (List.isPrefixOf_iff_prefix.1 hstarts).length_le
      | cons z zs =>
        obtain rfl := hspace z rfl
        have hlonger : spellingBytes kind ++ [space] <+: spellingBytes k := by
          refine List.prefix_of_prefix_length_le (?_ : _ <+: spellingBytes kind ++ space :: zs)
            (List.isPrefixOf_iff_prefix.1 hstarts) ?_
          · exact ⟨zs, by rw [List.append_assoc, List.singleton_append]⟩
          rw [List.length_append, List.length_singleton]
          omega
        exact (punctuators_apart k hmem).1
          (hlonger.subset (List.mem_append_right _ (List.mem_singleton_self _)))

/-- A punctuator that is all of the first bytes is found again in print. -/
theorem punctuator?_append {closeAnglesOnly : Bool} {kind : TokenKind}
    (h : punctuator? closeAnglesOnly (xs ++ ys) = some kind)
    (hlen : kind.spelling.utf8ByteSize = xs.length) (hspace : ∀ b ∈ zs.head?, b = space) :
    punctuator? closeAnglesOnly (xs ++ zs) = some kind := by
  obtain ⟨hmem, hstarts⟩ := punctuator?_mem h
  have hsize : (spellingBytes kind).length = xs.length :=
    (punctuators_spelled kind hmem).1.symm.trans hlen
  have hspelling : spellingBytes kind = xs :=
    (List.prefix_of_prefix_length_le hstarts (List.prefix_append xs ys)
      (Nat.le_of_eq hsize)).eq_of_length hsize
  rw [← hspelling] at h ⊢
  exact punctuator?_printed h hspace

/-! ## Starts of comments -/

/-- The bytes that a comment starts with belong to it. -/
theorem eq_cons_of_slash {b c : UInt8} (h : (b = slash && (xs ++ ys).head? = some c) = true)
    (hxs : 0 < xs.length) : b = slash ∧ ∃ rest, xs = c :: rest := by
  simp only [Bool.and_eq_true, decide_eq_true_eq] at h
  cases xs with
  | nil => exact absurd hxs (Nat.lt_irrefl 0)
  | cons x rest => exact ⟨h.1, rest, by rw [Option.some.inj h.2]⟩

/-- In print no comment starts where none did before. -/
theorem not_slash_printed {b c : UInt8} (hc : c ≠ space) (hspace : ∀ b ∈ zs.head?, b = space)
    (h : ¬ (b = slash && (xs ++ ys).head? = some c) = true) :
    ¬ (b = slash && (xs ++ zs).head? = some c) = true := by
  simp only [Bool.and_eq_true, decide_eq_true_eq] at h ⊢
  rintro ⟨hb, hhead⟩
  cases xs with
  | nil => exact hc (hspace c hhead)
  | cons x xs => exact h ⟨hb, hhead⟩

theorem two_le_lineComment (bs : Bytes) : 2 ≤ (lineComment bs).len := Nat.le_add_right 2 _

theorem two_le_blockComment (bs : Bytes) : 2 ≤ (blockComment bs).len := by
  fun_cases blockComment bs <;> exact Nat.le_add_right 2 _

/-! ## Any lexeme -/

/-- A token that is no directive is taken again in print, whether it stands at the start of a line
or not. -/
theorem scanFrom_printed {lineStart : Bool} {b : UInt8} {kind : TokenKind}
    (h : (scanFrom false lineStart 0 b (xs ++ ys)).Takes kind (xs.length + 1))
    (hkind : kind ≠ .directive) (hparted : Parted ys zs) (lineStart' : Bool) :
    isBlank b = false ∧ (scanFrom false lineStart' 0 b (xs ++ zs)).Takes kind (xs.length + 1) := by
  obtain ⟨hblank, hbegins⟩ := begins_scanFrom kind h.kind_eq
  refine ⟨hblank, ?_⟩
  have hhash : b ≠ hash := by
    cases hbegins with
    | directive => exact absurd rfl hkind
    | punctuator hne | other hne => exact hne
  -- both scans are taken apart in step; what decides for one of them decides for the other
  unfold scanFrom at h ⊢
  rw [if_neg (by simp [hblank]), if_neg hhash] at h ⊢
  by_cases hline : b = slash && (xs ++ ys).head? = some slash
  · rw [if_pos hline] at h
    have hlong := h.len_eq ▸ two_le_lineComment _
    obtain ⟨rfl, rest, rfl⟩ := eq_cons_of_slash hline (Nat.le_of_succ_le_succ hlong)
    rw [if_pos (by simp)]
    exact lineComment_printed (by simp only [List.length_cons]; omega) h hparted
  rw [if_neg hline] at h
  rw [if_neg (not_slash_printed (by decide) hparted.space hline)]
  by_cases hblock : b = slash && (xs ++ ys).head? = some star
  · rw [if_pos hblock] at h
    have hlong := h.len_eq ▸ two_le_blockComment _
    obtain ⟨rfl, rest, rfl⟩ := eq_cons_of_slash hblock (Nat.le_of_succ_le_succ hlong)
    rw [if_pos (by simp)]
    exact blockComment_printed (by simp only [List.length_cons]; omega) h
  rw [if_neg hblock] at h
  rw [if_neg (not_slash_printed (by decide) hparted.space hblock)]
  by_cases hquote : b = quote || b = apostrophe
  · rw [if_pos hquote] at h ⊢
    exact literal_printed (by omega) h
  rw [if_neg hquote] at h ⊢
  rw [← List.cons_append] at h ⊢
  cases hpunctuator : punctuator? false (b :: xs ++ ys) with
  | some k =>
    rw [hpunctuator] at h
    rw [punctuator?_append hpunctuator h.len_eq hparted.space]
    exact ⟨h.kind_eq, h.len_eq, rfl⟩
  | none =>
    rw [hpunctuator] at h
    simp only at h
    have hword : isIdentifierByte b = true := by
      by_cases hdigit : isDigit b
      · simp [isIdentifierByte, isWordByte, hdigit]
      · rw [if_neg hdigit] at h
        by_contra hword
        rw [if_neg hword] at h
        cases h.kind_eq
    rw [List.cons_append, punctuator?_of_isIdentifierByte false _ hword, ← List.cons_append]
    simp only
    by_cases hdigit : isDigit b
    · rw [if_pos hdigit] at h ⊢
      exact number_printed rfl h hparted
    · rw [if_neg hdigit, if_pos hword] at h ⊢
      exact word_printed h hparted

end Lexeme

/-! ## Any text -/

variable {base : Nat} {lineStart : Bool} {bs : Bytes} {tokens : List Token}
  {errors : List LexError}

theorem joined_cons {t : Token} (hne : tokens ≠ []) :
    Text.bytes (joined (t :: tokens)) = Text.bytes t.text ++ space :: Text.bytes (joined tokens) := by
  rw [joined, List.map_cons, String.intercalate_cons_of_ne_nil (by simpa using hne),
    Text.bytes_append, Text.bytes_append, List.append_assoc]
  rfl

/-- A single space before what does not start with a blank. -/
theorem Lexeme.scanFrom_space (lineStart : Bool) (hbs : ∀ b ∈ bs.head?, isBlank b = false) :
    Lexeme.scanFrom false lineStart 0 Byte.space bs =
      { kind? := none, len := 1, seen := 2, lineStart } := by
  have hrun : (Byte.space :: bs).takeWhile isBlank = [Byte.space] := by
    rw [List.takeWhile_cons_of_pos (by decide)]
    cases bs with
    | nil => rfl
    | cons b bs => rw [List.takeWhile_cons_of_neg (by simp [hbs b rfl])]
  rw [Lexeme.scanFrom, if_pos (by decide), Lexeme.blanks, hrun,
    show [Byte.space].contains newline = false by decide, Bool.or_false]
  rfl

/-- A single space before what does not start with a blank is skipped. -/
theorem Lexes.behind_space (h : Lexes (base + 1) lineStart bs tokens errors)
    (hbs : ∀ b ∈ bs.head?, isBlank b = false) :
    Lexes base lineStart (Byte.space :: bs) tokens errors :=
  .skip (Lexeme.scanFrom_space lineStart hbs) rfl h

/-- A lexeme that is taken without faults is a token, and the others come behind it. -/
theorem Lexes.taken {b : UInt8} {xs zs : Bytes} {kind : TokenKind} {text : String}
    (h : (Lexeme.scanFrom false lineStart 0 b (xs ++ zs)).Takes kind (xs.length + 1))
    (htext : Text.bytes text = b :: xs)
    (hrest : Lexes (base + (xs.length + 1)) (Lexeme.scanFrom false lineStart 0 b (xs ++ zs)).lineStart
      zs tokens []) :
    Lexes base lineStart (b :: (xs ++ zs)) (⟨base, kind, text⟩ :: tokens) [] := by
  generalize hscan : Lexeme.scanFrom false lineStart 0 b (xs ++ zs) = scan at h hrest
  have htoken : Lexes base lineStart (b :: (xs ++ zs)) (⟨base, kind, text⟩ :: tokens)
      (scan.faults.map (Fault.locate base) ++ []) :=
    .token hscan h.kind_eq (by rw [htext, h.len_eq]; simp) (by rw [h.len_eq]; simpa using hrest)
  rwa [h.faults_eq] at htoken

/-- Tokens without faults come back when they are read in print, and what is printed starts with no
blank. -/
theorem Lexes.printed (h : Lexes base lineStart bs tokens errors) (herrors : errors = [])
    (hkinds : ∀ t ∈ tokens, t.kind ≠ .directive) (base' : Nat) (lineStart' : Bool) :
    (∀ b ∈ (Text.bytes (joined tokens)).head?, isBlank b = false) ∧
      ∃ again, Lexes base' lineStart' (Text.bytes (joined tokens)) again [] ∧
        again.map (fun t => (t.kind, t.text)) = tokens.map (fun t => (t.kind, t.text)) := by
  induction h generalizing base' lineStart' with
  | done => exact ⟨by simp [joined, Text.bytes_eq_flatMap], [], .done, rfl⟩
  | skip _ _ _ ih =>
    exact ih (List.append_eq_nil_iff.1 herrors).2 hkinds base' lineStart'
  | @token base lineStart b bs scan kind text tokens errors hscan hkind htext hrest ih =>
    obtain ⟨hfaults, herrors⟩ := List.append_eq_nil_iff.1 herrors
    obtain ⟨hdirective, hkinds⟩ := List.forall_mem_cons.1 hkinds
    have hfits := Lexeme.fits_scanFrom false lineStart b bs
    rw [hscan] at hfits
    -- the lexeme is `b` and `xs`, and `ys` stands behind it
    obtain ⟨xs, ys, rfl, hlen⟩ : ∃ xs ys, bs = xs ++ ys ∧ scan.len = xs.length + 1 := by
      refine ⟨bs.take (scan.len - 1), bs.drop (scan.len - 1), (List.take_append_drop _ _).symm, ?_⟩
      have hpos := hfits.pos
      have hle := hfits.le
      rw [List.length_cons] at hle
      rw [List.length_take]
      omega
    rw [hlen, List.take_succ_cons, List.take_left] at htext
    rw [hlen, List.drop_succ_cons, List.drop_left] at hrest
    have htakes : (Lexeme.scanFrom false lineStart 0 b (xs ++ ys)).Takes kind (xs.length + 1) := by
      rw [hscan]
      exact ⟨hkind, hlen, List.map_eq_nil_iff.1 hfaults⟩
    -- it is enough to know what is printed behind it
    suffices hprint : ∃ zs, Text.bytes (joined (⟨base, kind, text⟩ :: tokens)) = b :: (xs ++ zs) ∧
        Parted ys zs ∧ ∀ base lineStart, ∃ again, Lexes base lineStart zs again [] ∧
          again.map (fun t => (t.kind, t.text)) = tokens.map (fun t => (t.kind, t.text)) by
      obtain ⟨zs, hbytes, hparted, hagain⟩ := hprint
      obtain ⟨hblank, htakes'⟩ := Lexeme.scanFrom_printed htakes hdirective hparted lineStart'
      obtain ⟨again, hlexes, hsame⟩ := hagain (base' + (xs.length + 1))
        (Lexeme.scanFrom false lineStart' 0 b (xs ++ zs)).lineStart
      rw [hbytes]
      refine ⟨by simpa using hblank, _, hlexes.taken htakes' htext, ?_⟩
      rw [List.map_cons, List.map_cons, hsame]
    cases tokens with
    | nil =>
      refine ⟨[], ?_, ⟨by simp, fun _ => rfl⟩, fun _ _ => ⟨[], .done, rfl⟩⟩
      rw [joined, List.map_singleton, String.intercalate_singleton, htext, List.append_nil]
    | cons t tokens =>
      refine ⟨space :: Text.bytes (joined (t :: tokens)), ?_, ⟨?_, ?_⟩, fun base lineStart => ?_⟩
      · rw [joined_cons (List.cons_ne_nil _ _), htext, List.cons_append]
      · rintro c ⟨⟩
        rfl
      · rintro rfl
        cases hrest
      · obtain ⟨hblank, again, hlexes, hsame⟩ := ih herrors hkinds (base + 1) lineStart
        exact ⟨again, hlexes.behind_space hblank, hsame⟩

/-- If a text has no faults and no directives, its tokens come back when their texts are printed
with single spaces between them and read again. -/
theorem tokenizeWithin_joined {budget : Nat} {path source : String} {result : Tokens}
    (h : tokenizeWithin budget plainly path source = .ok result) (herrors : result.errors = [])
    (hkinds : ∀ t ∈ result.tokens, t.kind ≠ .directive) (path' : String) :
    ∃ again, (∀ budget', result.tokens.length < budget' →
        tokenizeWithin budget' plainly path' (joined result.tokens) = .ok again) ∧
      again.errors = [] ∧
      again.tokens.map (fun t => (t.kind, t.text)) =
        result.tokens.map (fun t => (t.kind, t.text)) := by
  obtain ⟨tokens, errors, hlexes⟩ := exists_lexes (Text.whole_bytes source) 0 true
  obtain ⟨visited, hread⟩ := hlexes.tokenizeWithin_eq path
  rw [hread budget] at h
  split at h
  next =>
    cases h
    obtain ⟨-, again, hlexes', hsame⟩ := hlexes.printed herrors hkinds 0 true
    obtain ⟨visited', hread'⟩ := hlexes'.tokenizeWithin_eq path'
    refine ⟨⟨again, [], visited'⟩, fun budget' hbudget => ?_, rfl, hsame⟩
    have hlength := congrArg List.length hsame
    rw [List.length_map, List.length_map] at hlength
    rw [hread' budget', if_pos (by rw [hlength]; exact hbudget)]
  next => cases h

/-- Tokens that stand close together come back one by one: a number with its type marks, a literal
with its lead, and a comment with its newline. -/
theorem tokenizeWithin_joined_dense : ∃ result again,
    tokenizeWithin 12 plainly "a.h" "x+=0x1fUL--/**/u8\"y z\"...//w\n" = .ok result ∧
      result.errors = [] ∧ joined result.tokens = "x += 0x1fUL -- /**/ u8\"y z\" ... //w\n" ∧
      tokenizeWithin 12 plainly "b.h" (joined result.tokens) = .ok again ∧ again.errors = [] ∧
      again.tokens.map (fun t => (t.kind, t.text)) =
        result.tokens.map (fun t => (t.kind, t.text)) := by
  have hread : (tokenizeWithin 12 plainly "a.h" "x+=0x1fUL--/**/u8\"y z\"...//w\n").toOption.map
      (fun result => (result.errors, result.tokens.all fun t => t.kind != .directive,
        result.tokens.length, joined result.tokens)) =
      some ([], true, 8, "x += 0x1fUL -- /**/ u8\"y z\" ... //w\n") := by
    decide +kernel
  obtain ⟨result, hresult, hfacts⟩ := Halt.of_toOption_map hread
  simp only [Prod.mk.injEq] at hfacts
  obtain ⟨herrors, hkinds, hlength, hjoined⟩ := hfacts
  obtain ⟨again, hagain, hnone, hsame⟩ := tokenizeWithin_joined hresult herrors
    (fun t ht => by simpa using List.all_eq_true.1 hkinds t ht) "b.h"
  exact ⟨result, again, hresult, herrors, hjoined, hagain 12 (by omega), hnone, hsame⟩

end CppDecl
