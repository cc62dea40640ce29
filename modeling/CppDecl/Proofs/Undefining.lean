import CppDecl.Proofs.Characters
import CppDecl.Proofs.Ending
import CppDecl.Proofs.Extent

/-!
# Taking macros away

The name that a `#define` directive defines is an identifier, and it ends where the identifier bytes
end.  An `#undef` directive takes the first word of its line, and a word goes on up to the next white
space, whatever it is made of.  So the two do not always mean the same name: a comment, a semicolon or a
list of parameters right behind the name becomes part of the word, and a character that Unicode calls
white space may stand in an identifier, where it divides it into words.

`Reader.readToken_undef` says what an `#undef` directive does to the table of macros in any state, and
that it takes away the identifier that its line begins with, and nothing else, if and only if there is
no white space in the identifier and some behind it, or nothing.  `undef_keeps_macro` is about a comment
behind the name.
-/

namespace CppDecl

open Byte

/-! ## Words of a text -/

namespace Text

variable {name operand : String}

theorem takeWhile_append_of_nil {α : Type} {p : α → Bool} {xs ys : List α} (h : ys.takeWhile p = []) :
    (xs ++ ys).takeWhile p = xs.takeWhile p := by
  rw [List.takeWhile_append, h, List.append_nil]
  split
  next hlength => exact ((List.takeWhile_prefix p).eq_of_length hlength).symm
  next => rfl

/-- A text begins with a word unless it begins with white space. -/
theorem takeWhile_word_eq_nil_iff {cs : List Char} :
    (cs.takeWhile fun c => !isWhiteSpace c) = [] ↔ ∀ c ∈ cs.head?, isWhiteSpace c = true := by
  cases cs with
  | nil => simp
  | cons c cs => simp [List.takeWhile_cons]

/-- White space around a text does not change its first word. -/
theorem firstWord?_surrounded (before s after : String) (hbefore : ∀ c ∈ before.toList, isWhiteSpace c = true)
    (hafter : ∀ c ∈ after.toList, isWhiteSpace c = true) :
    firstWord? (before ++ s ++ after) = firstWord? s := by
  have hnone : after.toList.dropWhile isWhiteSpace = [] := List.dropWhile_eq_nil_iff.2 hafter
  have hstop : after.toList.takeWhile (fun c => !isWhiteSpace c) = [] :=
    takeWhile_word_eq_nil_iff.2 fun c hc => hafter c (List.mem_of_mem_head? hc)
  unfold firstWord?
  rw [String.toList_append, String.toList_append, List.append_assoc, List.dropWhile_append_of_pos hbefore,
    List.dropWhile_append, hnone]
  cases s.toList.dropWhile isWhiteSpace with
  | nil => rfl
  | cons c cs =>
    simp only [List.isEmpty_cons, Bool.false_eq_true, if_false, List.cons_append]
    rw [← List.cons_append, takeWhile_append_of_nil hstop]

/-- A text is the first word of another one that begins with it if it has no white space, and there is
some behind it, or nothing. -/
theorem firstWord?_append_eq_some_iff (hname : name ≠ "") :
    firstWord? (name ++ operand) = some name ↔
      (∀ c ∈ name.toList, isWhiteSpace c = false) ∧ ∀ c ∈ operand.toList.head?, isWhiteSpace c = true := by
  obtain ⟨first, others, hchars⟩ : ∃ first others, name.toList = first :: others :=
    List.exists_cons_of_ne_nil (by simpa using hname)
  -- without white space in it, the text is passed as a whole
  have hword : (∀ c ∈ name.toList, isWhiteSpace c = false) → firstWord? (name ++ operand) =
      some (String.ofList (name.toList ++ operand.toList.takeWhile fun c => !isWhiteSpace c)) := by
    intro hplain
    have hfirst : isWhiteSpace first = false := hplain first (by rw [hchars]; exact List.mem_cons_self)
    have hdrop : (name ++ operand).toList.dropWhile isWhiteSpace = first :: (others ++ operand.toList) := by
      rw [String.toList_append, hchars, List.cons_append, List.dropWhile_cons_of_neg (by simp [hfirst])]
    unfold firstWord?
    rw [hdrop]
    simp only
    rw [← List.cons_append, ← hchars, List.takeWhile_append_of_pos fun c hc => by simp [hplain c hc]]
  constructor
  · intro h
    have hplain : ∀ c ∈ name.toList, isWhiteSpace c = false := by
      unfold firstWord? at h
      split at h
      · cases h
      · next cs _ =>
        intro c hc
        rw [← Option.some.inj h, String.toList_ofList] at hc
        simpa using List.mem_takeWhile_imp hc
    rw [hword hplain, Option.some.injEq] at h
    have hsame := congrArg String.toList h
    rw [String.toList_ofList, List.append_right_eq_self] at hsame
    exact ⟨hplain, takeWhile_word_eq_nil_iff.1 hsame⟩
  · rintro ⟨hplain, hbehind⟩
    rw [hword hplain, takeWhile_word_eq_nil_iff.2 hbehind, List.append_nil, String.ofList_toList]

end Text

/-! ## Lines -/

namespace Lexeme

variable {bs : Bytes}

/-- Without a newline all bytes are on one line, which is not ended. -/
theorem line_of_not_mem (h : newline ∉ bs) : line bs = (bs.length, false) := by
  induction bs with
  | nil => rfl
  | cons b bs ih =>
    rw [List.mem_cons, not_or] at h
    rw [line, if_neg (Ne.symm h.1), ih h.2]
    rfl

/-- A line ends behind its first newline. -/
theorem line_append_newline (h : newline ∉ bs) (more : Bytes) :
    line (bs ++ newline :: more) = (bs.length + 1, true) := by
  induction bs with
  | nil => rfl
  | cons b bs ih =>
    rw [List.mem_cons, not_or] at h
    rw [List.cons_append, line, if_neg (Ne.symm h.1), ih h.2]
    rfl

/-- The bytes of the word `undef`. -/
def undefWord : Bytes := Text.spelled "undef".toList

theorem directive_undef (hends : ∀ b ∈ bs.head?, isWordByte b = false) :
    directive (undefWord ++ bs) =
      { kind? := some .directive, len := 6 + (line bs).1,
        seen := 6 + (line bs).1 + aheadOf (line bs).2, lineStart := true, effect := .undefine 6 } := by
  have hword : ∀ b ∈ undefWord, isWordByte b = true := by decide +kernel
  have hname : (Text.ofBytes? undefWord).getD "" = "undef" := by
    refine Text.bytes_injective ((bytes_of_word fun b hb => isAscii_of_isWordByte b (hword b hb)).trans ?_)
    decide +kernel
  have hnamed := @directive_named [] undefWord bs (List.forall_mem_nil _) hword (by decide +kernel) hends
  rw [List.nil_append, hname] at hnamed
  exact hnamed

end Lexeme

namespace Reader

open Lexeme (line line_of_not_mem line_append_newline undefWord directive_undef)

variable {r : Reader} {name operand : String}

/-- The reader is at the start of a line with the given text. -/
structure AtLine (r : Reader) (line : String) : Prop where
  /-- A line starts here. -/
  lineStart : r.lineStart = true
  /-- The line is next to be read, with the newline that ends it unless it is the last one. -/
  frame : ∃ top below ending more, r.frames = top :: below ∧
    top.rest = Text.bytes (line ++ ending) ++ more ∧
    (ending = "\n" ∨ ending = "" ∧ more = [] ∧ top.missing = 0)
  /-- It is one line. -/
  single : '\n' ∉ line.toList

/-- An `#undef` directive is dealt with as the whole line. -/
theorem AtLine.step_undef (h : r.AtLine ("#undef" ++ operand))
    (hends : ∀ b ∈ (Text.bytes operand).head?, isWordByte b = false) (hspaced : operand ≠ "") :
    ∃ top below ending scan, r.frames = top :: below ∧ (ending = "\n" ∨ ending = "") ∧
      r.step = r.deal scan top below ∧ scan.kind? = some .directive ∧ scan.effect = .undefine 6 ∧
      top.rest.take scan.len = Text.bytes ("#undef" ++ operand ++ ending) := by
  obtain ⟨top, below, ending, more, hframes, hrest, hending⟩ := h.frame
  have hundef : Text.bytes "#undef" = hash :: undefWord := by decide +kernel
  have hsingle : '\n' ∉ operand.toList := by
    intro hmem
    refine h.single ?_
    rw [String.toList_append]
    exact List.mem_append_right _ hmem
  have hnewline : newline ∉ Text.bytes operand := Text.not_mem_bytes (by decide) hsingle
  have hrest' : top.rest = hash :: (undefWord ++ (Text.bytes (operand ++ ending) ++ more)) := by
    rw [hrest, String.append_assoc, Text.bytes_append "#undef", hundef, List.append_assoc, List.cons_append]
  have hline : line (Text.bytes (operand ++ ending) ++ more) =
      ((Text.bytes (operand ++ ending)).length, decide (ending = "\n")) := by
    rcases hending with rfl | ⟨rfl, rfl, -⟩
    · rw [Text.bytes_append, show Text.bytes "\n" = [newline] by decide, List.append_assoc,
        List.singleton_append, line_append_newline hnewline]
      simp
    · rw [String.append_empty, List.append_nil, line_of_not_mem hnewline]
      simp
  have hhead : ∀ b ∈ (Text.bytes (operand ++ ending) ++ more).head?, isWordByte b = false := by
    have hne : Text.bytes operand ≠ [] := fun heq => hspaced (Text.bytes_injective heq)
    rwa [Text.bytes_append, List.append_assoc, List.head?_append_of_ne_nil _ hne]
  have hlength : (Text.bytes ("#undef" ++ operand ++ ending)).length =
      6 + (Text.bytes (operand ++ ending)).length := by
    rw [String.append_assoc, Text.bytes_append "#undef", List.length_append]
    rfl
  have hscan : Lexeme.scanFrom r.closeAnglesOnly r.lineStart top.missing hash
      (undefWord ++ (Text.bytes (operand ++ ending) ++ more)) = _ :=
    (if_pos h.lineStart).trans (directive_undef hhead)
  rw [hline] at hscan
  have hlacks : top.lacks (6 + (Text.bytes (operand ++ ending)).length +
      Lexeme.aheadOf (decide (ending = "\n"))) = false := by
    rw [Frame.lacks, hrest, List.length_append, hlength]
    rcases hending with rfl | ⟨-, -, hmissing⟩
    · simp [Lexeme.aheadOf]
    · simp [hmissing]
  refine ⟨top, below, ending, _, hframes, hending.imp_right And.left,
    (step_eq_take hframes hrest').trans
      (take_eq_deal_of_lacks hrest' hscan (Nat.add_pos_left (by decide) _) hlacks), rfl, rfl, ?_⟩
  show top.rest.take (6 + (Text.bytes (operand ++ ending)).length) = _
  rw [← hlength, hrest, List.take_left]

/-- A directive that takes a macro away takes the first word of its operand out of the table. -/
theorem perform_undefine (hregister : r.registerDefines = true) (top : Frame) (text : String) {bs : Bytes}
    {offset : Nat} (hoperand : bs.drop offset = Text.bytes operand) :
    r.perform top text bs (.undefine offset) =
      .ok { r with macros := ((Text.firstWord? operand).map r.macros.erase).getD r.macros } := by
  simp only [perform, if_pos hregister, hoperand, Text.ofBytes?_bytes, Halt.require_some, bind, Except.bind]
  cases Text.firstWord? operand <;> rfl

/-- An `#undef` directive is read as one token, and all that it does beyond that is to take the first word
behind it out of the table. -/
theorem AtLine.readToken_erases (h : r.AtLine ("#undef" ++ operand))
    (hends : ∀ b ∈ (Text.bytes operand).head?, isWordByte b = false) (hspaced : operand ≠ "")
    (hregister : r.registerDefines = true) :
    ∃ t r', r.readToken = .ok (t, r') ∧ t.kind = .directive ∧
      r'.macros = ((Text.firstWord? operand).map r.macros.erase).getD r.macros := by
  obtain ⟨top, below, ending, scan, hframes, hending, hstep, hkind, heffect, htaken⟩ :=
    h.step_undef hends hspaced
  have hoperand : (top.rest.take scan.len).drop 6 = Text.bytes (operand ++ ending) := by
    rw [htaken, String.append_assoc, Text.bytes_append, ← show (Text.bytes "#undef").length = 6 by decide,
      List.drop_left]
  have hword : Text.firstWord? (operand ++ ending) = Text.firstWord? operand := by
    have hblank : ∀ c ∈ ending.toList, Text.isWhiteSpace c = true := by
      have hnewline : Text.isWhiteSpace '\n' = true := by decide
      rcases hending with rfl | rfl
      · simpa using hnewline
      · simp
    have hsurrounded := Text.firstWord?_surrounded "" operand ending (by simp) hblank
    rwa [String.empty_append] at hsurrounded
  have hperform := perform_undefine (r := r.behind scan top below) hregister top
    ("#undef" ++ operand ++ ending) hoperand
  rw [hword] at hperform
  refine ⟨⟨r.locOf top, .directive, "#undef" ++ operand ++ ending⟩,
    { r.behind scan top below with
      macros := ((Text.firstWord? operand).map r.macros.erase).getD r.macros },
    readToken_eq_ok_iff.2 ⟨r, .refl r, hstep.trans ?_⟩, rfl, rfl⟩
  rw [deal, hkind, heffect, Text.ofBytes?_eq_some_iff.2 htaken.symm]
  simp only [Halt.require_some, hperform, bind, Except.bind]
  rfl

/-- What an `#undef` directive leaves in the table of macros is all but the first word of its line.  So it
takes away a macro with the name that the line goes on with, and no other one, if and only if there is no
white space in the name and some behind it, or nothing. -/
theorem readToken_undef (hregister : r.registerDefines = true) (hname : name ≠ "")
    (hline : r.AtLine ("#undef " ++ name ++ operand)) :
    ∃ t r', r.readToken = .ok (t, r') ∧ t.kind = .directive ∧
      (∀ other, r'.macros.find? other =
        if Text.firstWord? (name ++ operand) = some other then none else r.macros.find? other) ∧
      (r.isDefined name = true →
        ((r'.isDefined name = false ∧ ∀ other, other ≠ name → r'.macros.find? other = r.macros.find? other) ↔
          (∀ c ∈ name.toList, Text.isWhiteSpace c = false) ∧
            ∀ c ∈ operand.toList.head?, Text.isWhiteSpace c = true)) := by
  have hspace : Text.isWhiteSpace ' ' = true := by decide
  have hword : Text.firstWord? (" " ++ (name ++ operand)) = Text.firstWord? (name ++ operand) := by
    have hsurrounded := Text.firstWord?_surrounded " " (name ++ operand) ""
      (by simpa using hspace) (by simp)
    rwa [String.append_empty] at hsurrounded
  have hsplit : "#undef " ++ name ++ operand = "#undef" ++ (" " ++ (name ++ operand)) := by
    rw [show "#undef " = "#undef" ++ " " by decide]
    simp only [String.append_assoc]
  rw [hsplit] at hline
  have hends : ∀ b ∈ (Text.bytes (" " ++ (name ++ operand))).head?, isWordByte b = false := by
    rw [Text.bytes_append, show Text.bytes " " = [32] by decide, List.singleton_append]
    simp [show isWordByte 32 = false by decide]
  obtain ⟨t, r', hread, hkind, hmacros⟩ := hline.readToken_erases hends (by simp) hregister
  rw [hword] at hmacros
  have hfind : ∀ other, r'.macros.find? other =
      if Text.firstWord? (name ++ operand) = some other then none else r.macros.find? other := by
    intro other
    rw [hmacros]
    cases hfirst : Text.firstWord? (name ++ operand) with
    | none => simp
    | some word =>
      simp only [Option.map_some, Option.getD_some, Option.some.injEq]
      split
      next heq => rw [heq, MacroTable.find?_erase_self]
      next hne => exact MacroTable.find?_erase _ (Ne.symm hne)
  refine ⟨t, r', hread, hkind, hfind, fun hdefined => ?_⟩
  rw [← Text.firstWord?_append_eq_some_iff hname]
  constructor
  · rintro ⟨hundefined, -⟩
    by_contra hother
    rw [isDefined, hfind, if_neg hother] at hundefined
    rw [isDefined, hundefined] at hdefined
    cases hdefined
  · intro hfirst
    refine ⟨by rw [isDefined, hfind, if_pos hfirst]; rfl, fun other hne => ?_⟩
    rw [hfind, hfirst, if_neg fun heq => hne (Option.some.inj heq).symm]

/-- A reader of one frame is at a line if its text is next. -/
theorem atLine_of_rest {line after : String} (hstart : r.lineStart = true)
    (hframes : r.frames.map Frame.rest = [Text.bytes (line ++ "\n" ++ after)])
    (hsingle : '\n' ∉ line.toList) :
    r.AtLine line := by
  obtain ⟨top, below, hframes, hrest, -⟩ := List.map_eq_cons_iff.1 hframes
  exact ⟨hstart, ⟨top, below, "\n", Text.bytes after, hframes, by rw [hrest, Text.bytes_append], .inl rfl⟩,
    hsingle⟩

end Reader

/-- A definition, and a directive that takes it away and goes on with other words. -/
def undefinedWithWords : String := "#define A 1\n#undef A of no use\nA"

theorem readToken_undef_undefinedWithWords : ∃ first r t r',
    ((Reader.new .empty {}).push "a.h" undefinedWithWords).2.readToken = .ok (first, r) ∧
    r.isDefined "A" = true ∧ r.AtLine ("#undef " ++ "A" ++ " of no use") ∧
    r.readToken = .ok (t, r') ∧ r'.isDefined "A" = false := by
  have hall : ((Reader.new .empty {}).push "a.h" undefinedWithWords).2.readToken.toOption.map
      (fun result => (result.2.isDefined "A", result.2.registerDefines, result.2.lineStart,
        result.2.frames.map Frame.rest)) =
      some (true, true, true, [Text.bytes ("#undef A of no use" ++ "\n" ++ "A")]) := by
    decide +kernel
  obtain ⟨⟨first, r⟩, hfirst, hshown⟩ := Halt.of_toOption_map hall
  simp only [Prod.mk.injEq] at hshown
  obtain ⟨hdefined, hregister, hstart, hframes⟩ := hshown
  have hline : r.AtLine ("#undef " ++ "A" ++ " of no use") :=
    Reader.atLine_of_rest hstart hframes (by decide)
  obtain ⟨t, r', hread, -, -, hiff⟩ := Reader.readToken_undef hregister (by decide) hline
  have hplain : Text.isWhiteSpace 'A' = false := by decide
  have hblank : Text.isWhiteSpace ' ' = true := by decide
  obtain ⟨hundefined, -⟩ := (hiff hdefined).2 ⟨by simpa using hplain, by simpa using hblank⟩
  exact ⟨first, r, t, r', hfirst, hdefined, hline, hread, hundefined⟩

/-- A definition, and a directive that is to take it away, each with a comment behind the name. -/
def undefinedWithComment : String := "#define A/**/\n#undef A/**/\n"

/-- The comment is no part of the name that is defined, but it is part of the word that is taken away. -/
theorem undef_keeps_macro : ∃ first r t r',
    ((Reader.new .empty {}).push "a.h" undefinedWithComment).2.readToken = .ok (first, r) ∧
    r.isDefined "A" = true ∧ r.registerDefines = true ∧
    r.AtLine ("#undef " ++ "A" ++ "/**/") ∧ r.readToken = .ok (t, r') ∧ r'.isDefined "A" = true := by
  have hall : ((Reader.new .empty {}).push "a.h" undefinedWithComment).2.readToken.toOption.map
      (fun result => (result.2.isDefined "A", result.2.registerDefines, result.2.lineStart,
        result.2.frames.map Frame.rest)) =
      some (true, true, true, [Text.bytes ("#undef A/**/" ++ "\n" ++ "")]) := by
    decide +kernel
  have hboth : ((((Reader.new .empty {}).push "a.h" undefinedWithComment).2.readToken.bind
      fun result => result.2.readToken).toOption.map fun result => result.2.isDefined "A") = some true := by
    decide +kernel
  obtain ⟨⟨first, r⟩, hfirst, hshown⟩ := Halt.of_toOption_map hall
  simp only [Prod.mk.injEq] at hshown
  obtain ⟨hdefined, hregister, hstart, hframes⟩ := hshown
  rw [hfirst] at hboth
  obtain ⟨⟨t, r'⟩, hread, hkept⟩ := Halt.of_toOption_map hboth
  exact ⟨first, r, t, r', hfirst, hdefined, hregister,
    Reader.atLine_of_rest hstart hframes (by decide), hread, hkept⟩

end CppDecl
