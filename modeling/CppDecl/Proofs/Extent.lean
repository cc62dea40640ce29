import CppDecl.Proofs.Ranges

/-!
# How far a definition goes

The operand of a `#define` directive goes to the end of the line, and the line may be continued: a
newline does not end it if there is a backslash in front of it, with nothing but carriage returns
and newlines between (`Lexeme.escapes`).  So the directive ends right behind the first newline that
is not escaped, or it takes all that is left to be read.  The reader then stands at the start of a
line (`definition_extent`).

A newline that follows on a continued line is escaped as well.  As long as there is none, a newline
goes on with the line just if there is a backslash in front of it and nothing but carriage returns
between (`Lexeme.continues`).  With an empty line behind a continued one that is not so, and the
line after it is part of the definition too (`definition_beyond_empty_line`).
-/

namespace CppDecl

open Byte

/-! ## Lines -/

namespace Lexeme

/-- Whether the last byte is a backslash, apart from bytes of some kind. -/
def endsInBackslash (passed : UInt8 → Bool) (bs : Bytes) : Bool :=
  (bs.reverse.dropWhile passed).head? == some backslash

/-- Whether these bytes make the newline behind them a continuation: they end with a backslash and
carriage returns. -/
def continues (bs : Bytes) : Bool := endsInBackslash (· == carriageReturn) bs

/-- Whether these bytes escape the newline behind them: they end with a backslash, carriage returns
and newlines. -/
def escapes (bs : Bytes) : Bool :=
  endsInBackslash (fun b => b == newline || b == carriageReturn) bs

/-- Each newline goes on with the line in front of it. -/
def OneLine (goesOn : Bytes → Bool) (bs : Bytes) : Prop :=
  ∀ before after, bs = before ++ newline :: after → goesOn before = true

/-- The bytes are those up to and with the first newline that does not go on with the line, and if
there is none, they are all. -/
def Extent (goesOn : Bytes → Bool) (operand rest : Bytes) : Prop :=
  (∃ line, operand = line ++ [newline] ∧ OneLine goesOn line ∧ goesOn line = false) ∨
    OneLine goesOn operand ∧ rest = []

/-- No newline follows on another one, with nothing but carriage returns between. -/
def NoneEmpty (bs : Bytes) : Prop :=
  ∀ rest ∈ bs.tails, rest.head? = some newline →
    (rest.tail.dropWhile (· == carriageReturn)).head? ≠ some newline

instance (bs : Bytes) : Decidable (NoneEmpty bs) :=
  inferInstanceAs (Decidable (∀ rest ∈ bs.tails, _))

variable {goesOn : Bytes → Bool} {bs front operand rest : Bytes} {b : UInt8}

theorem endsInBackslash_snoc (passed : UInt8 → Bool) (bs : Bytes) (b : UInt8) :
    endsInBackslash passed (bs ++ [b]) =
      if passed b then endsInBackslash passed bs else b == backslash := by
  simp only [endsInBackslash, List.reverse_append, List.reverse_singleton, List.singleton_append,
    List.dropWhile_cons]
  split <;> simp

theorem escapes_snoc (bs : Bytes) (b : UInt8) :
    escapes (bs ++ [b]) =
      if b = newline || b = carriageReturn then escapes bs else b == backslash :=
  endsInBackslash_snoc _ bs b

theorem continues_snoc (bs : Bytes) (b : UInt8) :
    continues (bs ++ [b]) = if b = carriageReturn then continues bs else b == backslash := by
  simpa [continues] using endsInBackslash_snoc (· == carriageReturn) bs b

theorem oneLine_nil : OneLine goesOn [] := by
  intro before after h
  simp at h

theorem OneLine.snoc (h : OneLine goesOn bs) (hb : b = newline → goesOn bs = true) :
    OneLine goesOn (bs ++ [b]) := by
  intro before after heq
  rcases List.eq_nil_or_concat after with rfl | ⟨after, last, rfl⟩
  · obtain ⟨rfl, hlast⟩ := List.append_inj' heq rfl
    exact hb (List.singleton_inj.1 hlast)
  · rw [List.concat_eq_append, ← List.cons_append, ← List.append_assoc] at heq
    exact h before after (List.append_inj' heq rfl).1

/-- The extent of an operand whose first bytes have been looked at. -/
theorem extent_definitionLine (hfront : OneLine escapes front) (bs : Bytes) :
    Extent escapes (front ++ bs.take (definitionLine (escapes front) bs).1)
      (bs.drop (definitionLine (escapes front) bs).1) := by
  induction bs generalizing front with
  | nil =>
    rw [definitionLine, List.take_nil, List.append_nil]
    exact .inr ⟨hfront, rfl⟩
  | cons b bs ih =>
    rw [definitionLine]
    split
    next hend =>
      obtain ⟨rfl, hopen⟩ : b = newline ∧ escapes front = false := by simpa using hend
      exact .inl ⟨front, rfl, hfront, hopen⟩
    next hmore =>
      have hline : OneLine escapes (front ++ [b]) :=
        hfront.snoc fun hb => by simpa [hb] using hmore
      have hrest := ih hline
      rw [escapes_snoc] at hrest
      simpa using hrest

/-- A continuation is escaped. -/
theorem escapes_of_continues (h : continues bs = true) : escapes bs = true := by
  induction bs using List.reverseRecOn with
  | nil => exact h
  | append_singleton bs b ih =>
    rw [continues_snoc] at h
    rw [escapes_snoc]
    by_cases hreturn : b = carriageReturn
    · rw [if_pos hreturn] at h
      rw [if_pos (by simp [hreturn])]
      exact ih h
    · rw [if_neg hreturn, beq_iff_eq] at h
      rw [h]
      rfl

/-- What is escaped is a continuation, or it follows on another newline. -/
theorem continues_of_escapes (h : escapes bs = true) : continues bs = true ∨
    ∃ before returns, bs = before ++ newline :: returns ∧ ∀ b ∈ returns, b = carriageReturn := by
  induction bs using List.reverseRecOn with
  | nil => exact .inl h
  | append_singleton bs b ih =>
    rw [escapes_snoc] at h
    rw [continues_snoc]
    by_cases hreturn : b = carriageReturn
    · rw [if_pos (by simp [hreturn])] at h
      rw [if_pos hreturn]
      rcases ih h with hcontinues | ⟨before, returns, rfl, hreturns⟩
      · exact .inl hcontinues
      · refine .inr ⟨before, returns ++ [b], by simp, fun c hc => ?_⟩
        rcases List.mem_append.1 hc with hc | hc
        · exact hreturns c hc
        · exact (List.mem_singleton.1 hc).trans hreturn
    · by_cases hnewline : b = newline
      · exact .inr ⟨bs, [], by rw [hnewline], List.forall_mem_nil _⟩
      · rw [if_neg (by simp [hnewline, hreturn])] at h
        rw [if_neg hreturn]
        exact .inl h

/-- As long as no line is empty, the newlines that are escaped are the continuations. -/
theorem Extent.continues (h : Extent escapes operand rest) (hnone : NoneEmpty operand) :
    Extent continues operand rest := by
  have hline : ∀ {line end_ : Bytes}, OneLine escapes line → operand = line ++ end_ →
      OneLine Lexeme.continues line := by
    intro line end_ hescaped hoperand before after heq
    refine (continues_of_escapes (hescaped before after heq)).resolve_right ?_
    rintro ⟨first, returns, rfl, hreturns⟩
    have hempty : newline :: (returns ++ newline :: (after ++ end_)) ∈ operand.tails :=
      (List.mem_tails _ _).2 ⟨first, by simp [hoperand, heq]⟩
    refine hnone _ hempty rfl ?_
    rw [List.tail_cons, List.dropWhile_append_of_pos fun b hb => by simp [hreturns b hb]]
    rfl
  rcases h with ⟨line, hoperand, hescaped, hopen⟩ | ⟨hescaped, hrest⟩
  · refine .inl ⟨line, hoperand, hline hescaped hoperand, Bool.eq_false_iff.2 fun hcontinues => ?_⟩
    rw [escapes_of_continues hcontinues] at hopen
    cases hopen
  · exact .inr ⟨hline hescaped (List.append_nil operand).symm, hrest⟩

/-! ## Directives -/

/-- The bytes of the word `define`. -/
def defineWord : Bytes := Text.spelled "define".toList

theorem isWordByte_defineWord : ∀ b ∈ defineWord, isWordByte b = true := by decide +kernel

theorem defineWord_ne_nil : defineWord ≠ [] := by decide +kernel

/-- The bytes of a `#define` directive with its operand.  Blanks may stand around the name, but no
newline in front of it. -/
structure Defines (bs operand : Bytes) : Prop where
  /-- The operand follows on the name. -/
  spelled : ∃ gap : Bytes, bs = hash :: (gap ++ (defineWord ++ operand)) ∧
    ∀ b ∈ gap, isBlank b = true ∧ b ≠ newline
  /-- The name ends where the operand starts. -/
  ends : ∀ b ∈ operand.head?, isWordByte b = false

/-- The name of a directive is the word behind the `#`. -/
theorem directive_named {gap name bs : Bytes} (hgap : ∀ b ∈ gap, isBlank b = true ∧ b ≠ newline)
    (hname : ∀ b ∈ name, isWordByte b = true) (hne : name ≠ [])
    (hends : ∀ b ∈ bs.head?, isWordByte b = false) :
    directive (gap ++ (name ++ bs)) =
      namedDirective ((Text.ofBytes? name).getD "") (1 + gap.length) bs := by
  have hword : (name ++ bs).takeWhile isWordByte = name := by
    rw [List.takeWhile_append_of_pos hname]
    cases bs with
    | nil => simp
    | cons b bs => simp [hends b rfl]
  have hblank : (gap ++ (name ++ bs)).takeWhile isBlank = gap := by
    rw [List.takeWhile_append_of_pos fun b hb => (hgap b hb).1]
    cases name with
    | nil => exact absurd rfl hne
    | cons b name =>
      have hb : isBlank b = false := by
        refine Bool.eq_false_iff.2 fun hblank => ?_
        have hword := hname b List.mem_cons_self
        simp only [isBlank, Bool.or_eq_true, beq_iff_eq] at hblank
        rcases hblank with ((rfl | rfl) | rfl) | rfl <;> revert hword <;> decide
      simp [hb]
  have hline : gap.contains newline = false := by
    simpa using fun hmem => (hgap newline hmem).2 rfl
  unfold directive
  rw [hblank]
  simp only [hline, List.drop_left, hword]
  simp

/-- A `#define` directive. -/
theorem directive_define {gap bs : Bytes} (hgap : ∀ b ∈ gap, isBlank b = true ∧ b ≠ newline)
    (hends : ∀ b ∈ bs.head?, isWordByte b = false) :
    (directive (gap ++ (defineWord ++ bs))).len =
        1 + gap.length + defineWord.length + (definitionLine false bs).1 ∧
      (directive (gap ++ (defineWord ++ bs))).lineStart = true := by
  have hname : (Text.ofBytes? defineWord).getD "" = "define" := by
    refine Text.bytes_injective ((bytes_of_word fun b hb =>
      isAscii_of_isWordByte b (isWordByte_defineWord b hb)).trans ?_)
    decide +kernel
  rw [directive_named hgap isWordByte_defineWord defineWord_ne_nil hends, hname]
  exact ⟨rfl, rfl⟩

theorem head?_dropWhile (p : UInt8 → Bool) (bs : Bytes) : ∀ b ∈ (bs.dropWhile p).head?, p b = false := by
  intro b hb
  have hnot := List.head?_dropWhile_not p bs
  rw [hb] at hnot
  simpa using hnot

/-- A directive has its name and what stands in front of it. -/
theorem le_len_directive {gap name bs : Bytes} (hgap : ∀ b ∈ gap, isBlank b = true ∧ b ≠ newline)
    (hname : ∀ b ∈ name, isWordByte b = true) (hne : name ≠ [])
    (hends : ∀ b ∈ bs.head?, isWordByte b = false) :
    1 + gap.length + name.length ≤ (directive (gap ++ (name ++ bs))).len := by
  have hsize : ((Text.ofBytes? name).getD "").utf8ByteSize = name.length := by
    rw [← Text.length_bytes, bytes_of_word fun b hb => isAscii_of_isWordByte b (hname b hb)]
  rw [directive_named hgap hname hne hends]
  unfold namedDirective
  simp only [hsize]
  repeat' split
  all_goals exact Nat.le_add_right _ _

end Lexeme

/-! ## Reading -/

namespace Reader

open Lexeme (Defines Extent NoneEmpty continues directive escapes)

variable {r r' : Reader} {top : Frame} {below : List Frame} {t : Token} {operand : Bytes}

/-- A directive takes no frame off and puts none on top. -/
theorem Directed.frames_eq (h : r.Directed r') : r'.frames = r.frames ∧ r'.lineStart = r.lineStart := by
  cases h <;> exact ⟨rfl, rfl⟩

/-- A frame that reads a file directly has all of the file for its window. -/
theorem bytes_of_fileOf? {f : Frame} {w : Window} (hw : r.visited.window f.visit = .ok w) {file : Nat}
    (hfile : r.fileOf? f = some file) :
    ∃ source, r.visited.files.get? file = some source ∧ w.bytes = Text.bytes source.contents := by
  obtain ⟨source, hsource, rfl⟩ := window_of_fileOf? hw hfile
  exact ⟨source, hsource, Window.bytes_whole _⟩

/-- A step that gives a directive takes it from the top frame. -/
theorem Sound.step_directive (h : r.Sound) (hstep : r.step = .ok (some t, r'))
    (hkind : t.kind = .directive) : ∃ top below bs, r.frames = top :: below ∧
      top.rest = hash :: bs ∧ Text.bytes t.text = top.rest.take (directive bs).len ∧
      r'.frames = top.advance (directive bs).len :: below ∧
      r'.lineStart = (directive bs).lineStart := by
  cases h.stepped hstep with
  | ended => cases hkind
  | @lexeme top below b bs _ _ hframes hrest hdealt =>
    cases hdealt with
    | name _ _ hread => rcases hread.token_eq with rfl | rfl <;> cases hkind
    | token hscan hbytes hperform =>
      subst hkind
      obtain ⟨rfl, hline⟩ := Lexeme.directive_of_scanFrom hscan
      have heq : Lexeme.scanFrom r.closeAnglesOnly r.lineStart 0 hash bs = directive bs := by
        rw [hline]
        rfl
      rw [heq] at hbytes hperform
      obtain ⟨w, hw, hreads⟩ := h.window hframes
      have hfits : (directive bs).Fits top.rest := by
        rw [hrest]
        exact Lexeme.fits_directive bs
      obtain ⟨_, hperform', hdirected⟩ :=
        perform_directed (r := r.behind (directive bs) top below) hw hreads hfits _
      rw [hperform] at hperform'
      cases hperform'
      exact ⟨top, below, bs, hframes, hrest, hbytes, hdirected.frames_eq⟩

/-- A `#define` directive ends where its operand does. -/
theorem extent_directive {bs : Bytes}
    (hdefines : Defines ((hash :: bs).take (directive bs).len) operand) :
    Extent escapes operand ((hash :: bs).drop (directive bs).len) ∧
      (directive bs).lineStart = true := by
  obtain ⟨⟨gap, htake, hgap⟩, hends⟩ := hdefines
  have hlen : (directive bs).len = 1 + gap.length + Lexeme.defineWord.length + operand.length := by
    have hlength := congrArg List.length htake
    rw [List.length_take, Nat.min_eq_left (Lexeme.fits_directive bs).le] at hlength
    simp only [List.length_cons, List.length_append] at hlength
    omega
  have hbs : bs = gap ++ (Lexeme.defineWord ++ (operand ++ (hash :: bs).drop (directive bs).len)) := by
    have hall := List.take_append_drop (directive bs).len (hash :: bs)
    rw [htake] at hall
    simpa using (List.cons.inj hall).2.symm
  generalize hrest : (hash :: bs).drop (directive bs).len = rest at hbs ⊢
  have hends' : ∀ b ∈ (operand ++ rest).head?, isWordByte b = false := by
    cases operand with
    | cons b operand => exact hends
    | nil =>
      -- a longer name would be part of the directive
      intro b hb
      refine Bool.eq_false_iff.2 fun hword => ?_
      have hname : ∀ c ∈ Lexeme.defineWord ++ rest.takeWhile isWordByte, isWordByte c = true := by
        refine List.forall_mem_append.2 ⟨Lexeme.isWordByte_defineWord, fun c hc => ?_⟩
        exact List.all_eq_true.1 List.all_takeWhile c hc
      have hlonger := Lexeme.le_len_directive hgap hname (by simp [Lexeme.defineWord_ne_nil])
        (Lexeme.head?_dropWhile isWordByte rest)
      have hall : gap ++ (Lexeme.defineWord ++ rest.takeWhile isWordByte ++
          rest.dropWhile isWordByte) = bs := by
        rw [List.append_assoc, List.takeWhile_append_dropWhile]
        exact hbs.symm
      rw [hall, hlen, List.length_append, List.length_nil] at hlonger
      cases rest with
      | nil => cases hb
      | cons c rest =>
        cases hb
        rw [List.takeWhile_cons_of_pos hword, List.length_cons] at hlonger
        omega
  obtain ⟨hlen', hline⟩ := Lexeme.directive_define hgap hends'
  rw [← hbs] at hlen' hline
  have hextent := Lexeme.extent_definitionLine Lexeme.oneLine_nil (operand ++ rest)
  rw [List.nil_append, show escapes [] = false from rfl,
    show (Lexeme.definitionLine false (operand ++ rest)).1 = operand.length by omega,
    List.take_left, List.drop_left] at hextent
  exact ⟨hextent, hline⟩

/-- A `#define` directive that is read ends where its operand does. -/
theorem Sound.readToken_define (h : r.Sound) (hread : r.readToken = .ok (t, r'))
    (hkind : t.kind = .directive) (hdefines : Defines (Text.bytes t.text) operand) :
    ∃ top below w before, r'.frames = top :: below ∧ r'.lineStart = true ∧
      r'.visited.window top.visit = .ok w ∧
      w.bytes = before ++ (Text.bytes t.text ++ top.rest) ∧ Extent escapes operand top.rest := by
  obtain ⟨q, hskips, hstep⟩ := readToken_eq_ok_iff.1 hread
  have hq := (hskips.keeps (P := fun _ => True) (fun _ _ _ => trivial) h trivial).1
  obtain ⟨top, below, bs, hframes, hrest, htext, hframes', hline⟩ := hq.step_directive hstep hkind
  obtain ⟨w, hw, hreads⟩ := hq.window hframes
  obtain ⟨_, _, heq, -, hmove⟩ := hq.step
  rw [hstep] at heq
  cases heq
  have hwindow := hmove.visited.1.window hw
  rw [htext, hrest] at hdefines
  obtain ⟨hextent, hstart⟩ := extent_directive hdefines
  refine ⟨_, below, w, w.bytes.take (top.pos - top.start), hframes', hline.trans hstart, hwindow, ?_, ?_⟩
  · rw [htext]
    show w.bytes = _ ++ (_ ++ top.rest.drop (directive bs).len)
    rw [List.take_append_drop, hreads.rest_eq, List.take_append_drop]
  · show Extent escapes operand (top.rest.drop (directive bs).len)
    rw [hrest]
    exact hextent

end Reader

/-- Wherever a `#define` directive is read, in a source or in the text of a macro, it ends behind
the first newline of its operand that is not escaped, or it takes the rest of the text.  If no
continued line is empty, that is the first newline that is no continuation.  What is behind it is
read from the start of a line on. -/
theorem definition_extent (config : Configuration) (path source : String) {choices : List Bool}
    {tokens : List Token} {choice : Bool} {r r' : Reader} {t : Token} {operand : Bytes}
    (hmany : ((Reader.new .empty config).push path source).2.readChoosing choices = .ok (tokens, r))
    (hread : (r.withAngles choice).readToken = .ok (t, r')) (hkind : t.kind = .directive)
    (hdefines : Lexeme.Defines (Text.bytes t.text) operand) :
    ∃ top below w before, r'.frames = top :: below ∧ r'.lineStart = true ∧
      r'.visited.window top.visit = .ok w ∧
      w.bytes = before ++ (Text.bytes t.text ++ top.rest) ∧
      ((r'.fileOf? top).isSome = true → w.bytes = Text.bytes source) ∧
      Lexeme.Extent Lexeme.escapes operand top.rest ∧
      (Lexeme.NoneEmpty operand → Lexeme.Extent Lexeme.continues operand top.rest) := by
  have hsound := Reader.sound_pushed config path source
  obtain ⟨_, _, hmany', -, hr, -, hfiles, -⟩ := hsound.readChoosing choices
  rw [hmany] at hmany'
  cases hmany'
  have hr' := hr.withAngles choice
  obtain ⟨top, below, w, before, hframes, hline, hw, hbytes, hextent⟩ :=
    hr'.readToken_define hread hkind hdefines
  have hfiles' := hr'.files_of_readToken hread
  refine ⟨top, below, w, before, hframes, hline, hw, hbytes, fun hfile => ?_, hextent,
    hextent.continues⟩
  obtain ⟨file, hfile⟩ := Option.isSome_iff_exists.1 hfile
  obtain ⟨f, hf, heq⟩ := Reader.bytes_of_fileOf? hw hfile
  rw [heq, Reader.files_pushed config path source file f (hfiles ▸ hfiles' ▸ hf)]

/-- A definition on two lines, and a use of it. -/
def definitionOnTwoLines : String := "#define A 1 + \\\n  2\nA"

theorem definition_extent_definitionOnTwoLines : ∃ t r' top below,
    ((Reader.new .empty {}).push "test.h" definitionOnTwoLines).2.readToken = .ok (t, r') ∧
    t.text = "#define A 1 + \\\n  2\n" ∧ r'.frames = top :: below ∧ r'.lineStart = true ∧
    Lexeme.Extent Lexeme.continues (Text.spelled " A 1 + \\\n  2\n".toList) top.rest := by
  let reader := ((Reader.new .empty {}).push "test.h" definitionOnTwoLines).2
  have hall : reader.readToken.toOption.map (fun result => (result.1.kind, result.1.text)) =
      some (.directive, "#define A 1 + \\\n  2\n") := by
    decide +kernel
  obtain ⟨⟨t, r'⟩, hread, hsame⟩ := Halt.of_toOption_map hall
  obtain ⟨hkind, htext⟩ := Prod.mk.inj hsame
  have hdefines : Lexeme.Defines (Text.bytes t.text) (Text.spelled " A 1 + \\\n  2\n".toList) := by
    refine ⟨⟨[], ?_, List.forall_mem_nil _⟩, by decide +kernel⟩
    rw [show t.text = _ from htext]
    decide +kernel
  have hnone : Lexeme.NoneEmpty (Text.spelled " A 1 + \\\n  2\n".toList) := by decide +kernel
  have hmany : ((Reader.new .empty {}).push "test.h" definitionOnTwoLines).2.readChoosing [] =
      .ok ([], reader) := rfl
  have hread' : (reader.withAngles false).readToken = .ok (t, r') := hread
  obtain ⟨top, below, w, before, hframes, hline, -, -, -, -, hextent⟩ :=
    definition_extent {} "test.h" definitionOnTwoLines hmany hread' hkind hdefines
  exact ⟨t, r', top, below, hread, htext, hframes, hline, hextent hnone⟩

/-- A definition with an empty line behind a continued one, and a declaration. -/
def emptyLineInDefinition : String := "#define A \\\n\nint x;"

/-- The empty line ends with a newline that no backslash stands in front of, yet the declaration on
the line behind it is part of the definition. -/
theorem definition_beyond_empty_line : ∃ t r' top below operand,
    ((Reader.new .empty {}).push "test.h" emptyLineInDefinition).2.readToken = .ok (t, r') ∧
    t.kind = .directive ∧ Lexeme.Defines (Text.bytes t.text) operand ∧ r'.frames = top :: below ∧
    ¬ Lexeme.Extent Lexeme.continues operand top.rest := by
  let reader := ((Reader.new .empty {}).push "test.h" emptyLineInDefinition).2
  have hall : reader.readToken.toOption.map (fun result =>
      (result.1.kind, result.1.text, result.2.frames.map Frame.rest)) =
      some (.directive, emptyLineInDefinition, [[]]) := by
    decide +kernel
  obtain ⟨⟨t, r'⟩, hread, hsame⟩ := Halt.of_toOption_map hall
  obtain ⟨hkind, hsame⟩ := Prod.mk.inj hsame
  obtain ⟨htext, hframes⟩ := Prod.mk.inj hsame
  obtain ⟨top, below, hframes', hrest, -⟩ := List.map_eq_cons_iff.1 hframes
  refine ⟨t, r', top, below, Text.spelled " A \\\n\nint x;".toList, hread, hkind,
    ⟨⟨[], ?_, List.forall_mem_nil _⟩, by decide +kernel⟩, hframes', ?_⟩
  · rw [show t.text = _ from htext]
    decide +kernel
  · rintro (⟨line, hline, -⟩ | ⟨hline, -⟩)
    · have hlast := congrArg List.getLast? hline
      rw [List.getLast?_concat] at hlast
      exact absurd hlast (by decide +kernel)
    · have hnewline := hline (Text.spelled " A \\\n".toList) (Text.spelled "int x;".toList)
        (by decide +kernel)
      exact absurd hnewline (by decide +kernel)

end CppDecl
