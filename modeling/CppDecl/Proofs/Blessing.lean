import CppDecl.Proofs.Files
import CppDecl.Proofs.Visited
import CppDecl.Suite

/-!
# Blessing

To bless a case is to give its file the text that it should have.  What is split off as the source of
that text is the source of the case with its last line ended (`Case.split_render`), whatever the
diagnostics are, for no line of the source begins with dashes.  But the diagnostics are those of the
source as it was given.  So a case that was blessed passes if and only if ending the last line does not
change the diagnostics (`run_blessed`); it does when something is expected behind the last line, whose
end then is the start of the next one (`run_blessed_unended`).  A line is ended only once, so a case that
was blessed twice passes.
-/

namespace CppDecl

/-! ## Taking cases apart -/

namespace Case

variable {lineBegins : Bool} {cs longer more : List Char} {name r source : String}

/-- There is no newline among dashes, so dashes in front of a text are in front of its first line. -/
theorem dashes_isPrefixOf_of_append (h : dashes.isPrefixOf (cs ++ '\n' :: more) = true) :
    dashes.isPrefixOf cs = true := by
  rw [List.isPrefixOf_iff_prefix] at h ⊢
  rcases List.prefix_or_prefix_of_prefix h (List.prefix_append cs _) with hdashes | ⟨rest, hrest⟩
  · exact hdashes
  · cases rest with
    | nil =>
      rw [List.append_nil] at hrest
      exact hrest ▸ List.prefix_refl _
    | cons d rest =>
      rw [← hrest, List.prefix_append_right_inj, List.cons_prefix_cons] at h
      have hmem : '\n' ∈ dashes := by
        rw [← hrest, h.1]
        exact List.mem_append_right _ List.mem_cons_self
      exact absurd hmem (by decide)

/-- Dashes that are in front of part of a text are in front of the text. -/
theorem dashes_isPrefixOf_mono (h : cs <+: longer) (hdashes : dashes.isPrefixOf cs = true) :
    dashes.isPrefixOf longer = true :=
  List.isPrefixOf_iff_prefix.2 ((List.isPrefixOf_iff_prefix.1 hdashes).trans h)

/-- The source is in front. -/
theorem fst_cut_prefix (lineBegins : Bool) (cs : List Char) : (cut lineBegins cs).1 <+: cs := by
  induction cs generalizing lineBegins with
  | nil => exact List.prefix_refl _
  | cons c cs ih =>
    rw [cut]
    split
    · exact List.nil_prefix
    · exact List.cons_prefix_cons.2 ⟨rfl, ih _⟩

/-- No line of the source begins with dashes. -/
theorem cut_fst_cut (lineBegins : Bool) (cs : List Char) :
    cut lineBegins (cut lineBegins cs).1 = ((cut lineBegins cs).1, none) := by
  induction cs generalizing lineBegins with
  | nil => rfl
  | cons c cs ih =>
    rw [cut]
    split
    next => rfl
    next hdashes =>
      have hprefix : c :: (cut (c == '\n') cs).1 <+: c :: cs :=
        List.cons_prefix_cons.2 ⟨rfl, fst_cut_prefix _ _⟩
      rw [cut, if_neg, ih]
      rw [Bool.and_eq_true] at hdashes ⊢
      exact fun h => hdashes ⟨h.1, dashes_isPrefixOf_mono hprefix h.2⟩

/-- Cutting goes on behind lines that do not begin with dashes. -/
theorem cut_append_newline (h : cut lineBegins cs = (cs, none)) (more : List Char) :
    cut lineBegins (cs ++ '\n' :: more) = (cs ++ '\n' :: (cut true more).1, (cut true more).2) := by
  induction cs generalizing lineBegins with
  | nil =>
    rw [List.nil_append, cut, if_neg (by simp [dashes, List.isPrefixOf])]
    rfl
  | cons c cs ih =>
    rw [cut] at h
    split at h
    next => cases h
    next hdashes =>
      have hrest : cut (c == '\n') cs = (cs, none) := by
        simp only [Prod.mk.injEq, List.cons.injEq, true_and] at h
        exact Prod.ext h.1 h.2
      rw [List.cons_append, cut, if_neg, ih hrest]
      · rfl
      · rw [Bool.and_eq_true] at hdashes ⊢
        exact fun h' => hdashes ⟨h'.1, dashes_isPrefixOf_of_append h'.2⟩

/-- Lines that do not begin with dashes are still there without the newline behind them. -/
theorem cut_of_append_newline (h : cut lineBegins (cs ++ ['\n']) = (cs ++ ['\n'], none)) :
    cut lineBegins cs = (cs, none) := by
  induction cs generalizing lineBegins with
  | nil => rfl
  | cons c cs ih =>
    rw [List.cons_append, cut] at h
    split at h
    next => cases h
    next hdashes =>
      have hrest : cut (c == '\n') (cs ++ ['\n']) = (cs ++ ['\n'], none) := by
        simp only [Prod.mk.injEq, List.cons.injEq, true_and] at h
        exact Prod.ext h.1 h.2
      rw [cut, if_neg, ih hrest]
      rw [Bool.and_eq_true] at hdashes ⊢
      exact fun h' => hdashes ⟨h'.1, dashes_isPrefixOf_mono (List.prefix_append _ _) h'.2⟩

/-- The line of dashes is cut out. -/
theorem cut_dashes (more : List Char) : cut true (dashes ++ '\n' :: more) = ([], some more) := rfl

/-- A text is ended by ending its last line, if it has one. -/
theorem ended_cases (source : String) :
    (source = "" ∧ ended source = "") ∨
      ∃ lines, (ended source).toList = lines ++ ['\n'] ∧
        (source.toList = lines ++ ['\n'] ∨ source.toList = lines) := by
  unfold ended
  split
  next h =>
    rw [List.getLast?_eq_none_iff, String.toList_eq_nil_iff] at h
    exact .inl ⟨h, h⟩
  next h =>
    obtain ⟨lines, hlines⟩ := List.getLast?_eq_some_iff.1 h
    exact .inr ⟨lines, hlines, .inl hlines⟩
  next c _ _ => exact .inr ⟨source.toList, by rw [String.toList_append]; rfl, .inr rfl⟩

theorem ended_of_append_newline {lines : List Char} (h : source.toList = lines ++ ['\n']) :
    ended source = source := by
  unfold ended
  rw [h, List.getLast?_concat]
  rfl

theorem ended_ended (source : String) : ended (ended source) = ended source := by
  rcases ended_cases source with ⟨-, hended⟩ | ⟨lines, hended, -⟩
  · rw [hended]
    rfl
  · exact ended_of_append_newline hended

/-- The parts of a text that was written. -/
theorem cut_written (h : cut true source.toList = (source.toList, none)) (more : List Char) :
    cut true ((ended source).toList ++ (dashes ++ '\n' :: more)) = ((ended source).toList, some more) := by
  rcases ended_cases source with ⟨-, hended⟩ | ⟨lines, hended, hsource⟩
  · rw [hended]
    exact cut_dashes more
  · have hlines : cut true lines = (lines, none) := by
      rcases hsource with hsource | hsource
      · rw [hsource] at h
        exact cut_of_append_newline h
      · rwa [hsource] at h
    rw [hended, List.append_assoc, List.singleton_append, cut_append_newline hlines, cut_dashes]

theorem render_eq_ok_iff : render name source = .ok r ↔
    ∃ words, diagnostics name source = .ok words ∧
      r = ended source ++ String.ofList dashes ++ "\n" ++ words := by
  constructor
  · intro h
    obtain ⟨words, hwords, h⟩ := Halt.bind_eq_ok h
    exact ⟨words, hwords, (Except.ok.inj h).symm⟩
  · rintro ⟨words, hwords, rfl⟩
    rw [render, hwords]
    rfl

/-- The text that a case should have is that of a case with the same source, the last line of which is
ended. -/
theorem split_render {contents : String} (h : render name (split contents).source = .ok r) :
    ∃ words, diagnostics name (split contents).source = .ok words ∧
      split r = ⟨ended (split contents).source, some words⟩ := by
  obtain ⟨words, hwords, rfl⟩ := render_eq_ok_iff.1 h
  refine ⟨words, hwords, ?_⟩
  have hsource : cut true (split contents).source.toList = ((split contents).source.toList, none) := by
    simp only [split, String.toList_ofList]
    exact cut_fst_cut true contents.toList
  have hwritten : (ended (split contents).source ++ String.ofList dashes ++ "\n" ++ words).toList =
      (ended (split contents).source).toList ++ (dashes ++ '\n' :: words.toList) := by
    simp [List.append_assoc]
  generalize (split contents).source = source at hsource hwritten
  rw [split, hwritten, cut_written hsource]
  simp

/-- What a case should have is right for what it then has if and only if the diagnostics do not change
when the last line of the source is ended. -/
theorem render_split_iff {contents : String} (h : render name (split contents).source = .ok r) :
    render name (split r).source = .ok r ↔
      diagnostics name (ended (split contents).source) = diagnostics name (split contents).source := by
  obtain ⟨words, hwords, hsplit⟩ := split_render h
  obtain ⟨words', hwords', hr⟩ := render_eq_ok_iff.1 h
  have hsame : words' = words := Except.ok.inj (hwords'.symm.trans hwords)
  rw [hsame] at hr
  simp only [hsplit]
  rw [hwords, render_eq_ok_iff, ended_ended, hr]
  constructor
  · rintro ⟨again, hagain, heq⟩
    rwa [(String.append_right_inj _).1 heq]
  · intro hkept
    exact ⟨words, hkept, rfl⟩

end Case

/-! ## Running cases -/

namespace Case

/-- Runs the case in a file of a tree.  Gives how it turned out, and the tree afterwards. -/
def runIn (tree : FileTree) (path : String) (bless : Bool) : Except Failure Verdict × FileTree :=
  (Case.run (m := StateM FileTree) path bless).run.run tree

variable {tree tree' tree'' : FileTree} {path contents : String} {verdict verdict' : Verdict} {bless : Bool}

theorem run_textOf (tree : FileTree) (path : String) :
    (textOf path : StateM FileTree (Except FileFault String)).run tree = (tree.textOf path, tree) := by
  have hread : (MonadFiles.bytesOf path : StateM FileTree _).run tree = (tree.bytesOf path, tree) := rfl
  rw [textOf, StateT.run_bind, hread, FileTree.textOf]
  cases tree.bytesOf path with
  | error fault => rfl
  | ok bytes =>
    simp only [bind, Except.bind]
    cases Text.ofBytes? bytes <;> rfl

theorem run_replace (tree : FileTree) (path contents : String) :
    (MonadFiles.replace path contents : StateM FileTree (Except FileFault Unit)).run tree =
      match tree.replace path contents with
      | .ok tree' => (.ok (), tree')
      | .error fault => (.error fault, tree) := by
  show StateT.run (match tree.replace path contents with
    | .ok tree => do
      set tree
      return .ok ()
    | .error fault => return .error fault : StateM FileTree (Except FileFault Unit)) tree = _
  cases tree.replace path contents <;> rfl

theorem run_accessed {α : Type} (path : String) (access : StateM FileTree (Except FileFault α))
    (tree : FileTree) :
    (accessed path access).run.run tree =
      ((access.run tree).1.mapError (Failure.file path), (access.run tree).2) := by
  rw [accessed, ExceptT.run_bind, ExceptT.run_lift, StateT.run_bind, StateT.run_map]
  cases h : access.run tree with
  | mk answer tree' =>
    cases answer <;> rfl

/-- How a case turns out that has a text. -/
theorem runIn_of_text (h : tree.textOf path = .ok contents) (bless : Bool) :
    runIn tree path bless =
      match render (Text.fileName path) (split contents).source with
      | .error reason => (.error (.halted reason), tree)
      | .ok actual =>
        if actual = contents then (.ok .passed, tree)
        else if bless then
          match tree.replace path actual with
          | .ok tree' => (.ok .blessed, tree')
          | .error fault => (.error (.file path fault), tree)
        else (.ok (.failed contents actual), tree) := by
  have haccessed := run_accessed path (textOf path) tree
  rw [run_textOf, h] at haccessed
  rw [runIn, Case.run, ExceptT.run_bind, StateT.run_bind, haccessed]
  show StateT.run
    (ExceptT.run (answered (render (Text.fileName path) (split contents).source) >>= _)) tree = _
  cases render (Text.fileName path) (split contents).source with
  | error reason => rfl
  | ok actual =>
    show StateT.run (ExceptT.run (if actual = contents then pure .passed
      else if bless = true then do
        accessed path (MonadFiles.replace path actual)
        return .blessed
      else pure (.failed contents actual) : ExceptT Failure (StateM FileTree) Verdict)) tree = _
    simp only
    split
    · rfl
    · split
      · have hreplaced := run_accessed path (MonadFiles.replace path actual) tree
        rw [run_replace] at hreplaced
        rw [ExceptT.run_bind, StateT.run_bind, hreplaced]
        cases tree.replace path actual <;> rfl
      · rfl

theorem runIn_of_fault {fault : FileFault} (h : tree.textOf path = .error fault) (bless : Bool) :
    runIn tree path bless = (.error (.file path fault), tree) := by
  have haccessed := run_accessed path (textOf path) tree
  rw [run_textOf, h] at haccessed
  rw [runIn, Case.run, ExceptT.run_bind, StateT.run_bind, haccessed]
  rfl

/-- A case passes if and only if its file has the text that it should have. -/
theorem passes_iff (h : tree.textOf path = .ok contents) :
    runIn tree path false = (.ok .passed, tree) ↔
      render (Text.fileName path) (split contents).source = .ok contents := by
  rw [runIn_of_text h]
  cases render (Text.fileName path) (split contents).source with
  | error reason => simp
  | ok actual =>
    simp only [Except.ok.injEq]
    split
    next heq => simp [heq]
    next hne => simp [hne]

/-- A case that was blessed has the text that it should have had. -/
theorem textOf_of_runIn (h : runIn tree path true = (.ok verdict, tree')) :
    ∃ contents actual, tree.textOf path = .ok contents ∧
      render (Text.fileName path) (split contents).source = .ok actual ∧
      tree'.textOf path = .ok actual ∧ (verdict = .passed ∨ verdict = .blessed) := by
  cases htext : tree.textOf path with
  | error fault =>
    rw [runIn_of_fault htext] at h
    cases h
  | ok contents =>
    rw [runIn_of_text htext] at h
    cases hrender : render (Text.fileName path) (split contents).source with
    | error reason =>
      rw [hrender] at h
      cases h
    | ok actual =>
      rw [hrender] at h
      simp only [if_true] at h
      split at h
      next heq =>
        cases h
        exact ⟨contents, actual, rfl, hrender, by rw [htext, heq], .inl rfl⟩
      next =>
        obtain ⟨given, hgiven, hbytes⟩ :=
          FileTree.replace_of_bytesOf (FileTree.textOf_eq_ok_iff.1 htext) actual
        rw [hgiven] at h
        cases h
        exact ⟨contents, actual, rfl, hrender, FileTree.textOf_eq_ok_iff.2 hbytes, .inr rfl⟩

end Case

open Case

variable {tree tree' : FileTree} {path : String} {verdict : Verdict}

/-- A case that was blessed passes if and only if its diagnostics do not change when the last line of the
source is ended.  So it passes if the last line was ended, and if it was blessed twice. -/
theorem run_blessed (h : runIn tree path true = (.ok verdict, tree')) :
    ∃ contents actual, tree.textOf path = .ok contents ∧ tree'.textOf path = .ok actual ∧
      (verdict = .passed ∨ verdict = .blessed) ∧
      (split actual).source = ended (split contents).source ∧
      (runIn tree' path false = (.ok .passed, tree') ↔
        diagnostics (Text.fileName path) (ended (split contents).source) =
          diagnostics (Text.fileName path) (split contents).source) ∧
      (ended (split contents).source = (split contents).source →
        runIn tree' path false = (.ok .passed, tree')) ∧
      ∀ verdict' tree'', runIn tree' path true = (.ok verdict', tree'') →
        runIn tree'' path false = (.ok .passed, tree'') := by
  obtain ⟨contents, actual, hcontents, hrender, hactual, hverdict⟩ := textOf_of_runIn h
  obtain ⟨words, -, hsplit⟩ := split_render hrender
  have hiff : runIn tree' path false = (.ok .passed, tree') ↔ _ :=
    (passes_iff hactual).trans (render_split_iff hrender)
  refine ⟨contents, actual, hcontents, hactual, hverdict, congrArg Case.source hsplit, hiff,
    fun hended => hiff.2 (congrArg (diagnostics _) hended), fun verdict' tree'' hagain => ?_⟩
  obtain ⟨contents', actual', hcontents', hrender', hactual', -⟩ := textOf_of_runIn hagain
  obtain rfl : contents' = actual := Except.ok.inj (hcontents'.symm.trans hactual)
  rw [passes_iff hactual', render_split_iff hrender', hsplit, ended_ended]

/-- A working folder with one file. -/
def folderWith (path contents : String) : FileTree := .ofFiles [(path, Text.bytes contents)]

/-- A case that is not up to date.  The last line of its source is ended. -/
def outdated : String := "int x\n----- old\nstale"

/-- The same case when it is up to date. -/
def updated : String := "int x\n-----\nt.txt(2, 1): error: expected ';' before 'end-of-file'\n"

theorem run_blessed_outdated :
    runIn (folderWith "t.txt" outdated) "t.txt" true = (.ok .blessed, folderWith "t.txt" updated) ∧
    runIn (folderWith "t.txt" updated) "t.txt" false = (.ok .passed, folderWith "t.txt" updated) := by
  have hrun : runIn (folderWith "t.txt" outdated) "t.txt" true =
      (.ok .blessed, folderWith "t.txt" updated) := by
    decide +kernel
  have hcontents : (folderWith "t.txt" outdated).textOf "t.txt" = .ok outdated := by decide +kernel
  obtain ⟨contents, -, htext, -, -, -, -, hended, -⟩ := run_blessed hrun
  obtain rfl : contents = outdated := Except.ok.inj (htext.symm.trans hcontents)
  exact ⟨hrun, hended (by decide +kernel)⟩

/-- A case with a fault behind its last line, which is not ended. -/
def unended : String := "int x"

/-- In the source that was given, the fault is at the end of the first line, but in the one that was
written it is at the start of the second line. -/
theorem run_blessed_unended : ∃ tree',
    runIn (folderWith "t.txt" unended) "t.txt" true = (.ok .blessed, tree') ∧
    runIn tree' "t.txt" false = (.ok (.failed
      "int x\n-----\nt.txt(1, 6): error: expected ';' before 'end-of-file'\n" updated), tree') := by
  refine ⟨folderWith "t.txt" "int x\n-----\nt.txt(1, 6): error: expected ';' before 'end-of-file'\n", ?_, ?_⟩
  · decide +kernel
  · decide +kernel

end CppDecl
