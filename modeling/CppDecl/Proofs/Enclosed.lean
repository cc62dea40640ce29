import CppDecl.Proofs.Apart

/-!
# Template arguments of a tree

In the tree of any source, the tokens of closed template arguments stand between the brackets, also
where an argument could not be read as a type, and also where a closed list stands in one that is
cut off.

There is one exception.  Of an argument that is not there, as in `A<>`, the tree says that it begins
with the token that came next, and at the end of the arguments that is the closing bracket.
-/

namespace CppDecl

variable {s : Session}

/-- In the tree of any source, the tokens of closed template arguments stand between the brackets,
other than the one that a last argument of which nothing is there is said to begin with. -/
theorem templateArguments_enclosed (config : Configuration) (path source : String)
    {budget passNumber : Nat} {unit : TranslationUnit}
    (hrun : runGrammar budget passNumber ((Reader.new .empty config).push path source).2
      Grammar.unit = .ok (unit, s)) {openAngle closeAngle : Token} {args : List TemplateArgument}
    (hmem : .arguments openAngle closeAngle args ∈ unit.items) (hclosed : closeAngle.isPresent = true) :
    ∃ inner, (args = inner ∨ args = inner ++ [.unknown closeAngle .absent .absent]) ∧
      ∀ t, .token t ∈ items inner → t.isPresent = true →
        openAngle.loc < t.loc ∧ t.loc < closeAngle.loc := by
  have hsound := Reader.sound_pushed config path source
  have htidy := Session.tidy_new hsound (Reader.ordered_pushed config path source) budget passNumber
  have hcalls := Grammar.run_builds budget
  obtain ⟨us, -, hgained⟩ := Grammar.unit_listed htidy hrun
  exact hgained _ hmem hclosed

/-- How many arguments there are in each closed list of a tree. -/
def TranslationUnit.argumentCounts (unit : TranslationUnit) : List Nat :=
  unit.items.filterMap fun
    | .arguments _ closeAngle args => if closeAngle.isPresent then some args.length else none
    | _ => none

/-- Arguments that are types, and others, in lists that are closed and in one that is cut off. -/
def nestedArguments : String := "A<int (*)(B<c, 1 + 2>), (d), > x; int g(E<F<h>, 3);"

theorem templateArguments_enclosed_nested : ∃ unit s openAngle closeAngle args,
    runGrammar 400 1 ((Reader.new .empty {}).push "test.h" nestedArguments).2 Grammar.unit =
      .ok (unit, s) ∧ unit.argumentCounts = [3, 2, 1] ∧
    .arguments openAngle closeAngle args ∈ unit.items ∧ closeAngle.isPresent = true ∧ args.length = 3 ∧
    Enclosed openAngle closeAngle args := by
  have hall : (runGrammar 400 1 ((Reader.new .empty {}).push "test.h" nestedArguments).2
      Grammar.unit).toOption.map (fun result => result.1.argumentCounts) = some [3, 2, 1] := by
    decide +kernel
  obtain ⟨⟨unit, s⟩, hrun, hcounts⟩ := Halt.of_toOption_map hall
  have hmem : 3 ∈ unit.argumentCounts := by
    rw [show unit.argumentCounts = _ from hcounts]
    exact List.mem_cons_self
  obtain ⟨item, hitem, hcount⟩ := List.mem_filterMap.1 hmem
  cases item with
  | token t => cases hcount
  | block members => cases hcount
  | arguments openAngle closeAngle args =>
    obtain ⟨hclosed, hlength⟩ := Option.ite_none_right_eq_some.1 hcount
    exact ⟨unit, s, openAngle, closeAngle, args, hrun, hcounts, hitem, hclosed, Option.some.inj hlength,
      templateArguments_enclosed {} "test.h" nestedArguments hrun hitem hclosed⟩

/-- A template without arguments. -/
def noArguments : String := "A<> x;"

/-- The places of the closing bracket of a list of one argument, and of the token it begins with. -/
def TranslationUnit.startsOfOne (unit : TranslationUnit) : List (LinearLoc × LinearLoc) :=
  unit.items.filterMap fun
    | .arguments _ closeAngle [.unknown start _ _] =>
      if closeAngle.isPresent && start.isPresent then some (closeAngle.loc, start.loc) else none
    | _ => none

/-- The tree says that there is an argument, and that it begins with the closing bracket. -/
theorem templateArguments_not_between : ∃ unit s openAngle closeAngle args t,
    runGrammar 400 1 ((Reader.new .empty {}).push "test.h" noArguments).2 Grammar.unit =
      .ok (unit, s) ∧ .arguments openAngle closeAngle args ∈ unit.items ∧ closeAngle.isPresent = true ∧
    .token t ∈ items args ∧ t.isPresent = true ∧ ¬ t.loc < closeAngle.loc := by
  have hall : (runGrammar 400 1 ((Reader.new .empty {}).push "test.h" noArguments).2
      Grammar.unit).toOption.map (fun result => result.1.startsOfOne) = some [(2, 2)] := by
    decide +kernel
  obtain ⟨⟨unit, s⟩, hrun, hstarts⟩ := Halt.of_toOption_map hall
  have hmem : (2, 2) ∈ unit.startsOfOne := by
    rw [show unit.startsOfOne = _ from hstarts]
    exact List.mem_cons_self
  obtain ⟨item, hitem, hstart⟩ := List.mem_filterMap.1 hmem
  split at hstart
  next openAngle closeAngle start _ _ =>
    obtain ⟨hpresent, hlocs⟩ := Option.ite_none_right_eq_some.1 hstart
    obtain ⟨hclosed, hpresent⟩ := Bool.and_eq_true_iff.1 hpresent
    obtain ⟨hclose, hfirst⟩ := Prod.mk.inj (Option.some.inj hlocs)
    refine ⟨unit, s, openAngle, closeAngle, _, start, hrun, hitem, hclosed, ?_, hpresent, ?_⟩
    · simp [items, TemplateArgument.items]
    · rw [hclose, hfirst]
      exact lt_irrefl 2
  next => cases hstart

end CppDecl
