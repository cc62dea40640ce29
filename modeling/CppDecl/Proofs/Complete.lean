import CppDecl.Proofs.Effects

/-!
# Trees without faults

If no error is reported for a source, its tree is complete: brackets are closed, and declarations end
with their semicolons (`parse_ended`).  Outside of trials the first fault of the grammar is always
reported, so without reports there was no fault at all, and without faults all parts are ended.

Lists of template arguments are the exception.  One that is cut off by a bracket of a rule further
out is left without its closing bracket, and that is no fault (`parse_unclosed`).
-/

namespace CppDecl

open Session (Past)

variable {s : Session}

/-- Without reports there was no fault, or so many that their count has wrapped around. -/
theorem Session.Past.rawErrors_of_new {reader : Reader} {budget passNumber : Nat} {ts : List Token}
    {sc : List OpenScope} {ps : List Part} {W : Concern}
    (h : Past W (Session.new reader budget passNumber) ts sc ps s) (hfew : s.rawErrors < countRange)
    (hnone : s.reportedErrors = 0) : s.rawErrors = 0 :=
  h.steady.reported hfew rfl rfl hnone

/-- If no fault is reported, all parts of the tree are ended. -/
theorem runGrammar_ended {reader : Reader} {budget passNumber : Nat} {unit : TranslationUnit}
    (hsound : reader.Sound) (hrun : runGrammar budget passNumber reader Grammar.unit = .ok (unit, s))
    (hfew : s.rawErrors < countRange) (hnone : s.reportedErrors = 0) :
    ∀ part ∈ unit.parts, part.Ended := by
  obtain ⟨us, ps, hpast, hparts, -⟩ := Grammar.unit_leads (Grammar.run_effects budget)
    ⟨Session.orderly_new hsound budget passNumber, False.elim⟩ unit s hrun
  intro part hpart
  exact hpast.ended (hpast.rawErrors_of_new hfew hnone) part (hparts hpart)

/-- If no error is counted, all that is open in the tree is closed, and declarations that need a
semicolon have it, but for lists of template arguments that are cut off.  The counts of errors must
not have wrapped around. -/
theorem parse_ended (config : Configuration) (path source : String) (parsed : Parsed)
    (hparse : parse config path source = .ok parsed) (hcounted : parsed.session.Counted)
    (hnone : parsed.errorCount = 0) : ∀ part ∈ parsed.unit.parts, part.Ended := by
  obtain ⟨⟨unit, s⟩, hrun, hparsed⟩ := Halt.bind_eq_ok hparse
  cases hparsed
  have hall : s.allErrors = 0 := (Nat.mod_eq_of_lt hcounted.all).symm.trans hnone
  exact runGrammar_ended (Reader.sound_pushed config path source) hrun hcounted.raw
    (Nat.add_eq_zero_iff.1 hall).1

/-- A source with many brackets, all of them closed. -/
def closedBrackets : String :=
  "namespace N \x7b enum E \x7b A, B \x7d; int f(Foo<int> x[2], E e) \x7b return x[0]; \x7d \x7d"

theorem parse_ended_closedBrackets : ∃ parsed, parse {} "test.h" closedBrackets = .ok parsed ∧
    parsed.session.Counted ∧ parsed.errorCount = 0 ∧ parsed.unit.parts.length = 8 ∧
    ∀ part ∈ parsed.unit.parts, part.Ended := by
  have hall : (parse {} "test.h" closedBrackets).toOption.map (fun parsed =>
      (decide parsed.session.Counted, parsed.errorCount, parsed.unit.parts.length)) =
      some (true, 0, 8) := by decide +kernel
  obtain ⟨parsed, hparse, hvalues⟩ := Halt.of_toOption_map hall
  obtain ⟨hcounted, hvalues⟩ := Prod.mk.inj hvalues
  obtain ⟨hnone, hlength⟩ := Prod.mk.inj hvalues
  have hcounted := of_decide_eq_true hcounted
  exact ⟨parsed, hparse, hcounted, hnone, hlength,
    parse_ended {} "test.h" closedBrackets parsed hparse hcounted hnone⟩

/-- A parameter whose template arguments are cut off by the parenthesis behind them. -/
def unclosedArguments : String := "void f(Foo<int);"

/-- Nothing is reported, but the list of template arguments is not closed. -/
theorem parse_unclosed : ∃ parsed, parse {} "test.h" unclosedArguments = .ok parsed ∧
    parsed.errorCount = 0 ∧ ∃ part ∈ parsed.unit.parts, part.isClosed = false := by
  have hall : (parse {} "test.h" unclosedArguments).toOption.map (fun parsed =>
      (parsed.errorCount, parsed.unit.parts.all Part.isClosed)) = some (0, false) := by decide +kernel
  obtain ⟨parsed, hparse, hvalues⟩ := Halt.of_toOption_map hall
  obtain ⟨hnone, hopen⟩ := Prod.mk.inj hvalues
  obtain ⟨part, hmem, hpart⟩ := List.all_eq_false.1 hopen
  exact ⟨parsed, hparse, hnone, part, hmem, Bool.eq_false_of_not_eq_true hpart⟩

end CppDecl
