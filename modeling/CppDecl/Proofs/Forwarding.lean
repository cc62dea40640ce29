import CppDecl.Proofs.Effects
import CppDecl.Proofs.Parsing

/-!
# Asides and faults, parsed and plainly read

A parse reads `>` in two ways, saves tokens to read them once more, passes over what makes no sense,
and stops where the declarations end.  Whoever watches it sees the same asides and the same faults of
the text as come up when the source is plainly read, in the same order (`unit_forwards`).

What is still to come does not depend on the way to read `>` (`Reader.Holds.next`).  An aside is
shown when its token is taken from the reader, which happens once (`Session.Draws.told`).  And in
the end nothing is left to be read (`runGrammar_told`).
-/

namespace CppDecl

open Parse (Runs)

variable {n budget passNumber : Nat} {s : Session}

/-- A parse comes to its end if its session is ready and calls may be deep enough. -/
theorem Session.Ready.unit (h : s.Ready n) (hdepth : 7 * n + 6 < budget) :
    ∃ unit s', Grammar.unit (fun rule => Grammar.run budget rule) s = .ok (unit, s') := by
  obtain ⟨closer, s₁, houter, us, t, h₁, -⟩ := h.declarationList budget hdepth
  obtain ⟨last, s₂, hread, -⟩ := h₁.left.read
  have hruns : Runs (Grammar.unit fun rule => Grammar.run budget rule) s fun _ _ => True := by
    rw [Grammar.unit_eq]
    refine .bind ⟨closer, s₁, houter, .bind ⟨last, s₂, hread, .bind (.members ?_)⟩⟩
    exact fun inner => .bind (.modify (.pure trivial))
  obtain ⟨unit, s', hunit, -⟩ := hruns
  exact ⟨unit, s', hunit⟩

/-- A parse shows all asides and all faults that its reader has yet to come to. -/
theorem runGrammar_forwards {reader : Reader} {ts : List Token} {es : List LexError}
    {unit : TranslationUnit}
    (hsound : reader.Sound) (hforwards : reader.Forwards ts es) (hnone : reader.errors = [])
    (hrun : runGrammar budget passNumber reader Grammar.unit = .ok (unit, s)) :
    s.events.filterMap Event.aside? = ts ∧ s.events.filterMap Event.lexical? = es := by
  obtain ⟨⟨news, hnews, -⟩, -, hframes⟩ := runGrammar_told hsound hrun
  obtain ⟨_, _, ⟨es', hholds, rfl⟩, rfl, rfl⟩ := hnews.forwards hforwards
  obtain ⟨rfl, rfl⟩ := hholds.eq_nil_of_frames_nil hframes
  have hevents : s.events = news := hnews.events
  rw [hnews.collected hnone, hevents]
  exact ⟨(List.append_nil _).symm, (List.append_nil _).symm⟩

/-- If plain reading comes to an end, so does a parse with enough of a budget.  And whenever a parse
comes to an end, it shows the asides and reports the faults of the text that plain reading gives, in
the same order and each of them once. -/
theorem unit_forwards (config : Configuration) (path source : String) {bound : Nat} {result : Tokens}
    (hread : tokenizeWithin bound config path source = .ok result) :
    let reader := ((Reader.new .empty config).push path source).2
    (∃ least, ∀ budget passNumber, least ≤ budget →
      ∃ unit s, runGrammar budget passNumber reader Grammar.unit = .ok (unit, s)) ∧
    ∀ budget passNumber unit s, runGrammar budget passNumber reader Grammar.unit = .ok (unit, s) →
      s.events.filterMap Event.aside? = result.tokens.filter (fun t => t.kind.isAside) ∧
      s.events.filterMap Event.lexical? = result.errors := by
  have hsound := Reader.sound_pushed config path source
  obtain ⟨⟨ts, r⟩, hall, hresult⟩ := Halt.bind_eq_ok hread
  cases hresult
  refine ⟨?_, ?_⟩
  · obtain ⟨n, hwithin⟩ := hsound.within_of_ends (hsound.ends_of_readAll hall)
    refine ⟨7 * n + 7, fun budget passNumber hle => ?_⟩
    exact (Session.ready_new hsound hwithin (by omega)).unit (by omega)
  · intro budget passNumber unit s hrun
    obtain ⟨init, last, rfl, hforwards⟩ := hsound.forwards_of_readAll hall
    rw [List.dropLast_concat]
    have hnone : ((Reader.new .empty config).push path source).2.errors = [] :=
      (Reader.blank_new config).1.errors
    exact runGrammar_forwards hsound hforwards hnone hrun

/-- A source with asides in what is tried, between angle brackets and in an expansion. -/
def scatteredAsides : String :=
  "#define T(x) x /* in */\nFoo<Bar<T(int)>> a; void f(Foo<3 /* no type */ 4>); @ // end"

theorem unit_forwards_scatteredAsides : ∃ result,
    tokenizeWithin 60 {} "test.h" scatteredAsides = .ok result ∧
    (result.tokens.filter fun t => t.kind.isAside).map Token.text =
      ["#define T(x) x /* in */\n", "T", "/* in */", "/* no type */", "// end"] ∧
    result.errors.length = 1 ∧
    let reader := ((Reader.new .empty {}).push "test.h" scatteredAsides).2
    (∃ least, ∀ budget passNumber, least ≤ budget →
      ∃ unit s, runGrammar budget passNumber reader Grammar.unit = .ok (unit, s)) ∧
    ∀ budget passNumber unit s, runGrammar budget passNumber reader Grammar.unit = .ok (unit, s) →
      s.events.filterMap Event.aside? = result.tokens.filter (fun t => t.kind.isAside) ∧
      s.events.filterMap Event.lexical? = result.errors := by
  have hall : (tokenizeWithin 60 {} "test.h" scatteredAsides).toOption.map (fun result =>
      ((result.tokens.filter fun t => t.kind.isAside).map Token.text, result.errors.length)) =
      some (["#define T(x) x /* in */\n", "T", "/* in */", "/* no type */", "// end"], 1) := by
    decide +kernel
  obtain ⟨result, hread, hvalues⟩ := Halt.of_toOption_map hall
  obtain ⟨htexts, herrors⟩ := Prod.mk.inj hvalues
  exact ⟨result, hread, htexts, herrors, unit_forwards {} "test.h" scatteredAsides hread⟩

end CppDecl
