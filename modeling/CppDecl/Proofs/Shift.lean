import CppDecl.Proofs.Shift.Declarations

/-!
# A declaration at another place

A declaration can be parsed as if its first byte stood anywhere on the line of text.  Where it
stands makes no difference but to the places themselves: the tree is the same tree, and the
diagnostics are the same diagnostics, each as much further along as the declaration is
(`parseDeclaration_shift`).

What is not there has no place to be shifted.  That goes for the tokens that a tree lacks, and it
also goes for a fault that is noticed at a token that is not there.  There are such faults: where a
type is wanted and there is no name at all, the missing name is reported at the first token of the
name.
-/

namespace CppDecl

variable {k : LinearLoc}

/-! ## Readers -/

namespace Reader

/-- A reader that starts to read at a place is the one that starts at the beginning, shifted. -/
theorem pushAt_shift (path source : String) (k : LinearLoc) :
    ((new .empty {}).pushAt path source k).2 =
      ((new .empty {}).pushAt path source 0).2.shift k := by
  have henter := enter_shift (k := k)
    { new .empty {} with visited := (Visited.empty.addFile path source).2 }
    (.ofWindow 0 none ⟨source, 0, source.utf8ByteSize⟩) 0
  rw [zero_add] at henter
  exact congrArg (fun r : Reader => { r with lineStart := true }) henter

end Reader

/-! ## Parsing -/

/-- What is parsed from a reader in order does not depend on its place. -/
theorem runGrammar_shift {α : Type} {m : α → α} {E : α → Prop} {p : Call → Parse α}
    {reader : Reader} (hsound : reader.Sound) (hordered : reader.Ordered) (budget passNumber : Nat)
    (hp : ∀ {call : Call}, call.Shifts k → Parse.Shifts k m E (p call) (p call)) :
    runGrammar budget passNumber (reader.shift k) p =
      (runGrammar budget passNumber reader p).map (Prod.map m (Session.shift k)) :=
  (hp (Grammar.run_shifts k budget) (Session.new reader budget passNumber)
    ⟨hsound, hordered, fun _ ht => absurd ht (by simp [Session.new, TokenQueue.empty])⟩).eq

theorem Session.diagnostics_shift (s : Session) :
    (s.shift k).events.filterMap Event.diagnostic? =
      (s.events.filterMap Event.diagnostic?).map (Diagnostic.shift k) := by
  have hevent : ∀ e : Event, (e.shift k).diagnostic? = e.diagnostic?.map (Diagnostic.shift k) := by
    intro e
    cases e <;> simp [Event.diagnostic?]
  have hlog : (s.shift k).events = s.events.map (Event.shift k) := by
    simp [Session.events, Session.shift]
  rw [hlog, List.filterMap_map, List.map_filterMap]
  exact List.filterMap_congr fun e _ => hevent e

/-- A declaration that is parsed at a place gives what it gives at the beginning, or halts as it
does there.  Every token of the tree and of the diagnostics that is there is further along by the
offset, and so is every place of a fault of the text. -/
theorem parseDeclaration_shift (source : String) (k : LinearLoc) :
    parseDeclaration source k = (parseDeclaration source 0).map
      (Prod.map (SimpleDeclaration.shift k) (List.map (Diagnostic.shift k))) := by
  have hrun := runGrammar_shift (k := k) (Reader.sound_pushed {} "(declaration)" source)
    (Reader.ordered_pushed {} "(declaration)" source) defaultBudget 1 Grammar.single_shifts
  unfold parseDeclaration
  rw [Reader.pushAt_shift]
  dsimp only
  rw [show ((Reader.new .empty {}).pushAt "(declaration)" source 0).2 =
    ((Reader.new .empty {}).push "(declaration)" source).2 from rfl, hrun]
  refine Halt.bind_map fun (simple, s) _ => congrArg Except.ok (Prod.ext rfl ?_)
  exact Session.diagnostics_shift s

/-! ## A fault that is nowhere -/

/-- A type that has no name. -/
def namelessType : String := "typename ;"

/-- The missing name is reported at no place, wherever the declaration stands. -/
theorem parseDeclaration_unplaced : ¬ ∀ (source : String) (k : LinearLoc), 0 ≤ k →
    (parseDeclaration source k).map (fun result => result.2.map Diagnostic.loc) =
      (parseDeclaration source 0).map fun result =>
        result.2.map fun d => (d.loc + k : LinearLoc) := by
  intro h
  have hmoved := h namelessType 5 (by decide)
  have hthere : (parseDeclaration namelessType 5).map
      (fun result => result.2.map Diagnostic.loc) = .ok [-1] := by decide +kernel
  have hhere : (parseDeclaration namelessType 0).map
      (fun result => result.2.map fun d => (d.loc + 5 : LinearLoc)) = .ok [4] := by decide +kernel
  rw [hthere, hhere] at hmoved
  cases hmoved

end CppDecl
