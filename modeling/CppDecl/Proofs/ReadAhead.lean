import CppDecl.Proofs.Effects
import CppDecl.Proofs.Parsing

/-!
# What is read ahead of a change

The grammar reads its tokens by the actions that `Session.Delivered` knows: the reads of a parse form
such a run, and everything that the parse consumes is delivered in it, in order
(`runGrammar_delivered`).  So what is known of `>>` and `>=` in runs holds of every parse.

That a `>>` is read as one between angle brackets does happen.  What may be the operand of a cast is
looked for as if it stood in the parenthesis in front of it, where `>>` is one token
(`merged_behind_parenthesis`).
-/

namespace CppDecl

open Session (Past Delivered)
open Parse (Leads)

variable {s : Session}

/-- The reads of a parse of a whole source form a run.  What is drawn from the reader is delivered in
it, in the order in which it stands in the source, but for what still waits in the queue at the end. -/
theorem runGrammar_delivered (config : Configuration) (path source : String)
    {budget passNumber : Nat} {unit : TranslationUnit}
    (hrun : runGrammar budget passNumber ((Reader.new .empty config).push path source).2
      Grammar.unit = .ok (unit, s)) :
    ∃ ds k us, Delivered (Session.new ((Reader.new .empty config).push path source).2 budget
        passNumber) ds s ∧
      ((Reader.new .empty config).push path source).2.Draws k (us ++ s.queue.ahead) s.reader ∧
      us.Sublist (ds.reverse.map Delivery.token) ∧ s.reader.frames = [] := by
  have hsound := Reader.sound_pushed config path source
  obtain ⟨us, ps, hpast, -, -, hframes⟩ := Grammar.unit_leads (Grammar.run_effects budget)
    ⟨Session.orderly_new hsound budget passNumber, False.elim⟩ unit s hrun
  obtain ⟨ds, hdelivered, hus⟩ := hpast.delivered
  obtain ⟨k, tokens, hdraws, -, hqueue⟩ := hpast.advance.drawn
  obtain rfl : tokens = us ++ s.queue.ahead := hqueue
  exact ⟨ds, k, us, hdelivered, hdraws, hus, hframes⟩

/-! ## A shift between angle brackets -/

/-- A parameter of a template with a default value in parentheses. -/
def shiftBehindParenthesis : String := "template <int N = (1)>> 2> struct S;"

/-- The same without the parentheses. -/
def shiftBehindNumber : String := "template <int N = 1>> 2> struct S;"

/-- Reads a template up to the first operand of the default value of its parameter.  Gives whether a
`>` is to be a token of its own then, and the token behind the operand. -/
def readBehindOperand : Parse (Bool × Token) := do
  let _ ← Parse.readMany 1
  Parse.withCloseAngles do
    let _ ← Parse.readMany 4
    let start ← Parse.read
    let _ ← Grammar.operand (fun rule => Grammar.run 20 rule) start
    return ((← get).reader.closeAnglesOnly, ← Parse.read)

theorem Parse.Leads.readMany {W : Concern} {s₀ : Session} {us : List Token} {sc : List OpenScope}
    {ps : List Part} {Q : List Token → Session → Prop} (count : Nat) (h : Past W s₀ us sc ps s)
    (hQ : ∀ ts s', Past W s₀ (us ++ ts) sc ps s' → Q ts s') : Leads (Parse.readMany count) s Q := by
  induction count generalizing us s Q with
  | zero => exact .pure (hQ [] s (by rwa [List.append_nil]))
  | succ count ih =>
    refine .bind (.read h fun t s₁ h₁ _ => .bind (ih h₁ ?_))
    intro ts s₂ h₂
    rw [List.append_assoc, List.singleton_append] at h₂
    exact .pure (hQ (t :: ts) s₂ h₂)

/-- The token behind the operand is the last one that is delivered. -/
theorem readBehindOperand_delivered (h : s.Fit .nothing) :
    Leads readBehindOperand s fun result s' =>
      ∃ ds, Delivered s (⟨result.2, result.1⟩ :: ds) s' := by
  refine .bind (.readMany 1 h.past ?_)
  intro ts s₁ h₁
  let inner := s₁.bracketed s₁.accept true
  have hinner : inner.Fit .nothing := ⟨h₁.left.orderly.bracketed _ _, False.elim⟩
  have hbody : Leads (do
      let _ ← Parse.readMany 4
      let start ← Parse.read
      let _ ← Grammar.operand (fun rule => Grammar.run 20 rule) start
      return ((← get).reader.closeAnglesOnly, ← Parse.read)) inner fun result s' =>
        ∃ ds, Delivered inner (⟨result.2, result.1⟩ :: ds) s' := by
    refine .bind (.readMany 4 hinner.past ?_)
    intro ts s₂ h₂
    refine .bind (.read h₂ ?_)
    intro start s₃ h₃ _
    refine .bind (.part h₃ (Grammar.operand_leads (Grammar.run_effects 20) h₃.left start) ?_)
    intro stop us ps s₄ h₄ _
    obtain ⟨ds, hdelivered, -⟩ := h₄.delivered
    refine .bind (.get (.bind ?_))
    intro t s₅ hread
    exact .pure ⟨ds, .read hdelivered hread⟩
  refine .bind (.get (.bind (.set (.bind (hbody.mono ?_)))))
  rintro result s₂ ⟨ds, hdelivered⟩
  obtain ⟨ds', hbefore, -⟩ := h₁.delivered
  have hopened : Delivered s ds' inner := .aside hbefore (.refl _) rfl
  exact .bind (.modify (.pure ⟨ds ++ ds', .aside (hopened.trans hdelivered) (.refl _) rfl⟩))

/-- Where the default value of a parameter begins and ends. -/
def Parameter.valueExtent? (p : Parameter) : Option (LinearLoc × LinearLoc) :=
  match p.init with
  | .expression start stop _ => some (start.loc, stop.loc)
  | _ => none

/-- Where the angle brackets of a template are, and the default values between them. -/
def Declaration.templateExtent? :
    Declaration → Option ((LinearLoc × LinearLoc) × List (LinearLoc × LinearLoc))
  | .templated _ params _ => some
      ((params.openPunc.loc, params.closePunc.loc), params.params.filterMap Parameter.valueExtent?)
  | _ => none

/-- The number of errors in a source, and its templates. -/
def templateExtents (source : String) :
    Option (Nat × List ((LinearLoc × LinearLoc) × List (LinearLoc × LinearLoc))) :=
  (parse {} "test.h" source).toOption.map fun parsed =>
    (parsed.errorCount, parsed.unit.members.filterMap Declaration.templateExtent?)


/-- The `>>` behind a parenthesis is read as one between angle brackets.  So it does not end the list
of parameters there but is an operator of the default value, and the fault that is reported without
the parentheses goes unnoticed. -/
theorem merged_behind_parenthesis :
    (∃ t s ds, readBehindOperand (Session.new ((Reader.new .empty {}).push "test.h"
        shiftBehindParenthesis).2 100 1) = .ok ((true, t), s) ∧ t.kind = .rightShift ∧
      Delivered (Session.new ((Reader.new .empty {}).push "test.h" shiftBehindParenthesis).2 100 1)
        (⟨t, true⟩ :: ds) s) ∧
    templateExtents shiftBehindParenthesis = some (0, [((9, 25), [(18, 24)])]) ∧
    templateExtents shiftBehindNumber = some (1, [((9, 19), [(18, 18)])]) := by
  refine ⟨?_, by decide +kernel, by decide +kernel⟩
  have hread : (readBehindOperand (Session.new ((Reader.new .empty {}).push "test.h"
      shiftBehindParenthesis).2 100 1)).toOption.map (fun x => (x.1.1, x.1.2.kind)) =
        some (true, .rightShift) := by decide +kernel
  obtain ⟨⟨⟨angles, t⟩, s⟩, heq, hvalues⟩ := Halt.of_toOption_map hread
  obtain ⟨rfl, hkind⟩ := Prod.mk.inj hvalues
  obtain ⟨ds, hdelivered⟩ := readBehindOperand_delivered
    ⟨Session.orderly_new (Reader.sound_pushed {} _ _) 100 1, False.elim⟩ _ _ heq
  exact ⟨t, s, ds, heq, hkind, hdelivered⟩

end CppDecl
