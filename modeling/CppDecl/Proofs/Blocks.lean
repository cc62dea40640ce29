import CppDecl.Proofs.Effects
import CppDecl.Proofs.Monotone

/-!
# Blocks and their braces

Whatever is wrong with a source, a block of its tree that has both of its braces has the ones that
counting finds: the closing brace is the one that matches the opening one among the tokens
(`blocks_matched`).  Recovery from errors leaves a closing brace to the rule that waits for it.

There are three places where the grammar does not.  The token behind `using` and the one behind the
bracket that opens the captures of a lambda expression are read whatever they are, which `Seen`
tokens rule out.  And a list of expressions in braces that stands inside of another bracket may be
left at a closing bracket of the other kind, its own brace still being open.  Whether that happened in
a block can be told from its tokens: fewer braces are closed in it than are opened.

It does not happen anywhere if it does not in a run that is *watched*: it stops where a list is left
open.  A watched run that is not stopped has the result of the run itself.
-/

namespace CppDecl

open Parse (Below Leads)
open Session (Fit Past)

variable {s : Session}

/-- The braces of a block. -/
def Part.braces? : Part → Option (Token × Token)
  | .block opener closer => some (opener, closer)
  | _ => none

namespace Grammar

/-! ## Runs that are watched -/

/-- A list of expressions in braces, which has to be closed unless nothing else follows. -/
def watchList (p : Parse Token) : Parse Token := do
  let last ← p
  if last.kind = .closeCurly || (← get).queue.ahead.head?.all (·.kind == .endOfFile) then
    return last
  else
    throw .exhausted

/-- Watches a rule. -/
def watch : {α : Type} → Rule α → Parse α → Parse α
  | _, .expressions .openCurly _, p => watchList p
  | _, _, p => p

/-- Carries out a rule like `run`, and stops where a list of expressions in braces is left open. -/
def runWatched : (depth : Nat) → {α : Type} → Rule α → Parse α
  | 0, _, _ => throw .exhausted
  | depth + 1, _, rule => watch rule (body (fun r => runWatched depth r) rule)

theorem watchList_leads (p : Parse Token) : Leads (watchList p) s fun a s' =>
    p s = .ok (a, s') ∧ (a.kind ≠ .closeCurly → ∀ t, s'.Pending t → t.kind = .endOfFile) := by
  refine .bind fun last s₁ hp => .bind (.get (.ite ?_ ?_))
  · intro hcond
    refine .pure ⟨hp, fun hkind t ht => ?_⟩
    rw [Session.Pending] at ht
    simpa [hkind, ht] using hcond
  · intro _ _ _ hthrow
    cases hthrow

theorem watch_below {α : Type} (rule : Rule α) (p : Parse α) : Below (watch rule p) p := by
  cases rule with
  | expressions opener last =>
    cases opener with
    | openCurly => exact fun s a s' h => (watchList_leads p a s' h).1
    | _ => exact .refl p
  | _ => exact .refl p

/-- A watched run has no other result than the run itself. -/
theorem runWatched_below (depth : Nat) :
    Call.Below (fun rule => runWatched depth rule) fun rule => run depth rule := by
  induction depth with
  | zero =>
    rintro α rule s a s' ⟨⟩
  | succ depth ih => exact fun rule => (watch_below rule _).trans (body_mono ih rule)

/-- Watched runs leave what their rules do, with lists being closed. -/
theorem runWatched_effects (depth : Nat) :
    Effects ⟨True, True⟩ fun rule => runWatched depth rule := by
  induction depth with
  | zero => exact ⟨fun _ _ _ _ _ _ hrun => (nomatch hrun), fun _ _ _ _ _ hrun => (nomatch hrun)⟩
  | succ depth ih =>
    refine ⟨?_, ?_⟩
    · intro α rule s h hpre a s' hrun
      exact body_leads rule ih h hpre a s' (watch_below rule _ s a s' hrun)
    · intro _ last s a s' hrun
      exact (watchList_leads _ a s' hrun).2

/-- In the parse of a whole source, lists of expressions in braces are closed. -/
def ListsClosed (budget passNumber : Nat) (reader : Reader) : Prop :=
  ∃ result, unit (fun rule => runWatched budget rule) (Session.new reader budget passNumber) =
    .ok result

end Grammar

/-! ## Blocks -/

/-- The braces `o` and `c` of a block match among the tokens, with `inner` between them. -/
structure Matching (tokens : List Token) (o c : Token) (before inner after : List Token) : Prop where
  /-- Both braces are among the tokens. -/
  split : tokens = before ++ o :: (inner ++ c :: after)
  /-- The first one opens the block. -/
  opener : o.kind = .openCurly
  /-- The second one closes it. -/
  closer : c.kind = .closeCurly
  /-- What is between them is paired, but that lists may be left open in there. -/
  paired : Paired False inner
  /-- Unless a brace in there was read without looking at it, counting braces leads from the first one
  to the second one if and only if no list was left open in there, that is, if as many braces are
  opened as are closed. -/
  counted : Seen inner → (closing? 0 (inner ++ c :: after) = some inner.length ↔ Balanced inner)

theorem Part.Matched.matching {closed : Prop} {ts : List Token} {o c : Token}
    (h : (Part.block o c).Matched closed ts) (ho : o.isPresent = true) (hc : c.isPresent = true) :
    ∃ before inner after, Matching ts o c before inner after ∧ Paired closed inner := by
  obtain ⟨hopen, hclose, before, inner, after, rfl, hinner⟩ := h ho hc
  exact ⟨before, inner, after, ⟨rfl, hopen, hclose, hinner.mono False.elim,
    fun hseen => hinner.closing?_append_iff hseen hclose after⟩, hinner⟩

/-- What a parse of a whole source leaves of its blocks, given what is known of lists. -/
theorem Grammar.unit_matching {call : Call} {W : Concern} (hcall : Effects W call) (hasked : W.asked)
    {config : Configuration} {path source : String} {budget passNumber : Nat} {u : TranslationUnit}
    (hrun : unit call (Session.new ((Reader.new .empty config).push path source).2 budget passNumber) =
      .ok (u, s)) :
    ∃ k tokens, ((Reader.new .empty config).push path source).2.Draws k tokens s.reader ∧
      ∀ o c, .block o c ∈ u.parts → o.isPresent = true → c.isPresent = true →
        ∃ before inner after, Matching tokens o c before inner after ∧ Paired W.closed inner := by
  obtain ⟨us, ps, hpast, hparts, hmatched, -⟩ := unit_leads hcall
    ⟨Session.orderly_new (Reader.sound_pushed config path source) budget passNumber, False.elim⟩
    u s hrun
  obtain ⟨k, tokens, hdraws, -, hqueue⟩ := hpast.advance.drawn
  refine ⟨k, tokens, hdraws, fun o c hblock ho hc => ?_⟩
  obtain rfl : tokens = us ++ s.queue.ahead := hqueue
  exact ((hmatched hasked _ (hparts hblock)).left _).matching ho hc

/-- Whatever is wrong with a source, the braces of a block match among the tokens that were read: it
takes nothing but the tokens of the block to tell if counting braces leads from the one to the other.
Where no list of expressions is left open in the whole source, it does, unless a brace in the block was
read without looking at it. -/
theorem blocks_matched (config : Configuration) (path source : String) (budget passNumber : Nat)
    (unit : TranslationUnit) (s : Session)
    (hrun : runGrammar budget passNumber ((Reader.new .empty config).push path source).2
      Grammar.unit = .ok (unit, s)) :
    ∃ k tokens, ((Reader.new .empty config).push path source).2.Draws k tokens s.reader ∧
      ∀ o c, .block o c ∈ unit.parts → o.isPresent = true → c.isPresent = true →
        ∃ before inner after, Matching tokens o c before inner after ∧
          (Grammar.ListsClosed budget passNumber ((Reader.new .empty config).push path source).2 →
            Paired True inner ∧
            (Seen inner → closing? 0 (inner ++ c :: after) = some inner.length)) := by
  by_cases hlists : Grammar.ListsClosed budget passNumber
      ((Reader.new .empty config).push path source).2
  · obtain ⟨⟨unit', s'⟩, hwatched⟩ := hlists
    have hsame := Grammar.unit_mono (Grammar.runWatched_below budget) _ _ _ hwatched
    rw [show Grammar.unit (fun rule => Grammar.run budget rule) _ = _ from hrun] at hsame
    cases hsame
    obtain ⟨k, tokens, hdraws, hblocks⟩ :=
      Grammar.unit_matching (Grammar.runWatched_effects budget) trivial hwatched
    refine ⟨k, tokens, hdraws, fun o c hblock ho hc => ?_⟩
    obtain ⟨before, inner, after, hmatching, hpaired⟩ := hblocks o c hblock ho hc
    refine ⟨before, inner, after, hmatching, fun _ => ⟨hpaired, fun hseen => ?_⟩⟩
    exact (hmatching.counted hseen).2 (hpaired.balanced hseen)
  · obtain ⟨k, tokens, hdraws, hblocks⟩ := Grammar.unit_matching (W := ⟨True, False⟩)
      (Grammar.run_effects_of_not_closed id budget) trivial hrun
    refine ⟨k, tokens, hdraws, fun o c hblock ho hc => ?_⟩
    obtain ⟨before, inner, after, hmatching, -⟩ := hblocks o c hblock ho hc
    exact ⟨before, inner, after, hmatching, fun h => absurd h hlists⟩

/-- A namespace, a class and an enumeration, with errors in each of them. -/
def brokenBlocks : String :=
  "namespace N \x7b ) struct S \x7b int = ] 3; enum E \x7b A B, + \x7d e; \x7d ; \x7d"

theorem blocks_matched_brokenBlocks : ∃ unit s,
    runGrammar 300 1 ((Reader.new .empty {}).push "test.h" brokenBlocks).2 Grammar.unit =
      .ok (unit, s) ∧ s.reportedErrors = 5 ∧
    (unit.parts.filterMap Part.braces?).map (fun (o, c) => (o.loc, c.loc)) =
      [(12, 63), (25, 59), (45, 54)] ∧
    Grammar.ListsClosed 300 1 ((Reader.new .empty {}).push "test.h" brokenBlocks).2 ∧
    ∃ k tokens, ((Reader.new .empty {}).push "test.h" brokenBlocks).2.Draws k tokens s.reader ∧
      ∀ o c, .block o c ∈ unit.parts → o.isPresent = true → c.isPresent = true →
        ∃ before inner after, Matching tokens o c before inner after ∧
          (Grammar.ListsClosed 300 1 ((Reader.new .empty {}).push "test.h" brokenBlocks).2 →
            Paired True inner ∧
            (Seen inner → closing? 0 (inner ++ c :: after) = some inner.length)) := by
  have hall : (runGrammar 300 1 ((Reader.new .empty {}).push "test.h" brokenBlocks).2
      Grammar.unit).toOption.map (fun result => (result.2.reportedErrors,
        (result.1.parts.filterMap Part.braces?).map fun (o, c) => (o.loc, c.loc))) =
      some (5, [(12, 63), (25, 59), (45, 54)]) := by decide +kernel
  have hwatched : (Grammar.unit (fun rule => Grammar.runWatched 300 rule) (Session.new
      ((Reader.new .empty {}).push "test.h" brokenBlocks).2 300 1)).toOption.map (fun _ => ()) =
      some () := by decide +kernel
  obtain ⟨⟨unit, s⟩, hrun, hvalues⟩ := Halt.of_toOption_map hall
  obtain ⟨herrors, hbraces⟩ := Prod.mk.inj hvalues
  obtain ⟨result, hlists, -⟩ := Halt.of_toOption_map hwatched
  exact ⟨unit, s, hrun, herrors, hbraces, ⟨result, hlists⟩,
    blocks_matched {} "test.h" brokenBlocks 300 1 unit s hrun⟩

/-- A block whose closing brace is behind `using`. -/
def braceBehindUsing : String := "namespace A \x7b namespace N \x7b using \x7d \x7d"

/-- The closing brace that the block has is not the one that counting finds: that one is the first
token behind `using`, and the block goes on to the brace of the block around it. -/
theorem block_unmatched_behind_using : ∃ parsed tokenized before o word brace c,
    parse {} "test.h" braceBehindUsing = .ok parsed ∧
    tokenize {} "test.h" braceBehindUsing = .ok tokenized ∧
    .block o c ∈ parsed.unit.parts ∧ o.isPresent = true ∧ c.isPresent = true ∧
    tokenized.tokens = before ++ o :: [word, brace, c] ∧ brace ≠ c ∧
    closing? 0 [word, brace, c] = some 1 := by
  let o : Token := ⟨26, .openCurly, "\x7b"⟩
  let word : Token := ⟨28, .identifier, "using"⟩
  let brace : Token := ⟨34, .closeCurly, "\x7d"⟩
  let c : Token := ⟨36, .closeCurly, "\x7d"⟩
  have hparse : (parse {} "test.h" braceBehindUsing).toOption.map (fun parsed =>
      parsed.unit.parts.filterMap Part.braces?) =
      some [(⟨12, .openCurly, "\x7b"⟩, .absent), (o, c)] := by decide +kernel
  have htokenize : (tokenize {} "test.h" braceBehindUsing).toOption.map (fun tokenized =>
      tokenized.tokens.drop 5) = some [o, word, brace, c] := by decide +kernel
  obtain ⟨parsed, hparsed, hbraces⟩ := Halt.of_toOption_map hparse
  obtain ⟨tokenized, htokenized, hdrop⟩ := Halt.of_toOption_map htokenize
  have hmem : (o, c) ∈ parsed.unit.parts.filterMap Part.braces? := by
    rw [hbraces]
    decide
  obtain ⟨part, hpart, hbrace⟩ := List.mem_filterMap.1 hmem
  cases part <;> cases hbrace
  refine ⟨parsed, tokenized, tokenized.tokens.take 5, o, word, brace, c, hparsed, htokenized, hpart,
    rfl, rfl, ?_, by decide, by decide⟩
  rw [← hdrop, List.take_append_drop]

end CppDecl
