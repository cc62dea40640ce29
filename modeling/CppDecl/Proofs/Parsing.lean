import CppDecl.Parsing
import CppDecl.Proofs.Progress.Declarations

/-!
# Parsing ends

If reading a source ends, so does parsing it, whatever is wrong with the source.  With `n` tokens
left, a call of a rule is no deeper than `7 * n` and the rank of the rule (`Grammar.run_consumes`),
since each call inside of it has fewer tokens left or a smaller rank.

When a parse is done all tokens have been consumed: the declarations at the outermost level go on to
the end of the file (`unit_consumes_source`).
-/

namespace CppDecl

open Parse (Consumed Consumes Runs)
open Session (Since Ready Advance Pending)

variable {n : Nat} {s s' : Session} {ts : List Token}

/-! ## Rules -/

namespace Grammar

/-- The body of a rule keeps the promise of the rule if calls are carried out. -/
theorem body_consumes {call : Call} {α : Type} (rule : Rule α) (hcall : Serves call n rule.rank)
    (h : s.Ready n) : Consumes (body call rule) s (rule.Post s) := by
  cases rule with
  | skipTo opener closer => exact skipTo_consumes hcall h opener closer
  | nameTail => exact nameTail_consumes hcall h
  | literals last => exact literals_consumes hcall h last
  | expressions opener last => exact expressions_consumes hcall h opener last
  | expression optional => exact expression_consumes hcall h optional
  | nestedNames soFar => exact nestedNames_consumes hcall h soFar
  | templateArguments soFar => exact templateArguments_consumes hcall h soFar
  | templateSeparator start argument => exact templateSeparator_consumes hcall h start argument
  | parameters forTemplate soFar => exact parameters_consumes hcall h forTemplate soFar
  | functionQualifiers soFar => exact functionQualifiers_consumes hcall h soFar
  | conversionSpecifiers soFar hasType => exact conversionSpecifiers_consumes hcall h soFar hasType
  | conversionPointers soFar allowed => exact conversionPointers_consumes hcall h soFar allowed
  | declarator outer form allowed => exact declarator_consumes hcall h outer form allowed
  | suffixes soFar depth nameMissing => exact suffixes_consumes hcall h soFar depth nameMissing
  | memberInitializers soFar => exact memberInitializers_consumes hcall h soFar
  | initDeclarators soFar => exact initDeclarators_consumes hcall h soFar
  | bases soFar => exact bases_consumes hcall h soFar
  | virtSpecifiers soFar => exact virtSpecifiers_consumes hcall h soFar
  | enumerators soFar => exact enumerators_consumes hcall h soFar
  | specifiers mode soFar => exact specifiers_consumes hcall h
  | declaration className => exact declaration_consumes hcall h className
  | declarations closeExpected className =>
    exact declarations_consumes hcall h closeExpected className

/-- A rule is carried out if the depth is enough for the tokens that are left. -/
theorem run_consumes {depth : Nat} {α : Type} (rule : Rule α) (h : s.Ready n)
    (hdepth : 7 * n + rule.rank < depth) : Consumes (run depth rule) s (rule.Post s) := by
  induction depth generalizing α n s with
  | zero => exact absurd hdepth (Nat.not_lt_zero _)
  | succ depth ih =>
    refine body_consumes rule ?_ h
    intro β rule' s' m hready hless
    have hrank := rule'.rank_lt
    exact ih rule' hready (by omega)

end Grammar

/-! ## The whole source -/

/-- A new session is ready if its reader comes to an end and the allowance is enough. -/
theorem Session.ready_new {reader : Reader} {allowance passNumber : Nat} (hsound : reader.Sound)
    (hwithin : Reader.Within n reader) (hle : n ≤ allowance) :
    (Session.new reader allowance passNumber).Ready n where
  sound := hsound
  within := ⟨n, hwithin, hle, Nat.le_of_eq (Nat.zero_add n)⟩
  trailing := List.Pairwise.nil
  ended := List.forall_mem_nil _
  settled _ := rfl

/-- The next `count` tokens. -/
def Parse.readMany : (count : Nat) → Parse (List Token)
  | 0 => return []
  | count + 1 => do
    let token ← read
    return token :: (← readMany count)

/-- Once the end of the file has been read, nothing else comes. -/
theorem Session.Since.readMany_end (h : Since n s ts s') (hend : ∃ t ∈ ts, t.kind = .endOfFile)
    (count : Nat) : Runs (Parse.readMany count) s' fun tokens _ =>
      tokens.length = count ∧ ∀ t ∈ tokens, t.kind = .endOfFile := by
  induction count generalizing ts s' with
  | zero => exact .pure ⟨rfl, List.forall_mem_nil _⟩
  | succ count ih =>
    refine .bind (.read h ?_)
    intro token s₁ h₁ _
    have htoken : token.kind = .endOfFile := by
      by_contra hmore
      obtain ⟨t, ht, hkind⟩ := hend
      have hlive := List.countP_eq_length.1 (h₁.ready.live_of_advance h₁.advance hmore) t ht
      simp [hkind] at hlive
    refine .bind ((ih h₁ ⟨token, by simp, htoken⟩).mono ?_)
    rintro tokens s₂ ⟨hlength, hall⟩
    exact .pure ⟨by rw [List.length_cons, hlength], List.forall_mem_cons.2 ⟨htoken, hall⟩⟩

/-- The declarations at the outermost level leave the end of the file. -/
theorem Session.Ready.declarationList (h : s.Ready n) (depth : Nat) (hdepth : 7 * n + 6 < depth) :
    Runs (do
      Parse.enterScope .unit
      Grammar.declarationList (fun rule => Grammar.run depth rule) false "") s fun _ s' =>
        ∃ us t, Since n s us s' ∧ s'.Pending t ∧ t.kind = .endOfFile := by
  refine .bind (.quiet (Parse.quiet_enterScope _) h.since ?_)
  intro s₁ h₁ _
  refine .within (R := fun _ _ q => ∃ t, q.ahead.head? = some t ∧ t.kind = .endOfFile) h₁ ?_ ?_
  · intro s₂ hready _ haccept
    refine (Grammar.run_consumes (.declarations false "") hready hdepth).mono ?_
    rintro _ s₃ ⟨us, hadvance, hpost⟩
    exact ⟨us, hadvance, hpost rfl haccept⟩
  · rintro _ us s₂ h₂ ⟨t, hpending, hkind⟩
    exact ⟨_, t, h₂, hpending, hkind⟩

/-- A source is parsed by the declarations at the outermost level and the token behind them. -/
theorem Grammar.unit_eq (call : Call) : Grammar.unit call = (do
    let _ ← (do Parse.enterScope .unit; Grammar.declarationList call false "")
    let _ ← Parse.read
    let inner ← Parse.members
    Parse.leaveScope .unit inner.length
    return ⟨inner⟩) := by
  rw [bind_assoc]
  rfl

/-- If reading a source ends, so does parsing it.  The token behind the declarations is the end of
the file, and then nothing is left: however many tokens are read, all of them are the end of the
file. -/
theorem unit_consumes_source (config : Configuration) (path source : String)
    (hends : ∃ budget result, tokenizeWithin budget config path source = .ok result) :
    ∃ bound, ∀ budget passNumber, bound ≤ budget →
      let reader := ((Reader.new .empty config).push path source).2
      ∃ closer s₁ last s₂ unit s₃,
        runGrammar budget passNumber reader (fun call => do
          Parse.enterScope .unit
          Grammar.declarationList call false "") = .ok (closer, s₁) ∧
        Parse.read s₁ = .ok (last, s₂) ∧ last.kind = .endOfFile ∧
        runGrammar budget passNumber reader Grammar.unit = .ok (unit, s₃) ∧
        s₃.reader.frames = [] ∧ s₃.reader = s₂.reader ∧ s₃.queue = s₂.queue ∧
        ∀ count, ∃ tokens s₄, Parse.readMany count s₃ = .ok (tokens, s₄) ∧
          tokens.length = count ∧ ∀ t ∈ tokens, t.kind = .endOfFile := by
  obtain ⟨budget, result, htokenize⟩ := hends
  have hsound := Reader.sound_pushed config path source
  have hends : Reader.Ends ((Reader.new .empty config).push path source).2 := by
    obtain ⟨_, hall, -⟩ := Halt.bind_eq_ok htokenize
    exact hsound.ends_of_readAll hall
  obtain ⟨n, hwithin⟩ := hsound.within_of_ends hends
  refine ⟨7 * n + 7, ?_⟩
  intro budget passNumber hle reader
  have hready : (Session.new reader budget passNumber).Ready n :=
    Session.ready_new hsound hwithin (by omega)
  obtain ⟨closer, s₁, houter, us, t, h₁, hpending, hend⟩ := hready.declarationList budget (by omega)
  obtain ⟨last, s₂, hread, hadvance, hfirst⟩ := h₁.left.read
  obtain rfl := hfirst t hpending
  have h₂ := h₁.append hadvance
  have hframes : s₂.reader.frames = [] := by
    obtain ⟨k, pulled, hdraws, -⟩ := hadvance.drawn
    have hmem : last ∈ s₁.queue.ahead := List.mem_of_mem_head? hpending
    exact (hdraws.ended_of_frames_nil (h₁.left.ended last hmem hend)).1
  have hunit : Runs (Grammar.unit fun rule => Grammar.run budget rule)
      (Session.new reader budget passNumber) fun _ s₃ => s₃.reader = s₂.reader ∧
        s₃.queue = s₂.queue ∧ Since n (Session.new reader budget passNumber) (us ++ [last]) s₃ := by
    rw [Grammar.unit_eq]
    refine .bind ⟨closer, s₁, houter, .bind ⟨last, s₂, hread, .bind (.members ?_)⟩⟩
    intro inner
    exact .bind (.modify (.pure ⟨rfl, rfl, h₂.same ⟨.refl _, rfl, rfl, rfl⟩⟩))
  obtain ⟨unit, s₃, hunit, hreader, hqueue, h₃⟩ := hunit
  refine ⟨closer, s₁, last, s₂, unit, s₃, houter, hread, hend, hunit, ?_, hreader, hqueue, ?_⟩
  · rw [hreader, hframes]
  · exact h₃.readMany_end ⟨last, by simp, hend⟩

/-- A source with a brace too many that stops in the middle of things. -/
def cutOff : String := "template<int \x7d class A : public B \x7b int f("

theorem unit_consumes_cutOff : ∃ bound, ∀ budget passNumber, bound ≤ budget → ∃ unit s,
    runGrammar budget passNumber ((Reader.new .empty {}).push "test.h" cutOff).2 Grammar.unit =
      .ok (unit, s) ∧ s.reader.frames = [] ∧
    ∀ count, ∃ tokens s', Parse.readMany count s = .ok (tokens, s') ∧ tokens.length = count ∧
      ∀ t ∈ tokens, t.kind = .endOfFile := by
  have hread : (tokenizeWithin 40 {} "test.h" cutOff).toOption.map (·.tokens.length) = some 13 := by
    decide +kernel
  have hends : ∃ budget result, tokenizeWithin budget {} "test.h" cutOff = .ok result := by
    cases htokens : tokenizeWithin 40 {} "test.h" cutOff with
    | ok result => exact ⟨40, result, htokens⟩
    | error halt =>
      rw [htokens] at hread
      cases hread
  obtain ⟨bound, hbound⟩ := unit_consumes_source {} "test.h" cutOff hends
  refine ⟨bound, ?_⟩
  intro budget passNumber hle
  obtain ⟨-, -, -, -, unit, s, -, -, -, hunit, hframes, -, -, hlater⟩ :=
    hbound budget passNumber hle
  exact ⟨unit, s, hunit, hframes, hlater⟩

end CppDecl
