import CppDecl.Proofs.Effects
import CppDecl.Proofs.Parsing

/-!
# What is tried and given up

In four places the grammar tries something and goes back if that comes to nothing: the parameters of
a constructor, the parameters of a function without a name, a type as a template argument, and a
block with a language linkage.  Each of them is a `Speculation`, and the rule goes on with one of
two actions (`typeOrConstructor_eq`, `functionOrInner_eq`, `templateArguments_eq`,
`externDeclaration_eq`).

Nothing is left of a speculation that was given up outside of other ones (`Speculates.rolledBack`).
What it read is read again, and its faults are forgotten without having been reported.  The whole
grammar can be tried in this way, so that follows from what its rules leave.
-/

namespace CppDecl

open Parse (Brings Leads)
open Session (Begun Fit Past)

variable {α β : Type} {call : Call} {s s' s₁ s₂ : Session}

namespace Parse

/-- Tries something.  If it comes to nothing, the parse goes back to where it began. -/
def speculate (attempt : Parse (Option α)) : Parse (Option α) := do
  let trial ← beginTrial
  let a? ← attempt
  if a?.isSome then endTrial trial else abandon trial
  return a?

/-- Does something, which comes to nothing if there is a fault. -/
def unlessFailed (p : Parse α) : Parse (Option α) := do
  let before := (← get).rawErrors
  let a ← p
  return if ← failedSince before then none else some a

end Parse

/-- Something that is tried, and what comes after it. -/
structure Speculation (α β : Type) where
  /-- What is tried. -/
  attempt : Parse (Option α)
  /-- What comes after it if it holds. -/
  goOn : α → Parse β
  /-- What comes instead. -/
  otherwise : Parse β

/-- Tries and goes on. -/
def Speculation.run (x : Speculation α β) : Parse β := do
  match ← Parse.speculate x.attempt with
  | some a => x.goOn a
  | none => x.otherwise

namespace Grammar

/-- A name is a type, which is not the beginning of a constructor. -/
def typeName (simple : SimpleDeclaration) (typename : Token) (qid : QualifiedId) :
    Parse (Bool × SimpleDeclaration) := do
  if typename.isPresent && qid.nested.isEmpty then
    Parse.faultExpected .nestedName qid.firstToken
  return (false, addSpecifier simple (.typeName typename qid false))

/-- The parameters of a constructor behind its name. -/
def constructorAttempt (call : Call) (simple : SimpleDeclaration) (typename : Token)
    (qid : QualifiedId) : Speculation (Option FunctionDeclarator) (Bool × SimpleDeclaration) where
  attempt := Parse.unlessFailed (functionDeclarator call)
  goOn f? := do
    let chain := match f? with | some f => [Production.function f] | none => []
    return (true, ← addFunction call simple ⟨chain, qid⟩)
  otherwise := typeName simple typename qid

/-- The parameters of a function without a name, or else an inner declarator around the same
productions. -/
def functionAttempt (call : Call) (outer : Chain) (form : DeclaratorForm) :
    Speculation (Option FunctionDeclarator) Declarator where
  attempt := Parse.unlessFailed (functionDeclarator call)
  goOn
    | some f => do
      let f ← trailingReturn call f
      call (.suffixes ⟨.function f :: outer, .empty⟩ 1 false)
    | none => call (.suffixes ⟨outer, .empty⟩ 0 false)
  otherwise := do
    let opener ← Parse.read
    innerDeclarator call outer form opener

/-- What comes behind the start of a template argument. -/
def templateArgumentRest (call : Call) (soFar : List TemplateArgument) (start : Token)
    (argument : TemplateArgument) : Parse (List TemplateArgument × Token) := do
  let (argument, sep) ← call (.templateSeparator start argument)
  if sep.kind = .comma then
    call (.templateArguments (soFar ++ [withComma sep argument]))
  else
    return (soFar ++ [argument], sep)

/-- A template argument that is a type. -/
def argumentAttempt (call : Call) (soFar : List TemplateArgument) (start : Token) :
    Speculation SimpleDeclaration (List TemplateArgument × Token) where
  attempt := Parse.unlessFailed (specified call .typeId)
  goOn simple := templateArgumentRest call soFar start
    (.typeId simple.specifiers (typeChain simple) .absent)
  otherwise := templateArgumentRest call soFar start (.unknown start .absent .absent)

/-- The head of a block with a language linkage. -/
def linkageHead : Parse (Option (Token × Token × Token)) := do
  let externToken ← Parse.read
  let literal ← Parse.read
  if literal.kind = .stringLiteral then
    let opener ← Parse.read
    return if opener.kind = .openCurly then some (externToken, literal, opener) else none
  else
    return none

/-- A block with a language linkage. -/
def linkageAttempt (call : Call) (className : String) :
    Speculation (Token × Token × Token) Unit where
  attempt := linkageHead
  goOn
    | (externToken, literal, opener) => do
      Parse.enterScope .linkage
      let closer ← declarationList call true ""
      let inner ← Parse.members
      Parse.leaveScope .linkage inner.length
      Parse.declare (.linkageBlock externToken literal opener closer inner)
  otherwise := simpleDeclaration call className

/-- The speculations of the grammar. -/
inductive Speculates (call : Call) : {α β : Type} → Speculation α β → Prop
  | constructor (simple : SimpleDeclaration) (typename : Token) (qid : QualifiedId) :
      Speculates call (constructorAttempt call simple typename qid)
  | function (outer : Chain) (form : DeclaratorForm) :
      Speculates call (functionAttempt call outer form)
  | argument (soFar : List TemplateArgument) (start : Token) :
      Speculates call (argumentAttempt call soFar start)
  | linkage (className : String) : Speculates call (linkageAttempt call className)

/-! ## Where the grammar tries something -/

/-- A speculation goes on in one of two ways. -/
theorem run_eq (x : Speculation α β) : x.run = (do
    let trial ← Parse.beginTrial
    match ← x.attempt with
    | some a =>
      Parse.endTrial trial
      x.goOn a
    | none =>
      Parse.abandon trial
      x.otherwise) := by
  simp only [Speculation.run, Parse.speculate, bind_assoc]
  refine bind_congr fun trial => bind_congr fun a? => ?_
  cases a? <;> simp

/-- A speculation that comes to nothing if there is a fault. -/
theorem run_unlessFailed (p : Parse α) (goOn : α → Parse β) (otherwise : Parse β) :
    (Speculation.mk (Parse.unlessFailed p) goOn otherwise).run = (do
      let trial ← Parse.beginTrial
      let a ← p
      if ← Parse.failedSince trial.rawErrors then
        Parse.abandon trial
        otherwise
      else
        Parse.endTrial trial
        goOn a) := by
  -- a trial knows the number of faults where it begins
  have hbefore : ∀ k : Parse.Trial → Nat → Parse β,
      (do let trial ← Parse.beginTrial; let s ← get; k trial s.rawErrors) =
        (do let trial ← Parse.beginTrial; k trial trial.rawErrors) := fun _ => rfl
  simp only [run_eq, Parse.unlessFailed, bind_assoc, pure_bind]
  refine (hbefore fun trial before => do
    let a ← p
    match if ← Parse.failedSince before then none else some a with
    | some a =>
      Parse.endTrial trial
      goOn a
    | none =>
      Parse.abandon trial
      otherwise).trans ?_
  refine bind_congr fun trial => bind_congr fun a => bind_congr fun failed => ?_
  cases failed <;> rfl

theorem typeOrConstructor_eq (className : String) (simple : SimpleDeclaration) (typename : Token)
    (qid : QualifiedId) :
    typeOrConstructor call (.globalOrMember className) simple typename qid =
      if !typename.isPresent && qid.isStructor className then
        (constructorAttempt call simple typename qid).run
      else typeName simple typename qid := by
  rw [constructorAttempt, run_unlessFailed]
  rfl

theorem functionOrInner_eq (outer : Chain) (form : DeclaratorForm) (opener : Token) :
    functionOrInner call outer form opener = (do
      Parse.pushBack opener
      (functionAttempt call outer form).run) := by
  rw [functionAttempt, run_unlessFailed]
  rfl

theorem templateArguments_eq (soFar : List TemplateArgument) :
    templateArguments call soFar = (do
      let start ← Parse.peek
      (argumentAttempt call soFar start).run) := by
  simp only [argumentAttempt, run_unlessFailed]
  rfl

theorem externDeclaration_eq (first : Token) (className : String) :
    externDeclaration call first className = (do
      Parse.pushBack first
      (linkageAttempt call className).run) := by
  simp only [run_eq, linkageAttempt, linkageHead, bind_assoc]
  refine bind_congr fun _ => bind_congr fun trial => bind_congr fun externToken =>
    bind_congr fun literal => ?_
  split
  · rw [bind_assoc]
    refine bind_congr fun opener => ?_
    split <;> simp
  · simp

/-! ## What is left of it -/

/-- An attempt that comes to nothing if there is a fault leaves what it does. -/
theorem unlessFailed_leads {W : Concern} {R : α → List Token → List Part → Session → Prop}
    {p : Parse α} (hp : Leads p s (Brings W s R)) :
    Leads (Parse.unlessFailed p) s fun _ s' => ∃ us ps, Past W s us s.scopes ps s' := by
  refine .bind (.get (.bind (hp.mono ?_)))
  rintro a s₁ ⟨us, ps, hpast, -⟩
  exact .bind (.failedSince _ (.pure ⟨us, ps, hpast⟩))

/-- What is tried closes the scopes that it opens. -/
theorem Speculates.leads {W : Concern} {x : Speculation α β} (hx : Speculates call x)
    (hcall : Effects W call) (h : s.Fit W) :
    Leads x.attempt s fun _ s' => ∃ us ps, Past W s us s.scopes ps s' := by
  cases hx with
  | constructor => exact unlessFailed_leads (functionDeclarator_leads hcall h)
  | function => exact unlessFailed_leads (functionDeclarator_leads hcall h)
  | argument => exact unlessFailed_leads (specified_leads hcall h .typeId)
  | linkage =>
    refine .bind (.read h.past ?_)
    intro externToken s₁ h₁ _
    refine .bind (.read h₁ ?_)
    intro literal s₂ h₂ _
    refine .ite ?_ fun _ => .pure ⟨_, _, h₂⟩
    intro _
    refine .bind (.read h₂ ?_)
    intro opener s₃ h₃ _
    exact .pure ⟨_, _, h₃⟩

end Grammar

/-- Reading the tokens of the queue. -/
theorem Parse.readMany_ahead (hidle : s.queue.saving = false) :
    Parse.readMany s.queue.ahead.length s =
      .ok (s.queue.ahead, { s with queue := { s.queue with ahead := [] } }) := by
  generalize hahead : s.queue.ahead = ahead
  induction ahead generalizing s with
  | nil =>
    have hsame : { s with queue := { s.queue with ahead := [] } } = s := by rw [← hahead]
    rw [hsame]
    rfl
  | cons t ahead ih =>
    have hread : Parse.read s = .ok (t, { s with queue := { s.queue with ahead } }) := by
      simp [Parse.read, TokenQueue.next?, TokenQueue.passed, hahead, hidle]
    simp only [List.length_cons, Parse.readMany, bind, StateT.bind, hread, Except.bind,
      ih (s := { s with queue := { s.queue with ahead } }) hidle rfl]
    rfl

namespace Session

/-- Of what was done from `s` to `s₂`, nothing is left in `s'` but tokens that wait again, and events
other than reports of faults. -/
structure RolledBack (s s₂ s' : Session) : Prop where
  /-- Faults are forgotten. -/
  rawErrors : s'.rawErrors = s.rawErrors
  /-- No fault was reported. -/
  reportedErrors : s'.reportedErrors = s.reportedErrors
  /-- Nor is there a report in the log. -/
  log : ∃ news, s'.log = news ++ s.log ∧ ∀ e ∈ news, e.isFault = false
  /-- Faults are muted if they were. -/
  muted : s'.muted = s.muted
  /-- The same brackets are left to rules further out. -/
  accept : s'.accept = s.accept
  /-- A `>` is read in the same way. -/
  closeAnglesOnly : s'.reader.closeAnglesOnly = s.reader.closeAnglesOnly
  /-- The same scopes are open, with the same declarations in them. -/
  scopes : s'.scopes = s.scopes
  /-- No trial is on. -/
  saving : s'.queue.saving = false
  /-- All tokens that had been read wait, in the same order. -/
  again : s'.queue.ahead = s₂.queue.behind.reverse ++ s₂.queue.ahead
  /-- These are the ones that waited before and those that were drawn from the reader. -/
  drawn : ∃ k pulled, s.reader.Draws k pulled s₂.reader ∧ s'.queue.ahead = s.queue.ahead ++ pulled
  /-- They are read next, and then the reader goes on. -/
  next : Parse.readMany s'.queue.ahead.length s' =
    .ok (s'.queue.ahead, { s' with queue := .empty })
  /-- It goes on behind them. -/
  reader : s'.reader = s₂.reader

variable {W : Concern} {trial : Parse.Trial} {us : List Token} {ps : List Part}

/-- A trial that is given up is rolled back if no other one is on. -/
theorem Begun.rolledBack (h : s.Begun trial s₁) (horderly : s.Orderly)
    (hidle : s.queue.saving = false) (hpast : Past W s₁ us s.scopes ps s₂)
    (habandon : Parse.abandon trial s₂ = .ok ((), s')) : s.RolledBack s₂ s' := by
  obtain ⟨hsteady, heven, hmuted, hscopes⟩ := h.steady_abandon hpast.steady habandon
  obtain ⟨hreported, hlog⟩ := h.silent hpast.steady
  obtain ⟨hbehind, -⟩ := h.queue hpast.advance
  obtain ⟨k, pulled, hdraws, -, hqueue⟩ := hpast.advance.drawn
  have haccept := hpast.advance.accept
  rw [h.session] at hdraws hqueue haccept
  rw [horderly.settled hidle, List.append_nil] at hbehind
  have heq : s' = { s₂ with
      queue := ⟨[], us ++ s₂.queue.ahead, false⟩
      rawErrors := trial.rawErrors
      muted := trial.muted } := by
    have hend : Parse.endTrial trial { s₂ with
        queue := s₂.queue.seek trial.pos, rawErrors := trial.rawErrors, muted := trial.muted } =
          .ok ((), s') := habandon
    rw [Parse.endTrial, h.saving, hidle, h.seek hpast.advance] at hend
    cases hend
    rfl
  have hsaving : s'.queue.saving = false := by rw [heq]
  have hnext := Parse.readMany_ahead hsaving
  subst heq
  exact ⟨heven.rawErrors, hreported, hlog, hmuted, haccept, hsteady.closeAnglesOnly,
    hscopes.trans hpast.scopes, rfl, by rw [hbehind, List.reverse_reverse],
    ⟨k, pulled, hdraws, hqueue.symm⟩, hnext, rfl⟩

end Session

/-- What is given up was begun and came to nothing. -/
theorem Parse.speculate_eq_none {attempt : Parse (Option α)}
    (h : Parse.speculate attempt s = .ok (none, s')) : ∃ trial s₁ s₂, s.Begun trial s₁ ∧
      Parse.beginTrial s = .ok (trial, s₁) ∧ attempt s₁ = .ok (none, s₂) ∧
      Parse.abandon trial s₂ = .ok ((), s') := by
  let trial : Parse.Trial := ⟨s.queue.saving, s.queue.pos, s.rawErrors, s.muted⟩
  let s₁ : Session := { s with queue := { s.queue with saving := true } }
  obtain ⟨⟨a?, s₂⟩, hattempt, hrest⟩ := Halt.bind_eq_ok (show (attempt s₁ >>= _) = _ from h)
  cases a? with
  | some a =>
    obtain ⟨_, -, hresult⟩ := Halt.bind_eq_ok (show (Parse.endTrial trial s₂ >>= _) = _ from hrest)
    cases hresult
  | none =>
    obtain ⟨_, hend, hresult⟩ := Halt.bind_eq_ok (show (Parse.abandon trial s₂ >>= _) = _ from hrest)
    cases hresult
    exact ⟨trial, s₁, s₂, ⟨rfl, rfl, rfl, rfl, rfl⟩, rfl, hattempt, hend⟩

/-- Nothing is left of a speculation that is given up outside of other ones.  The rule goes on with
the other action from there. -/
theorem speculation_rolledBack (depth : Nat) {x : Speculation α β}
    (hx : Grammar.Speculates (fun rule => Grammar.run depth rule) x) (horderly : s.Orderly)
    (hidle : s.queue.saving = false) (hback : Parse.speculate x.attempt s = .ok (none, s')) :
    ∃ trial s₁ s₂, Parse.beginTrial s = .ok (trial, s₁) ∧ x.attempt s₁ = .ok (none, s₂) ∧
      Parse.abandon trial s₂ = .ok ((), s') ∧ s.RolledBack s₂ s' ∧ x.run s = x.otherwise s' := by
  obtain ⟨trial, s₁, s₂, hbegun, hbegin, hattempt, habandon⟩ := Parse.speculate_eq_none hback
  have hpast : Past .nothing s [] s.scopes [] s := Fit.past ⟨horderly, False.elim⟩
  have hbegin' := hbegun.past hpast
  obtain ⟨us, ps, htrial⟩ := hx.leads (Grammar.run_effects depth) hbegin'.fit none s₂ hattempt
  rw [hbegin'.scopes] at htrial
  refine ⟨trial, s₁, s₂, hbegin, hattempt, habandon, ?_, ?_⟩
  · exact hbegun.rolledBack horderly hidle htrial habandon
  · simp only [Speculation.run, bind, StateT.bind, hback, Except.bind]

/-- A number in parentheses, which is no list of parameters. -/
theorem speculation_rolledBack_number :
    let x := Grammar.functionAttempt (fun rule => Grammar.run 60 rule) [] ⟨true, true⟩
    let s := Session.new ((Reader.new .empty {}).push "test.h" "(5) * 2").2 60 1
    ∃ s₂ s', Parse.speculate x.attempt s = .ok (none, s') ∧
      s'.queue.ahead.map Token.text = ["(", "5", ")", "*"] ∧ s.RolledBack s₂ s' ∧
      x.run s = x.otherwise s' := by
  intro x s
  have hall : (Parse.speculate x.attempt s).toOption.map (fun (a?, s') =>
      (a?.isNone, s'.queue.ahead.map Token.text)) = some (true, ["(", "5", ")", "*"]) := by
    decide +kernel
  obtain ⟨⟨a?, s'⟩, hback, hvalues⟩ := Halt.of_toOption_map hall
  obtain ⟨hnone, htexts⟩ := Prod.mk.inj hvalues
  obtain rfl := Option.isNone_iff_eq_none.1 hnone
  obtain ⟨-, -, s₂, -, -, -, hrolled, hrun⟩ := speculation_rolledBack 60 (.function [] ⟨true, true⟩)
    (Session.orderly_new (Reader.sound_pushed {} "test.h" "(5) * 2") 60 1) rfl hback
  exact ⟨s₂, s', hback, htexts, hrolled, hrun⟩

end CppDecl
