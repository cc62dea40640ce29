import CppDecl.Proofs.Monotone
import CppDecl.Proofs.Parsing
import CppDecl.Proofs.Twins

/-!
# Parsing the same text

Sessions are *twins* if their readers are, and all else is the same.  An action is *blind* if it does
not see where a text comes from: from twins it gives the same, and leaves twins.

Blindness is a class, so that it is inferred for what is put together from blind actions.  All
that the grammar does is blind if calls are, and so a whole run is (`Grammar.run_blind`).
-/

namespace CppDecl

open Halt (Agree)

namespace Session

/-- The sessions have the same text before them, and are the same in all other respects. -/
inductive Twin : Session → Session → Prop
  | intro {s : Session} {q : Reader} (sound : s.reader.Sound) (sound' : q.Sound)
      (reader : s.reader.Twin q) : Twin s { s with reader := q }

/-- What two actions give is the same, and the sessions are twins. -/
def Twins {α : Type} (x y : α × Session) : Prop := y.1 = x.1 ∧ x.2.Twin y.2

variable {s s' : Session} {r q : Reader}

theorem Twin.passNumber (h : s.Twin s') : s'.passNumber = s.passNumber := by
  cases h
  rfl

theorem Twin.accept (h : s.Twin s') : s'.accept = s.accept := by
  cases h
  rfl

theorem Twin.scopes (h : s.Twin s') : s'.scopes = s.scopes := by
  cases h
  rfl

theorem Twin.rawErrors (h : s.Twin s') : s'.rawErrors = s.rawErrors := by
  cases h
  rfl

theorem Twin.events (h : s.Twin s') : s'.events = s.events := by
  cases h
  rfl

theorem Twin.closeAnglesOnly (h : s.Twin s') :
    s'.reader.closeAnglesOnly = s.reader.closeAnglesOnly := by
  cases h with
  | intro _ _ hreader => exact hreader.closeAnglesOnly

theorem Twin.bracketed (h : s.Twin s') (accept : Accept) (a : Bool) :
    (s.bracketed accept a).Twin (s'.bracketed accept a) := by
  cases h with
  | intro hr hq h => exact .intro (hr.withAngles a) (hq.withAngles a) (h.withAngles a)

/-- What has come up in twins is the same. -/
theorem twin_drain (s : Session) (h : r.Twin q) (hr : r.Sound) (hq : q.Sound) :
    { s with reader := r }.drain.Twin { s with reader := q }.drain := by
  have hcleared : { r with errors := [], inclusions := [] }.Twin
      { q with errors := [], inclusions := [] } := { h with errors := rfl, inclusions := rfl }
  have hdrain : Twin _ { { s with reader := r }.drain with
      reader := { q with errors := [], inclusions := [] } } :=
    .intro (hr.congr rfl rfl rfl) (hq.congr rfl rfl rfl) hcleared
  simpa [Session.drain, Reader.takeErrors, Reader.takeInclusions, h.errors, h.inclusions]
    using hdrain

theorem Twin.record (h : s.Twin s') (e : Event) : (s.record e).Twin (s'.record e) := by
  cases h with
  | intro hr hq h => exact .intro hr hq h

/-- Twins take the same token from their readers. -/
theorem Twin.pull (h : s.Twin s') (n : Nat) : Agree Twins (s.pull n) (s'.pull n) := by
  induction n generalizing s s' with
  | zero =>
    obtain ⟨hr, hq, hreader⟩ := h
    obtain ⟨t, r₁, q₁, hread, hread', h₁, hr₁, hq₁⟩ := hreader.readToken hr hq
    by_cases hend : t.kind = .endOfFile
    · rw [pull_end hread hend, pull_end hread' hend]
      exact .ok ⟨rfl, twin_drain s h₁ hr₁ hq₁⟩
    · rw [pull_zero hread hend, pull_zero hread' hend]
      exact .error _
  | succ n ih =>
    obtain ⟨hr, hq, hreader⟩ := h
    obtain ⟨t, r₁, q₁, hread, hread', h₁, hr₁, hq₁⟩ := hreader.readToken hr hq
    by_cases hend : t.kind = .endOfFile
    · rw [pull_end hread hend, pull_end hread' hend]
      exact .ok ⟨rfl, twin_drain s h₁ hr₁ hq₁⟩
    have hdrain := twin_drain { s with allowance := n } h₁ hr₁ hq₁
    cases haside : t.kind.isAside with
    | true =>
      rw [pull_aside hread haside, pull_aside hread' haside]
      refine ih ?_
      rw [afterAside, afterAside, h₁.args]
      exact hdrain.record _
    | false =>
      rw [pull_plain hread hend haside, pull_plain hread' hend haside]
      exact .ok ⟨rfl, hdrain⟩

end Session

namespace Parse

open Session (Twins)

/-- The action gives the same from twins. -/
class Blind {α : Type} (p : Parse α) : Prop where
  /-- The results agree. -/
  agree : ∀ {s s' : Session}, s.Twin s' → Agree Twins (p s) (p s')

variable {α β : Type} {p q : Parse α} {f : α → Parse β}

instance (a : α) : Blind (pure a : Parse α) := ⟨fun h => .ok ⟨rfl, h⟩⟩

theorem Blind.seq (hp : Blind p) (hf : ∀ a, Blind (f a)) : Blind (p >>= f) := by
  refine ⟨fun h => (hp.agree h).bind ?_⟩
  rintro ⟨a, s⟩ ⟨_, s'⟩ ⟨rfl, h'⟩
  exact (hf _).agree h'

instance [hp : Blind p] [hf : ∀ a, Blind (f a)] : Blind (p >>= f) := hp.seq hf

instance {c : Prop} [Decidable c] [hp : Blind p] [hq : Blind q] : Blind (if c then p else q) := by
  split
  · exact hp
  · exact hq

/-- What is done may depend on the session, as far as it is the same for twins. -/
theorem Blind.get {f : Session → Parse β} (hf : ∀ s, Blind (f s))
    (hsame : ∀ {s s' : Session}, s.Twin s' → f s' = f s) : Blind (get >>= f) := by
  refine ⟨fun {s s'} h => ?_⟩
  show Agree Twins (f s s) (f s' s')
  rw [hsame h]
  exact (hf s).agree h

/-- The session is changed, but not its reader, and in a way that does not depend on the reader. -/
theorem Blind.modify {g : Session → Session} (hkeeps : ∀ s, (g s).reader = s.reader)
    (hsame : ∀ s q, g { s with reader := q } = { g s with reader := q }) :
    Blind (modify g : Parse Unit) := by
  refine ⟨fun {s s'} h => ?_⟩
  cases h with
  | @intro q hr hq h =>
    rw [← hkeeps s] at hr h
    have htwin : (g s).Twin (g { s with reader := q }) := by
      rw [hsame s q]
      exact .intro hr hq h
    exact .ok ⟨rfl, htwin⟩

/-! ## Tokens -/

instance : Blind read := by
  refine ⟨fun {s s'} h => ?_⟩
  have hqueue : s'.queue = s.queue := by
    cases h
    rfl
  have hallowance : s'.allowance = s.allowance := by
    cases h
    rfl
  unfold read
  rw [hqueue, hallowance]
  cases s.queue.next? with
  | some next =>
    cases h with
    | intro hr hq h => exact .ok ⟨rfl, .intro hr hq h⟩
  | none =>
    refine (h.pull s.allowance).bind ?_
    rintro ⟨t, s₁⟩ ⟨_, _⟩ ⟨⟨⟩, h₁⟩
    cases h₁ with
    | intro hr hq h => exact .ok ⟨rfl, .intro hr hq h⟩

instance (t : Token) : Blind (pushBack t) := .modify (fun _ => rfl) fun _ _ => rfl

instance : Blind peek := by
  unfold peek
  infer_instance

/-! ## Errors -/

instance (mute : Bool) (e : ParseError) : Blind (fault mute e) := by
  refine .modify (fun s => ?_) fun s q => ?_ <;> dsimp only <;> split <;> split <;> rfl

instance (what : Expected) (t : Token) : Blind (faultExpected what t) := by
  unfold faultExpected
  infer_instance

instance : Blind unmute := .modify (fun _ => rfl) fun _ _ => rfl

/-! ## Trials -/

instance : Blind beginTrial := by
  refine ⟨?_⟩
  rintro s _ ⟨hr, hq, h⟩
  exact .ok ⟨rfl, .intro hr hq h⟩

instance (before : Nat) : Blind (failedSince before) :=
  .get (fun _ => inferInstance) fun h => by simp only [Session.rawErrorCount, h.rawErrors]

instance (trial : Trial) : Blind (backtrack trial) := .modify (fun _ => rfl) fun _ _ => rfl

instance (trial : Trial) : Blind (endTrial trial) := by
  unfold endTrial
  split
  · infer_instance
  · exact .modify (fun _ => rfl) fun _ _ => rfl

instance (trial : Trial) : Blind (abandon trial) := by
  unfold abandon
  infer_instance

instance : Blind beginActivity := by
  unfold beginActivity
  refine .seq inferInstance fun t => .get (fun _ => inferInstance) fun h => ?_
  rw [h.rawErrors]

instance (a : Activity) : Blind (consumedSince a) := by
  unfold consumedSince
  infer_instance

instance (a : Activity) : Blind (unmuteUnlessFailed a) := by
  unfold unmuteUnlessFailed
  infer_instance

/-! ## Brackets -/

instance (accept : Accept → Accept) (angles : Bool → Bool) [hp : Blind p] :
    Blind (within accept angles p) := by
  refine ⟨fun {s s'} h => ?_⟩
  show Agree Twins
    (p (s.bracketed (accept s.accept) (angles s.reader.closeAnglesOnly)) >>= fun x =>
      .ok (x.1, x.2.bracketed s.accept s.reader.closeAnglesOnly))
    (p (s'.bracketed (accept s'.accept) (angles s'.reader.closeAnglesOnly)) >>= fun x =>
      .ok (x.1, x.2.bracketed s'.accept s'.reader.closeAnglesOnly))
  rw [h.accept, h.closeAnglesOnly]
  refine (hp.agree (h.bracketed _ _)).bind ?_
  rintro ⟨a, s₁⟩ ⟨_, s₁'⟩ ⟨rfl, h₁⟩
  exact .ok ⟨rfl, h₁.bracketed _ _⟩

instance (opener : TokenKind) [Blind p] : Blind (inside opener p) := by
  unfold inside
  infer_instance

instance [Blind p] : Blind (withCloseAngles p) := by
  unfold withCloseAngles
  infer_instance

instance [Blind p] : Blind (leavingOpenCurly p) := by
  unfold leavingOpenCurly
  infer_instance

instance (t : Token) : Blind (mayStay t) := by
  have hleave : Blind (do
      match (← get).accept.leaves? t.kind with
      | some true =>
        pushBack t
        return false
      | _ => return true) := by
    refine .get (fun s => ?_) fun h => by rw [h.accept]
    split <;> infer_instance
  unfold mayStay
  infer_instance

/-! ## Scopes -/

instance (scope : Scope) : Blind (enterScope scope) := .modify (fun _ => rfl) fun _ _ => rfl

instance : Blind members := by
  refine .get (fun s => ?_) fun h => by rw [h.scopes]
  split <;> infer_instance

instance (scope : Scope) (count : Nat) : Blind (leaveScope scope count) :=
  .modify (fun _ => rfl) fun _ _ => rfl

instance (d : Declaration) : Blind (declare d) := by
  refine .modify (fun s => ?_) fun s q => ?_ <;>
    obtain ⟨_, _, _, _, _, _, _, _, _, _ | ⟨top, outer⟩, _⟩ := s <;> rfl

instance (e : Event) : Blind (tell e) := .modify (fun _ => rfl) fun _ _ => rfl

end Parse

/-- Calls are blind. -/
class Call.Blind (call : Call) : Prop where
  /-- Each call is blind. -/
  blind : ∀ {α : Type} (rule : Rule α), Parse.Blind (call rule)

namespace Grammar

open Parse

instance {call : Call} [h : Call.Blind call] {α : Type} (rule : Rule α) : Blind (call rule) :=
  h.blind rule

variable {call : Call} [Call.Blind call] {α : Type}

-- there is an instance for each step of an action
set_option synthInstance.maxSize 1000

/-! ## Skipping -/

instance (opener : Token) : Blind (skipScope call opener) := by
  unfold skipScope
  split <;> infer_instance

instance (token : Token) : Blind (skipNested call token) := by
  unfold skipNested
  split
  · exact .get (fun _ => inferInstance) fun h => by rw [h.closeAnglesOnly]
  all_goals infer_instance

instance (opener : Token) (closer : TokenKind) : Blind (skipTo call opener closer) := by
  unfold skipTo
  infer_instance

instance (token : Token) : Blind (stepOver call token) := by
  unfold stepOver
  infer_instance

instance (opener : Token) : Blind (closeScope call opener) := by
  unfold closeScope
  refine .seq inferInstance fun token => ?_
  have hskip : Blind (do match ← skipScope call opener with
      | none => return none
      | some closer =>
        unmute
        return some closer) := by
    refine .seq inferInstance ?_
    rintro (_ | closer) <;> infer_instance
  infer_instance

/-- A token that makes no sense is left to a rule further out, or the list goes on behind it. -/
instance (token : Token) {p : Parse α} {f : Token → Parse α} [Blind p] [∀ last, Blind (f last)] :
    Blind (do match ← stepOver call token with | none => p | some last => f last) := by
  refine .seq inferInstance ?_
  rintro (_ | last) <;> infer_instance

/-! ## Names -/

instance (soFar : List NestedName) (component : NestedName) :
    Blind (nestedSeparator call soFar component) := by
  unfold nestedSeparator
  infer_instance

instance (soFar : List NestedName) : Blind (nestedNames call soFar) := by
  have hnamed : ∀ token punc : Token, Blind (do
      if punc.kind = .openAngle && (← get).passNumber ≤ 1 then
        let (args, closer) ← inside .openAngle (call (.templateArguments []))
        let component := NestedName.named token punc closer args .absent
        if closer.isPresent then
          nestedSeparator call soFar component
        else
          return soFar ++ [component]
      else
        pushBack punc
        nestedSeparator call soFar (.named token .absent .absent [] .absent)) := by
    refine fun token punc => .get (fun s => ?_) fun h => by rw [h.passNumber]
    have harguments : Blind (do
        let (args, closer) ← inside .openAngle (call (.templateArguments []))
        let component := NestedName.named token punc closer args .absent
        if closer.isPresent then
          nestedSeparator call soFar component
        else
          return soFar ++ [component]) := by
      refine .seq inferInstance ?_
      rintro ⟨args, closer⟩
      infer_instance
    infer_instance
  unfold nestedNames
  infer_instance

instance (start : Token) (argument : TemplateArgument) :
    Blind (templateSeparator call start argument) := by
  unfold templateSeparator
  infer_instance

instance (mode : Mode) : Blind (specified call mode) := by
  unfold specified
  infer_instance

instance (soFar : List TemplateArgument) : Blind (templateArguments call soFar) := by
  have hrest : ∀ start argument, Blind (do
      let (argument, sep) ← call (.templateSeparator start argument)
      if sep.kind = .comma then
        call (.templateArguments (soFar ++ [withComma sep argument]))
      else
        return (soFar ++ [argument], sep)) := by
    refine fun start argument => .seq inferInstance ?_
    rintro ⟨argument, sep⟩
    infer_instance
  unfold templateArguments
  infer_instance

instance (keyword : Token) : Blind (operatorName keyword) := by
  unfold operatorName
  infer_instance

instance : Blind specialName := by
  unfold specialName
  infer_instance

instance (need : Completeness) : Blind (qualifiedId call need) := by
  unfold qualifiedId
  infer_instance

/-! ## Parameters -/

instance (forTemplate : Bool) : Blind (parameterList call forTemplate) := by
  unfold parameterList
  infer_instance

instance : Blind (templateParameter call) := by
  unfold templateParameter
  infer_instance

instance (forTemplate : Bool) : Blind (parameter call forTemplate) := by
  unfold parameter
  infer_instance

instance (forTemplate : Bool) (soFar : ParameterList) :
    Blind (parameters call forTemplate soFar) := by
  unfold parameters
  refine .seq inferInstance ?_
  rintro ⟨kept, consumed⟩
  infer_instance

instance (soFar : List Token) : Blind (functionQualifiers call soFar) := by
  unfold functionQualifiers
  infer_instance

instance : Blind (functionDeclarator call) := by
  unfold functionDeclarator
  infer_instance

/-! ## Expressions -/

instance : Blind (nameTail call) := by
  unfold nameTail
  infer_instance

instance (last : Token) : Blind (literals call last) := by
  unfold literals
  infer_instance

instance (opener : TokenKind) (last : Token) : Blind (expressions call opener last) := by
  unfold expressions
  split
  infer_instance

instance : Blind (lambda call) := by
  unfold lambda
  refine .seq inferInstance fun captures => ?_
  have harrow : Blind (do
      let arrow ← read
      let token ← if arrow.kind = .arrow then do
          let _ ← specified call .typeId
          read
        else
          pure arrow
      if token.kind ≠ .openCurly then
        faultExpected .openCurly token
        pushBack token
        return Token.absent
      return (← skipScope call token).getD .absent) := inferInstance
  infer_instance

instance (start : Token) : Blind (operand call start) := by
  unfold operand
  split
  · refine .seq inferInstance fun _ => .seq inferInstance fun next => ?_
    split <;> infer_instance
  · infer_instance
  · infer_instance
  · have hcast : ∀ closer, Blind (do
        let (castStart, castStop) ← call (.expression true)
        return some (if castStart.isPresent then castStop else closer)) :=
      fun _ => .seq inferInstance fun ⟨_, _⟩ => inferInstance
    infer_instance
  all_goals infer_instance

instance (stop : Token) : Blind (continuation call stop) := by
  unfold continuation
  refine .seq inferInstance fun token => .get (fun _ => inferInstance) fun h => ?_
  rw [h.closeAnglesOnly]

instance (optional : Bool) : Blind (expression call optional) := by
  unfold expression
  refine .seq inferInstance fun start => .seq inferInstance ?_
  rintro (_ | stop) <;> infer_instance

/-! ## Initializers -/

instance (soFar : List MemberInitializer) : Blind (memberInitializers call soFar) := by
  unfold memberInitializers
  refine .seq inferInstance fun qid => ?_
  split
  · infer_instance
  · refine .seq inferInstance fun opener => ?_
    split
    · infer_instance
    · refine .seq inferInstance fun closer => .seq inferInstance fun next => ?_
      split <;> infer_instance

instance (declared : Nat) : Blind (functionBody call declared) := by
  unfold functionBody
  infer_instance

instance : Blind (typeInitializer call) := by
  unfold typeInitializer
  infer_instance

instance (allowBraces : Bool) : Blind (variableInitializer call allowBraces) := by
  unfold variableInitializer
  infer_instance

/-! ## Classes and enumerations -/

instance (closeExpected : Bool) (className : String) :
    Blind (declarationList call closeExpected className) := by
  unfold declarationList
  infer_instance

instance (soFar : List BaseSpecifier) : Blind (bases call soFar) := by
  unfold bases
  refine .seq inferInstance fun token => ?_
  extract_lets rest
  have hrest : ∀ access, Blind (rest access) := by
    refine fun access => .seq inferInstance fun qid => ?_
    split
    · infer_instance
    · refine .seq inferInstance fun _ => .seq inferInstance fun punc => ?_
      split <;> infer_instance
  infer_instance

instance (soFar : List Token) : Blind (virtSpecifiers call soFar) := by
  unfold virtSpecifiers
  infer_instance

instance (classKey : Token) : Blind (record call classKey) := by
  unfold record
  infer_instance

instance (soFar : List Enumerator) : Blind (enumerators call soFar) := by
  unfold enumerators
  refine .seq inferInstance fun token => ?_
  split
  · infer_instance
  · refine .seq inferInstance fun _ => .seq inferInstance fun init => ?_
    refine .seq inferInstance fun next => ?_
    split <;> infer_instance
  · infer_instance

instance (enumKey : Token) : Blind (enumeration call enumKey) := by
  unfold enumeration
  refine .seq inferInstance fun word => ?_
  extract_lets rest
  have hrest : ∀ classKey, Blind (rest classKey) := by
    refine fun classKey => .seq inferInstance fun qid => .seq inferInstance fun sep => ?_
    extract_lets body named
    have hbody : ∀ head, Blind (body head) := by
      rintro ⟨basePunc, base⟩
      infer_instance
    infer_instance
  infer_instance

/-! ## Declarators -/

instance (f : FunctionDeclarator) : Blind (trailingReturn call f) := by
  unfold trailingReturn
  infer_instance

instance (nameMissing : Bool) (token : Token) : Blind (checkName nameMissing token) := by
  unfold checkName
  infer_instance

instance (d : Declarator) (depth : Nat) (nameMissing : Bool) :
    Blind (suffixes call d depth nameMissing) := by
  unfold suffixes
  refine .seq inferInstance fun token => ?_
  split
  · refine .seq inferInstance fun _ => .seq inferInstance ?_
    rintro ⟨start, stop⟩
    infer_instance
  · refine .seq inferInstance fun _ => .seq inferInstance fun _ => .seq inferInstance ?_
    rintro (_ | f) <;> infer_instance
  · infer_instance

instance (outer : Chain) (form : DeclaratorForm) (opener : Token) :
    Blind (innerDeclarator call outer form opener) := by
  unfold innerDeclarator
  infer_instance

instance (outer : Chain) (form : DeclaratorForm) (opener : Token) :
    Blind (functionOrInner call outer form opener) := by
  unfold functionOrInner
  refine .seq inferInstance fun _ => .seq inferInstance fun trial => .seq inferInstance ?_
  rintro (_ | f) <;> infer_instance

instance (chain : Chain) (form : DeclaratorForm) (allowQualifier : Bool) :
    Blind (declarator call chain form allowQualifier) := by
  unfold declarator
  infer_instance

/-! ## Specifiers -/

instance (simple : SimpleDeclaration) (d : Declarator) : Blind (addFunction call simple d) := by
  unfold addFunction
  infer_instance

instance (simple : SimpleDeclaration) (d : Declarator) (init : Initializer) :
    Blind (declaratorSeparator call simple d init) := by
  unfold declaratorSeparator
  infer_instance

instance (simple : SimpleDeclaration) : Blind (initDeclarators call simple) := by
  unfold initDeclarators
  infer_instance

instance (mode : Mode) (simple : SimpleDeclaration) : Blind (declarators call mode simple) := by
  unfold declarators
  infer_instance

instance (soFar : List Specifier) (hasType : Bool) :
    Blind (conversionSpecifiers call soFar hasType) := by
  unfold conversionSpecifiers
  infer_instance

instance (soFar : Chain) (allowQualifier : Bool) :
    Blind (conversionPointers call soFar allowQualifier) := by
  unfold conversionPointers
  infer_instance

instance (simple : SimpleDeclaration) (keyword : Token) :
    Blind (conversionFunction call simple keyword) := by
  unfold conversionFunction
  infer_instance

instance (simple : SimpleDeclaration) (keyword ellipsis : Token) (name : QualifiedId) :
    Blind (typeParameter call simple keyword ellipsis name) := by
  unfold typeParameter
  split <;> infer_instance

instance (mode : Mode) (simple : SimpleDeclaration) (typename : Token) (qid : QualifiedId) :
    Blind (typeOrConstructor call mode simple typename qid) := by
  unfold typeOrConstructor
  extract_lets added asType
  have hasType : Blind asType := by
    unfold asType
    infer_instance
  cases mode <;> infer_instance

instance (mode : Mode) (simple : SimpleDeclaration) (token : Token) :
    Blind (typeSpecifier call mode simple token) := by
  unfold typeSpecifier
  infer_instance

instance (mode : Mode) (soFar : SpecifierState) : Blind (specifiers call mode soFar) := by
  unfold specifiers
  have hmissing : ∀ token, Blind (match mode.missing? with
      | some what => do
        faultExpected what token
        pushBack token
        declarators call mode soFar.simple
      | none => do
        pushBack token
        declarators call mode soFar.simple) := by
    intro token
    split <;> infer_instance
  have hclose : ∀ opener, Blind (do
      match ← closeScope call opener with
      | none => return soFar.simple
      | some _ => call (.specifiers mode soFar)) := by
    refine fun opener => .seq inferInstance ?_
    rintro (_ | closer) <;> infer_instance
  infer_instance

/-! ## Declarations -/

instance : Blind requiredSemicolon := by
  unfold requiredSemicolon
  infer_instance

instance (className : String) : Blind (simpleDeclaration call className) := by
  unfold simpleDeclaration
  infer_instance

instance (first : Token) (className : String) : Blind (externDeclaration call first className) := by
  unfold externDeclaration
  infer_instance

instance (keyword : Token) : Blind (namespaceDeclaration call keyword) := by
  unfold namespaceDeclaration
  infer_instance

instance (keyword : Token) (className : String) :
    Blind (templateDeclaration call keyword className) := by
  unfold templateDeclaration
  infer_instance

instance (usingToken : Token) : Blind (usingDeclaration call usingToken) := by
  unfold usingDeclaration
  infer_instance

instance (keyword : Token) : Blind (accessLabel keyword) := by
  unfold accessLabel
  infer_instance

instance (keyword : Token) : Blind (staticAssert call keyword) := by
  unfold staticAssert
  refine .seq inferInstance fun opener => ?_
  split
  · infer_instance
  · refine .seq inferInstance ?_
    rintro (_ | closer) <;> infer_instance

instance (className : String) : Blind (declaration call className) := by
  unfold declaration
  refine .seq inferInstance fun token => ?_
  split <;> infer_instance

instance (closeExpected : Bool) (className : String) :
    Blind (declarations call closeExpected className) := by
  unfold declarations
  infer_instance

/-! ## Rules -/

/-- The bodies of rules are blind if calls are. -/
theorem body_blind (rule : Rule α) : Blind (body call rule) := by
  cases rule <;> simp only [body] <;> infer_instance

/-- A run is blind, however deep. -/
theorem run_blind (depth : Nat) : Call.Blind fun rule => run depth rule := by
  induction depth with
  | zero => exact ⟨fun _ => ⟨fun _ => .error _⟩⟩
  | succ depth ih => exact ⟨fun rule => body_blind rule⟩

end Grammar

end CppDecl
