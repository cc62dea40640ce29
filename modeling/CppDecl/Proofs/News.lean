import CppDecl.Proofs.Asides
import CppDecl.Proofs.Steady

/-!
# What the log tells

A watcher sees the events of a parse and nothing else.  `Watch` is what it can keep in mind: which
scopes are open, how many declarations were collected in each of them, and how many enumerators
there were in each enumeration.  `Watch.next?` goes on by one event, unless the event does not fit
what came before.  A scope is left when it is the innermost one, with as many parts as there were in
it, and declarations come up where they are collected.

`Session.Told` says of what has come to the log between two sessions that it fits, that it makes a
watcher believe what the session knows, and that asides and faults of the text were told of as the
reader came to them.  It holds of each action by itself and of actions one after the other.
-/

namespace CppDecl

namespace Scope

/-- Whether a scope collects any number of declarations. -/
def gathers : Scope → Bool
  | .unit | .namespaceScope _ | .record _ | .linkage => true
  | .enumeration _ | .template | .functionBody => false

/-- Whether a scope is an enumeration. -/
def isEnumeration : Scope → Bool
  | .enumeration _ => true
  | _ => false

/-- Whether a scope that has collected `n` declarations collects one more.  A template takes only
one. -/
def takes (scope : Scope) (n : Nat) : Bool :=
  scope.gathers || (decide (scope = .template) && n == 0)

end Scope

namespace Event

/-- The token, if the event tells of an aside. -/
def aside? : Event → Option Token
  | .aside token _ => some token
  | _ => none

/-- The fault, if the event reports a fault of the text. -/
def lexical? : Event → Option LexError
  | .diagnosed (.lexical e) => some e
  | _ => none

end Event

/-! ## Watchers -/

/-- What a watcher knows of the scopes that are open. -/
structure Watch where
  /-- The open scopes, innermost first, with the number of declarations collected in each. -/
  opened : List (Scope × Nat)
  /-- How many enumerators there were in the innermost open enumeration. -/
  enumerators : Nat
  /-- How many there were in each enumeration around it, and last of all outside of enumerations. -/
  outer : List Nat
  deriving Repr, DecidableEq

namespace Watch

/-- A watcher that has seen nothing. -/
def start : Watch := ⟨[], 0, []⟩

/-- The open scopes. -/
def path (w : Watch) : ScopePath := w.opened.map Prod.fst

/-- What a watcher knows after one more event, unless the event does not fit. -/
def next? (w : Watch) : Event → Option Watch
  | .entered [] => none
  | .entered (scope :: outer) =>
    if outer = w.path then
      let opened := (scope, 0) :: w.opened
      if scope.isEnumeration then some ⟨opened, 0, w.enumerators :: w.outer⟩
      else some { w with opened }
    else none
  | .left path count =>
    match w.opened with
    | [] => none
    | (scope, n) :: opened =>
      if path = w.path then
        if scope.isEnumeration then
          match w.outer with
          | [] => none
          | m :: outer => if count = w.enumerators then some ⟨opened, m, outer⟩ else none
        else if scope = .functionBody ∨ count = n then some { w with opened }
        else none
      else none
  | .declared _ path =>
    match w.opened with
    | [] => none
    | (scope, n) :: opened =>
      if path = w.path ∧ scope.takes n = true then some { w with opened := (scope, n + 1) :: opened }
      else none
  | .enumerated _ => some { w with enumerators := w.enumerators + 1 }
  | .aside _ _ | .included _ | .diagnosed _ => some w

/-- What a watcher knows after some events. -/
def all? (w : Watch) (events : List Event) : Option Watch := events.foldlM next? w

@[simp] theorem all?_nil (w : Watch) : w.all? [] = some w := rfl

theorem all?_append {w w₁ w₂ : Watch} {events events' : List Event} (h : w.all? events = some w₁)
    (h' : w₁.all? events' = some w₂) : w.all? (events ++ events') = some w₂ := by
  rw [all?, List.foldlM_append, show events.foldlM next? w = some w₁ from h]
  exact h'

theorem all?_single {w w' : Watch} {e : Event} (h : w.next? e = some w') : w.all? [e] = some w' := by
  rw [all?, List.foldlM_cons, h]
  rfl

theorem all?_of_forall {w : Watch} {events : List Event} (h : ∀ e ∈ events, w.next? e = some w) :
    w.all? events = some w := by
  induction events with
  | nil => rfl
  | cons e events ih =>
    rw [all?, List.foldlM_cons, h e List.mem_cons_self]
    exact ih fun e' he' => h e' (List.mem_cons_of_mem _ he')

end Watch

namespace Session

/-- What there is to know of open scopes. -/
def tally (sc : List OpenScope) : List (Scope × Nat) := sc.map fun o => (o.scope, o.members.length)

/-- What has come to the log: the events `news`. -/
structure Logs (news : List Event) (s s' : Session) : Prop where
  /-- These are the events. -/
  events : s'.events = s.events ++ news
  /-- Asides and faults of the text are told of in the order in which they come. -/
  forwards : ∀ {ts es}, s.reader.Forwards ts es → ∃ ts' es', s'.reader.Forwards ts' es' ∧
    ts = news.filterMap Event.aside? ++ ts' ∧ es = news.filterMap Event.lexical? ++ es'
  /-- No fault of the text is held back. -/
  collected : s.reader.errors = [] → s'.reader.errors = []

/-- What has come to the log fits, and it tells which scopes are open and how many declarations they
have.  The innermost enumeration is the same at the start and at the end, and `k` enumerators have
come up in it. -/
def Told (k : Nat) (s s' : Session) : Prop :=
  ∃ news, Logs news s s' ∧ ∀ n outer, Watch.all? ⟨tally s.scopes, n, outer⟩ news =
    some ⟨tally s'.scopes, n + k, outer⟩

variable {k l n : Nat} {s s' s'' : Session} {t : Token} {news later : List Event} {r : Reader}

theorem Logs.trans (h : Logs news s s') (h' : Logs later s' s'') : Logs (news ++ later) s s'' := by
  refine ⟨?_, ?_, fun hnone => h'.collected (h.collected hnone)⟩
  · rw [h'.events, h.events, List.append_assoc]
  · intro ts es hforwards
    obtain ⟨ts', es', hforwards', rfl, rfl⟩ := h.forwards hforwards
    obtain ⟨ts'', es'', hforwards'', rfl, rfl⟩ := h'.forwards hforwards'
    exact ⟨ts'', es'', hforwards'', by simp, by simp⟩

/-- What happens to other things than the log is not told of. -/
theorem logs_of_log_eq {a : Bool} (hlog : s'.log = s.log)
    (hreader : s'.reader = s.reader.withAngles a) : Logs [] s s' := by
  refine ⟨?_, ?_, ?_⟩
  · rw [Session.events, Session.events, hlog, List.append_nil]
  · intro ts es hforwards
    exact ⟨ts, es, hreader ▸ hforwards.withAngles a, rfl, rfl⟩
  · rw [hreader]
    exact id

/-- A single event that is neither an aside nor a fault of the text. -/
theorem logs_of_event {e : Event} (hlog : s'.log = e :: s.log) (hreader : s'.reader = s.reader)
    (haside : e.aside? = none) (hlexical : e.lexical? = none) : Logs [e] s s' := by
  refine ⟨?_, ?_, ?_⟩
  · rw [Session.events, Session.events, hlog, List.reverse_cons]
  · intro ts es hforwards
    refine ⟨ts, es, hreader ▸ hforwards, ?_, ?_⟩
    · rw [List.filterMap_cons_none haside]
      rfl
    · rw [List.filterMap_cons_none hlexical]
      rfl
  · rw [hreader]
    exact id

theorem Told.trans (h : s.Told k s') (h' : s'.Told l s'') : s.Told (k + l) s'' := by
  obtain ⟨news, hnews, hwatched⟩ := h
  obtain ⟨later, hlater, hwatched'⟩ := h'
  refine ⟨news ++ later, hnews.trans hlater, fun n outer => ?_⟩
  rw [← Nat.add_assoc]
  exact Watch.all?_append (hwatched n outer) (hwatched' (n + k) outer)

theorem told_of_log_eq {a : Bool} (hlog : s'.log = s.log) (hscopes : s'.scopes = s.scopes)
    (hreader : s'.reader = s.reader.withAngles a) : s.Told 0 s' :=
  ⟨[], logs_of_log_eq hlog hreader, fun n outer => by rw [hscopes]; rfl⟩

theorem Told.refl (s : Session) : s.Told 0 s :=
  told_of_log_eq (a := s.reader.closeAnglesOnly) rfl rfl rfl

theorem told_of_event {e : Event} (hlog : s'.log = e :: s.log) (hreader : s'.reader = s.reader)
    (haside : e.aside? = none) (hlexical : e.lexical? = none)
    (hnext : ∀ n outer, Watch.next? ⟨tally s.scopes, n, outer⟩ e =
      some ⟨tally s'.scopes, n + k, outer⟩) : s.Told k s' :=
  ⟨[e], logs_of_event hlog hreader haside hlexical, fun n outer => Watch.all?_single (hnext n outer)⟩

/-! ## Tokens -/

/-- What comes up in a reader, as events. -/
def arrivals (r : Reader) : List Event :=
  r.errors.map (fun e => Event.diagnosed (.lexical e)) ++ r.inclusions.map Event.included

theorem drain_events (s : Session) : s.drain.events = s.events ++ arrivals s.reader := by
  rw [Session.events, Session.events, drain, List.reverse_append, List.reverse_reverse]
  rfl

theorem aside?_arrivals (r : Reader) : (arrivals r).filterMap Event.aside? = [] := by
  refine List.filterMap_eq_nil_iff.2 fun e he => ?_
  rcases List.mem_append.1 he with he | he <;> obtain ⟨_, -, rfl⟩ := List.mem_map.1 he <;> rfl

theorem lexical?_arrivals (r : Reader) : (arrivals r).filterMap Event.lexical? = r.errors := by
  have hnone : (r.inclusions.map Event.included).filterMap Event.lexical? = [] := by
    rw [List.filterMap_map]
    exact List.filterMap_eq_nil_iff.2 fun _ _ => rfl
  rw [arrivals, List.filterMap_append, List.filterMap_map, hnone, List.append_nil]
  exact List.filterMap_some

theorem watched_arrivals (w : Watch) (r : Reader) : ∀ e ∈ arrivals r, w.next? e = some w := by
  intro e he
  rcases List.mem_append.1 he with he | he <;> obtain ⟨_, -, rfl⟩ := List.mem_map.1 he <;> rfl

/-- A token is taken from the reader, and it is shown if it is an aside. -/
theorem told_of_taken (args : List Token) (hsound : s.reader.Sound)
    (hread : s.reader.readToken = .ok (t, r))
    (hevents : s'.events = s.events ++ (arrivals r ++ (asides [t]).map fun u => .aside u args))
    (hreader : s'.reader = r.collected) (hscopes : s'.scopes = s.scopes) : s.Told 0 s' := by
  have hshown : ((asides [t]).map fun u => Event.aside u args).filterMap Event.aside? =
      asides [t] := by
    rw [List.filterMap_map]
    exact List.filterMap_some
  have hsilent : ((asides [t]).map fun u => Event.aside u args).filterMap Event.lexical? = [] := by
    rw [List.filterMap_map]
    exact List.filterMap_eq_nil_iff.2 fun _ _ => rfl
  refine ⟨_, ⟨hevents, ?_, fun _ => by rw [hreader]; rfl⟩, ?_⟩
  · intro ts es hforwards
    obtain ⟨ts', hrest, rfl⟩ := hforwards.readToken hsound hread
    obtain ⟨es', hcollected, rfl⟩ := hrest.collected
    refine ⟨ts', es', hreader ▸ hcollected, ?_, ?_⟩
    · rw [List.filterMap_append, aside?_arrivals, hshown, List.nil_append]
    · rw [List.filterMap_append, lexical?_arrivals, hsilent, List.append_nil]
  · intro n outer
    rw [hscopes, Nat.add_zero]
    refine Watch.all?_of_forall fun e he => ?_
    rcases List.mem_append.1 he with he | he
    · exact watched_arrivals _ r e he
    · obtain ⟨_, -, rfl⟩ := List.mem_map.1 he
      rfl

theorem afterAside_events (haside : t.kind.isAside = true) : (s.afterAside t r n).events = s.events ++
    (arrivals r ++ (asides [t]).map fun u =>
      .aside u (if t.kind = .macroUse then r.args else [])) := by
  have hevents := drain_events { s with reader := r, allowance := n }
  simp only [events] at hevents ⊢
  simp only [afterAside, record, List.reverse_cons, hevents]
  simp [asides, haside]

/-- A token that is no aside is taken from the reader. -/
theorem told_of_plain (hsound : s.reader.Sound) (hread : s.reader.readToken = .ok (t, r))
    (hplain : asides [t] = []) (n : Nat) :
    s.Told 0 { s with reader := r, allowance := n }.drain := by
  refine told_of_taken [] hsound hread ?_ rfl rfl
  rw [hplain, drain_events, List.map_nil, List.append_nil]
  rfl

/-- A token is drawn from the reader, with all asides in front of it. -/
theorem Draws.told (h : s.Draws t s') : s.Told 0 s' := by
  induction h with
  | last n hsound hread hplain => exact told_of_plain hsound hread (asides_singleton hplain) n
  | aside hsound hread haside _ ih =>
    exact (told_of_taken _ hsound hread (afterAside_events haside) rfl rfl).trans ih

theorem told_of_read (hsound : s.reader.Sound) (h : Parse.read s = .ok (t, s')) : s.Told 0 s' := by
  unfold Parse.read at h
  split at h
  · cases h
    exact told_of_log_eq (a := s.reader.closeAnglesOnly) rfl rfl rfl
  · obtain ⟨⟨u, s₁⟩, hpull, h⟩ := Halt.bind_eq_ok h
    have hpassed : s₁.Told 0 { s₁ with queue := s₁.queue.passed u } :=
      told_of_log_eq (a := s₁.reader.closeAnglesOnly) rfl rfl rfl
    cases h
    exact (draws_of_pull hsound hpull).told.trans hpassed

/-! ## Trials -/

variable {s₁ s₂ : Session} {trial : Parse.Trial}

theorem Begun.told (h : s.Begun trial s₁) : s.Told 0 s₁ := by
  rw [h.session]
  exact told_of_log_eq (a := s.reader.closeAnglesOnly) rfl rfl rfl

theorem told_of_endTrial (hend : Parse.endTrial trial s₂ = .ok ((), s')) : s₂.Told 0 s' := by
  rw [endTrial_eq hend]
  exact told_of_log_eq (a := s₂.reader.closeAnglesOnly) rfl rfl rfl

theorem told_of_abandon (habandon : Parse.abandon trial s₂ = .ok ((), s')) : s₂.Told 0 s' := by
  let back : Session := { s₂ with
    queue := s₂.queue.seek trial.pos, rawErrors := trial.rawErrors, muted := trial.muted }
  have htold : s₂.Told 0 back := told_of_log_eq (a := s₂.reader.closeAnglesOnly) rfl rfl rfl
  have hend : Parse.endTrial trial back = .ok ((), s') := habandon
  exact htold.trans (told_of_endTrial hend)

/-! ## Scopes -/

/-- A declaration may be collected in the innermost scope. -/
def Collecting (sc : List OpenScope) : Prop :=
  ∃ top outer, sc = top :: outer ∧ top.scope.takes top.members.length = true

theorem told_of_enterScope {scope : Scope} (hscope : scope.isEnumeration = false)
    (h : Parse.enterScope scope s = .ok ((), s')) : s.Told 0 s' := by
  cases h
  refine told_of_event rfl rfl rfl rfl fun n outer => ?_
  simp [Watch.next?, Watch.path, tally, path, record, hscope]

/-- A scope other than an enumeration is left. -/
theorem told_of_leaveScope {count : Nat} {top : OpenScope} {outer : List OpenScope}
    (hscopes : s.scopes = top :: outer) (hother : top.scope.isEnumeration = false)
    (hcount : top.scope = .functionBody ∨ count = top.members.length)
    (h : Parse.leaveScope top.scope count s = .ok ((), s')) : s.Told 0 s' := by
  cases h
  refine told_of_event rfl rfl rfl rfl fun n outer => ?_
  simp [Watch.next?, Watch.path, tally, path, hscopes, hother, hcount]

theorem collect_of_takes {o : OpenScope} (d : Declaration)
    (htakes : o.scope.takes o.members.length = true) :
    (o.collect d).scope = o.scope ∧ (o.collect d).members.length = o.members.length + 1 := by
  obtain ⟨scope, members⟩ := o
  cases scope <;> simp_all [OpenScope.collect, Scope.takes, Scope.gathers]

theorem told_of_declare {d : Declaration} (hcollecting : Collecting s.scopes)
    (h : Parse.declare d s = .ok ((), s')) : s.Told 0 s' := by
  obtain ⟨top, outer, hscopes, htakes⟩ := hcollecting
  obtain ⟨hscope, hlength⟩ := collect_of_takes d htakes
  have hdone : s' = { s.record (.declared d s.path) with scopes := top.collect d :: outer } := by
    simp only [Parse.declare, modify, modifyGet, MonadStateOf.modifyGet, StateT.modifyGet, record,
      hscopes] at h
    cases h
    rfl
  rw [hdone]
  refine told_of_event rfl rfl rfl rfl fun n outer => ?_
  simp [Watch.next?, Watch.path, tally, path, hscopes, htakes, hscope, hlength]

/-- An enumerator is told of. -/
theorem told_of_tell (e : Enumerator) (h : Parse.tell (.enumerated e) s = .ok ((), s')) :
    s.Told 1 s' := by
  cases h
  exact told_of_event rfl rfl rfl rfl fun _ _ => rfl

/-- An enumeration is left with as many enumerators as have come up in it. -/
theorem told_of_enumeration {name : String} {count : Nat} {s₁ s₂ : Session}
    {members : List Declaration}
    (henter : Parse.enterScope (.enumeration name) s = .ok ((), s₁)) (hinner : s₁.Told count s₂)
    (hscopes : s₂.scopes = ⟨.enumeration name, members⟩ :: s.scopes)
    (hleave : Parse.leaveScope (.enumeration name) count s₂ = .ok ((), s')) : s.Told 0 s' := by
  obtain ⟨news, hnews, hwatched⟩ := hinner
  have hentered : Logs [.entered (.enumeration name :: s.path)] s s₁ := by
    cases henter
    exact logs_of_event rfl rfl rfl rfl
  have hleft : Logs [.left (.enumeration name :: s₂.path.drop 1) count] s₂ s' := by
    cases hleave
    exact logs_of_event rfl rfl rfl rfl
  refine ⟨_, (hentered.trans hnews).trans hleft, fun n outer => ?_⟩
  cases henter
  cases hleave
  refine Watch.all?_append (Watch.all?_append (Watch.all?_single ?_) (hwatched 0 (n :: outer)))
    (Watch.all?_single ?_)
  · simp [Watch.next?, Watch.path, tally, path, record, Scope.isEnumeration]
  · simp [Watch.next?, Watch.path, tally, path, hscopes, Scope.isEnumeration]

end Session

end CppDecl
