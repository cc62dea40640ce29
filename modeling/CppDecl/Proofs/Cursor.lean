import CppDecl.Proofs.Sequence

/-!
# The queue of tokens is a cursor

A session keeps tokens in a queue: those that were pushed back, and during a trial all that were
read, so that the parse can go back.  Seen from outside there is no queue.  There is the sequence of
tokens that the reader stands for and a *cursor* in it.  Reading gives the token at the cursor and
goes on by one, pushing back goes back by one, a trial that is given up goes back to where it began,
and ending a trial changes nothing.

`seenTokens_follows_cursor` says that this is so for every list of actions that a cursor allows.
The caller pushes back the tokens that it has read, last one first, and not beyond the place where
the outermost trial began.

The invariant is `Follows`.  Of the tokens that were taken from the reader, the queue holds those
from some place on, its *base*.  During a trial the base is the place where the outermost trial
began.  Otherwise it is the cursor itself, since then nothing is kept behind it.
-/

namespace CppDecl

open Parse (Trial)

/-! ## Cursors -/

/-- What can be done with the tokens of a session. -/
inductive Action where
  /-- The next token is read. -/
  | read
  /-- The next token is looked at. -/
  | peek
  /-- The token that was read last is pushed back. -/
  | pushBack
  /-- A trial begins. -/
  | begin
  /-- The parse goes back to where the innermost trial began. -/
  | backtrack
  /-- The innermost trial ends. -/
  | cancel
  deriving Repr, DecidableEq

/-- A place in a sequence of tokens, and the places where the trials that are on began, innermost
first. -/
structure Cursor where
  /-- The place of the next token. -/
  place : Nat
  /-- The places where trials began. -/
  begins : List Nat
  deriving Repr, DecidableEq

namespace Cursor

/-- At the start of the sequence. -/
def start : Cursor := ⟨0, []⟩

/-- The first place that tokens may be pushed back to. -/
def floor (c : Cursor) : Nat := c.begins.getLastD 0

/-- What an action does, with the places at which it looks at the sequence.  Not everything is
allowed everywhere. -/
def act? (c : Cursor) : Action → Option (List Nat × Cursor)
  | .read => some ([c.place], { c with place := c.place + 1 })
  | .peek => some ([c.place], c)
  | .pushBack => if c.floor < c.place then some ([], { c with place := c.place - 1 }) else none
  | .begin => some ([], { c with begins := c.place :: c.begins })
  | .backtrack =>
    match c.begins with
    | [] => none
    | begun :: _ => some ([], { c with place := begun })
  | .cancel =>
    match c.begins with
    | [] => none
    | _ :: begins => some ([], { c with begins })

/-- What some actions do, one after the other. -/
def actAll? (c : Cursor) : List Action → Option (List Nat × Cursor)
  | [] => some ([], c)
  | action :: actions => do
    let (places, c) ← c.act? action
    let (more, c) ← c.actAll? actions
    return (places ++ more, c)

end Cursor

/-! ## Callers -/

/-- One who works with the tokens of a session. -/
structure Caller where
  /-- The tokens that were read and not pushed back, last one first. -/
  held : List Token
  /-- The trials that are on, innermost first, each with the tokens that were held at its start. -/
  trials : List (Trial × List Token)

namespace Caller

/-- One who has not done anything yet. -/
def new : Caller := ⟨[], []⟩

/-- Carries out an action.  Gives the tokens that are seen by it. -/
def perform (caller : Caller) : Action → Parse (List Token × Caller)
  | .read => do
    let token ← Parse.read
    return ([token], { caller with held := token :: caller.held })
  | .peek => do
    let token ← Parse.peek
    return ([token], caller)
  | .pushBack =>
    match caller.held with
    | [] => return ([], caller)
    | token :: held => do
      Parse.pushBack token
      return ([], { caller with held })
  | .begin => do
    let trial ← Parse.beginTrial
    return ([], { caller with trials := (trial, caller.held) :: caller.trials })
  | .backtrack =>
    match caller.trials with
    | [] => return ([], caller)
    | (trial, held) :: _ => do
      Parse.backtrack trial
      return ([], { caller with held })
  | .cancel =>
    match caller.trials with
    | [] => return ([], caller)
    | (trial, _) :: trials => do
      Parse.endTrial trial
      return ([], { caller with trials })

/-- Carries out some actions, one after the other. -/
def performAll (caller : Caller) : List Action → Parse (List Token × Caller)
  | [] => return ([], caller)
  | action :: actions => do
    let (tokens, caller) ← caller.perform action
    let (more, caller) ← caller.performAll actions
    return (tokens ++ more, caller)

end Caller

/-- The tokens that are seen in a new session while some actions are carried out. -/
def seenTokens (reader : Reader) (allowance passNumber : Nat) (actions : List Action) :
    Except Halt (List Token) := do
  let ((tokens, _), _) ← (Caller.new.performAll actions).run (.new reader allowance passNumber)
  return tokens

/-! ## The invariant -/

/-- The trials of a caller began at these places.  Positions in the queue count from its base. -/
inductive Nested (taken : List Token) (base : Nat) : List (Trial × List Token) → List Nat → Prop
  | nil : Nested taken base [] []
  | cons {trial : Trial} {trials : List (Trial × List Token)} {begins : List Nat}
      (saving : trial.saving = !begins.isEmpty) (le : base + trial.pos ≤ taken.length)
      (outermost : begins = [] → trial.pos = 0) (rest : Nested taken base trials begins) :
      Nested taken base ((trial, (taken.take (base + trial.pos)).reverse) :: trials)
        ((base + trial.pos) :: begins)

/-- The queue and the caller are where a cursor is, in the tokens that were taken from the reader. -/
structure Follows (taken : List Token) (base : Nat) (q : TokenQueue) (caller : Caller)
    (c : Cursor) : Prop where
  /-- The base is in what was taken. -/
  base_le : base ≤ taken.length
  /-- The queue holds what was taken, from its base on. -/
  tokens : q.behind.reverse ++ q.ahead = taken.drop base
  /-- The cursor is between its two sides. -/
  place : base + q.behind.length = c.place
  /-- The caller holds all tokens before the cursor. -/
  held : caller.held = (taken.take c.place).reverse
  /-- The trials are those of the caller. -/
  trials : Nested taken base caller.trials c.begins
  /-- Tokens that are read are kept during a trial. -/
  saving : q.saving = !c.begins.isEmpty
  /-- Outside of a trial none are. -/
  settled : c.begins = [] → q.behind = []

variable {taken : List Token} {base : Nat} {q : TokenQueue} {caller : Caller} {c : Cursor}

theorem Nested.append {trials : List (Trial × List Token)} {begins : List Nat}
    (h : Nested taken base trials begins) (t : Token) : Nested (taken ++ [t]) base trials begins := by
  induction h with
  | nil => exact .nil
  | @cons trial trials begins hsaving hle hpos _ ih =>
    have hlength : base + trial.pos ≤ (taken ++ [t]).length := by
      rw [List.length_append]
      omega
    have hcons := Nested.cons hsaving hlength hpos ih
    rwa [List.take_append_of_le_length hle] at hcons

/-- Tokens may be pushed back to the base of the queue. -/
theorem Nested.floor {trials : List (Trial × List Token)} {begins : List Nat}
    (h : Nested taken base trials begins) (hne : begins ≠ []) : begins.getLastD 0 = base := by
  induction h with
  | nil => exact absurd rfl hne
  | @cons trial trials begins _ _ hpos _ ih =>
    cases begins with
    | nil =>
      rw [hpos rfl]
      rfl
    | cons b begins =>
      rw [← ih (List.cons_ne_nil b begins)]
      rfl

namespace Follows

theorem new : Follows [] 0 .empty .new .start :=
  ⟨Nat.le_refl 0, rfl, rfl, rfl, .nil, rfl, fun _ => rfl⟩

theorem place_le (h : Follows taken base q caller c) : c.place ≤ taken.length := by
  have hbase := h.base_le
  have hlength := congrArg List.length h.tokens
  rw [List.length_append, List.length_reverse, List.length_drop] at hlength
  rw [← h.place]
  omega

/-- What is ahead is what was taken from the cursor on. -/
theorem ahead (h : Follows taken base q caller c) : q.ahead = taken.drop c.place := by
  have htokens := congrArg (List.drop q.behind.length) h.tokens
  rw [List.drop_left' (List.length_reverse), List.drop_drop, h.place] at htokens
  exact htokens

/-- Outside of a trial the queue holds what is ahead, and nothing else. -/
theorem outside {place : Nat} (h : place ≤ taken.length) :
    Follows taken place ⟨[], taken.drop place, false⟩ ⟨(taken.take place).reverse, []⟩
      ⟨place, []⟩ :=
  ⟨h, rfl, rfl, rfl, .nil, rfl, fun _ => rfl⟩

theorem eq_outside {place : Nat} (h : Follows taken base q caller ⟨place, []⟩) :
    q = ⟨[], taken.drop place, false⟩ ∧ caller = ⟨(taken.take place).reverse, []⟩ := by
  obtain ⟨behind, ahead, saving⟩ := q
  obtain ⟨held, trials⟩ := caller
  obtain rfl : behind = [] := h.settled rfl
  obtain rfl : ahead = taken.drop place := h.ahead
  obtain rfl : saving = false := h.saving
  obtain rfl : held = (taken.take place).reverse := h.held
  obtain rfl : trials = [] := by
    have htrials : Nested taken base trials [] := h.trials
    cases htrials
    rfl
  exact ⟨rfl, rfl⟩

/-- A token that is taken from the reader is one more ahead. -/
theorem append (h : Follows taken base q caller c) (t : Token) :
    Follows (taken ++ [t]) base { q with ahead := q.ahead ++ [t] } caller c := by
  refine ⟨?_, ?_, h.place, ?_, h.trials.append t, h.saving, h.settled⟩
  · rw [List.length_append]
    exact Nat.le_add_right_of_le h.base_le
  · rw [List.drop_append_of_le_length h.base_le, ← h.tokens, List.append_assoc]
  · rw [List.take_append_of_le_length h.place_le]
    exact h.held

/-- Reading a token that is ahead. -/
theorem next (h : Follows taken base q caller c) {t : Token} {ahead : List Token}
    (hahead : q.ahead = t :: ahead) :
    taken[c.place]? = some t ∧ ∃ base',
      Follows taken base' ({ q with ahead }.passed t) { caller with held := t :: caller.held }
        { c with place := c.place + 1 } := by
  have hdrop : taken.drop c.place = t :: ahead := by rw [← h.ahead, hahead]
  have hget : taken[c.place]? = some t := by
    rw [← List.head?_drop, hdrop]
    rfl
  have hlt : c.place < taken.length := (List.getElem?_eq_some_iff.1 hget).1
  have htail : taken.drop (c.place + 1) = ahead := by
    rw [← List.tail_drop, hdrop]
    rfl
  have hheld : t :: (taken.take c.place).reverse = (taken.take (c.place + 1)).reverse := by
    rw [List.take_add_one, hget]
    simp
  refine ⟨hget, ?_⟩
  obtain ⟨place, begins⟩ := c
  cases begins with
  | nil =>
    obtain ⟨rfl, rfl⟩ := h.eq_outside
    simp only at hheld
    simp only [hheld, ← htail]
    exact ⟨place + 1, outside hlt⟩
  | cons begun begins =>
    have hsaving : q.saving = true := h.saving
    have htokens : (t :: q.behind).reverse ++ ahead = taken.drop base := by
      rw [← h.tokens, hahead]
      simp
    have hplace : base + (t :: q.behind).length = place + 1 := congrArg Nat.succ h.place
    rw [TokenQueue.passed, if_pos hsaving]
    exact ⟨base, h.base_le, htokens, hplace, by rw [h.held, ← hheld], h.trials, hsaving, nofun⟩

/-- Pushing the last token back that the caller holds. -/
theorem pushBack (h : Follows taken base q caller c) {t : Token} {held : List Token}
    (hheld : caller.held = t :: held) (hbase : c.begins ≠ [] → base < c.place) :
    ∃ base', Follows taken base' (q.pushBack t) { caller with held }
      { c with place := c.place - 1 } := by
  have hpos : 0 < c.place := by
    rcases Nat.eq_zero_or_pos c.place with hzero | hpos
    · rw [h.held, hzero] at hheld
      cases hheld
    · exact hpos
  obtain ⟨after, begins⟩ := c
  obtain ⟨place, rfl⟩ : ∃ place, after = place + 1 := ⟨after - 1, (Nat.sub_add_cancel hpos).symm⟩
  -- the token is the one before the cursor
  obtain ⟨x, hx⟩ : ∃ x, taken[place]? = some x := ⟨_, List.getElem?_eq_getElem h.place_le⟩
  have htake : taken.take place ++ [x] = held.reverse ++ [t] := by
    rw [← List.reverse_cons, ← hheld, h.held, List.reverse_reverse, List.take_add_one, hx]
    rfl
  obtain ⟨hbefore, hlast⟩ := List.append_inj' htake rfl
  obtain rfl : x = t := List.head_eq_of_cons_eq hlast
  have hheld' : held = (taken.take place).reverse := by rw [hbefore, List.reverse_reverse]
  cases begins with
  | nil =>
    obtain ⟨rfl, rfl⟩ := h.eq_outside
    have hdrop : x :: taken.drop (place + 1) = taken.drop place := by
      rw [List.drop_eq_getElem?_toList_append (i := place), hx]
      rfl
    rw [TokenQueue.pushBack, hheld']
    simp only [hdrop]
    exact ⟨place, outside (Nat.le_of_succ_le h.place_le)⟩
  | cons begun begins =>
    have hlt := hbase (List.cons_ne_nil begun begins)
    have hplace := h.place
    obtain ⟨behind, ahead, saving⟩ := q
    cases behind with
    | nil => exact absurd hplace (Nat.ne_of_lt hlt)
    | cons last behind =>
      have htokens : behind.reverse ++ last :: ahead = taken.drop base := by
        rw [← h.tokens]
        simp
      exact ⟨base, h.base_le, htokens, Nat.succ.inj hplace, hheld', h.trials, h.saving, nofun⟩

/-- Beginning a trial. -/
theorem beginTrial (h : Follows taken base q caller c) (rawErrors : Nat) (muted : Bool) :
    Follows taken base { q with saving := true }
      { caller with trials := (⟨q.saving, q.pos, rawErrors, muted⟩, caller.held) :: caller.trials }
      { c with begins := c.place :: c.begins } := by
  have hle := h.place_le
  have hheld := h.held
  rw [← h.place] at hle hheld
  refine ⟨h.base_le, h.tokens, h.place, h.held, ?_, rfl, nofun⟩
  rw [hheld, ← h.place]
  refine @Nested.cons taken base ⟨q.saving, q.pos, rawErrors, muted⟩ caller.trials c.begins
    h.saving hle ?_ h.trials
  intro hnil
  show q.behind.length = 0
  rw [h.settled hnil]
  rfl

/-- Going back to where the innermost trial began. -/
theorem backtrack (h : Follows taken base q caller c) {begun : Nat} {begins : List Nat}
    (hbegins : c.begins = begun :: begins) :
    ∃ trial held trials, caller.trials = (trial, held) :: trials ∧
      Follows taken base (q.seek trial.pos) { caller with held } { c with place := begun } := by
  obtain ⟨place, _⟩ := c
  obtain ⟨_, trials⟩ := caller
  obtain rfl := hbegins
  have htrials : Nested taken base trials (begun :: begins) := h.trials
  cases htrials with
  | @cons trial trials _ hsaving hle hpos hrest =>
    refine ⟨trial, _, trials, rfl, h.base_le, ?_, ?_, rfl, h.trials, h.saving, nofun⟩
    · simp only [TokenQueue.seek, List.reverse_reverse, List.take_append_drop]
      exact h.tokens
    · simp only [TokenQueue.seek, List.length_reverse, h.tokens, List.length_take, List.length_drop]
      omega

/-- Ending the innermost trial. -/
theorem endTrial (h : Follows taken base q caller c) {begun : Nat} {begins : List Nat}
    (hbegins : c.begins = begun :: begins) :
    ∃ trial held trials base', caller.trials = (trial, held) :: trials ∧
      Follows taken base' (if trial.saving then q else q.settle) { caller with trials }
        { c with begins } := by
  obtain ⟨place, _⟩ := c
  obtain ⟨held, trials⟩ := caller
  obtain rfl := hbegins
  have htrials : Nested taken base trials (begun :: begins) := h.trials
  cases htrials with
  | @cons trial trials _ hsaving hle hpos hrest =>
    cases begins with
    | nil =>
      cases hrest
      obtain rfl : held = (taken.take place).reverse := h.held
      refine ⟨trial, _, [], place, rfl, ?_⟩
      have hahead : q.ahead = taken.drop place := h.ahead
      rw [if_neg (by rw [hsaving]; exact Bool.false_ne_true), TokenQueue.settle, hahead]
      exact outside h.place_le
    | cons outer begins =>
      refine ⟨trial, _, trials, base, rfl, ?_⟩
      rw [if_pos (show trial.saving = true from hsaving)]
      exact ⟨h.base_le, h.tokens, h.place, h.held, hrest, h.saving, nofun⟩

end Follows

/-! ## Actions -/

/-- The session and the caller are where a cursor is in the sequence of a reader, and as much of the
allowance is left as was not needed to get there. -/
def Tracks (r : Reader) (allowance : Nat) (s : Session) (caller : Caller) (c : Cursor) : Prop :=
  ∃ n taken r' base, r.Delivers n taken r' ∧ s.reader.Alike r' ∧ s.allowance + n = allowance ∧
    Follows taken base s.queue caller c

/-- What comes of actions that look at the sequence at some places: the tokens that are there, or
the allowance is not enough to get to them. -/
def Sighting (r : Reader) (allowance : Nat) (places : List Nat) (c : Cursor)
    (result : Except Halt ((List Token × Caller) × Session)) : Prop :=
  (result = .error .exhausted ∧
    ∀ n ts r', r.Delivers n ts r' → (∀ place ∈ places, place < ts.length) → allowance < n) ∨
  ∃ tokens caller s, result = .ok ((tokens, caller), s) ∧ List.Forall₂ r.At places tokens ∧
    Tracks r allowance s caller c

variable {r : Reader} {allowance : Nat} {s : Session}

theorem Tracks.read (h : Tracks r allowance s caller c) (hsound : r.Sound) :
    (Parse.read s = .error .exhausted ∧
      ∀ n ts r', r.Delivers n ts r' → c.place < ts.length → allowance < n) ∨
    ∃ t s', Parse.read s = .ok (t, s') ∧ r.At c.place t ∧
      Tracks r allowance s' { caller with held := t :: caller.held }
        { c with place := c.place + 1 } := by
  obtain ⟨n, taken, r', base, hdelivers, halike, hallowance, hfollows⟩ := h
  unfold Parse.read TokenQueue.next?
  cases hahead : s.queue.ahead with
  | cons t ahead =>
    obtain ⟨hget, base', hnext⟩ := hfollows.next hahead
    exact .inr ⟨t, _, rfl, hdelivers.at hsound hget,
      n, taken, r', base', hdelivers, halike, hallowance, hnext⟩
  | nil =>
    have hplace : c.place = taken.length := by
      have hlength := congrArg List.length (hfollows.ahead.symm.trans hahead)
      have hle := hfollows.place_le
      rw [List.length_drop, List.length_nil] at hlength
      omega
    rcases Session.pull_spec halike (hdelivers.sound hsound) rfl with
      ⟨hpull, hfew⟩ | ⟨m, t, r'', s', hpull, hgives, hlike, hcount, htook⟩
    · refine .inl ⟨by simp only [hpull, bind, Except.bind], ?_⟩
      intro n' ts q hlonger hlt
      rw [hplace] at hlt
      obtain ⟨k, u, q', hmore, hle⟩ := hdelivers.more hlonger hlt
      have hless := hfew k u q' hmore
      omega
    · have hqueue : s'.queue = s.queue := by rw [htook]
      have happend := hfollows.append t
      rw [hahead, List.nil_append] at happend
      obtain ⟨hget, base', hnext⟩ := happend.next rfl
      have hdelivers' := hdelivers.snoc hgives
      have hread : (s.pull s.allowance >>= fun p => pure (p.1, { p.2 with
          queue := p.2.queue.passed p.1 })) = .ok (t, { s' with queue := s'.queue.passed t }) := by
        rw [hpull]
        rfl
      have hempty : s'.queue = { s.queue with ahead := [] } := by
        rw [hqueue, ← hahead]
      refine .inr ⟨t, _, hread, hdelivers'.at hsound hget,
        n + m, _, r'', base', hdelivers', hlike, ?_, ?_⟩
      · show s'.allowance + (n + m) = allowance
        omega
      · show Follows _ base' (s'.queue.passed t) _ _
        rw [hempty]
        exact hnext

theorem Tracks.pushBack (h : Tracks r allowance s caller c) {t : Token} {held : List Token}
    (hheld : caller.held = t :: held) (hfloor : c.floor < c.place) :
    Tracks r allowance { s with queue := s.queue.pushBack t } { caller with held }
      { c with place := c.place - 1 } := by
  obtain ⟨n, taken, r', base, hdelivers, halike, hallowance, hfollows⟩ := h
  have hbase : c.begins ≠ [] → base < c.place := by
    intro hne
    rw [← hfollows.trials.floor hne]
    exact hfloor
  obtain ⟨base', hback⟩ := hfollows.pushBack hheld hbase
  exact ⟨n, taken, r', base', hdelivers, halike, hallowance, hback⟩

theorem Tracks.floor_le (h : Tracks r allowance s caller c) : c.floor ≤ c.place := by
  obtain ⟨n, taken, r', base, -, -, -, hfollows⟩ := h
  by_cases hnil : c.begins = []
  · rw [Cursor.floor, hnil]
    exact Nat.zero_le _
  · rw [Cursor.floor, hfollows.trials.floor hnil, ← hfollows.place]
    exact Nat.le_add_right _ _

/-- The caller holds a token if the cursor is not at the start. -/
theorem Tracks.held (h : Tracks r allowance s caller c) (hpos : 0 < c.place) :
    ∃ t held, caller.held = t :: held := by
  obtain ⟨n, taken, r', base, -, -, -, hfollows⟩ := h
  have hlength := congrArg List.length hfollows.held
  rw [List.length_reverse, List.length_take, Nat.min_eq_left hfollows.place_le] at hlength
  exact List.exists_cons_of_length_pos (by omega)

/-- A single action. -/
theorem Tracks.perform (h : Tracks r allowance s caller c) (hsound : r.Sound) {action : Action}
    {places : List Nat} {c' : Cursor} (hact : c.act? action = some (places, c')) :
    Sighting r allowance places c' (caller.perform action s) := by
  cases action with
  | read =>
    cases hact
    rcases h.read hsound with ⟨hread, hfew⟩ | ⟨t, s', hread, hat, htracks⟩
    · refine .inl ⟨by simp only [Caller.perform, bind, StateT.bind, hread, Except.bind], ?_⟩
      intro n ts r' hdelivers hlt
      exact hfew n ts r' hdelivers (hlt c.place (List.mem_singleton_self _))
    · refine .inr ⟨[t], _, s', ?_, .cons hat .nil, htracks⟩
      simp only [Caller.perform, bind, StateT.bind, hread, Except.bind]
      rfl
  | peek =>
    cases hact
    rcases h.read hsound with ⟨hread, hfew⟩ | ⟨t, s', hread, hat, htracks⟩
    · refine .inl ⟨by simp only [Caller.perform, Parse.peek, bind, StateT.bind, hread, Except.bind],
        ?_⟩
      intro n ts r' hdelivers hlt
      exact hfew n ts r' hdelivers (hlt c.place (List.mem_singleton_self _))
    · refine .inr ⟨[t], caller, _, ?_, .cons hat .nil,
        htracks.pushBack rfl (Nat.lt_succ_of_le h.floor_le)⟩
      simp only [Caller.perform, Parse.peek, bind, StateT.bind, hread, Except.bind]
      rfl
  | pushBack =>
    simp only [Cursor.act?] at hact
    split at hact
    next hfloor =>
      cases hact
      obtain ⟨t, held, hheld⟩ := h.held (Nat.zero_lt_of_lt hfloor)
      refine .inr ⟨[], _, _, ?_, .nil, h.pushBack hheld hfloor⟩
      simp only [Caller.perform, hheld]
      rfl
    next => cases hact
  | begin =>
    cases hact
    obtain ⟨n, taken, r', base, hdelivers, halike, hallowance, hfollows⟩ := h
    exact .inr ⟨[], _, _, rfl, .nil,
      n, taken, r', base, hdelivers, halike, hallowance, hfollows.beginTrial s.rawErrors s.muted⟩
  | backtrack =>
    simp only [Cursor.act?] at hact
    split at hact
    next => cases hact
    next begun begins hbegins =>
      cases hact
      obtain ⟨n, taken, r', base, hdelivers, halike, hallowance, hfollows⟩ := h
      obtain ⟨trial, held, trials, htrials, hback⟩ := hfollows.backtrack hbegins
      refine .inr ⟨[], { caller with held }, { s with
        queue := s.queue.seek trial.pos, rawErrors := trial.rawErrors, muted := trial.muted },
        ?_, .nil, n, taken, r', base, hdelivers, halike, hallowance, hback⟩
      simp only [Caller.perform, htrials]
      rfl
  | cancel =>
    simp only [Cursor.act?] at hact
    split at hact
    next => cases hact
    next begun begins hbegins =>
      cases hact
      obtain ⟨n, taken, r', base, hdelivers, halike, hallowance, hfollows⟩ := h
      obtain ⟨trial, held, trials, base', htrials, hend⟩ := hfollows.endTrial hbegins
      refine .inr ⟨[], { caller with trials }, { s with
        queue := if trial.saving then s.queue else s.queue.settle },
        ?_, .nil, n, taken, r', base', hdelivers, halike, hallowance, hend⟩
      simp only [Caller.perform, htrials, Parse.endTrial]
      split <;> rfl

/-- Some actions, one after the other. -/
theorem Tracks.performAll (h : Tracks r allowance s caller c) (hsound : r.Sound)
    {actions : List Action} {places : List Nat} {c' : Cursor}
    (hact : c.actAll? actions = some (places, c')) :
    Sighting r allowance places c' (caller.performAll actions s) := by
  induction actions generalizing s caller c places with
  | nil =>
    cases hact
    exact .inr ⟨[], caller, s, rfl, .nil, h⟩
  | cons action actions ih =>
    rw [Cursor.actAll?] at hact
    obtain ⟨⟨first, c₁⟩, hfirst, hact⟩ := Option.bind_eq_some_iff.1 hact
    obtain ⟨⟨more, c₂⟩, hmore, hact⟩ := Option.bind_eq_some_iff.1 hact
    cases hact
    simp only [Caller.performAll, bind, StateT.bind]
    rcases h.perform hsound hfirst with ⟨herror, hfew⟩ | ⟨tokens, caller₁, s₁, hok, hat, htracks⟩
    · refine .inl ⟨by rw [herror]; rfl, ?_⟩
      intro n ts r' hdelivers hlt
      exact hfew n ts r' hdelivers fun place hplace => hlt place (List.mem_append_left _ hplace)
    · rw [hok]
      simp only [Except.bind]
      rcases ih htracks hmore with ⟨herror, hfew⟩ | ⟨tokens', caller₂, s₂, hok', hat', htracks'⟩
      · refine .inl ⟨by rw [herror], ?_⟩
        intro n ts r' hdelivers hlt
        exact hfew n ts r' hdelivers fun place hplace => hlt place (List.mem_append_right _ hplace)
      · refine .inr ⟨tokens ++ tokens', caller₂, s₂, by rw [hok']; rfl, ?_, htracks'⟩
        exact List.rel_append hat hat'

theorem Reader.forall₂_at_unique {places : List Nat} {tokens tokens' : List Token}
    (h : List.Forall₂ r.At places tokens) (h' : List.Forall₂ r.At places tokens') :
    tokens = tokens' := by
  induction h generalizing tokens' with
  | nil =>
    cases h'
    rfl
  | cons hat _ ih =>
    cases h' with
    | cons hat' hrest => rw [hat.unique hat', ih hrest]

/-- All of some places are reached by one run of the reader, if each of them has a token. -/
theorem Reader.delivers_of_forall₂ (hsound : r.Sound) {places : List Nat} {tokens : List Token}
    (h : List.Forall₂ r.At places tokens) :
    ∃ n ts r', r.Delivers n ts r' ∧ ∀ place ∈ places, place < ts.length := by
  induction h with
  | nil => exact ⟨0, [], r, .nil r, List.forall_mem_nil _⟩
  | @cons place t places tokens hat _ ih =>
    obtain ⟨n, ts, r', hdelivers, hlt⟩ := ih
    obtain ⟨m, us, r'', hdelivers', hlength⟩ := hat.delivers hsound
    by_cases hle : us.length ≤ ts.length
    · refine ⟨n, ts, r', hdelivers, ?_⟩
      intro place' hplace
      rcases List.mem_cons.1 hplace with rfl | hplace
      · omega
      · exact hlt place' hplace
    · refine ⟨m, us, r'', hdelivers', ?_⟩
      intro place' hplace
      rcases List.mem_cons.1 hplace with rfl | hplace
      · omega
      · have := hlt place' hplace
        omega

/-- A reader at the start of a source. -/
def Reader.ofSource (config : Configuration) (path source : String) (closeAnglesOnly : Bool) :
    Reader :=
  { ((Reader.new .empty config).push path source).2 with closeAnglesOnly }

theorem Reader.sound_ofSource (config : Configuration) (path source : String)
    (closeAnglesOnly : Bool) : (ofSource config path source closeAnglesOnly).Sound :=
  (sound_pushed config path source).congr rfl rfl rfl

/-- Actions that a cursor allows, in a new session. -/
theorem Reader.Sound.seenTokens (hsound : r.Sound) (allowance passNumber : Nat)
    {actions : List Action} {places : List Nat}
    (hact : Cursor.start.actAll? actions = some (places, c)) :
    (seenTokens r allowance passNumber actions = .error .exhausted ∧
      ∀ n ts r', r.Delivers n ts r' → (∀ place ∈ places, place < ts.length) → allowance < n) ∨
    ∃ tokens, seenTokens r allowance passNumber actions = .ok tokens ∧
      List.Forall₂ r.At places tokens := by
  have htracks : Tracks r allowance (.new r allowance passNumber) .new .start :=
    ⟨0, [], r, 0, .nil r, .refl r, rfl, .new⟩
  unfold CppDecl.seenTokens
  rcases htracks.performAll hsound hact with ⟨herror, hfew⟩ | ⟨tokens, caller, s, hok, hat, -⟩
  · exact .inl ⟨by rw [StateT.run, herror]; rfl, hfew⟩
  · exact .inr ⟨tokens, by rw [StateT.run, hok]; rfl, hat⟩

/-- The tokens that are seen in a session are those that a cursor in the sequence of its reader
sees.  They are seen if the sequence has them all and the allowance is enough. -/
theorem seenTokens_follows_cursor (config : Configuration) (path source : String)
    (closeAnglesOnly : Bool) (passNumber : Nat) {actions : List Action} {places : List Nat}
    {c : Cursor} (hact : Cursor.start.actAll? actions = some (places, c)) :
    let reader := Reader.ofSource config path source closeAnglesOnly
    (∀ allowance, seenTokens reader allowance passNumber actions = .error .exhausted ∨
      ∃ tokens, seenTokens reader allowance passNumber actions = .ok tokens ∧
        List.Forall₂ reader.At places tokens) ∧
    ∀ tokens, List.Forall₂ reader.At places tokens → ∃ enough, ∀ allowance, enough ≤ allowance →
      seenTokens reader allowance passNumber actions = .ok tokens := by
  intro reader
  have hsound := Reader.sound_ofSource config path source closeAnglesOnly
  constructor
  · intro allowance
    rcases hsound.seenTokens allowance passNumber hact with ⟨herror, -⟩ | hok
    · exact .inl herror
    · exact .inr hok
  · intro tokens hat
    obtain ⟨n, ts, r', hdelivers, hlt⟩ := Reader.delivers_of_forall₂ hsound hat
    refine ⟨n, ?_⟩
    intro allowance hle
    rcases hsound.seenTokens allowance passNumber hact with ⟨-, hfew⟩ | ⟨tokens', hok, hat'⟩
    · exact absurd (hfew n ts r' hdelivers hlt) (Nat.not_lt.2 hle)
    · rw [hok, Reader.forall₂_at_unique hat' hat]

/-- Two trials, one in the other, and a token that is pushed back. -/
theorem seenTokens_follows_cursor_in_trials :
    ∃ tokens, seenTokens (.ofSource {} "test.h" "a b > > c" true) 20 1
        [.read, .read, .pushBack, .begin, .read, .begin, .read, .peek, .backtrack, .pushBack,
          .cancel, .backtrack, .cancel, .read, .read, .read, .read, .read] = .ok tokens ∧
      tokens.map Token.text = ["a", "b", "b", ">", ">", "b", ">", ">", "c", ""] ∧
      List.Forall₂ (Reader.ofSource {} "test.h" "a b > > c" true).At [0, 1, 1, 2, 3, 1, 2, 3, 4, 5]
        tokens := by
  have hact : Cursor.start.actAll?
      [.read, .read, .pushBack, .begin, .read, .begin, .read, .peek, .backtrack, .pushBack,
        .cancel, .backtrack, .cancel, .read, .read, .read, .read, .read] =
      some ([0, 1, 1, 2, 3, 1, 2, 3, 4, 5], ⟨6, []⟩) := rfl
  have htexts : ((seenTokens (.ofSource {} "test.h" "a b > > c" true) 20 1
      [.read, .read, .pushBack, .begin, .read, .begin, .read, .peek, .backtrack, .pushBack,
        .cancel, .backtrack, .cancel, .read, .read, .read, .read, .read]).toOption.map
      (·.map Token.text)) = some ["a", "b", "b", ">", ">", "b", ">", ">", "c", ""] := by
    decide +kernel
  obtain herror | ⟨tokens, hok, hat⟩ :=
    (seenTokens_follows_cursor {} "test.h" "a b > > c" true 1 hact).1 20
  · rw [herror] at htexts
    cases htexts
  · rw [hok] at htexts
    exact ⟨tokens, hok, Option.some.inj htexts, hat⟩

end CppDecl
