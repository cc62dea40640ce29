import CppDecl.Proofs.Effects
import CppDecl.Parsing

/-!
# Scopes in the log

A parse opens and closes scopes all over the grammar, also in trials that are given up, and in what
is read but does not become part of the tree.  All the same its log is well nested, and what it says
of a scope in the end agrees with what came up in the scope (`unit_wellNested`).

`WellNested` says what that means, without a stack.  It has one constructor for each way in which a
log can go on.  A scope is entered, left again, and has a log of its own in between, so there is no
event that leaves a scope which was not entered before.

What the grammar shows is that a watcher, who keeps a stack, can follow the log (`Session.Told`).  So
what remains is to see that a watcher follows only logs that are well nested (`Watch.splits`).
-/

namespace CppDecl

namespace Scope

/-- Whether declarations are collected in a scope. -/
def collects (scope : Scope) : Bool := scope.gathers || decide (scope = .template)

/-- Whether a scope may be left with `count` parts, if so many declarations and enumerators came up
in it. -/
def Counts (count declared enumerated : Nat) : Scope → Prop
  | .unit | .namespaceScope _ | .record _ | .linkage => count = declared
  | .template => count = declared ∧ declared ≤ 1
  | .enumeration _ => count = enumerated
  | .functionBody => True

/-- How many of the enumerators in a scope are enumerators of the enumeration around it. -/
def passesOn (enumerated : Nat) : Scope → Nat
  | .enumeration _ => 0
  | _ => enumerated

end Scope

/-- Whether an event has nothing to do with scopes and what is in them. -/
def Event.isApart : Event → Bool
  | .aside _ _ | .included _ | .diagnosed _ => true
  | _ => false

/-- The log of what comes up in the scope at the head of a path, with the number of declarations that
are collected in that scope, and the number of enumerators outside of further enumerations. -/
inductive WellNested : ScopePath → List Event → (declared enumerated : Nat) → Prop
  /-- Nothing comes up. -/
  | nil {path : ScopePath} : WellNested path [] 0 0
  /-- An aside, a request for another file or a diagnostic. -/
  | apart {path : ScopePath} {events : List Event} {n m : Nat} {e : Event}
      (apart : e.isApart = true) (rest : WellNested path events n m) :
      WellNested path (e :: events) n m
  /-- A declaration is collected in the scope. -/
  | declared {scope : Scope} {outer : ScopePath} {events : List Event} {n m : Nat} {d : Declaration}
      (collects : scope.collects = true) (rest : WellNested (scope :: outer) events n m) :
      WellNested (scope :: outer) (.declared d (scope :: outer) :: events) (n + 1) m
  /-- An enumerator. -/
  | enumerated {path : ScopePath} {events : List Event} {n m : Nat} {e : Enumerator}
      (rest : WellNested path events n m) : WellNested path (.enumerated e :: events) n (m + 1)
  /-- A scope is entered and left. -/
  | scope {path : ScopePath} {scope : Scope} {within events : List Event} {n m n' m' count : Nat}
      (inner : WellNested (scope :: path) within n m) (counts : scope.Counts count n m)
      (rest : WellNested path events n' m') :
      WellNested path (.entered (scope :: path) :: (within ++ .left (scope :: path) count :: events))
        n' (m' + scope.passesOn m)

/-- Outside of all scopes no declarations are collected. -/
theorem WellNested.declared_eq_zero {events : List Event} {n m : Nat}
    (h : WellNested [] events n m) : n = 0 := by
  generalize hpath : ([] : ScopePath) = path at h
  induction h with
  | nil => rfl
  | apart _ _ ih => exact ih hpath
  | declared => cases hpath
  | enumerated _ ih => exact ih hpath
  | scope _ _ _ _ ih => exact ih hpath

namespace Watch

variable {w w' : Watch} {e : Event} {events : List Event}

/-- Some more declarations and enumerators in the innermost scope. -/
def more (w : Watch) (n m : Nat) : Watch :=
  match w.opened with
  | [] => { w with enumerators := w.enumerators + m }
  | (scope, k) :: opened => ⟨(scope, k + n) :: opened, w.enumerators + m, w.outer⟩

@[simp] theorem more_zero (w : Watch) : w.more 0 0 = w := by
  obtain ⟨_ | ⟨⟨scope, k⟩, opened⟩, m, outer⟩ := w <;> rfl

@[simp] theorem more_more (w : Watch) (n m n' m' : Nat) :
    (w.more n m).more n' m' = w.more (n + n') (m + m') := by
  obtain ⟨_ | ⟨⟨scope, k⟩, opened⟩, l, outer⟩ := w <;> simp [more, Nat.add_assoc]

@[simp] theorem path_more (w : Watch) (n m : Nat) : (w.more n m).path = w.path := by
  obtain ⟨_ | ⟨⟨scope, k⟩, opened⟩, l, outer⟩ := w <;> rfl

@[simp] theorem length_opened_more (w : Watch) (n m : Nat) :
    (w.more n m).opened.length = w.opened.length := by
  obtain ⟨_ | ⟨⟨scope, k⟩, opened⟩, l, outer⟩ := w <;> rfl

theorem all?_cons : w.all? (e :: events) = some w' ↔
    ∃ w₁, w.next? e = some w₁ ∧ w₁.all? events = some w' := by
  rw [all?, List.foldlM_cons]
  exact Option.bind_eq_some_iff

theorem all?_of_append {w₁ : Watch} {events' : List Event} (h : w.all? events = some w₁)
    (hall : w.all? (events ++ events') = some w') : w₁.all? events' = some w' := by
  rw [all?, List.foldlM_append, show events.foldlM next? w = some w₁ from h] at hall
  exact hall

/-- No template has more than one declaration. -/
def Sparing (w : Watch) : Prop := ∀ n, (.template, n) ∈ w.opened → n ≤ 1

theorem Sparing.next (h : w.Sparing) (hnext : w.next? e = some w') : w'.Sparing := by
  obtain ⟨opened, m, outer⟩ := w
  unfold Sparing at h ⊢
  unfold next? at hnext
  grind [Scope.takes, Scope.gathers]

theorem Sparing.all (h : w.Sparing) (hall : w.all? events = some w') : w'.Sparing := by
  induction events generalizing w with
  | nil =>
    cases hall
    exact h
  | cons e events ih =>
    obtain ⟨w₁, hnext, hrest⟩ := all?_cons.1 hall
    exact ih (h.next hnext) hrest

/-- In a scope that has just been entered. -/
def inside (w : Watch) (scope : Scope) : Watch :=
  if scope.isEnumeration then ⟨(scope, 0) :: w.opened, 0, w.enumerators :: w.outer⟩
  else { w with opened := (scope, 0) :: w.opened }

theorem opened_inside (w : Watch) (scope : Scope) :
    (w.inside scope).opened = (scope, 0) :: w.opened := by
  unfold inside
  split <;> rfl

theorem path_inside (w : Watch) (scope : Scope) : (w.inside scope).path = scope :: w.path := by
  rw [path, opened_inside]
  rfl

theorem next?_entered {path : ScopePath} (h : w.next? (.entered path) = some w') :
    ∃ scope, path = scope :: w.path ∧ w' = w.inside scope := by
  cases path with
  | nil => cases h
  | cons scope outer =>
    simp only [next?] at h
    split at h
    next houter =>
      refine ⟨scope, by rw [houter], ?_⟩
      unfold inside
      split at h <;> cases h <;> simp_all
    next => cases h

theorem next?_declared {d : Declaration} {path : ScopePath}
    (h : w.next? (.declared d path) = some w') : ∃ scope outer, w.path = scope :: outer ∧
      path = scope :: outer ∧ scope.collects = true ∧ w' = w.more 1 0 := by
  obtain ⟨_ | ⟨⟨scope, n⟩, opened⟩, m, outer⟩ := w
  · cases h
  · simp only [next?] at h
    split at h
    next hfits =>
      cases h
      refine ⟨scope, _, rfl, hfits.1, ?_, rfl⟩
      have htakes := hfits.2
      simp only [Scope.takes, Scope.collects, Bool.or_eq_true, Bool.and_eq_true] at htakes ⊢
      exact htakes.imp_right And.left
    next => cases h

theorem more_enumerators (w : Watch) (m : Nat) :
    w.more 0 m = { w with enumerators := w.enumerators + m } := by
  obtain ⟨_ | ⟨⟨scope, k⟩, opened⟩, l, outer⟩ := w <;> rfl

/-- A scope is left with as many parts as there were in it. -/
theorem next?_left {scope : Scope} {n m count : Nat} {p : ScopePath}
    (hsparing : ((w.inside scope).more n m).Sparing)
    (h : ((w.inside scope).more n m).next? (.left p count) = some w') :
    p = scope :: w.path ∧ scope.Counts count n m ∧ w' = w.more 0 (scope.passesOn m) := by
  have hone : scope = .template → n ≤ 1 := by
    rintro rfl
    exact hsparing n (by simp [more, inside, Scope.isEnumeration])
  rw [more_enumerators]
  cases scope <;>
    simp_all [next?, inside, more, Watch.path, Scope.isEnumeration, Scope.Counts, Scope.passesOn]

/-- What a watcher sees comes up in the innermost scope, until that scope is left. -/
def Splits (w : Watch) (events : List Event) : Prop :=
  ∃ within rest n m, events = within ++ rest ∧ WellNested w.path within n m ∧
    w.all? within = some (w.more n m) ∧
    (rest = [] ∨ ∃ p count after, rest = .left p count :: after)

/-- The first events come up in the innermost scope. -/
theorem Splits.before {first : List Event} {n m : Nat} (h : (w.more n m).Splits events)
    (hfirst : w.all? first = some (w.more n m))
    (hnested : ∀ {within n' m'}, WellNested w.path within n' m' →
      WellNested w.path (first ++ within) (n' + n) (m' + m)) : w.Splits (first ++ events) := by
  obtain ⟨within, rest, n', m', rfl, hwithin, hall, hrest⟩ := h
  rw [path_more] at hwithin
  rw [more_more, Nat.add_comm n, Nat.add_comm m] at hall
  exact ⟨first ++ within, rest, n' + n, m' + m, (List.append_assoc ..).symm, hnested hwithin,
    all?_append hfirst hall, hrest⟩

/-- A scope that was entered is left. -/
theorem Splits.left {scope : Scope} (h : (w.inside scope).Splits events)
    (hsparing : (w.inside scope).Sparing) (hall : (w.inside scope).all? events = some w')
    (hclosed : w'.opened.length ≤ w.opened.length) :
    ∃ within after n m count, events = within ++ [.left (scope :: w.path) count] ++ after ∧
      WellNested (scope :: w.path) within n m ∧ scope.Counts count n m ∧
      (w.inside scope).all? (within ++ [.left (scope :: w.path) count]) =
        some (w.more 0 (scope.passesOn m)) ∧
      (w.more 0 (scope.passesOn m)).all? after = some w' := by
  obtain ⟨within, rest, n, m, rfl, hwithin, hinner, rfl | ⟨p, count, after, rfl⟩⟩ := h
  · rw [List.append_nil, hinner] at hall
    cases hall
    simp [opened_inside] at hclosed
  · obtain ⟨w₂, hnext, hafter⟩ := all?_cons.1 (all?_of_append hinner hall)
    obtain ⟨rfl, hcounts, rfl⟩ := next?_left (hsparing.all hinner) hnext
    rw [path_inside] at hwithin
    exact ⟨within, after, n, m, count, by simp, hwithin, hcounts,
      all?_append hinner (all?_single hnext), hafter⟩

/-- A watcher at whose end no more scopes are open than before sees scopes that are well nested. -/
theorem splits (hsparing : w.Sparing) (hall : w.all? events = some w')
    (hclosed : w'.opened.length ≤ w.opened.length) : w.Splits events := by
  induction hlength : events.length using Nat.strongRecOn generalizing w events with
  | ind k ih =>
    subst hlength
    cases events with
    | nil => exact ⟨[], [], 0, 0, rfl, .nil, by simp, .inl rfl⟩
    | cons e events =>
      obtain ⟨w₁, hnext, hrest⟩ := all?_cons.1 hall
      have hsingle : ∀ n m, w₁ = w.more n m →
          (∀ {within n' m'}, WellNested w.path within n' m' →
            WellNested w.path (e :: within) (n' + n) (m' + m)) → w.Splits (e :: events) := by
        rintro n m rfl hnested
        have hsplits := ih _ (by simp) (hsparing.next hnext) hrest (by simpa using hclosed) rfl
        exact hsplits.before (all?_single hnext) hnested
      cases e with
      | aside | included | diagnosed =>
        cases hnext
        exact hsingle 0 0 (more_zero w).symm (.apart rfl)
      | enumerated e =>
        cases hnext
        exact hsingle 0 1 (more_enumerators w 1).symm .enumerated
      | declared d p =>
        obtain ⟨scope, outer, hpath, rfl, hcollects, rfl⟩ := next?_declared hnext
        refine hsingle 1 0 rfl ?_
        rw [hpath]
        exact .declared hcollects
      | left p count => exact ⟨[], _, 0, 0, rfl, .nil, by simp, .inr ⟨p, count, events, rfl⟩⟩
      | entered p =>
        obtain ⟨scope, rfl, rfl⟩ := next?_entered hnext
        have hinside := hsparing.next hnext
        have hdeeper : w'.opened.length ≤ (w.inside scope).opened.length := by
          rw [opened_inside]
          exact hclosed.trans (Nat.le_succ _)
        obtain ⟨within, after, n, m, count, rfl, hwithin, hcounts, hscope, hafter⟩ :=
          (ih _ (by simp) hinside hrest hdeeper rfl).left hinside hrest hclosed
        have hwhole := all?_append (all?_single hnext) hscope
        have hshorter : after.length <
            (.entered (scope :: w.path) :: (within ++ [.left (scope :: w.path) count] ++ after) :
              List Event).length := by
          simp only [List.length_cons, List.length_append]
          omega
        have hsplits := ih _ hshorter (hsparing.all hwhole) hafter (by simpa using hclosed) rfl
        refine hsplits.before hwhole fun h => ?_
        simpa using WellNested.scope hwithin hcounts h

/-- What a watcher sees from the start until no scopes are open is well nested. -/
theorem wellNested_of_start {n : Nat} (hall : start.all? events = some ⟨[], n, []⟩) :
    WellNested [] events 0 n := by
  have hsparing : start.Sparing := fun n hmem => by cases hmem
  obtain ⟨within, rest, k, m, rfl, hwithin, hinner, rfl | ⟨p, count, after, rfl⟩⟩ :=
    splits hsparing hall (Nat.le_refl 0)
  · rw [List.append_nil, hinner] at hall
    have hcount : 0 + m = n := congrArg Watch.enumerators (Option.some.inj hall)
    obtain rfl : k = 0 := hwithin.declared_eq_zero
    rw [List.append_nil, ← hcount, Nat.zero_add]
    exact hwithin
  · obtain ⟨w₂, hnext, -⟩ := all?_cons.1 (all?_of_append hinner hall)
    cases hnext

end Watch

/-- Whatever the source, its log is well nested.  No declarations are collected outside of all
scopes, and there are no enumerators outside of enumerations.  In the end all scopes are closed. -/
theorem unit_wellNested (config : Configuration) (path source : String) {budget passNumber : Nat}
    {unit : TranslationUnit} {s : Session}
    (hrun : runGrammar budget passNumber ((Reader.new .empty config).push path source).2
      Grammar.unit = .ok (unit, s)) : WellNested [] s.events 0 0 ∧ s.scopes = [] := by
  obtain ⟨⟨news, hnews, hwatched⟩, hscopes, -⟩ :=
    runGrammar_told (Reader.sound_pushed config path source) hrun
  have hall := hwatched 0 []
  rw [hscopes] at hall
  have hevents : s.events = news := hnews.events
  exact ⟨hevents ▸ Watch.wellNested_of_start hall, hscopes⟩

/-- A source with an enumeration in the value of an enumerator. -/
def innerEnumeration : String :=
  "template<class T> struct S \x7b enum E \x7b X = [](enum F \x7b A, B \x7d f) \x7b\x7d, Y \x7d; \x7d;"

theorem unit_wellNested_innerEnumeration : ∃ unit s,
    runGrammar 400 1 ((Reader.new .empty {}).push "test.h" innerEnumeration).2 Grammar.unit =
      .ok (unit, s) ∧ s.events.length = 17 ∧ WellNested [] s.events 0 0 ∧ s.scopes = [] := by
  have hall : (runGrammar 400 1 ((Reader.new .empty {}).push "test.h" innerEnumeration).2
      Grammar.unit).toOption.map (fun result => result.2.events.length) = some 17 := by
    decide +kernel
  obtain ⟨⟨unit, s⟩, hrun, hlength⟩ := Halt.of_toOption_map hall
  exact ⟨unit, s, hrun, hlength, unit_wellNested {} "test.h" innerEnumeration hrun⟩

end CppDecl
