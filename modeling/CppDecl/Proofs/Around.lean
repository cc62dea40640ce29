import CppDecl.Proofs.Leads
import CppDecl.Proofs.Monotone

/-!
# What is carried along unread

Some rules are given what has been read so far and put more to it, without looking at what is there.
The arrays and functions behind a name are read in the same way whatever stands in front of them in
the chain, and whatever the name is (`suffixes_around`).  The declarators of a declaration are read
in the same way behind any declarators, as long as they are as many (`initDeclarators_extend`).
-/

namespace CppDecl

/-! ## Declarators -/

/-- The declarator with productions in front of its own, and with another name. -/
def Declarator.around (front : Chain) (qid : QualifiedId) (d : Declarator) : Declarator :=
  ⟨front ++ d.chain, qid⟩

/-- The declaration with more declarators. -/
def SimpleDeclaration.extend (simple : SimpleDeclaration) (more : List InitDeclarator) :
    SimpleDeclaration :=
  { simple with declarators := simple.declarators ++ more }

theorem SimpleDeclaration.extend_nil (simple : SimpleDeclaration) : simple.extend [] = simple := by
  cases simple
  rw [extend, List.append_nil]

theorem SimpleDeclaration.extend_extend (simple : SimpleDeclaration)
    (more most : List InitDeclarator) :
    (simple.extend more).extend most = simple.extend (more ++ most) := by
  simp [extend]

theorem Chain.insertAt_append (front chain : Chain) (depth : Nat) (production : Production) :
    Chain.insertAt (front ++ chain) (front.length + depth) production =
      front ++ Chain.insertAt chain depth production := by
  rw [insertAt, insertAt, List.take_length_add_append, List.drop_length_add_append, List.append_assoc]

theorem Declarator.around_nil (d : Declarator) : d.around [] d.qid = d := by
  cases d
  rfl

namespace Grammar

open Parse

variable {front : Chain} {qid : QualifiedId}

theorem around_insertAt (d : Declarator) (depth : Nat) (production : Production) :
    { d.around front qid with
      chain := Chain.insertAt (d.around front qid).chain (front.length + depth) production } =
      Declarator.around front qid { d with chain := Chain.insertAt d.chain depth production } := by
  simp [Declarator.around, Chain.insertAt_append]

/-- Arrays and functions are read in the same way behind other productions and another name. -/
theorem suffixes_around (front : Chain) (qid : QualifiedId) (k : Nat) (d : Declarator) (depth : Nat)
    (nameMissing : Bool) :
    run k (.suffixes (d.around front qid) (front.length + depth) nameMissing) =
      Declarator.around front qid <$> run k (.suffixes d depth nameMissing) := by
  induction k generalizing d depth nameMissing with
  | zero => rfl
  | succ k ih =>
    show suffixes _ _ _ _ = _ <$> suffixes _ _ _ _
    unfold suffixes
    rw [map_bind]
    refine bind_congr fun token => ?_
    split
    · simp only [map_bind, around_insertAt, apply_ite (Declarator.around front qid <$> ·), map_pure,
        Nat.add_assoc, ih]
    · simp only [map_bind]
      refine bind_congr fun _ => bind_congr fun _ => bind_congr fun f? => ?_
      cases f? with
      | some f => simp only [map_bind, around_insertAt, Nat.add_assoc, ih]
      | none => exact ih d depth false
    · simp only [map_bind, map_pure]

theorem map_eq_ok {α β : Type} {g : α → β} {p : Parse α} {s s' : Session} {b : β} :
    (g <$> p) s = .ok (b, s') ↔ ∃ a, p s = .ok (a, s') ∧ g a = b := by
  show (p s >>= fun x => .ok (g x.1, x.2)) = _ ↔ _
  cases p s with
  | error halt => simp [bind, Except.bind]
  | ok x => simp [bind, Except.bind, Prod.ext_iff, and_comm]

/-- The name stays. -/
theorem suffixes_qid {k : Nat} {d d' : Declarator} {depth : Nat} {nameMissing : Bool} {s s' : Session}
    (h : run k (.suffixes d depth nameMissing) s = .ok (d', s')) : d'.qid = d.qid := by
  have haround := suffixes_around [] d.qid k d depth nameMissing
  rw [List.length_nil, Nat.zero_add, d.around_nil] at haround
  rw [haround] at h
  obtain ⟨_, -, rfl⟩ := map_eq_ok.1 h
  rfl

/-! ## Declarations -/

theorem addDeclarator_eq (simple : SimpleDeclaration) (d : Declarator) (init : Initializer)
    (comma : Token) : addDeclarator simple d init comma = simple.extend [⟨d, init, comma⟩] := rfl

/-- What follows an initializer is read in the same way behind any declarators. -/
theorem declaratorSeparator_extend {k count : Nat} {p : Parse (List InitDeclarator)}
    (hp : ∀ simple : SimpleDeclaration, simple.declarators.length = count + 1 →
      run k (.initDeclarators simple) = simple.extend <$> p) :
    ∃ q : Parse (Token × List InitDeclarator), ∀ (simple : SimpleDeclaration) (d : Declarator)
      (init : Initializer), simple.declarators.length = count →
        declaratorSeparator (fun r => run k r) simple d init =
          (fun x => simple.extend (⟨d, init, x.1⟩ :: x.2)) <$> q := by
  refine ⟨do
    let sep ← read
    if sep.kind = .comma then
      return (sep, ← p)
    else
      pushBack sep
      return (.absent, []), fun simple d init hcount => ?_⟩
  unfold declaratorSeparator
  rw [map_bind]
  refine bind_congr fun sep => ?_
  rw [apply_ite ((fun x : Token × List InitDeclarator => simple.extend (⟨d, init, x.1⟩ :: x.2)) <$> ·)]
  refine if_congr Iff.rfl ?_ ?_
  · refine (hp _ (by simp [addDeclarator, hcount])).trans ?_
    rw [map_bind, map_eq_pure_bind]
    refine bind_congr fun rest => ?_
    rw [map_pure, addDeclarator_eq, SimpleDeclaration.extend_extend, List.singleton_append]
  · simp only [map_bind, map_pure, addDeclarator_eq]

/-- What follows a declarator: its initializer, and more declarators. -/
def initialized (call : Call) (simple : SimpleDeclaration) (d : Declarator) :
    Parse SimpleDeclaration := do
  if d.qid.isEmpty then
    return simple
  if d.isFunction then
    let init ← functionBody call (simple.declarators.length + 1)
    if init.isFunctionBody then
      if !simple.declarators.isEmpty then
        let opener := (Chain.functionAt? d.chain 0).map fun f => f.params.openPunc
        fault false (.noticed .mixedFunctionAndDeclaration (opener.getD .absent))
      return addDeclarator simple d init .absent
    else
      declaratorSeparator call simple d init
  else
    let init ← variableInitializer call true
    declaratorSeparator call simple d init

theorem initDeclarators_eq (call : Call) (simple : SimpleDeclaration) : initDeclarators call simple =
    call (.declarator [] ⟨true, false⟩ false) >>= initialized call simple := rfl

/-- What follows a declarator is read in the same way behind any other declarators. -/
theorem initialized_extend {k count : Nat} {p : Parse (List InitDeclarator)}
    (hp : ∀ simple : SimpleDeclaration, simple.declarators.length = count + 1 →
      run k (.initDeclarators simple) = simple.extend <$> p) :
    ∃ f : Declarator → Parse (List InitDeclarator), ∀ (simple : SimpleDeclaration) (d : Declarator),
      simple.declarators.length = count →
        initialized (fun r => run k r) simple d = simple.extend <$> f d := by
  obtain ⟨q, hq⟩ := declaratorSeparator_extend hp
  refine ⟨fun d => do
    if d.qid.isEmpty then
      return []
    if d.isFunction then
      let init ← functionBody (fun r => run k r) (count + 1)
      if init.isFunctionBody then
        if !(count == 0) then
          let opener := (Chain.functionAt? d.chain 0).map fun f => f.params.openPunc
          fault false (.noticed .mixedFunctionAndDeclaration (opener.getD .absent))
        return [⟨d, init, .absent⟩]
      else
        (fun x => ⟨d, init, x.1⟩ :: x.2) <$> q
    else
      let init ← variableInitializer (fun r => run k r) true
      (fun x => ⟨d, init, x.1⟩ :: x.2) <$> q, fun simple d hcount => ?_⟩
  have hempty : simple.declarators.isEmpty = (count == 0) := by
    rw [← hcount]
    cases simple.declarators <;> rfl
  unfold initialized
  simp only [apply_ite (simple.extend <$> ·), map_bind, map_pure, Functor.map_map, addDeclarator_eq,
    SimpleDeclaration.extend_nil, hq simple _ _ hcount, hcount, hempty]

/-- The declarators that are still to come do not depend on those that were there before, but for
their number. -/
theorem initDeclarators_extend (k count : Nat) :
    ∃ p : Parse (List InitDeclarator), ∀ simple : SimpleDeclaration,
      simple.declarators.length = count → run k (.initDeclarators simple) = simple.extend <$> p := by
  induction k generalizing count with
  | zero => exact ⟨throw .exhausted, fun _ _ => rfl⟩
  | succ k ih =>
    obtain ⟨p, hp⟩ := ih (count + 1)
    obtain ⟨f, hf⟩ := initialized_extend hp
    refine ⟨run k (.declarator [] ⟨true, false⟩ false) >>= f, fun simple hcount => ?_⟩
    show initDeclarators _ _ = _
    rw [initDeclarators_eq, map_bind]
    exact bind_congr fun d => hf simple d hcount

/-- What was read behind an initializer would have been read behind any declarator and any
initializer. -/
theorem declaratorSeparator_ok {k : Nat} {simple result : SimpleDeclaration} {d : Declarator}
    {init : Initializer} {s s' : Session}
    (h : declaratorSeparator (fun r => run k r) simple d init s = .ok (result, s')) :
    ∃ comma rest, result = simple.extend (⟨d, init, comma⟩ :: rest) ∧
      ∀ (simple' : SimpleDeclaration) (d' : Declarator) (init' : Initializer),
        simple'.declarators.length = simple.declarators.length →
          declaratorSeparator (fun r => run k r) simple' d' init' s =
            .ok (simple'.extend (⟨d', init', comma⟩ :: rest), s') := by
  obtain ⟨p, hp⟩ := initDeclarators_extend k (simple.declarators.length + 1)
  obtain ⟨q, hq⟩ := declaratorSeparator_extend hp
  rw [hq simple d init rfl] at h
  obtain ⟨⟨comma, rest⟩, hok, rfl⟩ := map_eq_ok.1 h
  refine ⟨comma, rest, rfl, fun simple' d' init' hcount => ?_⟩
  rw [hq simple' d' init' hcount]
  exact map_eq_ok.2 ⟨(comma, rest), hok, rfl⟩

end Grammar

end CppDecl
