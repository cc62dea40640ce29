import CppDecl.Proofs.Advance
import CppDecl.Proofs.Steady

/-!
# Tokens between angle brackets

Between the angle brackets of a template every `>` is to be a token of its own, so that two lists of
template arguments can end side by side.  Whether it is one is settled when it is taken from the
reader (`Reader.Sound.readToken_keptWhole`).  A token that is read ahead, in front of the place
where the way to read `>` changes, waits in the queue as it is.

`Session.Delivered` is a run of the actions on tokens that the grammar is made of.  It knows which
tokens were read, and how a `>` was to be read each time.  A `>>` or `>=` that is read where every
`>` should be a token of its own has been read before, where it should not
(`Session.Delivered.merged_before`).  The tokens that are consumed on the way from one session to
another are *delivered* on it (`Session.Delivers`).
-/

namespace CppDecl

/-! ## Lexemes -/

namespace Lexeme

theorem keptWhole_eq_true_iff {closeAnglesOnly : Bool} {kind : TokenKind} :
    keptWhole closeAnglesOnly kind = true ↔
      (closeAnglesOnly = true → kind ≠ .rightShift ∧ kind ≠ .greaterThanOrEqual) := by
  cases closeAnglesOnly <;> simp [keptWhole]

/-- The lexeme that is found is one that is read as one. -/
theorem keptWhole_of_scanFrom {closeAnglesOnly lineStart : Bool} {beyond : Nat} {b : UInt8}
    {bs : Bytes} : ∀ kind ∈ (scanFrom closeAnglesOnly lineStart beyond b bs).kind?,
    keptWhole closeAnglesOnly kind = true := by
  intro kind hkind
  cases (begins_scanFrom kind hkind).2 with
  | directive => exact keptWhole_eq_true_iff.2 fun _ => by decide
  | punctuator _ hmem => exact (List.mem_filter.1 hmem).2
  | other _ hmem =>
    refine keptWhole_eq_true_iff.2 fun _ => ?_
    constructor <;> exact ne_of_mem_of_not_mem hmem (by decide)

end Lexeme

/-! ## Reading -/

namespace Reader

open Lexeme (keptWhole keptWhole_eq_true_iff)

variable {r r' : Reader} {t : Token} {n : Nat}

/-- A token that a step gives is read as one. -/
theorem Sound.step_keptWhole (h : r.Sound) (hstep : r.step = .ok (some t, r')) :
    keptWhole r.closeAnglesOnly t.kind = true := by
  cases h.stepped hstep with
  | ended => exact keptWhole_eq_true_iff.2 fun _ => ⟨nofun, nofun⟩
  | lexeme _ _ hdealt =>
    cases hdealt with
    | name _ _ hread =>
      rcases hread.token_eq with rfl | rfl <;>
        exact keptWhole_eq_true_iff.2 fun _ => ⟨nofun, nofun⟩
    | token hkind _ _ => exact Lexeme.keptWhole_of_scanFrom _ hkind

/-- A token that is read is one that is read as one now. -/
theorem Sound.readToken_keptWhole (h : r.Sound) (hread : r.readToken = .ok (t, r')) :
    keptWhole r.closeAnglesOnly t.kind = true := by
  obtain ⟨before, hskips, hstep⟩ := readToken_eq_ok_iff.1 hread
  obtain ⟨hsound, hangles⟩ := hskips.keeps (P := fun q => q.closeAnglesOnly = r.closeAnglesOnly)
    (fun _ hmove hq => hmove.closeAnglesOnly_eq.trans hq) h rfl
  rw [← hangles]
  exact hsound.step_keptWhole hstep

theorem Gives.keptWhole (h : r.Gives n t r') (hsound : r.Sound) :
    keptWhole r.closeAnglesOnly t.kind = true := by
  induction h with
  | ended hread _ | plain hread _ _ => exact hsound.readToken_keptWhole hread
  | aside hread _ _ ih =>
    rw [← hsound.readToken_closeAnglesOnly hread]
    exact ih (hsound.of_readToken hread)

end Reader

/-! ## Deliveries -/

/-- A token that was read, and whether a `>` was a token of its own then. -/
structure Delivery where
  /-- The token. -/
  token : Token
  /-- Whether every `>` was to be a token of its own. -/
  closeAnglesOnly : Bool
  deriving Repr, DecidableEq

namespace Session

variable {start s s' : Session} {t : Token} {ds : List Delivery}

/-- What reading a token does to the queue.  A token that does not wait in the queue is one that is
read as one now. -/
theorem read_keptWhole (hsound : s.reader.Sound) (hread : Parse.read s = .ok (t, s')) :
    s'.reader.Sound ∧
      (∀ u ∈ s'.queue.behind ++ s'.queue.ahead, u = t ∨ u ∈ s.queue.behind ++ s.queue.ahead) ∧
      (t ∈ s.queue.ahead ∨ Lexeme.keptWhole s.reader.closeAnglesOnly t.kind = true) := by
  unfold Parse.read TokenQueue.next? at hread
  cases hahead : s.queue.ahead with
  | cons u ahead =>
    simp only [hahead] at hread
    cases hread
    refine ⟨hsound, ?_, .inl List.mem_cons_self⟩
    simp only [TokenQueue.passed]
    split <;> grind
  | nil =>
    simp only [hahead] at hread
    obtain ⟨⟨u, s₁⟩, hpull, hread⟩ := Halt.bind_eq_ok hread
    cases hread
    rcases pull_spec (.refl _) hsound rfl with
      ⟨herror, -⟩ | ⟨m, v, r', s₂, hpull', hgives, hlike, -, htook⟩
    · rw [herror] at hpull
      cases hpull
    · rw [hpull'] at hpull
      cases hpull
      have hqueue : s₁.queue = s.queue := by rw [htook]
      refine ⟨hlike.symm.sound (hgives.sound hsound), ?_, .inr (hgives.keptWhole hsound)⟩
      simp only [TokenQueue.passed, hqueue]
      split <;> grind

/-- The session `s` comes of the session `start` by actions on its tokens, whatever else is done in
between.  The tokens that were read are given, last one first. -/
inductive Delivered (start : Session) : List Delivery → Session → Prop
  /-- Nothing has been done. -/
  | start : Delivered start [] start
  /-- The next token is read. -/
  | read {ds : List Delivery} {s s' : Session} {t : Token} (before : Delivered start ds s)
      (read : Parse.read s = .ok (t, s')) :
      Delivered start (⟨t, s.reader.closeAnglesOnly⟩ :: ds) s'
  /-- A token is pushed back that was read. -/
  | pushBack {ds : List Delivery} {s s' : Session} {d : Delivery} (before : Delivered start ds s)
      (held : d ∈ ds) (back : Parse.pushBack d.token s = .ok ((), s')) : Delivered start ds s'
  /-- A trial begins. -/
  | beginTrial {ds : List Delivery} {s s' : Session} {trial : Parse.Trial}
      (before : Delivered start ds s) (begun : Parse.beginTrial s = .ok (trial, s')) :
      Delivered start ds s'
  /-- The parse goes back. -/
  | backtrack {ds : List Delivery} {s s' : Session} {trial : Parse.Trial}
      (before : Delivered start ds s) (back : Parse.backtrack trial s = .ok ((), s')) :
      Delivered start ds s'
  /-- A trial ends. -/
  | endTrial {ds : List Delivery} {s s' : Session} {trial : Parse.Trial}
      (before : Delivered start ds s) (ended : Parse.endTrial trial s = .ok ((), s')) :
      Delivered start ds s'
  /-- Something is done that does not concern tokens, but for the way to read `>`. -/
  | aside {ds : List Delivery} {s s' : Session} (before : Delivered start ds s)
      (reader : s.reader.Kin s'.reader) (queue : s'.queue = s.queue) : Delivered start ds s'

/-- What waits in the queue has been read before. -/
theorem Delivered.queued (h : Delivered start ds s) (hsound : start.reader.Sound)
    (hqueue : start.queue = .empty) : s.reader.Sound ∧
      ∀ t ∈ s.queue.behind ++ s.queue.ahead, ∃ d ∈ ds, d.token = t := by
  induction h with
  | start =>
    rw [hqueue]
    exact ⟨hsound, List.forall_mem_nil _⟩
  | @read ds s s' t _ hread ih =>
    obtain ⟨hsound', hall, -⟩ := read_keptWhole ih.1 hread
    refine ⟨hsound', ?_⟩
    intro u hu
    rcases hall u hu with rfl | hu
    · exact ⟨_, List.mem_cons_self, rfl⟩
    · obtain ⟨d, hd, hdu⟩ := ih.2 u hu
      exact ⟨d, List.mem_cons_of_mem _ hd, hdu⟩
  | @pushBack ds s s' d _ hheld hback ih =>
    cases hback
    refine ⟨ih.1, ?_⟩
    intro u hu
    have hcase : u = d.token ∨ u ∈ s.queue.behind ++ s.queue.ahead := by
      simp only [TokenQueue.pushBack] at hu
      split at hu <;> grind
    rcases hcase with rfl | hu
    · exact ⟨d, hheld, rfl⟩
    · exact ih.2 u hu
  | beginTrial _ hbegun ih =>
    cases hbegun
    exact ih
  | @backtrack ds s s' trial _ hback ih =>
    cases hback
    refine ⟨ih.1, fun u hu => ih.2 u ?_⟩
    simp only [TokenQueue.seek, List.mem_append, List.mem_reverse] at hu
    rcases hu with hu | hu
    · simpa using List.mem_of_mem_take hu
    · simpa using List.mem_of_mem_drop hu
  | @endTrial ds s s' trial _ hended ih =>
    unfold Parse.endTrial at hended
    split at hended
    · cases hended
      exact ih
    · cases hended
      exact ⟨ih.1, fun u hu => ih.2 u (List.mem_append_right _ hu)⟩
  | aside _ hreader hqueue ih =>
    rw [hqueue]
    exact ⟨hreader.sound ih.1, ih.2⟩

/-- A token that is not read as one where it is read was read before, where it is. -/
theorem Delivered.before_of_not_keptWhole (h : Delivered start ds s) (hsound : start.reader.Sound)
    (hqueue : start.queue = .empty) {later earlier : List Delivery}
    (hsplit : ds = later ++ ⟨t, true⟩ :: earlier) (hmerged : Lexeme.keptWhole true t.kind = false) :
    ⟨t, false⟩ ∈ earlier := by
  induction h generalizing later earlier with
  | start => simp at hsplit
  | @read ds s s' u before hread ih =>
    cases later with
    | cons d later =>
      rw [List.cons_append, List.cons.injEq] at hsplit
      exact ih hsplit.2
    | nil =>
      rw [List.nil_append, List.cons.injEq, Delivery.mk.injEq] at hsplit
      obtain ⟨⟨rfl, hangles⟩, rfl⟩ := hsplit
      obtain ⟨hsound', hqueued⟩ := before.queued hsound hqueue
      rcases (read_keptWhole hsound' hread).2.2 with hwaits | hkept
      · -- it waited in the queue, so it was read at some time
        obtain ⟨⟨_, angles⟩, hd, rfl⟩ := hqueued u (List.mem_append_right _ hwaits)
        cases angles with
        | false => exact hd
        | true =>
          obtain ⟨front, back, rfl⟩ := List.append_of_mem hd
          exact List.mem_append_right _ (List.mem_cons_of_mem _ (ih rfl))
      · rw [hangles, hmerged] at hkept
        cases hkept
  | pushBack _ _ _ ih | beginTrial _ _ ih | backtrack _ _ ih | endTrial _ _ ih | aside _ _ _ ih =>
    exact ih hsplit

/-- In a session over a source, a `>>` or `>=` that is read where every `>` should be a token of its
own has been read before, where it should not. -/
theorem Delivered.merged_before (config : Configuration) (path source : String)
    (allowance passNumber : Nat) {later earlier : List Delivery}
    (h : Delivered (Session.new ((Reader.new .empty config).push path source).2 allowance passNumber)
      (later ++ ⟨t, true⟩ :: earlier) s)
    (hmerged : t.kind = .rightShift ∨ t.kind = .greaterThanOrEqual) : ⟨t, false⟩ ∈ earlier := by
  refine h.before_of_not_keptWhole (Reader.sound_pushed config path source) rfl rfl ?_
  rcases hmerged with hkind | hkind <;> rw [hkind] <;> rfl

/-- The start of a source that holds nothing but `>>`. -/
def atShift : Session := Session.new ((Reader.new .empty {}).push "test.h" ">>").2 10 1

/-- A `>>` that is read, pushed back, and read again between angle brackets. -/
theorem Delivered.merged_before_shift : ∃ t s, t.kind = .rightShift ∧
    Delivered atShift [⟨t, true⟩, ⟨t, false⟩] s ∧ ⟨t, false⟩ ∈ [Delivery.mk t false] := by
  have hfirst : (Parse.read atShift).toOption.map (fun x => (x.1.kind, x.2.queue)) =
      some (.rightShift, .empty) := by decide +kernel
  obtain ⟨⟨t, s⟩, hread, hvalues⟩ := Halt.of_toOption_map hfirst
  obtain ⟨hkind, hqueue⟩ := Prod.mk.inj hvalues
  let inside : Session := { s with
    queue := s.queue.pushBack t
    reader := s.reader.withAngles true }
  have hwaits : inside.queue = ⟨[], [t], false⟩ := by
    show s.queue.pushBack t = _
    rw [show s.queue = .empty from hqueue]
    rfl
  have hagain : ∃ s', Parse.read inside = .ok (t, s') := by
    unfold Parse.read
    rw [hwaits]
    exact ⟨_, rfl⟩
  obtain ⟨s', hagain⟩ := hagain
  have hfront : Delivered atShift [⟨t, false⟩] s := .read .start hread
  have hback : Delivered atShift [⟨t, false⟩] { s with queue := s.queue.pushBack t } :=
    .pushBack hfront List.mem_cons_self rfl
  have hinside : Delivered atShift [⟨t, false⟩] inside := .aside hback (.refl _) rfl
  have hall : Delivered atShift ([] ++ ⟨t, true⟩ :: [⟨t, false⟩]) s' := .read hinside hagain
  exact ⟨t, s', hkind, hall, Delivered.merged_before {} "test.h" ">>" 10 1 hall (.inl hkind)⟩

/-! ## Tokens that are consumed -/

theorem Delivered.trans {mid : Session} {ds' : List Delivery} (h : Delivered start ds mid)
    (h' : Delivered mid ds' s) : Delivered start (ds' ++ ds) s := by
  induction h' with
  | start => exact h
  | read _ hread ih => exact .read ih hread
  | pushBack _ hheld hback ih => exact .pushBack ih (List.mem_append_left _ hheld) hback
  | beginTrial _ hbegun ih => exact .beginTrial ih hbegun
  | backtrack _ hback ih => exact .backtrack ih hback
  | endTrial _ hended ih => exact .endTrial ih hended
  | aside _ hreader hqueue ih => exact .aside ih hreader hqueue

/-- From one session to another there is a run that reads the given tokens one after the other, and
maybe others in between. -/
def Delivers (start : Session) (ts : List Token) (s : Session) : Prop :=
  ∃ ds, Delivered start ds s ∧ ts.Sublist (ds.reverse.map Delivery.token)

namespace Delivers

variable {ts us : List Token} {trial : Parse.Trial}

theorem refl (s : Session) : s.Delivers [] s := ⟨[], .start, .slnil⟩

theorem trans (h : start.Delivers ts s) (h' : s.Delivers us s') : start.Delivers (ts ++ us) s' := by
  obtain ⟨ds, hdelivered, hts⟩ := h
  obtain ⟨ds', hdelivered', hus⟩ := h'
  refine ⟨ds' ++ ds, hdelivered.trans hdelivered', ?_⟩
  rw [List.reverse_append, List.map_append]
  exact hts.append hus

theorem read (h : Parse.read s = .ok (t, s')) : s.Delivers [t] s' :=
  ⟨[⟨t, s.reader.closeAnglesOnly⟩], .read .start h, .refl _⟩

/-- The last token may be pushed back. -/
theorem pushBack (h : start.Delivers (ts ++ [t]) s) (hback : Parse.pushBack t s = .ok ((), s')) :
    start.Delivers ts s' := by
  obtain ⟨ds, hdelivered, hts⟩ := h
  have hlast : t ∈ ts ++ [t] := List.mem_append_right _ (List.mem_singleton_self t)
  obtain ⟨d, hd, rfl⟩ := List.mem_map.1 (hts.subset hlast)
  exact ⟨ds, .pushBack hdelivered (List.mem_reverse.1 hd) hback,
    (List.sublist_append_left _ _).trans hts⟩

theorem aside (h : s.reader.Kin s'.reader) (hqueue : s'.queue = s.queue) : s.Delivers [] s' :=
  ⟨[], .aside .start h hqueue, .slnil⟩

theorem same (h : s.Same s') : s.Delivers [] s' := .aside h.reader h.queue

theorem beginTrial (h : Parse.beginTrial s = .ok (trial, s')) : s.Delivers [] s' :=
  ⟨[], .beginTrial .start h, .slnil⟩

theorem endTrial (h : Parse.endTrial trial s = .ok ((), s')) : s.Delivers [] s' :=
  ⟨[], .endTrial .start h, .slnil⟩

/-- What was read in a trial has been read, but none of it is consumed. -/
theorem abandon (h : start.Delivers ts s) (habandon : Parse.abandon trial s = .ok ((), s')) :
    start.Delivers [] s' := by
  obtain ⟨ds, hdelivered, -⟩ := h
  exact ⟨ds, .endTrial (.backtrack hdelivered rfl) habandon, List.nil_sublist _⟩

end Delivers

end Session

end CppDecl
