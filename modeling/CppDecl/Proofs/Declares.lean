import CppDecl.Proofs.Builds

/-!
# What actions declare

An action *declares* from given items if it collects at most one declaration in the innermost scope,
and that declaration is made of the given items and of what the action has gained.  This is a class
as well, and again what is done behind a token that was just read is looked at together with the
reading of the token.

Declarations that are collected one after the other stand one behind the other, as the first token of
a declaration is never one that cuts the last one off (`Session.Listed.cons`).
-/

namespace CppDecl

namespace Session

/-- At most one declaration has been collected while the tokens `us` were consumed. -/
def Collected (G : List Item) (us : List Token) (s s' : Session) : Prop :=
  s'.scopes = s.scopes ∨ ∃ d : Declaration, s'.scopes = collectIn d s.scopes ∧
    ∀ i ∈ d.items, i.counts = true → i ∈ G ∨ Gained us s' i

/-- The first of the tokens that are consumed and come next. -/
def Leading (t : Token) (us : List Token) (s : Session) : Prop :=
  (us ++ s.queue.ahead).head? = some t

variable {G l : List Item} {s s₀ s₁ s₂ s' : Session} {t : Token} {us vs : List Token}

theorem Collected.after (h : Collected (G ++ l) vs s₁ s₂) (hbuilt : ∀ i ∈ l, i.counts = true →
    i ∈ G ∨ Gained us s₁ i) (hscopes : s₁.scopes = s.scopes) (hadvance : s₁.Advance vs s₂) :
    Collected G (us ++ vs) s s₂ := by
  rcases h with hsame | ⟨d, hcollected, hgained⟩
  · exact .inl (hsame.trans hscopes)
  · refine .inr ⟨d, hscopes ▸ hcollected, fun i hi hcounts => ?_⟩
    rcases hgained i hi hcounts with hmem | hnew
    · rcases List.mem_append.1 hmem with hmem | hmem
      · exact .inl hmem
      · exact (hbuilt i hmem hcounts).imp_right fun h => h.trans hadvance
    · exact .inr (hnew.append_left us)

theorem Pending.leading (h : s.Pending t) (hadvance : s.Advance us s') : Leading t us s' := by
  obtain ⟨k, pulled, -, -, hqueue⟩ := hadvance.drawn
  rw [Leading, ← hqueue, List.head?_append, h]
  rfl

/-- What comes first stays first. -/
theorem Leading.after (h : Leading t us s) (hadvance : s.Advance vs s') :
    Leading t (us ++ vs) s' := by
  rw [Leading, List.append_assoc]
  cases us with
  | nil => exact Pending.leading h hadvance
  | cons u us => exact h

end Session

namespace Parse

open Session (Tidy Gained Built Advance Collected Leading)

variable {α β : Type} [Itemed α] {G : List Item} {t : Token}
variable {p : Parse α} {f : α → Parse β} {q : Parse β} {s s₀ s₁ s' : Session}

/-- The action declares from the given items. -/
class Declares (G : List Item) (q : Parse β) : Prop where
  /-- What is declared. -/
  declared : ∀ {s b s'}, s.Tidy → q s = .ok (b, s') → ∃ us, s.Advance us s' ∧ Collected G us s s'

/-- The action declares from the given items and a token that was just read. -/
class DeclaresBehind (G : List Item) (t : Token) (q : Parse β) : Prop where
  /-- What is declared. -/
  declared : ∀ {s₀ s b s'}, s₀.Tidy → s₀.Advance [t] s → s.scopes = s₀.scopes → q s = .ok (b, s') →
    ∃ us, s₀.Advance us s' ∧ Leading t us s' ∧ Collected G us s₀ s'

instance {b : β} : Declares G (pure b : Parse β) := by
  refine ⟨?_⟩
  rintro s _ _ - ⟨⟩
  exact ⟨[], .refl s, .inl rfl⟩

instance {d : Declaration} [h : Among d G] : Declares G (declare d) := by
  refine ⟨fun {s _ s'} _ heq => ?_⟩
  have hdone : s' = { s.record (.declared d s.path) with scopes := collectIn d s.scopes } := by
    obtain ⟨_, _, _, _, _, _, _, _, _, _ | ⟨top, outer⟩, _⟩ := s <;> cases heq <;> rfl
  subst hdone
  refine ⟨[], ?_, .inr ⟨d, rfl, fun i hi hcounts => .inl (h.made i hi hcounts)⟩⟩
  exact Session.Same.advance ⟨.refl _, rfl, rfl, rfl⟩

theorem Declares.andThen {l : List Item} {b : β} (hq : Declares (G ++ l) q) (hs : s.Tidy)
    (h : Built G l s s₁) (heq : q s₁ = .ok (b, s')) :
    ∃ us, s.Advance us s' ∧ Collected G us s s' := by
  obtain ⟨us, hadvance, hscopes, hgained⟩ := h
  obtain ⟨vs, hadvance', hcollected⟩ := hq.declared (hs.advance hadvance) heq
  exact ⟨us ++ vs, hadvance.trans hadvance' hs.orderly.sound,
    hcollected.after hgained hscopes hadvance'⟩

theorem Declares.seq (hp : Builds G p) (hf : ∀ a, Declares (G ++ items a) (f a)) :
    Declares G (p >>= f) := by
  refine ⟨fun hs heq => ?_⟩
  obtain ⟨⟨a, s₁⟩, hfirst, hrest⟩ := Halt.bind_eq_ok heq
  exact (hf a).andThen hs (hp.built hs hfirst) hrest

instance [hp : Builds G p] [hf : ∀ a, Declares (G ++ items a) (f a)] : Declares G (p >>= f) :=
  .seq hp hf

instance {γ : Type} {c : γ} [hq : Declares G q] : Declares G (q >>= fun _ => pure c) := by
  refine ⟨fun hs heq => ?_⟩
  obtain ⟨⟨b, s₁⟩, hfirst, hrest⟩ := Halt.bind_eq_ok heq
  cases hrest
  exact hq.declared hs hfirst

instance {r : Parse β} {c : Prop} [Decidable c] [hq : Declares G q] [hr : Declares G r] :
    Declares G (if c then q else r) := by
  split
  · exact hq
  · exact hr

instance (priority := high) {f : Session → Parse β} [hf : ∀ s, Declares G (f s)] :
    Declares G (get >>= f) := ⟨fun {s _ _} hs heq => (hf s).declared hs heq⟩

theorem Declares.reading {f : Token → Parse β} (hf : ∀ t, DeclaresBehind G t (f t)) :
    Declares G (read >>= f) := by
  refine ⟨fun hs heq => ?_⟩
  obtain ⟨⟨t, s₁⟩, hread, hrest⟩ := Halt.bind_eq_ok heq
  have hsteady := Session.read_steady hs.orderly.sound hread
  obtain ⟨us, hadvance, -, hcollected⟩ :=
    (hf t).declared hs (hs.orderly.read hread).1 hsteady.2.2 hrest
  exact ⟨us, hadvance, hcollected⟩

instance (priority := high) {f : Token → Parse β} [hf : ∀ t, DeclaresBehind G t (f t)] :
    Declares G (read >>= f) := .reading hf

instance (priority := high) {γ : Type} {c : γ} {f : γ → Parse β} [h : Declares G (f c)] :
    Declares G (pure c >>= f) := by
  rwa [pure_bind]

/-! ## Behind a token -/

theorem DeclaresBehind.of_declares [hq : Declares (G ++ items t) q] : DeclaresBehind G t q := by
  refine ⟨fun hs hadvance hscopes heq => ?_⟩
  obtain ⟨us, hadvance', hcollected⟩ := hq.declared (hs.advance hadvance) heq
  refine ⟨[t] ++ us, hadvance.trans hadvance' hs.orderly.sound, rfl, ?_⟩
  refine hcollected.after (fun i hi _ => .inr ?_) hscopes hadvance'
  cases List.mem_singleton.1 hi
  exact .inl (by simp)

/-- Once something else is done, the token has been gained. -/
instance (priority := low) [Declares (G ++ items t) q] : DeclaresBehind G t q := .of_declares

instance {r : Parse β} {c : Prop} [Decidable c] [hq : DeclaresBehind G t q]
    [hr : DeclaresBehind G t r] : DeclaresBehind G t (if c then q else r) := by
  split
  · exact hq
  · exact hr

instance (priority := high) {γ : Type} {c : γ} {f : γ → Parse β} [h : DeclaresBehind G t (f c)] :
    DeclaresBehind G t (pure c >>= f) := by
  rwa [pure_bind]

instance {γ : Type} {c : γ} [hq : DeclaresBehind G t q] :
    DeclaresBehind G t (q >>= fun _ => pure c) := by
  refine ⟨fun hs hadvance hscopes heq => ?_⟩
  obtain ⟨⟨b, s₁⟩, hfirst, hrest⟩ := Halt.bind_eq_ok heq
  cases hrest
  exact hq.declared hs hadvance hscopes hfirst

theorem DeclaresBehind.still {r : Parse Unit} {f : Unit → Parse β} (hr : Still r)
    (hf : DeclaresBehind G t (f ())) : DeclaresBehind G t (r >>= f) := by
  refine ⟨fun hs hadvance hscopes heq => ?_⟩
  obtain ⟨⟨_, s₁⟩, hfirst, hrest⟩ := Halt.bind_eq_ok heq
  obtain ⟨hsame, hscopes'⟩ := hr.built hfirst
  have hthere := hadvance.trans hsame hs.orderly.sound
  rw [List.append_nil] at hthere
  exact hf.declared hs hthere (hscopes'.trans hscopes) hrest

instance {f : Unit → Parse β} [hf : DeclaresBehind G t (f ())] :
    DeclaresBehind G t (unmute >>= f) := .still still_unmute hf

instance {mute : Bool} {e : ParseError} {f : Unit → Parse β} [hf : DeclaresBehind G t (f ())] :
    DeclaresBehind G t (fault mute e >>= f) := .still (still_fault mute e) hf

instance {what : Expected} {token : Token} {f : Unit → Parse β}
    [hf : DeclaresBehind G t (f ())] : DeclaresBehind G t (faultExpected what token >>= f) :=
  .still (still_faultExpected what token) hf

/-- The token is pushed back. -/
theorem DeclaresBehind.back {f : Unit → Parse β} (hf : Declares G (f ())) :
    DeclaresBehind G t (pushBack t >>= f) := by
  refine ⟨fun {s₀ s a s'} hs hadvance hscopes heq => ?_⟩
  obtain ⟨hback, hpending⟩ := (show s₀.Advance ([] ++ [t]) s from hadvance).pushBack hs.orderly
  obtain ⟨us, hadvance', hcollected⟩ := hf.declared (hs.advance hback) heq
  refine ⟨us, hback.trans hadvance' hs.orderly.sound, hpending.leading hadvance', ?_⟩
  rw [← List.append_nil G] at hcollected
  have hsame : Collected G ([] ++ us) s₀ s' :=
    hcollected.after (List.forall_mem_nil _) hscopes hadvance'
  exact hsame

instance {f : Unit → Parse β} [hf : Declares G (f ())] : DeclaresBehind G t (pushBack t >>= f) :=
  .back hf

instance : DeclaresBehind G t (pushBack t) := by
  have h : DeclaresBehind G t (pushBack t >>= pure) := inferInstance
  exact h

instance (priority := high) {f : Token → Parse β} [hf : ∀ t, Declares G (f t)] :
    Declares G (peek >>= f) := by
  unfold peek
  simp only [bind_assoc, pure_bind]
  infer_instance

/-! ## Trials -/

instance {x : Speculation α β} [hattempt : Builds G x.attempt]
    [hgoOn : ∀ a, Declares (G ++ items a) (x.goOn a)] [hotherwise : Declares G x.otherwise] :
    Declares G x.run := by
  refine ⟨fun hs heq => ?_⟩
  rcases speculation_built hattempt hs heq with
    ⟨a, s₁, hbuilt, hrest⟩ | ⟨s₁, hadvance, hscopes, hrest⟩
  · exact (hgoOn a).andThen hs hbuilt hrest
  · rw [← List.append_nil G] at hotherwise
    exact hotherwise.andThen hs ⟨[], hadvance, hscopes, List.forall_mem_nil _⟩ hrest

end Parse

/-! ## Declarations one behind the other -/

namespace Session

variable {s s₁ s₂ : Session} {t : Token} {us vs : List Token} {d : Declaration}
variable {new : List Declaration}

/-- At most one declaration has been collected, and its first token cuts nothing off. -/
def Declared (s s' : Session) : Prop :=
  ∃ us, s.Advance us s' ∧ (s'.scopes = s.scopes ∨ ∃ d t, s'.scopes = collectIn d s.scopes ∧
    (∀ i ∈ d.items, i.counts = true → Gained us s' i) ∧ Leading t us s' ∧ t.kind.cutsOff = false)

/-- Declarations have been collected one behind the other while the tokens `us` were consumed. -/
structure Listed (us : List Token) (new : List Declaration) (s s' : Session) : Prop where
  /-- The session has advanced. -/
  advance : s.Advance us s'
  /-- The declarations are made of what has been gained. -/
  gained : ∀ i ∈ items new, i.counts = true → Gained us s' i
  /-- Each of them stands in front of the later ones. -/
  apart : new.Pairwise Declaration.Before
  /-- They begin with a token that cuts nothing off. -/
  begins : new ≠ [] → ∃ before t after, us ++ s'.queue.ahead = before ++ t :: after ∧
    t.kind.cutsOff = false ∧ ∀ u, .token u ∈ items new → u.isPresent = true → u ∈ t :: after

/-- Declarations have been collected in the innermost scope, and the closer of the block has been
consumed. -/
def Lists (closer : Token) (s s' : Session) : Prop :=
  ∀ top outer, s.scopes = top :: outer → top.scope.gathers = true → ∃ us new, Listed us new s s' ∧
    s'.scopes = ⟨top.scope, top.members ++ new⟩ :: outer ∧ (closer.isPresent = true → closer ∈ us)

theorem Gained.mem_line (h : Gained us s (.token t)) : t ∈ us ++ s.queue.ahead := by
  rcases h with hmem | ⟨hpending, -⟩
  · exact List.mem_append_left _ hmem
  · exact List.mem_append_right us (List.mem_of_mem_head? hpending)

theorem Listed.nil (h : s.Advance us s₁) : Listed us [] s s₁ := ⟨h, List.forall_mem_nil _, .nil, absurd rfl⟩

theorem Listed.after (hadvance : s.Advance us s₁) (hs : s.Tidy) (h : Listed vs new s₁ s₂) :
    Listed (us ++ vs) new s s₂ := by
  refine ⟨hadvance.trans h.advance hs.orderly.sound, fun i hi hcounts => ?_, h.apart, fun hne => ?_⟩
  · exact (h.gained i hi hcounts).append_left us
  · obtain ⟨before, t, after, hline, hbegins⟩ := h.begins hne
    exact ⟨us ++ before, t, after, by rw [List.append_assoc, hline, List.append_assoc], hbegins⟩

/-- A declaration stands in front of those that are collected next.  A token that was left alone
where the declaration was cut off does not begin any of them. -/
theorem Listed.before (h : Listed vs new s₁ s₂) (hs : s.Tidy) (hadvance : s.Advance us s₁)
    (hgained : ∀ i ∈ d.items, i.counts = true → Gained us s₁ i) : ∀ e ∈ new, d.Before e := by
  intro e he x y hx hy hpresent hpresent'
  obtain ⟨before, t, after, hline, hcuts, hwords⟩ := h.begins (List.ne_nil_of_mem he)
  have hxmem : x ∈ us ++ before := by
    rcases hgained (.token x) hx hpresent with hmem | ⟨hpending, hcuts'⟩
    · exact List.mem_append_left before hmem
    have hfirst : (before ++ t :: after).head? = some x := hline ▸ hpending.leading h.advance
    cases before with
    | nil =>
      cases hfirst
      rw [hcuts] at hcuts'
      cases hcuts'
    | cons u before =>
      cases hfirst
      simp
  have hymem : y ∈ t :: after := hwords y (List.mem_flatMap.2 ⟨e, he, hy⟩) hpresent'
  obtain ⟨hpairs, hplain⟩ := hs.line (hadvance.trans h.advance hs.orderly.sound)
  rw [List.append_assoc, hline, ← List.append_assoc] at hpairs hplain
  have hcross := (List.pairwise_append.1 hpairs).2.2 x hxmem
  have hmore : x.kind ≠ .endOfFile := by
    intro hend
    rw [(hcross t List.mem_cons_self).again hend, hend] at hcuts
    exact absurd hcuts (by decide)
  exact (hcross y hymem).before.lt
    (Token.not_use_of_plain (hplain x (List.mem_append_left _ hxmem))) hmore

theorem Listed.cons (hs : s.Tidy) (hadvance : s.Advance us s₁)
    (hgained : ∀ i ∈ d.items, i.counts = true → Gained us s₁ i) (hlead : Leading t us s₁)
    (hcuts : t.kind.cutsOff = false) (h : Listed vs new s₁ s₂) :
    Listed (us ++ vs) (d :: new) s s₂ := by
  have hall : ∀ i ∈ items (d :: new), i.counts = true → Gained (us ++ vs) s₂ i := by
    intro i hi hcounts
    rcases List.mem_append.1 hi with hi | hi
    · exact (hgained i hi hcounts).trans h.advance
    · exact (h.gained i hi hcounts).append_left us
  refine ⟨hadvance.trans h.advance hs.orderly.sound, hall,
    .cons (h.before hs hadvance hgained) h.apart, fun _ => ?_⟩
  obtain ⟨after, hline⟩ := List.head?_eq_some_iff.1 (hlead.after h.advance)
  exact ⟨[], t, after, hline, hcuts, fun u hu hpresent => hline ▸ (hall _ hu hpresent).mem_line⟩

variable {closer : Token}

theorem Lists.nil (hadvance : s.Advance us s₁) (hscopes : s₁.scopes = s.scopes)
    (hcloser : closer.isPresent = true → closer ∈ us) : Lists closer s s₁ := by
  intro top outer htop _
  exact ⟨us, [], .nil hadvance, by rw [List.append_nil, hscopes, htop], hcloser⟩

theorem Lists.after (hs : s.Tidy) (hadvance : s.Advance us s₁) (hscopes : s₁.scopes = s.scopes)
    (h : Lists closer s₁ s₂) : Lists closer s s₂ := by
  intro top outer htop hgathers
  obtain ⟨vs, new, hlisted, hmembers, hcloser⟩ := h top outer (hscopes.trans htop) hgathers
  exact ⟨us ++ vs, new, hlisted.after hadvance hs, hmembers,
    fun hpresent => List.mem_append_right us (hcloser hpresent)⟩

theorem Lists.cons (hs : s.Tidy) (hdeclared : Declared s s₁) (h : Lists closer s₁ s₂) :
    Lists closer s s₂ := by
  obtain ⟨us, hadvance, hsame | ⟨d, t, hcollected, hgained, hlead, hcuts⟩⟩ := hdeclared
  · exact h.after hs hadvance hsame
  · intro top outer htop hgathers
    have hscopes : s₁.scopes = ⟨top.scope, top.members ++ [d]⟩ :: outer := by
      rw [hcollected, htop, collectIn]
      obtain ⟨scope, members⟩ := top
      cases scope <;> first | rfl | cases hgathers
    obtain ⟨vs, new, hlisted, hmembers, hcloser⟩ := h _ outer hscopes hgathers
    refine ⟨us ++ vs, d :: new, hlisted.cons hs hadvance hgained hlead hcuts, ?_,
      fun hpresent => List.mem_append_right us (hcloser hpresent)⟩
    simpa using hmembers

end Session

end CppDecl
