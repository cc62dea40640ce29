import CppDecl.Proofs.Blind
import CppDecl.Proofs.Items
import CppDecl.Proofs.Order
import CppDecl.Proofs.Speculation

/-!
# What actions build from

An action *builds from* given items if its result is made of them and of what it has gained: the
tokens that it has consumed, and blocks with declarations in the order of the source.  There is one
more thing that a result may have: where template arguments are cut off, the token that cuts them
off belongs to the last of them, though it is left to be read again.

A token that was just read may be pushed back, and then it is not gained.  So what is done behind a
token, before anything else is read, is looked at together with the reading of the token.

Both are classes.  They are inferred for what is put together from other actions.
-/

namespace CppDecl

/-- All tokens of the one declaration stand in front of all tokens of the other. -/
def Declaration.Before (d e : Declaration) : Prop :=
  ∀ t u : Token, .token t ∈ d.items → .token u ∈ e.items → t.isPresent = true → u.isPresent = true →
    t.loc < u.loc

/-- All tokens of the arguments stand between the brackets.  The one exception is a last argument of
which nothing is there: it has the closing bracket for its first token. -/
def Enclosed (openAngle closeAngle : Token) (args : List TemplateArgument) : Prop :=
  ∃ inner, (args = inner ∨ args = inner ++ [.unknown closeAngle .absent .absent]) ∧
    ∀ t, .token t ∈ items inner → t.isPresent = true →
      openAngle.loc < t.loc ∧ t.loc < closeAngle.loc

/-- Whether tokens of a kind can cut template arguments off. -/
def TokenKind.cutsOff (kind : TokenKind) : Bool := cutOffKinds.contains kind

namespace Session

/-- A session in order, to which tokens come one behind the other. -/
structure Tidy (s : Session) : Prop where
  /-- The session is in order. -/
  orderly : s.Orderly
  /-- Tokens stand one behind the other, and asides are not among them. -/
  inLine : ∀ {k : Nat} {pulled : List Token} {r : Reader}, s.reader.Draws k pulled r →
    (s.queue.ahead ++ pulled).Pairwise Token.Precedes ∧
      ∀ t ∈ s.queue.ahead ++ pulled, t.kind.isAside = false

/-- What has been gained while the tokens `us` were consumed. -/
def Gained (us : List Token) (s : Session) : Item → Prop
  | .token t => t ∈ us ∨ s.Pending t ∧ t.kind.cutsOff = true
  | .block members => members.Pairwise Declaration.Before
  | .arguments openAngle closeAngle args => Enclosed openAngle closeAngle args

/-- A session has advanced to another one, and these items were given or have been gained. -/
def Built (G l : List Item) (s s' : Session) : Prop :=
  ∃ us, s.Advance us s' ∧ s'.scopes = s.scopes ∧ ∀ i ∈ l, i.counts = true → i ∈ G ∨ Gained us s' i

variable {G l l' : List Item} {s s₀ s₁ s₂ s' : Session} {t : Token} {us vs : List Token} {i : Item}

theorem tidy_new {reader : Reader} (hsound : reader.Sound) (hordered : reader.Ordered)
    (allowance passNumber : Nat) : (Session.new reader allowance passNumber).Tidy := by
  refine ⟨orderly_new hsound allowance passNumber, fun hdraws => ?_⟩
  obtain ⟨hpairs, hall⟩ := hordered.draws hsound hdraws
  exact ⟨hpairs, fun t ht => (hall t ht).2⟩

/-- What was consumed and what comes next. -/
theorem Tidy.line (h : s.Tidy) (hadvance : s.Advance us s') :
    (us ++ s'.queue.ahead).Pairwise Token.Precedes ∧
      ∀ t ∈ us ++ s'.queue.ahead, t.kind.isAside = false := by
  obtain ⟨k, pulled, hdraws, -, hqueue⟩ := hadvance.drawn
  exact hqueue ▸ h.inLine hdraws

/-- A token that is consumed before others, not all of which are the end of the file, lies before
all of them. -/
theorem Tidy.loc_lt (hs : s.Tidy) (hadvance : s.Advance (us ++ t :: vs) s') {u v : Token} (hu : u ∈ vs)
    (hv : v ∈ vs) (hmore : v.kind ≠ .endOfFile) : t.loc < u.loc := by
  obtain ⟨hpairs, hplain⟩ := hs.line hadvance
  rw [List.append_assoc] at hpairs hplain
  have hprecedes := (List.pairwise_cons.1 (List.pairwise_append.1 hpairs).2.1).1
  refine (hprecedes u (List.mem_append_left _ hu)).before.lt
    (Token.not_use_of_plain (hplain t (by simp))) fun hend => hmore ?_
  rw [(hprecedes v (List.mem_append_left _ hv)).again hend, hend]

theorem Tidy.advance (h : s.Tidy) (hadvance : s.Advance us s') : s'.Tidy := by
  refine ⟨h.orderly.advance hadvance, fun hdraws' => ?_⟩
  obtain ⟨k, pulled, hdraws, -, hqueue⟩ := hadvance.drawn
  have hline := h.inLine (hdraws.trans hdraws' h.orderly.sound)
  rw [← List.append_assoc, hqueue, List.append_assoc] at hline
  exact ⟨(List.pairwise_append.1 hline.1).2.1, fun t ht => hline.2 t (List.mem_append_right us ht)⟩

theorem Tidy.bracketed (h : s.Tidy) (accept : Accept) (a : Bool) : (s.bracketed accept a).Tidy :=
  ⟨h.orderly.bracketed accept a, fun hdraws =>
    h.inLine (hdraws.of_withAngles (b := a) h.orderly.sound)⟩

theorem Begun.tidy {trial : Parse.Trial} (h : s.Begun trial s₁) (htidy : s.Tidy) : s₁.Tidy := by
  refine ⟨h.orderly htidy.orderly, fun hdraws => ?_⟩
  rw [h.session] at hdraws ⊢
  exact htidy.inLine hdraws

/-- What has been gained stays gained. -/
theorem Gained.trans (h : Gained us s₁ i) (hadvance : s₁.Advance vs s₂) : Gained (us ++ vs) s₂ i := by
  cases i with
  | token t =>
    rcases h with hmem | ⟨hpending, hcuts⟩
    · exact .inl (List.mem_append_left vs hmem)
    by_cases hvs : vs = []
    · subst hvs
      exact .inr ⟨hpending.advance hadvance, hcuts⟩
    · obtain ⟨rest, rfl⟩ := hpending.first hadvance hvs
      exact .inl (by simp)
  | block members => exact h
  | arguments openAngle closeAngle args => exact h

theorem Gained.append_left (h : Gained vs s i) (us : List Token) : Gained (us ++ vs) s i := by
  cases i with
  | token t => exact h.imp_left fun hmem => List.mem_append_right us hmem
  | block members => exact h
  | arguments openAngle closeAngle args => exact h

theorem Gained.of_queue_eq (h : Gained us s i) (hqueue : s'.queue.ahead = s.queue.ahead) :
    Gained us s' i := by
  cases i with
  | token t => exact h.imp_right fun hp => ⟨by rw [Pending, hqueue]; exact hp.1, hp.2⟩
  | block members => exact h
  | arguments openAngle closeAngle args => exact h

theorem Built.refl (s : Session) (hl : Made l G) : Built G l s s :=
  ⟨[], .refl s, rfl, fun i hi hcounts => .inl (hl i hi hcounts)⟩

theorem Built.trans (hsound : s.reader.Sound) (h : Built G l s s₁) (h' : Built (G ++ l) l' s₁ s₂) :
    Built G l' s s₂ := by
  obtain ⟨us, hadvance, hscopes, hgained⟩ := h
  obtain ⟨vs, hadvance', hscopes', hgained'⟩ := h'
  refine ⟨us ++ vs, hadvance.trans hadvance' hsound, hscopes'.trans hscopes, ?_⟩
  intro i hi hcounts
  rcases hgained' i hi hcounts with hmem | hnew
  · rcases List.mem_append.1 hmem with hmem | hmem
    · exact .inl hmem
    · exact (hgained i hmem hcounts).imp_right fun h => h.trans hadvance'
  · exact .inr (hnew.append_left us)

theorem Built.mono {H : List Item} (h : Built G l s s') (hsub : G ⊆ H) : Built H l s s' := by
  obtain ⟨us, hadvance, hscopes, hgained⟩ := h
  exact ⟨us, hadvance, hscopes, fun i hi hcounts => (hgained i hi hcounts).imp_left (@hsub i)⟩

theorem Built.tidy (h : Built G l s s') (hs : s.Tidy) : s'.Tidy := by
  obtain ⟨us, hadvance, -⟩ := h
  exact hs.advance hadvance

end Session

namespace Parse

open Session (Tidy Gained Built Advance Same Begun)

variable {α β : Type} [Itemed α] [Itemed β] {G : List Item} {t : Token}
variable {p : Parse α} {f : α → Parse β} {s s₁ s' : Session}

/-- The action builds from the given items. -/
class Builds (G : List Item) (p : Parse α) : Prop where
  /-- What the result is made of. -/
  built : ∀ {s a s'}, s.Tidy → p s = .ok (a, s') → Built G (items a) s s'

/-- The action builds from the given items and a token that was just read. -/
class BuildsBehind (G : List Item) (t : Token) (p : Parse α) : Prop where
  /-- What the result is made of. -/
  built : ∀ {s₀ s a s'}, s₀.Tidy → s₀.Advance [t] s → s.scopes = s₀.scopes → p s = .ok (a, s') →
    Built G (items a) s₀ s'

/-! ## Actions that build -/

instance {a : α} [h : Among a G] : Builds G (pure a) := by
  refine ⟨?_⟩
  rintro s _ _ - ⟨⟩
  exact .refl s h.made

theorem Builds.seq (hp : Builds G p) (hf : ∀ a, Builds (G ++ items a) (f a)) :
    Builds G (p >>= f) := by
  refine ⟨fun hs heq => ?_⟩
  obtain ⟨⟨a, s₁⟩, hfirst, hrest⟩ := Halt.bind_eq_ok heq
  have hbuilt := hp.built hs hfirst
  obtain ⟨us, hadvance, -⟩ := id hbuilt
  exact hbuilt.trans hs.orderly.sound ((hf a).built (hs.advance hadvance) hrest)

instance [hp : Builds G p] [hf : ∀ a, Builds (G ++ items a) (f a)] : Builds G (p >>= f) := hp.seq hf

instance (priority := high) {a : α} [h : Builds G (f a)] : Builds G (pure a >>= f) := by
  rwa [pure_bind]

theorem Builds.mono {H : List Item} (hp : Builds G p) (hsub : G ⊆ H) : Builds H p :=
  ⟨fun hs heq => (hp.built hs heq).mono hsub⟩

instance {q : Parse α} {c : Prop} [Decidable c] [hp : Builds G p] [hq : Builds G q] :
    Builds G (if c then p else q) := by
  split
  · exact hp
  · exact hq

instance (priority := high) {f : Session → Parse β} [hf : ∀ s, Builds G (f s)] :
    Builds G (get >>= f) := ⟨fun {s _ _} hs heq => (hf s).built hs heq⟩

theorem Builds.reading {f : Token → Parse β} (hf : ∀ t, BuildsBehind G t (f t)) :
    Builds G (read >>= f) := by
  refine ⟨fun hs heq => ?_⟩
  obtain ⟨⟨t, s₁⟩, hread, hrest⟩ := Halt.bind_eq_ok heq
  have hsteady := Session.read_steady hs.orderly.sound hread
  exact (hf t).built hs (hs.orderly.read hread).1 hsteady.2.2 hrest

instance (priority := high) {f : Token → Parse β} [hf : ∀ t, BuildsBehind G t (f t)] :
    Builds G (read >>= f) := .reading hf

/-- What a still action does. -/
theorem Still.built {q : Parse Unit} (hq : Still q) (heq : q s = .ok ((), s')) :
    s.Advance [] s' ∧ s'.scopes = s.scopes := by
  obtain ⟨s₁, heq', hsame, -, -, hscopes⟩ := hq s
  rw [heq'] at heq
  cases heq
  exact ⟨hsame.advance, hscopes⟩

theorem Still.andThen {γ : Type} {q : Parse Unit} {f : Unit → Parse γ} {c : γ} (hq : Still q)
    (heq : (q >>= f) s = .ok (c, s')) :
    ∃ s₁, s.Advance [] s₁ ∧ s₁.scopes = s.scopes ∧ f () s₁ = .ok (c, s') := by
  obtain ⟨⟨_, s₁⟩, hfirst, hrest⟩ := Halt.bind_eq_ok heq
  obtain ⟨hsame, hscopes⟩ := hq.built hfirst
  exact ⟨s₁, hsame, hscopes, hrest⟩

theorem Still.builds {q : Parse Unit} (hq : Still q) : Builds G q := by
  refine ⟨fun _ heq => ?_⟩
  obtain ⟨hadvance, hscopes⟩ := hq.built heq
  exact ⟨[], hadvance, hscopes, List.forall_mem_nil _⟩

instance : Builds G unmute := still_unmute.builds

instance {mute : Bool} {e : ParseError} : Builds G (fault mute e) := (still_fault mute e).builds

instance {what : Expected} {token : Token} : Builds G (faultExpected what token) :=
  (still_faultExpected what token).builds

instance {e : Event} : Builds G (tell e) := by
  refine ⟨?_⟩
  rintro s _ _ - ⟨⟩
  exact ⟨[], Same.advance ⟨.refl _, rfl, rfl, rfl⟩, rfl, List.forall_mem_nil _⟩

/-! ## Behind a token -/

theorem BuildsBehind.of_builds [hp : Builds (G ++ items t) p] : BuildsBehind G t p := by
  refine ⟨fun hs hadvance hscopes heq => ?_⟩
  have hbuilt : Built G (items t) _ _ :=
    ⟨[t], hadvance, hscopes, fun i hi _ => .inr (by cases List.mem_singleton.1 hi; exact .inl (by simp))⟩
  exact hbuilt.trans hs.orderly.sound (hp.built (hs.advance hadvance) heq)

theorem BuildsBehind.seq (hp : BuildsBehind G t p) (hf : ∀ a, Builds (G ++ items a) (f a)) :
    BuildsBehind G t (p >>= f) := by
  refine ⟨fun hs hadvance hscopes heq => ?_⟩
  obtain ⟨⟨a, s₁⟩, hfirst, hrest⟩ := Halt.bind_eq_ok heq
  have hbuilt := hp.built hs hadvance hscopes hfirst
  exact hbuilt.trans hs.orderly.sound ((hf a).built (hbuilt.tidy hs) hrest)

/-- Once something else is done, the token has been gained. -/
instance (priority := low) [Builds (G ++ items t) p] : BuildsBehind G t p := .of_builds

instance {q : Parse α} {c : Prop} [Decidable c] [hp : BuildsBehind G t p]
    [hq : BuildsBehind G t q] : BuildsBehind G t (if c then p else q) := by
  split
  · exact hp
  · exact hq

instance (priority := high) {a : α} [h : BuildsBehind G t (f a)] :
    BuildsBehind G t (pure a >>= f) := by
  rwa [pure_bind]

instance {f : Session → Parse β} [hf : ∀ s, BuildsBehind G t (f s)] :
    BuildsBehind G t (get >>= f) := ⟨fun {_ s _ _} hs hadvance hscopes heq =>
  (hf s).built hs hadvance hscopes heq⟩

theorem BuildsBehind.still {q : Parse Unit} {f : Unit → Parse β} (hq : Still q)
    (hf : BuildsBehind G t (f ())) : BuildsBehind G t (q >>= f) := by
  refine ⟨fun hs hadvance hscopes heq => ?_⟩
  obtain ⟨⟨_, s₁⟩, hfirst, hrest⟩ := Halt.bind_eq_ok heq
  obtain ⟨hsame, hscopes'⟩ := hq.built hfirst
  have hthere := hadvance.trans hsame hs.orderly.sound
  rw [List.append_nil] at hthere
  exact hf.built hs hthere (hscopes'.trans hscopes) hrest

instance {f : Unit → Parse β} [hf : BuildsBehind G t (f ())] : BuildsBehind G t (unmute >>= f) :=
  .still still_unmute hf

instance {mute : Bool} {e : ParseError} {f : Unit → Parse β} [hf : BuildsBehind G t (f ())] :
    BuildsBehind G t (fault mute e >>= f) := .still (still_fault mute e) hf

instance {what : Expected} {token : Token} {f : Unit → Parse β} [hf : BuildsBehind G t (f ())] :
    BuildsBehind G t (faultExpected what token >>= f) := .still (still_faultExpected what token) hf

/-- The token is pushed back. -/
theorem BuildsBehind.back {f : Unit → Parse β} (hf : Builds G (f ())) :
    BuildsBehind G t (pushBack t >>= f) := by
  refine ⟨fun {s₀ s a s'} hs hadvance hscopes heq => ?_⟩
  obtain ⟨hback, -⟩ := (show s₀.Advance ([] ++ [t]) s from hadvance).pushBack hs.orderly
  have hbuilt : Built G [] s₀ { s with queue := s.queue.pushBack t } := ⟨[], hback, hscopes, List.forall_mem_nil _⟩
  refine hbuilt.trans hs.orderly.sound ?_
  rw [List.append_nil]
  exact hf.built (hs.advance hback) heq

instance {f : Unit → Parse β} [hf : Builds G (f ())] : BuildsBehind G t (pushBack t >>= f) :=
  .back hf

instance : BuildsBehind G t (pushBack t) := by
  have h : BuildsBehind G t (pushBack t >>= pure) := inferInstance
  exact h

/-- The parse stays behind a token or, at the end of the file, nowhere.  Or else it leaves the token
to a rule further out. -/
theorem mayStay_cases {stays : Bool} (heq : mayStay t s = .ok (stays, s')) :
    s' = s ∧ (stays = false → t.kind = .endOfFile) ∨
      stays = false ∧ s.accept.leaves? t.kind = some true ∧ pushBack t s = .ok ((), s') := by
  unfold mayStay at heq
  split at heq
  next hend =>
    cases heq
    exact .inl ⟨rfl, fun _ => hend⟩
  next =>
    have hget : ∀ f : Session → Parse Bool, (get >>= f) s = f s s := fun _ => rfl
    rw [hget] at heq
    rcases hleaves : s.accept.leaves? t.kind with _ | _ | _ <;> rw [hleaves] at heq
    · cases heq
      exact .inl ⟨rfl, nofun⟩
    · cases heq
      exact .inl ⟨rfl, nofun⟩
    · cases heq
      exact .inr ⟨rfl, rfl, rfl⟩

/-- The parse stays behind the token, or leaves it alone. -/
theorem BuildsBehind.mayStay {f : Bool → Parse β} (hstay : BuildsBehind G t (f true))
    (hleave : Builds G (f false)) : BuildsBehind G t (mayStay t >>= f) := by
  refine ⟨fun {s₀ s a s'} hs hadvance hscopes heq => ?_⟩
  obtain ⟨⟨stays, s₁⟩, hstays, hrest⟩ := Halt.bind_eq_ok heq
  rcases mayStay_cases hstays with ⟨hsame, hend⟩ | ⟨rfl, -, hback⟩
  · subst hsame
    cases stays with
    | true => exact hstay.built hs hadvance hscopes hrest
    | false =>
      have hbuilt : Built G [] s₀ s₁ := ⟨[t], hadvance, hscopes, List.forall_mem_nil _⟩
      refine hbuilt.trans hs.orderly.sound ?_
      rw [List.append_nil]
      exact hleave.built (hs.advance hadvance) hrest
  · have hall : BuildsBehind G t (pushBack t >>= fun _ => f false) := .back hleave
    refine hall.built hs hadvance hscopes ?_
    cases hback
    exact hrest

/-! ## Looking ahead -/

instance : Builds G read := by
  have h : Builds G (read >>= pure) := inferInstance
  rwa [bind_pure] at h

/-- The token that is looked at has not been gained. -/
instance (priority := high) {f : Token → Parse β} [hf : ∀ t, Builds G (f t)] :
    Builds G (peek >>= f) := by
  unfold peek
  simp only [bind_assoc, pure_bind]
  infer_instance

theorem peek_built (hs : s.Tidy) (hpeek : peek s = .ok (t, s₁)) : Built G [] s s₁ ∧ s₁.Pending t := by
  obtain ⟨hadvance, hpending, -⟩ := hs.orderly.peek hpeek
  obtain ⟨⟨_, s₂⟩, hread, hback⟩ := Halt.bind_eq_ok hpeek
  have hscopes := (Session.read_steady hs.orderly.sound hread).2.2
  cases hback
  exact ⟨⟨[], hadvance, hscopes, List.forall_mem_nil _⟩, hpending⟩

/-- The token that is looked at is gained if it is read next. -/
theorem Builds.peeked {c : Token → Prop} [DecidablePred c] {f g : Token → Parse β}
    (hf : ∀ t, Builds (G ++ items t) (f t)) (hg : ∀ t, Builds G (g t)) :
    Builds G (do
      let t ← peek
      if c t then do
        let _ ← read
        f t
      else g t) := by
  refine ⟨fun {s a s'} hs heq => ?_⟩
  obtain ⟨⟨t, s₁⟩, hpeek, hrest⟩ := Halt.bind_eq_ok heq
  obtain ⟨hbuilt, hpending⟩ := peek_built (G := G) hs hpeek
  refine hbuilt.trans hs.orderly.sound ?_
  rw [List.append_nil]
  have htidy := hbuilt.tidy hs
  dsimp only at hrest
  split at hrest
  · obtain ⟨⟨u, s₂⟩, hread, hrest⟩ := Halt.bind_eq_ok hrest
    obtain ⟨hnext, hfirst⟩ := htidy.orderly.read hread
    obtain rfl := hfirst t hpending
    have hbehind : BuildsBehind G u (f u) := .of_builds
    exact hbehind.built htidy hnext (Session.read_steady htidy.orderly.sound hread).2.2 hrest
  · exact (hg t).built htidy hrest

instance {before : Nat} : Builds G (failedSince before) := by
  unfold failedSince
  infer_instance

instance : Builds G beginActivity := by
  unfold beginActivity
  infer_instance

instance {a : Activity} : Builds G (consumedSince a) := by
  unfold consumedSince
  infer_instance

instance {a : Activity} : Builds G (unmuteUnlessFailed a) := by
  unfold unmuteUnlessFailed
  infer_instance

/-! ## Brackets -/

instance {accept : Accept → Accept} {angles : Bool → Bool} [hp : Builds G p] :
    Builds G (within accept angles p) := by
  refine ⟨fun {s a s'} hs heq => ?_⟩
  let inner := s.bracketed (accept s.accept) (angles s.reader.closeAnglesOnly)
  obtain ⟨⟨a, s₁⟩, hfirst, hrest⟩ := Halt.bind_eq_ok (show (p inner >>= fun x =>
    .ok (x.1, x.2.bracketed s.accept s.reader.closeAnglesOnly)) = .ok (a, s') from heq)
  cases hrest
  obtain ⟨us, hadvance, hscopes, hgained⟩ := hp.built (hs.bracketed _ _) hfirst
  refine ⟨us, hadvance.of_bracketed hs.orderly.sound, hscopes, fun i hi hcounts => ?_⟩
  exact (hgained i hi hcounts).imp_right fun h => h.of_queue_eq rfl

instance {opener : TokenKind} [Builds G p] : Builds G (inside opener p) := by
  unfold inside
  infer_instance

instance [Builds G p] : Builds G (withCloseAngles p) := by
  unfold withCloseAngles
  infer_instance

instance [Builds G p] : Builds G (leavingOpenCurly p) := by
  unfold leavingOpenCurly
  infer_instance

/-! ## Trials -/

/-- What is built in a trial that ends where the parse is has been built. -/
theorem built_endTrial {l : List Item} {trial : Trial} {s₂ : Session} (hbegun : s.Begun trial s₁)
    (horderly : s.Orderly) (h : Built G l s₁ s₂) (hend : endTrial trial s₂ = .ok ((), s')) :
    Built G l s s' := by
  obtain ⟨us, hadvance, hscopes, hgained⟩ := h
  obtain ⟨_, hend', hadvance'⟩ := hbegun.endTrial horderly hadvance
  rw [hend] at hend'
  cases hend'
  have hahead : s'.queue.ahead = s₂.queue.ahead := by
    unfold endTrial at hend
    split at hend <;> cases hend <;> rfl
  refine ⟨us, hadvance', ?_, fun i hi hcounts => ?_⟩
  · rw [Session.endTrial_eq hend, hscopes, hbegun.session]
  · exact (hgained i hi hcounts).imp_right fun h => h.of_queue_eq hahead

/-- A trial that is given up leaves nothing. -/
theorem advance_abandon {l : List Item} {trial : Trial} {s₂ : Session} (hbegun : s.Begun trial s₁)
    (horderly : s.Orderly) (h : Built G l s₁ s₂) (habandon : abandon trial s₂ = .ok ((), s')) :
    s.Advance [] s' ∧ s'.scopes = s.scopes := by
  obtain ⟨us, hadvance, hscopes, -⟩ := h
  obtain ⟨_, habandon', hadvance'⟩ := hbegun.abandon horderly hadvance
  rw [habandon] at habandon'
  cases habandon'
  refine ⟨hadvance', ?_⟩
  have hend : endTrial trial { s₂ with
    queue := s₂.queue.seek trial.pos, rawErrors := trial.rawErrors, muted := trial.muted } =
      .ok ((), s') := habandon
  rw [Session.endTrial_eq hend, hscopes, hbegun.session]

/-- What an attempt builds is there only if it holds. -/
theorem speculation_built {γ : Type} {x : Speculation α γ} {b : γ}
    (hattempt : Builds G x.attempt) (hs : s.Tidy) (heq : x.run s = .ok (b, s')) :
    (∃ a s₁, Built G (items a) s s₁ ∧ x.goOn a s₁ = .ok (b, s')) ∨
      ∃ s₁, s.Advance [] s₁ ∧ s₁.scopes = s.scopes ∧ x.otherwise s₁ = .ok (b, s') := by
  rw [Grammar.run_eq] at heq
  let trial : Trial := ⟨s.queue.saving, s.queue.pos, s.rawErrors, s.muted⟩
  let s₁ : Session := { s with queue := { s.queue with saving := true } }
  have hbegun : s.Begun trial s₁ := ⟨rfl, rfl, rfl, rfl, rfl⟩
  obtain ⟨⟨a?, s₂⟩, htry, heq⟩ := Halt.bind_eq_ok (show (x.attempt s₁ >>= _) = _ from heq)
  have hbuilt := hattempt.built (hbegun.tidy hs) htry
  cases a? with
  | some a =>
    obtain ⟨⟨_, s₃⟩, hend, hrest⟩ := Halt.bind_eq_ok (show (endTrial trial s₂ >>= _) = _ from heq)
    refine .inl ⟨a, s₃, ?_, hrest⟩
    have hitems : items (some a) = items a := by simp [items]
    exact hitems ▸ built_endTrial hbegun hs.orderly hbuilt hend
  | none =>
    obtain ⟨⟨_, s₃⟩, habandon, hrest⟩ :=
      Halt.bind_eq_ok (show (abandon trial s₂ >>= _) = _ from heq)
    obtain ⟨hadvance, hscopes⟩ := advance_abandon hbegun hs.orderly hbuilt habandon
    exact .inr ⟨s₃, hadvance, hscopes, hrest⟩

/-- What comes next builds from what there was and what has been built. -/
theorem Builds.andThen {l : List Item} {q : Parse β} {b : β} (hq : Builds (G ++ l) q) (hs : s.Tidy)
    (h : Built G l s s₁) (heq : q s₁ = .ok (b, s')) : Built G (items b) s s' := by
  obtain ⟨us, hadvance, -⟩ := id h
  exact h.trans hs.orderly.sound (hq.built (hs.advance hadvance) heq)

instance {x : Speculation α β} [hattempt : Builds G x.attempt]
    [hgoOn : ∀ a, Builds (G ++ items a) (x.goOn a)] [hotherwise : Builds G x.otherwise] :
    Builds G x.run := by
  refine ⟨fun hs heq => ?_⟩
  rcases speculation_built hattempt hs heq with
    ⟨a, s₁, hbuilt, hrest⟩ | ⟨s₁, hadvance, hscopes, hrest⟩
  · exact (hgoOn a).andThen hs hbuilt hrest
  · rw [← List.append_nil G] at hotherwise
    exact hotherwise.andThen hs ⟨[], hadvance, hscopes, List.forall_mem_nil _⟩ hrest

instance {p : Parse α} [Builds G p] : Builds G (unlessFailed p) := by
  unfold unlessFailed
  infer_instance

/-! ## Scopes -/

/-- A scope that is opened is closed again. -/
theorem Builds.scoped {scope : Scope} {n : α → Nat} (hp : Builds G p)
    (hf : ∀ a, Builds (G ++ items a) (f a)) :
    Builds G (do
      enterScope scope
      let a ← p
      leaveScope scope (n a)
      f a) := by
  refine ⟨fun {s b s'} hs heq => ?_⟩
  let s₁ : Session := { s with scopes := ⟨scope, []⟩ :: s.scopes, log := .entered (scope :: s.path) :: s.log }
  obtain ⟨⟨a, s₂⟩, hfirst, hrest⟩ := Halt.bind_eq_ok (show (p s₁ >>= _) = _ from heq)
  have hthere : s.Advance [] s₁ := Same.advance ⟨.refl _, rfl, rfl, rfl⟩
  obtain ⟨us, hadvance, hscopes, hgained⟩ := hp.built (hs.advance hthere) hfirst
  let s₃ : Session := { s₂ with
    scopes := s₂.scopes.drop 1, log := .left (scope :: s₂.path.drop 1) (n a) :: s₂.log }
  have hback : s₂.Advance [] s₃ := Same.advance ⟨.refl _, rfl, rfl, rfl⟩
  have hall := (hthere.trans hadvance hs.orderly.sound).trans hback hs.orderly.sound
  rw [List.nil_append, List.append_nil] at hall
  have hbuilt : Built G (items a) s s₃ := by
    refine ⟨us, hall, ?_, fun i hi hcounts => ?_⟩
    · rw [show s₃.scopes = s₂.scopes.drop 1 from rfl, hscopes]
      rfl
    · exact (hgained i hi hcounts).imp_right fun h => h.of_queue_eq rfl
  exact (hf a).andThen hs hbuilt hrest

end Parse

end CppDecl
