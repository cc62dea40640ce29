import CppDecl.Proofs.Around
import CppDecl.Proofs.Building
import CppDecl.Proofs.Declarators

/-!
# Names further on

A session *faces* tokens of a kind if all that is still to be read is of that kind.  The declared
name is among what a declarator faces (`declarator_declares`).  A name that goes on behind its first
word with template arguments or with `::` is not a plain one, and if what follows declares a plain
name, then that is another one further on (`qualifiedId_joined`).
-/

namespace CppDecl

variable {P : Token → Prop} {s s' s₁ s₂ : Session} {t u : Token} {us : List Token}

/-! ## Sessions -/

namespace Session

/-- Tokens that are still to come are all of one kind. -/
structure Facing (P : Token → Prop) (s : Session) : Prop extends Tidy s where
  /-- They wait or are drawn. -/
  coming : ∀ {k : Nat} {pulled : List Token} {r : Reader}, s.reader.Draws k pulled r →
    ∀ t ∈ s.queue.ahead ++ pulled, P t

/-- What is consumed is of the kind, and what then comes is. -/
theorem Facing.advance (h : s.Facing P) (hadvance : s.Advance us s') :
    s'.Facing P ∧ ∀ t ∈ us ++ s'.queue.ahead, P t := by
  obtain ⟨k, pulled, hdraws, -, hqueue⟩ := hadvance.drawn
  refine ⟨⟨h.toTidy.advance hadvance, fun hdraws' t ht => ?_⟩, fun t ht => ?_⟩
  · refine h.coming (hdraws.trans hdraws' h.orderly.sound) t ?_
    rw [← List.append_assoc, hqueue, List.append_assoc]
    exact List.mem_append_right us ht
  · exact h.coming hdraws t (hqueue ▸ ht)

theorem Facing.bracketed (h : s.Facing P) (accept : Accept) (a : Bool) :
    (s.bracketed accept a).Facing P :=
  ⟨h.toTidy.bracketed accept a, fun hdraws =>
    h.coming (hdraws.of_withAngles (b := a) h.orderly.sound)⟩

/-- Behind a token there are only tokens that it precedes. -/
theorem Tidy.facing (h : s.Tidy) (hread : Parse.read s = .ok (t, s')) : s'.Facing t.Precedes := by
  obtain ⟨hadvance, -⟩ := h.orderly.read hread
  refine ⟨h.advance hadvance, fun hdraws' u hu => ?_⟩
  obtain ⟨k, pulled, hdraws, -, hqueue⟩ := hadvance.drawn
  have hline := (h.inLine (hdraws.trans hdraws' h.orderly.sound)).1
  rw [← List.append_assoc, hqueue, List.append_assoc] at hline
  exact (List.pairwise_cons.1 hline).1 u hu

/-- A token that was pushed back is read again. -/
theorem Orderly.read_pushBack (h : s.Orderly) (hsaving : s.queue.saving = false) (t : Token) :
    Parse.read { s with queue := s.queue.pushBack t } = .ok (t, s) := by
  have hbehind := h.settled hsaving
  obtain ⟨_, ⟨_, _, _⟩, _, _, _, _, _, _, _, _, _⟩ := s
  cases hbehind
  cases hsaving
  rfl

theorem Orderly.read_passNumber (h : s.Orderly) (hread : Parse.read s = .ok (t, s')) :
    s'.passNumber = s.passNumber := by
  unfold Parse.read at hread
  split at hread
  · cases hread
    rfl
  · obtain ⟨⟨u, s₁⟩, hpull, hread⟩ := Halt.bind_eq_ok hread
    cases hread
    rcases pull_spec (.refl _) h.sound rfl with ⟨herror, -⟩ | ⟨_, _, _, _, hpull', -, -, -, htook⟩
    · rw [herror] at hpull
      cases hpull
    · rw [hpull'] at hpull
      cases hpull
      show s₁.passNumber = _
      rw [htook]

/-- What was built has been faced. -/
theorem Facing.built {l : List Item} (h : s.Facing P) (hbuilt : Built [] l s s') :
    s'.Facing P ∧ ∀ t, .token t ∈ l → t.isPresent = true → P t := by
  obtain ⟨us, hadvance, -, hgained⟩ := hbuilt
  obtain ⟨hfacing, hall⟩ := h.advance hadvance
  refine ⟨hfacing, fun t ht hpresent => ?_⟩
  rcases (hgained _ ht hpresent).resolve_left List.not_mem_nil with hmem | ⟨hpending, -⟩
  · exact hall t (List.mem_append_left _ hmem)
  · exact hall t (List.mem_append_right _ (List.mem_of_mem_head? hpending))

end Session

/-! ## Actions -/

namespace Parse

open Session (Facing Tidy Built Advance)

variable {α β : Type} {p : Parse α} {f : α → Parse β} {Q : β → Session → Prop} {a : α}

/-- The first action is known to have a result. -/
theorem Leads.known (hp : p s = .ok (a, s')) (hf : Leads (f a) s' Q) : Leads (p >>= f) s Q := by
  refine .bind fun b s₁ heq => ?_
  rw [hp] at heq
  cases heq
  exact hf

theorem Leads.facingRead {f : Token → Parse β} (h : s.Facing P)
    (hf : ∀ t s', s'.Facing P → Leads (f t) s' Q) : Leads (Parse.read >>= f) s Q :=
  .bind fun t s' hread => hf t s' (h.advance (h.orderly.read hread).1).1

/-- Something is built, and the tokens are still faced. -/
theorem Leads.staysFacing [Itemed α] {G : List Item} (hp : Builds G p) (h : s.Facing P) :
    Leads p s fun _ s' => s'.Facing P := by
  intro a s' heq
  obtain ⟨us, hadvance, -⟩ := hp.built h.toTidy heq
  exact (h.advance hadvance).1

theorem Leads.facing [Itemed α] (hp : Builds [] p) (h : s.Facing P)
    (hf : ∀ a s', s'.Facing P → Leads (f a) s' Q) : Leads (p >>= f) s Q :=
  .bind ((Leads.staysFacing hp h).mono hf)

/-- Something may come first. -/
theorem Leads.facingIf {p : Parse Unit} {f : Unit → Parse β} {c : Prop} [Decidable c]
    (hp : Builds [] p) (h : s.Facing P) (hf : ∀ s', s'.Facing P → Leads (f ()) s' Q) :
    Leads (if c then p >>= f else f ()) s Q :=
  .ite (fun _ => .facing hp h fun _ => hf) fun _ => hf s h

theorem Leads.facingInside {opener : TokenKind} (h : s.Facing P)
    (hp : ∀ s₁, s₁.Facing P → Leads p s₁ fun _ s' => s'.Facing P)
    (hf : ∀ a s', s'.Facing P → Leads (f a) s' Q) : Leads (inside opener p >>= f) s Q := by
  refine .bind fun a s' heq => ?_
  obtain ⟨⟨b, s₂⟩, hrun, hdone⟩ := Halt.bind_eq_ok (show (p (s.bracketed (s.accept.inside opener)
    (closeAnglesInside opener s.reader.closeAnglesOnly)) >>= fun x =>
      .ok (x.1, x.2.bracketed s.accept s.reader.closeAnglesOnly)) = .ok (a, s') from heq)
  cases hdone
  exact hf b _ ((hp _ (h.bracketed _ _) b s₂ hrun).bracketed _ _)

end Parse

namespace Grammar

open Parse
open Session (Facing)

variable {k : Nat} {form : DeclaratorForm}

/-! ## The declared name -/

/-- If the name is a plain one, then its token is of the kind. -/
def PlainName (P : Token → Prop) (qid : QualifiedId) : Prop :=
  ∀ t, t.isPresent = true → qid = .ofIdentifier t → P t

/-- If the name of a declarator is among what comes next, unless it is not a plain one, then so is
the declared name, unless it is not a plain one. -/
theorem declarator_named {outer : Chain} {allowQualifier : Bool}
    (hcall : ∀ (outer : Chain) (allowQualifier : Bool) (s : Session), s.Facing P →
      Leads (run k (.declarator outer ⟨true, false⟩ allowQualifier)) s fun d _ =>
        PlainName P d.qid)
    (hqid : Leads (qualifiedId (fun r => run k r) .allowIncomplete) s fun qid s' =>
      s'.Facing P ∧ PlainName P qid) :
    Leads (declarator (fun r => run k r) outer ⟨true, false⟩ allowQualifier) s fun d _ =>
      PlainName P d.qid := by
  have hbuilds := run_builds k
  have hnone : ∀ (chain : Chain) (nameMissing : Bool) (s : Session),
      Leads (run k (.suffixes ⟨chain, .empty⟩ 0 nameMissing)) s fun d _ =>
        PlainName P d.qid := by
    intro chain nameMissing s d s' heq t _ ht
    rw [suffixes_qid heq] at ht
    cases ht
  unfold declarator
  refine .bind (hqid.mono ?_)
  rintro qid s₁ ⟨h₁, hplain⟩
  refine .ite (fun _ => ?_) fun _ => ?_
  · intro d s' heq
    rwa [suffixes_qid heq]
  refine .facingRead h₁ fun token s₂ h₂ => ?_
  refine .ite (fun _ => ?_) fun _ => ?_
  · refine .facingIf inferInstance h₂ fun s₃ h₃ => .facing inferInstance h₃ fun _ s₄ h₄ => ?_
    -- a name is needed, so these are not the parameters of a function
    refine .bind ((hcall outer false s₄ h₄).mono fun inner s₅ hinner => ?_)
    refine .bind fun closer s₆ _ => .ite (fun _ d s' heq => ?_) fun _ => .pure hinner
    rwa [suffixes_qid heq]
  refine .facingIf inferInstance h₂ fun s₃ h₃ => ?_
  refine .ite (fun _ => .facing inferInstance h₃ fun _ s₄ h₄ => hcall _ _ s₄ h₄) fun _ => ?_
  refine .ite (fun _ => .facing inferInstance h₃ fun _ s₄ h₄ => hcall _ _ s₄ h₄) fun _ => ?_
  refine .ite (fun _ => ?_) fun _ => ?_
  · refine .facingIf inferInstance h₃ fun s₄ h₄ => .facing inferInstance h₄ fun _ s₅ h₅ => ?_
    exact hcall _ _ s₅ h₅
  · refine .facingIf inferInstance h₃ fun s₄ _ => .bind fun _ s₅ _ => ?_
    exact hnone outer _ s₅

/-- The declared name is one of those that are still to come. -/
theorem declarator_declares (k : Nat) (outer : Chain) (allowQualifier : Bool) (h : s.Facing P) :
    Leads (run k (.declarator outer ⟨true, false⟩ allowQualifier)) s fun d _ =>
      PlainName P d.qid := by
  induction k generalizing outer allowQualifier s with
  | zero => exact fun _ _ heq => nomatch heq
  | succ k ih =>
    have hbuilds := run_builds k
    refine declarator_named (fun outer allowQualifier s h => ih outer allowQualifier h) ?_
    intro qid s' heq
    obtain ⟨hfacing, hitems⟩ := h.built (Builds.built (G := []) h.toTidy heq)
    refine ⟨hfacing, ?_⟩
    rintro t hpresent rfl
    exact hitems t (List.mem_singleton_self _) hpresent

/-! ## Names of several words -/

/-- A component with a separator or with template arguments. -/
def HasMore (c : NestedName) : Prop :=
  c.sep.isPresent = true ∨ ∃ name openAngle closeAngle args,
    c.toUnqualified = .templateId name openAngle closeAngle args

/-- A name with nested names or template arguments. -/
def Joined (qid : QualifiedId) : Prop :=
  qid.nested ≠ [] ∨ ∃ name openAngle closeAngle args,
    qid.unqual = .templateId name openAngle closeAngle args

theorem Joined.plainName {qid : QualifiedId} (h : Joined qid) : PlainName P qid := by
  rintro t - rfl
  obtain hnested | ⟨_, _, _, _, hunqual⟩ := h
  · exact absurd rfl hnested
  · cases hunqual

theorem splitLast_joined {c : NestedName} (hc : HasMore c) (rest : List NestedName) :
    Joined (splitLast (c :: rest)) := by
  unfold splitLast
  rw [List.getLast?_eq_some_getLast (List.cons_ne_nil c rest)]
  dsimp only
  split
  · exact .inl (List.cons_ne_nil c rest)
  next hsep =>
    cases rest with
    | nil => exact .inr (hc.resolve_left hsep)
    | cons d rest => exact .inl (List.cons_ne_nil _ _)

/-- The components that have been read stay the first ones. -/
theorem nestedSeparator_first {call : Call} {soFar : List NestedName} {component : NestedName}
    (hcall : ∀ (soFar : List NestedName) (s : Session),
      Leads (call (.nestedNames soFar)) s fun components _ => soFar <+: components) :
    Leads (nestedSeparator call soFar component) s fun components _ => ∃ sep rest,
      components = soFar ++ component.withSep sep :: rest := by
  refine .bind fun sep s₁ _ => .ite (fun _ => ?_) fun _ => ?_
  · refine (hcall _ s₁).mono fun components _ hfirst => ?_
    obtain ⟨rest, rfl⟩ := hfirst
    exact ⟨sep, rest, by simp⟩
  · refine .bind fun _ _ _ => .pure ⟨component.sep, [], ?_⟩
    cases component <;> rfl

theorem nestedNames_first (k : Nat) (soFar : List NestedName) :
    Leads (run k (.nestedNames soFar)) s fun components _ => soFar <+: components := by
  induction k generalizing soFar s with
  | zero => exact fun _ _ heq => nomatch heq
  | succ k ih =>
    have hseparator : ∀ (component : NestedName) (s : Session),
        Leads (nestedSeparator (fun r => run k r) soFar component) s fun components _ =>
          soFar <+: components := by
      intro component s
      refine (nestedSeparator_first fun soFar s => ih soFar).mono fun components _ hfirst => ?_
      obtain ⟨sep, rest, rfl⟩ := hfirst
      exact List.prefix_append _ _
    refine .bind fun token s₁ _ => .ite (fun _ => ?_) fun _ => ?_
    · exact .bind fun _ _ _ => .pure (List.prefix_refl soFar)
    refine .bind fun punc s₂ _ => .ite (fun _ => ?_) fun _ => ?_
    · refine .ite (fun _ => .bind fun closer s₃ _ => hseparator _ s₃) fun _ => ?_
      exact .bind fun _ _ _ => .bind fun _ s₄ _ => hseparator _ s₄
    refine .bind fun session s₃ _ => .ite (fun _ => ?_) fun _ => .bind fun _ s₄ _ => hseparator _ s₄
    refine .bind fun ⟨args, closer⟩ s₄ _ => .ite (fun _ => hseparator _ s₄) fun _ => ?_
    exact .pure (List.prefix_append _ _)

/-- The first component has more than its name. -/
def FirstHasMore (components : List NestedName) : Prop :=
  ∃ c rest, components = c :: rest ∧ HasMore c

/-- Behind a name with template arguments. -/
theorem nestedSeparator_arguments {k : Nat} {x openAngle closeAngle : Token}
    {args : List TemplateArgument} (hopen : openAngle.isPresent = true) (h : s.Facing P) :
    Leads (nestedSeparator (fun r => run k r) [] (.named x openAngle closeAngle args .absent)) s
      fun components s' => s'.Facing P ∧ FirstHasMore components := by
  have hbuilds := run_builds k
  let component := NestedName.named x openAngle closeAngle args .absent
  have hamong : Among component (items component) := ⟨fun _ hi _ => hi⟩
  have hfacing := Leads.staysFacing (G := items component)
    (inferInstance : Builds _ (nestedSeparator (fun r => run k r) [] component)) h
  intro components s' heq
  refine ⟨hfacing components s' heq, ?_⟩
  obtain ⟨sep, rest, rfl⟩ := nestedSeparator_first (fun soFar _ => nestedNames_first k soFar) _ s' heq
  exact ⟨_, rest, rfl, .inr ⟨x, openAngle, closeAngle, args, if_pos hopen⟩⟩

/-- The components of a name that goes on behind its first word. -/
theorem nestedNames_joined {k : Nat} {x : Token} (hx : beginsName x = true)
    (hdecltype : x.text ≠ "decltype") (hfirst : Parse.read s = .ok (x, s₁))
    (hnext : Parse.read s₁ = .ok (t, s₂)) (h : s₁.Facing P) (hsaving : s₁.queue.saving = false)
    (ht : t.kind = .doubleColon ∨ t.kind = .openAngle ∧ s₁.passNumber ≤ 1) :
    Leads (run (k + 1) (.nestedNames [])) s fun components s' =>
      s'.Facing P ∧ FirstHasMore components := by
  have hbuilds := run_builds k
  obtain ⟨hadvance, -⟩ := h.orderly.read hnext
  obtain ⟨h₂, -⟩ := h.advance hadvance
  have hpresent : t.isPresent = true := by
    rcases ht with hkind | ⟨hkind, -⟩ <;> simp [Token.isPresent, hkind]
  refine .known hfirst ?_
  rw [if_neg (by simpa [beginsName] using hx)]
  refine .known hnext ?_
  rw [if_neg hdecltype]
  refine .known rfl (.ite (fun _ => ?_) fun hangle => ?_)
  · refine .facingInside h₂ (fun s₃ h₃ result s' heq => ?_) fun result s₃ h₃ => ?_
    · have hlists :=
        hbuilds.builds (.templateArguments []) [] inferInstance s₃ result s' h₃.toTidy heq
      exact (h₃.built (hlists.built h₃.toTidy)).1
    obtain ⟨args, closer⟩ := result
    refine .ite (fun _ => nestedSeparator_arguments hpresent h₃) fun _ => .pure ⟨h₃, ?_⟩
    exact ⟨_, [], rfl, .inr ⟨x, t, closer, args, if_pos hpresent⟩⟩
  -- there are no template arguments, so it is the separator
  have hcolon : t.kind = .doubleColon := by
    refine ht.resolve_right fun hopens => hangle ?_
    rw [h.orderly.read_passNumber hnext]
    simpa using hopens
  refine .known rfl (.known (h₂.orderly.read_pushBack (hadvance.saving.trans hsaving) t) ?_)
  rw [if_pos hcolon]
  let component := NestedName.named x .absent .absent [] t
  have hamong : Among [component] (items [component]) := ⟨fun _ hi _ => hi⟩
  have hfacing := Leads.staysFacing
    (hbuilds.builds (.nestedNames [component]) (items [component]) hamong) h₂
  intro components s' heq
  refine ⟨hfacing components s' heq, ?_⟩
  obtain ⟨rest, rfl⟩ := nestedNames_first k [component] components s' heq
  exact ⟨component, rest, rfl, .inl hpresent⟩

/-- A name that goes on behind its first word is not a plain one. -/
theorem qualifiedId_joined {k : Nat} {x : Token} (hx : beginsName x = true)
    (hdecltype : x.text ≠ "decltype") (hfirst : Parse.read s = .ok (x, s₁))
    (hnext : Parse.read s₁ = .ok (t, s₂)) (h : s₁.Facing P) (hsaving : s₁.queue.saving = false)
    (ht : t.kind = .doubleColon ∨ t.kind = .openAngle ∧ s₁.passNumber ≤ 1) :
    Leads (qualifiedId (fun r => run (k + 1) r) .allowIncomplete) s fun qid s' =>
      s'.Facing P ∧ Joined qid := by
  refine .bind ((nestedNames_joined hx hdecltype hfirst hnext h hsaving ht).mono ?_)
  rintro _ s' ⟨h', c, rest, rfl, hmore⟩
  have hjoined := splitLast_joined hmore rest
  refine .ite (fun hempty => ?_) fun _ => .pure ⟨h', hjoined⟩
  refine .facing inferInstance h' fun unqual s'' h'' => .pure ⟨h'', ?_⟩
  -- without a last part there are nested names
  refine .inl (hjoined.resolve_right ?_)
  rintro ⟨_, _, _, _, hunqual⟩
  rw [hunqual] at hempty
  cases hempty

/-- A declarator that declares its first word as a plain name has no name that goes on. -/
theorem declarator_alone {k : Nat} {x : Token} {outer : Chain} {allowQualifier : Bool}
    {d : Declarator} (hx : beginsName x = true) (hdecltype : x.text ≠ "decltype") (hs : s.Tidy)
    (hsaving : s.queue.saving = false) (hfirst : Parse.read s = .ok (x, s₁))
    (hnext : Parse.read s₁ = .ok (t, s₂))
    (heq : run (k + 2) (.declarator outer ⟨true, false⟩ allowQualifier) s = .ok (d, s'))
    (hd : d.qid = .ofIdentifier x) :
    t.kind ≠ .doubleColon ∧ (s₁.passNumber ≤ 1 → t.kind ≠ .openAngle) := by
  by_contra hgoesOn
  have hkind : x.kind = .identifier := by
    simp only [beginsName, Bool.and_eq_true, beq_iff_eq] at hx
    exact hx.1
  have ht : t.kind = .doubleColon ∨ t.kind = .openAngle ∧ s₁.passNumber ≤ 1 := by tauto
  have hqid := qualifiedId_joined (k := k) hx hdecltype hfirst hnext (hs.facing hfirst)
    ((hs.orderly.read hfirst).1.saving.trans hsaving) ht
  have hprecedes : x.Precedes x := by
    refine declarator_named
      (fun outer allowQualifier s h => declarator_declares (k + 1) outer allowQualifier h)
      (hqid.mono fun qid s' h => ⟨h.1, h.2.plainName⟩) d s' heq x ?_ hd
    simp [Token.isPresent, hkind]
  exact lt_irrefl _ (hprecedes.before.lt (by simp [hkind]) (by simp [hkind]))

end Grammar

end CppDecl
