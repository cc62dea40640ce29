import CppDecl.Proofs.Builds

/-!
# Template arguments between their brackets

A template argument ends at a comma or at the closing bracket.  If neither comes, the arguments are
*cut off*: they are left to a rule further out.  `Session.Separated` says how one argument ends, and
`Session.ListsArguments` what is known of the arguments once they are all read.

The token that an argument is said to begin with was only looked at.  If nothing is there, that
token is the one that ends the argument, and at the end of the arguments it is the closing bracket
itself.  All other tokens of the arguments were consumed in front of it
(`Session.ListsArguments.enclosed`).
-/

namespace CppDecl

namespace Session

variable {G l : List Item} {s s₀ s₁ s' : Session} {t start sep closer openAngle : Token} {us vs : List Token}
variable {argument argument' : TemplateArgument} {args : List TemplateArgument}
variable {result : List TemplateArgument × Token} {accept : Accept} {a : Bool}

/-! ## One argument -/

/-- How a template argument ends that begins with the token `start`. -/
inductive Separated (start : Token) (argument : TemplateArgument) (s s' : Session) :
    TemplateArgument × Token → Prop
  /-- A comma or the closing bracket comes at once. -/
  | atOnce {sep : Token} (hsep : s.Advance [sep] s') (hscopes : s'.scopes = s.scopes)
      (hkind : sep.kind = .closeAngle ∨ sep.kind = .comma) : Separated start argument s s' (argument, sep)
  /-- A comma or the closing bracket comes behind other tokens. -/
  | later {us : List Token} {s₁ : Session} {argument' : TemplateArgument} {sep : Token}
      (hadvance : s.Advance us s₁) (hne : us ≠ []) (hscopes : s₁.scopes = s.scopes)
      (hgained : ∀ i ∈ items argument', i.counts = true →
        i ∈ items start ++ items argument ∨ Gained us s₁ i)
      (hsep : s₁.Advance [sep] s') (hscopes' : s'.scopes = s₁.scopes)
      (hkind : sep.kind = .closeAngle ∨ sep.kind = .comma) :
      Separated start argument s s' (argument', sep)
  /-- The argument is cut off. -/
  | cutOff {us : List Token} {argument' : TemplateArgument} (hadvance : s.Advance us s')
      (hscopes : s'.scopes = s.scopes) (hnext : ∀ t, s.Pending t → Gained us s' (.token t))
      (hgained : ∀ i ∈ items argument', i.counts = true →
        i ∈ items start ++ items argument ∨ Gained us s' i) :
      Separated start argument s s' (argument', .absent)

/-- An argument at the place where it may end.  It is made of the given items, and so is the token
that it begins with, unless that is the token that comes next. -/
structure Opened (G : List Item) (start : Token) (argument : TemplateArgument) (s : Session) : Prop where
  /-- The token it begins with. -/
  begins : Among start G ∨ s.Pending start
  /-- The argument, which may have nothing but the token it begins with. -/
  made : Among argument G ∨ argument = .unknown start .absent .absent

/-- Once something was consumed, the token that the argument begins with is gained. -/
theorem Opened.gained (h : Opened G start argument s)
    (hnext : ∀ t, s.Pending t → Gained us s₁ (.token t)) :
    ∀ i ∈ items start ++ items argument, i.counts = true → i ∈ G ∨ Gained us s₁ i := by
  have hstart : (Item.token start).counts = true → .token start ∈ G ∨ Gained us s₁ (.token start) := by
    intro hcounts
    rcases h.begins with hamong | hpending
    · exact .inl (hamong.made _ (List.mem_singleton_self _) hcounts)
    · exact .inr (hnext start hpending)
  intro i hi hcounts
  rcases List.mem_append.1 hi with hi | hi
  · obtain rfl := List.mem_singleton.1 hi
    exact hstart hcounts
  rcases h.made with hamong | rfl
  · exact .inl (hamong.made i hi hcounts)
  · obtain rfl | rfl | rfl : i = .token start ∨ i = .token .absent ∨ i = .token .absent := by
      simpa [items, TemplateArgument.items] using hi
    · exact hstart hcounts
    · cases hcounts
    · cases hcounts

theorem Pending.gained (hadvance : s.Advance us s₁) (hne : us ≠ []) (h : s.Pending t) :
    Gained us s₁ (.token t) := by
  obtain ⟨rest, rfl⟩ := h.first hadvance hne
  exact .inl List.mem_cons_self

theorem Opened.built (h : Opened G start argument s) (hadvance : s.Advance us s₁)
    (hscopes : s₁.scopes = s.scopes) (hnext : ∀ t, s.Pending t → Gained us s₁ (.token t))
    (hgained : ∀ i ∈ items argument', i.counts = true →
      i ∈ items start ++ items argument ∨ Gained us s₁ i) : Built G (items argument') s s₁ := by
  refine ⟨us, hadvance, hscopes, fun i hi hcounts => ?_⟩
  rcases hgained i hi hcounts with hmem | hnew
  · exact h.gained hnext i hmem hcounts
  · exact .inr hnew

/-- An argument has been built when it ends. -/
theorem Separated.built (h : Separated start argument s s' (argument', sep)) (hs : s.Tidy)
    (hopened : Opened G start argument s) : Built G (items (argument', sep)) s s' := by
  cases h with
  | @atOnce sep hsep hscopes =>
    refine ⟨[sep], hsep, hscopes, fun i hi hcounts => ?_⟩
    rcases List.mem_append.1 hi with hi | hi
    · exact hopened.gained (fun _ ht => ht.gained hsep (List.cons_ne_nil _ _)) i
        (List.mem_append_right _ hi) hcounts
    · obtain rfl := List.mem_singleton.1 hi
      exact .inr (.inl (List.mem_singleton_self _))
  | @later us s₁ argument' sep hadvance hne hscopes hgained hsep hscopes' =>
    have hargument := hopened.built hadvance hscopes (fun _ ht => ht.gained hadvance hne) hgained
    refine hargument.trans hs.orderly.sound ⟨[sep], hsep, hscopes', fun i hi _ => ?_⟩
    rcases List.mem_append.1 hi with hi | hi
    · exact .inl (List.mem_append_right G hi)
    · obtain rfl := List.mem_singleton.1 hi
      exact .inr (.inl (List.mem_singleton_self _))
  | @cutOff us argument' hadvance hscopes hnext hgained =>
    obtain ⟨vs, hadvance', hscopes', hall⟩ := hopened.built hadvance hscopes hnext hgained
    refine ⟨vs, hadvance', hscopes', fun i hi hcounts => ?_⟩
    rcases List.mem_append.1 hi with hi | hi
    · exact hall i hi hcounts
    · obtain rfl := List.mem_singleton.1 hi
      cases hcounts

/-- What an argument is made of once a token was stepped over. -/
theorem gained_unknown {last : Token} (hlast : last.isPresent = true → Gained us s₁ (.token last)) :
    ∀ i ∈ items start ++ items (TemplateArgument.unknown start last .absent), i.counts = true →
      i ∈ items start ++ items argument ∨ Gained us s₁ i := by
  intro i hi hcounts
  obtain rfl | rfl | rfl : i = .token start ∨ i = .token last ∨ i = .token .absent := by
    simpa [items, TemplateArgument.items] using hi
  · exact .inl (List.mem_append_left _ (List.mem_singleton_self _))
  · exact .inr (hlast hcounts)
  · cases hcounts

/-- The end of an argument of which some tokens were stepped over. -/
theorem Separated.steppedOver {last : Token} {result : TemplateArgument × Token}
    (h : Separated start (.unknown start last .absent) s₁ s' result) (hs : s.Tidy)
    (hadvance : s.Advance us s₁) (hscopes : s₁.scopes = s.scopes) (hne : us ≠ [])
    (hlast : last.isPresent = true → Gained us s₁ (.token last)) :
    Separated start argument s s' result := by
  have hmade {vs : List Token} {s₂ : Session} {b : TemplateArgument} (hmore : s₁.Advance vs s₂)
      (hgained : ∀ i ∈ items b, i.counts = true →
        i ∈ items start ++ items (TemplateArgument.unknown start last .absent) ∨ Gained vs s₂ i) :
      ∀ i ∈ items b, i.counts = true →
        i ∈ items start ++ items argument ∨ Gained (us ++ vs) s₂ i := by
    intro i hi hcounts
    rcases hgained i hi hcounts with hmem | hnew
    · exact (gained_unknown hlast i hmem hcounts).imp_right fun h => h.trans hmore
    · exact .inr (hnew.append_left us)
  cases h with
  | atOnce hsep hscopes' hkind =>
    refine .later hadvance hne hscopes (fun i hi => ?_) hsep hscopes' hkind
    exact gained_unknown hlast i (List.mem_append_right _ hi)
  | later hmore _ hscopes₂ hgained hsep hscopes' hkind =>
    exact .later (hadvance.trans hmore hs.orderly.sound) (List.append_ne_nil_of_left_ne_nil hne _)
      (hscopes₂.trans hscopes) (hmade hmore hgained) hsep hscopes' hkind
  | cutOff hmore hscopes' _ hgained =>
    exact .cutOff (hadvance.trans hmore hs.orderly.sound) (hscopes'.trans hscopes)
      (fun t ht => (ht.gained hadvance hne).trans hmore) (hmade hmore hgained)

/-! ## All arguments -/

/-- Template arguments have been built, and then the bracket that closes them was read, or they are
cut off. -/
inductive ListsArguments (G : List Item) (s s' : Session) : List TemplateArgument × Token → Prop
  /-- The closing bracket comes behind the arguments.  Of the last one there may be nothing. -/
  | closed {inner args : List TemplateArgument} {closer : Token} {s₁ : Session}
      (hbuilt : Built G (items inner) s s₁)
      (hargs : args = inner ∨ args = inner ++ [.unknown closer .absent .absent])
      (hcloser : s₁.Advance [closer] s') (hscopes : s'.scopes = s₁.scopes)
      (hkind : closer.kind = .closeAngle) : ListsArguments G s s' (args, closer)
  /-- The arguments are cut off. -/
  | cutOff {args : List TemplateArgument} (hbuilt : Built G (items args) s s') :
      ListsArguments G s s' (args, .absent)

/-- Something was built before the arguments. -/
theorem ListsArguments.after (hsound : s.reader.Sound) (h : Built G l s s₁)
    (h' : ListsArguments (G ++ l) s₁ s' result) : ListsArguments G s s' result := by
  cases h' with
  | closed hbuilt hargs hcloser hscopes hkind =>
    exact .closed (h.trans hsound hbuilt) hargs hcloser hscopes hkind
  | cutOff hbuilt => exact .cutOff (h.trans hsound hbuilt)

theorem ListsArguments.built (h : ListsArguments G s s' (args, closer)) (hs : s.Tidy) :
    Built G (items (args, closer)) s s' := by
  cases h with
  | @closed inner _ _ s₁ hbuilt hargs hcloser hscopes hkind =>
    have hmade : ∀ i ∈ items args, i.counts = true → i ∈ items inner ∨ i = .token closer := by
      rcases hargs with rfl | rfl
      · exact fun i hi _ => .inl hi
      · intro i hi hcounts
        obtain hi | rfl | rfl | rfl : i ∈ items inner ∨ i = .token closer ∨ i = .token .absent ∨
            i = .token .absent := by
          simpa [items, TemplateArgument.items, or_assoc] using hi
        · exact .inl hi
        · exact .inr rfl
        · cases hcounts
        · cases hcounts
    have hlast : Gained [closer] s' (.token closer) := .inl (List.mem_singleton_self _)
    refine hbuilt.trans hs.orderly.sound ⟨[closer], hcloser, hscopes, fun i hi hcounts => ?_⟩
    rcases List.mem_append.1 hi with hi | hi
    · rcases hmade i hi hcounts with hmem | rfl
      · exact .inl (List.mem_append_right G hmem)
      · exact .inr hlast
    · obtain rfl := List.mem_singleton.1 hi
      exact .inr hlast
  | cutOff hbuilt =>
    obtain ⟨us, hadvance, hscopes, hgained⟩ := hbuilt
    refine ⟨us, hadvance, hscopes, fun i hi hcounts => ?_⟩
    rcases List.mem_append.1 hi with hi | hi
    · exact hgained i hi hcounts
    · obtain rfl := List.mem_singleton.1 hi
      cases hcounts

/-- The last argument has ended. -/
theorem Separated.listed {soFar : List TemplateArgument} [hsoFar : Among soFar G]
    (h : Separated start argument s s' (argument', sep)) (hs : s.Tidy)
    (hopened : Opened G start argument s) (hlast : sep.kind ≠ .comma) :
    ListsArguments G s s' (soFar ++ [argument'], sep) := by
  have hall {a : TemplateArgument} {s₁ : Session} (ha : Built G (items a) s s₁) :
      Built G (items (soFar ++ [a])) s s₁ := by
    have hmore : Among (soFar ++ [a]) (G ++ items a) := inferInstance
    have hstill := ha.trans hs.orderly.sound (.refl s₁ hmore.made)
    exact hstill
  cases h with
  | atOnce hsep hscopes hkind =>
    have hclose := hkind.resolve_right hlast
    rcases hopened.made with hamong | rfl
    · exact .closed (hall (.refl s hamong.made)) (.inl rfl) hsep hscopes hclose
    rcases hopened.begins with hamong | hpending
    · have hunknown : Among (TemplateArgument.unknown start .absent .absent) G := inferInstance
      exact .closed (hall (.refl s hunknown.made)) (.inl rfl) hsep hscopes hclose
    · obtain ⟨rest, hrest⟩ := hpending.first hsep (List.cons_ne_nil _ _)
      obtain rfl := (List.cons.inj hrest).1
      exact .closed (.refl s hsoFar.made) (.inr rfl) hsep hscopes hclose
  | later hadvance hne hscopes hgained hsep hscopes' hkind =>
    have hargument := hopened.built hadvance hscopes (fun _ ht => ht.gained hadvance hne) hgained
    exact .closed (hall hargument) (.inl rfl) hsep hscopes' (hkind.resolve_right hlast)
  | cutOff hadvance hscopes hnext hgained =>
    exact .cutOff (hall (hopened.built hadvance hscopes hnext hgained))

/-- Closed arguments have been consumed behind the opening bracket and in front of the closing one. -/
theorem ListsArguments.enclosed (hs : s₀.Tidy) (hopen : s₀.Advance [openAngle] s)
    (h : ListsArguments [] (s.bracketed accept a) s' (args, closer)) (hpresent : closer.isPresent = true) :
    Enclosed openAngle closer args := by
  have hs₁ := (hs.advance hopen).bracketed accept a
  cases h with
  | @closed inner _ _ s₁ hbuilt hargs hcloser hscopes hkind =>
    obtain ⟨us, hadvance, -, hgained⟩ := hbuilt
    have hmore : closer.kind ≠ .endOfFile := by
      rw [hkind]
      exact TokenKind.noConfusion
    have hall := hopen.trans ((hadvance.trans hcloser hs₁.orderly.sound).of_bracketed (b := a)
      (hs.advance hopen).orderly.sound) hs.orderly.sound
    refine ⟨inner, hargs, fun t ht hpresent' => ?_⟩
    have hmem : t ∈ us := by
      rcases (hgained _ ht hpresent').resolve_left List.not_mem_nil with hmem | ⟨hpending, hcuts⟩
      · exact hmem
      · -- what comes next is the closing bracket, and that cuts nothing off
        obtain ⟨_, hrest⟩ := hpending.first hcloser (List.cons_ne_nil _ _)
        rw [← (List.cons.inj hrest).1, hkind] at hcuts
        exact absurd hcuts (by decide)
    have hclose : closer ∈ us ++ [closer] := List.mem_append_right us (List.mem_singleton_self _)
    have hfirst : s₀.Advance ([] ++ openAngle :: (us ++ [closer])) _ := hall
    have hopened := hs.loc_lt hfirst (List.mem_append_left _ hmem) hclose hmore
    obtain ⟨before, after, rfl⟩ := List.append_of_mem hmem
    rw [← List.append_assoc, ← List.append_assoc, List.append_assoc, List.cons_append] at hall
    exact ⟨hopened, hs.loc_lt hall (by simp) (by simp) hmore⟩
  | cutOff hbuilt => cases hpresent

end Session

end CppDecl
