import CppDecl.Proofs.Upcoming
import CppDecl.Parsing

/-!
# Where skipping stops

Skipping from behind an opening brace ends at the closing brace that counting leads to, whatever
other brackets are in between.  Other brackets inside of braces are skipped as far as they go.  If
one of them is left open, skipping it stops at a closing bracket further out, at the latest at the
brace, and everything before that is balanced in braces (`Grammar.skipTo_braced`).

From behind a parenthesis or a square bracket, skipping ends at its closer if what is in between is
well nested.  If opening braces are left to a rule further out, there has to be none in between:
skipping would stop at it.
-/

namespace CppDecl

/-! ## Balanced tokens -/

/-- Tokens before the end of the file in which every brace has its partner.  Other brackets may be
anywhere. -/
inductive Braced : List Token → Prop
  | nil : Braced []
  | plain {t : Token} {ts : List Token} (plain : t.isBrace = false) (more : t.kind ≠ .endOfFile)
      (rest : Braced ts) : Braced (t :: ts)
  | block {o c : Token} {ts us : List Token} (opener : o.kind = .openCurly)
      (closer : c.kind = .closeCurly) (inner : Braced ts) (rest : Braced us) :
      Braced (o :: (ts ++ c :: us))

/-- Whether a token is a parenthesis, a square bracket or a brace. -/
def Token.isBracket (t : Token) : Bool :=
  t.isBrace || t.kind == .openParen || t.kind == .closeParen || t.kind == .openSquare ||
    t.kind == .closeSquare

/-- Tokens before the end of the file in which parentheses, square brackets and braces are well
nested. -/
inductive Bracketed : List Token → Prop
  | nil : Bracketed []
  | plain {t : Token} {ts : List Token} (plain : t.isBracket = false) (more : t.kind ≠ .endOfFile)
      (rest : Bracketed ts) : Bracketed (t :: ts)
  | group {o c : Token} {ts us : List Token} (opener : o.isBracket = true)
      (closer : o.kind.closer? = some c.kind) (inner : Bracketed ts) (rest : Bracketed us) :
      Bracketed (o :: (ts ++ c :: us))

theorem Braced.append {ts us : List Token} (h : Braced ts) (h' : Braced us) : Braced (ts ++ us) := by
  induction h with
  | nil => exact h'
  | plain ht hmore _ ih => exact .plain ht hmore ih
  | block ho hc hinner _ _ ih =>
    rw [List.cons_append, List.append_assoc, List.cons_append]
    exact .block ho hc hinner ih

theorem Braced.single {t : Token} (ht : t.isBrace = false) (hmore : t.kind ≠ .endOfFile) :
    Braced [t] := .plain ht hmore .nil

theorem Braced.head_ne {t : Token} {ts : List Token} (h : Braced (t :: ts)) :
    t.kind ≠ .closeCurly ∧ t.kind ≠ .endOfFile := by
  cases h with
  | plain ht hmore _ =>
    simp only [Token.isBrace, Bool.or_eq_false_iff, beq_eq_false_iff_ne] at ht
    exact ⟨ht.2, hmore⟩
  | block ho _ _ _ => simp [ho]

/-- Only the braces are special. -/
theorem Braced.tail {t : Token} {ts : List Token} (h : Braced (t :: ts)) (ht : t.kind ≠ .openCurly) :
    t.isBrace = false ∧ Braced ts := by
  cases h with
  | plain hplain _ hrest => exact ⟨hplain, hrest⟩
  | block ho _ _ _ => exact absurd ho ht

namespace Grammar

open Parse
open Session (Onward Upcoming)

variable {E : Prop} {s₀ s s' : Session} {opener closer t : Token} {depth : Nat}
variable {us ts inner rest : List Token}

/-! ## Brackets inside of brackets -/

/-- Skipping a bracket, by skipping to its closer inside of it. -/
theorem skipScope_runs {call : Call} {kind : TokenKind} {R : Option Token → List Token → List Token → Prop}
    (hcloser : opener.kind.closer? = some kind) (hopener : opener.kind ≠ .openAngle)
    (horderly : s.Orderly) (hupcoming : s.Upcoming ts)
    (hp : ∀ s₁, Onward E s₁ [] ts s₁ → s₁.accept = Accept.inside opener.kind s.accept →
      Runs (call (.skipTo opener kind)) s₁ fun a s' => ∃ vs rest, Onward E s₁ vs rest s' ∧ R a vs rest) :
    Runs (skipScope call opener) s fun a s' => ∃ vs rest, s.Advance vs s' ∧ s'.Upcoming rest ∧
      (E → s.Calm s') ∧ s'.reader.closeAnglesOnly = s.reader.closeAnglesOnly ∧ R a vs rest := by
  unfold skipScope
  simp only [hcloser]
  refine .inside horderly hupcoming ?_ hp ?_
  · intro angles
    cases hkind : opener.kind <;> simp_all [TokenKind.closer?, closeAnglesInside]
  · intro a vs rest s' hadvance hnext hcalm hangles hR
    exact ⟨vs, rest, hadvance, hnext, hcalm, hangles, hR⟩

/-- The same on the way. -/
theorem skipScope_onward {call : Call} {kind : TokenKind} {R : Option Token → List Token → List Token → Prop}
    (hcloser : t.kind.closer? = some kind) (hopener : t.kind ≠ .openAngle) (h : Onward E s₀ us ts s)
    (hp : ∀ s₁, Onward E s₁ [] ts s₁ → s₁.accept = Accept.inside t.kind s.accept →
      Runs (call (.skipTo t kind)) s₁ fun a s' => ∃ vs rest, Onward E s₁ vs rest s' ∧ R a vs rest) :
    Runs (skipScope call t) s fun a s' => ∃ vs rest, Onward E s₀ (us ++ vs) rest s' ∧ R a vs rest := by
  refine (skipScope_runs hcloser hopener h.left h.upcoming hp).mono ?_
  rintro a s' ⟨vs, rest, hadvance, hnext, hcalm, hangles, hR⟩
  exact ⟨vs, rest, h.append ⟨h.left, hadvance, hnext, hangles.trans h.plain, hcalm⟩, hR⟩

/-- A token that is waited for further out ends skipping, and comes next again. -/
theorem skipTo_leave {kind : TokenKind} (h : Onward False s [] (t :: ts) s) (hkind : t.kind ≠ kind)
    (hleave : s.accept.leaves? t.kind = some true) :
    Runs (run (depth + 1) (.skipTo opener kind)) s fun _ s' => Onward False s [] (t :: ts) s' := by
  refine .bind (.take h ?_)
  intro s₁ h₁
  rw [if_neg hkind]
  refine .bind (.leave h₁ (by rw [h₁.advance.accept]; exact hleave) ?_)
  intro s₂ h₂
  refine .bind (.astray (still_fault _ _) not_false h₂ ?_)
  intro s₃ h₃
  exact .pure h₃

/-! ## Inside of braces -/

/-- Skipping with calls at most so deep stops where it should inside of braces. -/
structure Stops (depth : Nat) : Prop where
  /-- In braces, skipping to the closing brace stops at the one that counting leads to. -/
  curly : ∀ {s : Session} {opener closer : Token} {inner rest : List Token},
    Onward False s [] (inner ++ closer :: rest) s →
    s.accept = { Accept.nothing with closeCurly := true } → Braced inner →
    closer.kind = .closeCurly → inner.length < depth →
    Runs (run depth (.skipTo opener .closeCurly)) s fun found s' =>
      found = some closer ∧ Onward False s (inner ++ [closer]) rest s'
  /-- In braces, skipping to another closer does not go past the closing brace, and leaves braces
  balanced. -/
  other : ∀ {s : Session} {opener closer : Token} {kind : TokenKind} {inner rest : List Token},
    Onward False s [] (inner ++ closer :: rest) s →
    s.accept.closeCurly = true → s.accept.openCurly = false → Braced inner →
    closer.kind = .closeCurly → kind = .closeParen ∨ kind = .closeSquare → inner.length < depth →
    Runs (run depth (.skipTo opener kind)) s fun _ s' => ∃ before after,
      inner = before ++ after ∧ Braced before ∧ Braced after ∧
        Onward False s before (after ++ closer :: rest) s'

/-- In braces, skipping what a token opens leaves braces balanced. -/
theorem skipNested_braced (hstops : Stops depth) (h : Onward False s₀ (us ++ [t])
      (inner ++ closer :: rest) s) (hcurly : s.accept.closeCurly = true)
    (hopen : s.accept.openCurly = false) (hbraced : Braced (t :: inner))
    (hcloser : closer.kind = .closeCurly) (hdepth : inner.length < depth) :
    Runs (skipNested (fun r => run depth r) t) s fun _ s' => ∃ before after,
      inner = before ++ after ∧ Braced (t :: before) ∧ Braced after ∧
        Onward False s₀ (us ++ t :: before) (after ++ closer :: rest) s' := by
  by_cases hcurlies : t.kind = .openCurly
  · cases hbraced with
    | plain hplain _ _ => simp [Token.isBrace, hcurlies] at hplain
    | @block _ c ts us' _ hc hts hus =>
      unfold skipNested
      simp only [hcurlies]
      refine (skipScope_onward (R := fun _ vs rest' => vs = ts ++ [c] ∧ rest' = us' ++ closer :: rest)
        (by rw [hcurlies]; rfl) (by simp [hcurlies]) h ?_).mono ?_
      · intro s₁ h₁ haccept
        rw [hcurlies] at haccept
        rw [List.append_assoc, List.cons_append] at h₁
        refine (hstops.curly h₁ haccept hts hc (by grind)).mono ?_
        rintro _ s₂ ⟨-, h₂⟩
        exact ⟨_, _, h₂, rfl, rfl⟩
      · rintro _ s₂ ⟨_, _, h₂, rfl, rfl⟩
        refine ⟨ts ++ [c], us', by simp, .block hcurlies hc hts .nil, hus, by simpa using h₂⟩
  obtain ⟨hplain, htail⟩ := hbraced.tail hcurlies
  have hmore := hbraced.head_ne.2
  by_cases hround : t.kind = .openParen ∨ t.kind = .openSquare
  · obtain ⟨kind, hkind, hkinds⟩ : ∃ kind, t.kind.closer? = some kind ∧
        (kind = .closeParen ∨ kind = .closeSquare) := by
      rcases hround with hround | hround <;> simp [hround, TokenKind.closer?]
    have hskip : skipNested (fun r => run depth r) t = skipScope (fun r => run depth r) t := by
      unfold skipNested
      rcases hround with hround | hround <;> rw [hround]
    rw [hskip]
    refine (skipScope_onward (R := fun _ vs rest' => ∃ after, inner = vs ++ after ∧ Braced vs ∧
        Braced after ∧ rest' = after ++ closer :: rest) hkind (by grind) h ?_).mono ?_
    · intro s₁ h₁ haccept
      refine (hstops.other h₁ ?_ ?_ htail hcloser hkinds hdepth).mono ?_
      · rw [haccept]
        rcases hround with hround | hround <;> rw [hround] <;> exact hcurly
      · rw [haccept]
        rcases hround with hround | hround <;> rw [hround] <;> exact hopen
      · rintro _ s₂ ⟨before, after, hinner, hbefore, hafter, h₂⟩
        exact ⟨_, _, h₂, after, hinner, hbefore, hafter, rfl⟩
    · rintro _ s₂ ⟨before, _, h₂, after, rfl, hbefore, hafter, rfl⟩
      exact ⟨before, after, rfl, .plain hplain hmore hbefore, hafter, by simpa using h₂⟩
  · have hskip : Runs (skipNested (fun r => run depth r) t) s fun _ s' => s' = s := by
      unfold skipNested
      split
      · refine .bind (.get ?_)
        rw [h.plain]
        exact .pure rfl
      · contradiction
      · grind
      · grind
      · exact .pure rfl
    refine hskip.mono ?_
    rintro _ _ rfl
    exact ⟨[], inner, rfl, .single hplain hmore, htail, h⟩

theorem stops (depth : Nat) : Stops depth := by
  induction depth with
  | zero => exact ⟨fun _ _ _ _ h => absurd h (Nat.not_lt_zero _),
      fun _ _ _ _ _ _ h => absurd h (Nat.not_lt_zero _)⟩
  | succ depth ih =>
    constructor
    · intro s opener closer inner rest h haccept hbraced hcloser hdepth
      cases inner with
      | nil =>
        refine .bind (.take h ?_)
        intro s₁ h₁
        rw [if_pos hcloser]
        exact .pure ⟨rfl, h₁⟩
      | cons t inner =>
        have hdepth' : inner.length < depth := Nat.lt_of_succ_lt_succ hdepth
        obtain ⟨hclose, hmore⟩ := hbraced.head_ne
        refine .bind (.take h ?_)
        intro s₁ h₁
        rw [if_neg hclose]
        have haccept₁ : s₁.accept = { Accept.nothing with closeCurly := true } :=
          h₁.advance.accept.trans haccept
        refine .bind (.stay hmore ?_ ?_)
        · rw [haccept₁]
          cases hkind : t.kind <;> simp_all [Accept.leaves?, Accept.nothing]
        refine .bind ((skipNested_braced ih h₁ (by rw [haccept₁]) (by rw [haccept₁]; rfl) hbraced
          hcloser hdepth').mono ?_)
        rintro _ s₂ ⟨before, after, rfl, _, hafter, h₂⟩
        have haccept₂ := h₂.advance.accept.trans haccept
        refine (ih.curly h₂.here haccept₂ hafter hcloser (by grind)).mono ?_
        rintro found s₃ ⟨rfl, h₃⟩
        have h₄ := h₂.append h₃
        refine ⟨rfl, by simpa using h₄⟩
    · intro s opener closer kind inner rest h hcurly hopen hbraced hcloser hkind hdepth
      have hclosed : s.accept.leaves? .closeCurly = some true := congrArg some hcurly
      cases inner with
      | nil =>
        have hne : closer.kind ≠ kind := by grind
        refine (skipTo_leave h hne (hcloser ▸ hclosed)).mono ?_
        intro _ s₁ h₁
        exact ⟨[], [], rfl, .nil, .nil, h₁⟩
      | cons t inner =>
        have hdepth' : inner.length < depth := Nat.lt_of_succ_lt_succ hdepth
        by_cases hfound : t.kind = kind
        · obtain ⟨hplain, htail⟩ := hbraced.tail (by grind)
          refine .bind (.take h ?_)
          intro s₁ h₁
          rw [if_pos hfound]
          exact .pure ⟨[t], inner, rfl, .single hplain hbraced.head_ne.2, htail, h₁⟩
        by_cases hleave : s.accept.leaves? t.kind = some true
        · refine (skipTo_leave h hfound hleave).mono ?_
          intro _ s₁ h₁
          exact ⟨[], t :: inner, rfl, .nil, hbraced, h₁⟩
        refine .bind (.take h ?_)
        intro s₁ h₁
        rw [if_neg hfound]
        have haccept₁ := h₁.advance.accept
        refine .bind (.stay hbraced.head_ne.2 (haccept₁ ▸ hleave) ?_)
        refine .bind ((skipNested_braced ih h₁ (haccept₁ ▸ hcurly) (haccept₁ ▸ hopen) hbraced
          hcloser hdepth').mono ?_)
        rintro _ s₂ ⟨before, after, rfl, hbefore, hafter, h₂⟩
        have haccept₂ := h₂.advance.accept
        refine (ih.other h₂.here (haccept₂ ▸ hcurly) (haccept₂ ▸ hopen) hafter hcloser hkind
          (by grind)).mono ?_
        rintro _ s₃ ⟨before', after', rfl, hbefore', hafter', h₃⟩
        refine ⟨t :: before ++ before', after', by simp, hbefore.append hbefore', hafter', ?_⟩
        exact h₂.append h₃

/-! ## Inside of other brackets -/

/-- A closer of a bracket is no opener, and is none of the tokens that are no brackets. -/
theorem closer_kind (hopener : opener.isBracket = true)
    (hcloser : opener.kind.closer? = some closer.kind) :
    closer.isBracket = true ∧ closer.kind.closer? = none := by
  simp only [Token.isBracket, Token.isBrace] at *
  cases hkind : opener.kind <;> simp_all [TokenKind.closer?] <;> simp [← hcloser]

theorem kind_ne_of_isBracket {t u : Token} (ht : t.isBracket = false) (hu : u.isBracket = true) :
    t.kind ≠ u.kind := by
  intro hkind
  simp only [Token.isBracket, Token.isBrace, hkind] at ht hu
  rw [ht] at hu
  cases hu

/-- Where no closing angle bracket is waited for, no other token but a bracket is. -/
theorem not_leaves_of_isBracket {a : Accept} (ht : t.isBracket = false) (hangle : a.closeAngle = false) :
    a.leaves? t.kind ≠ some true := by
  simp only [Token.isBracket, Token.isBrace] at ht
  unfold Accept.leaves?
  split <;> simp_all

/-- An opening bracket is not waited for, but for an opening brace. -/
theorem not_leaves_of_closer {a : Accept} {kind : TokenKind} (hcloser : t.kind.closer? = some kind)
    (hcurly : a.openCurly = true → t.kind ≠ .openCurly) : a.leaves? t.kind ≠ some true := by
  cases hkind : t.kind <;> simp_all [TokenKind.closer?, Accept.leaves?]

/-- In a bracket no closing angle bracket is waited for, and an opening brace only if it was. -/
theorem accept_inside (ht : t.isBracket = true) {kind : TokenKind}
    (hcloser : t.kind.closer? = some kind) (a : Accept) :
    (Accept.inside t.kind a).closeAngle = false ∧
      ((Accept.inside t.kind a).openCurly = true → a.openCurly = true) := by
  simp only [Token.isBracket, Token.isBrace] at ht
  cases hkind : t.kind <;> simp_all [TokenKind.closer?, Accept.inside, Accept.nothing]

/-- What an opening bracket opens is skipped. -/
theorem skipNested_bracket {call : Call} (ht : t.isBracket = true) {kind : TokenKind}
    (hcloser : t.kind.closer? = some kind) : skipNested call t = skipScope call t := by
  unfold skipNested
  simp only [Token.isBracket, Token.isBrace] at ht
  cases hkind : t.kind <;> simp_all [TokenKind.closer?]

/-- What a token that is no bracket opens is not skipped where a `>` is read as it stands. -/
theorem skipNested_plain {call : Call} (ht : t.isBracket = false)
    (hplain : s.reader.closeAnglesOnly = false) :
    Runs (skipNested call t) s fun _ s' => s' = s := by
  unfold skipNested
  simp only [Token.isBracket, Token.isBrace, Bool.or_eq_false_iff, beq_eq_false_iff_ne] at ht
  split
  · refine .bind (.get ?_)
    rw [hplain]
    exact .pure rfl
  · grind
  · grind
  · grind
  · exact .pure rfl

/-- Skipping passes over what is well nested, and stops at the closer without a fault. -/
theorem skipTo_nested (hnested : Bracketed inner) {s : Session} {opener closer : Token} {depth : Nat}
    {rest : List Token} (h : Onward True s [] (inner ++ closer :: rest) s)
    (hangle : s.accept.closeAngle = false)
    (hcurly : s.accept.openCurly = true → ∀ t ∈ inner, t.kind ≠ .openCurly)
    (hopener : opener.isBracket = true) (hcloser : opener.kind.closer? = some closer.kind)
    (hdepth : inner.length < depth) :
    Runs (run depth (.skipTo opener closer.kind)) s fun found s' =>
      found = some closer ∧ Onward True s (inner ++ [closer]) rest s' := by
  obtain ⟨hbracket, hnone⟩ := closer_kind hopener hcloser
  induction hnested generalizing s opener closer depth rest with
  | nil =>
    obtain ⟨depth, rfl⟩ := Nat.exists_eq_succ_of_ne_zero (Nat.ne_of_gt hdepth)
    refine .bind (.take h ?_)
    intro s₁ h₁
    rw [if_pos rfl]
    exact .pure ⟨rfl, h₁⟩
  | @plain t ts ht hmore _ ih =>
    obtain ⟨depth, rfl⟩ := Nat.exists_eq_succ_of_ne_zero (Nat.ne_of_gt (Nat.zero_lt_of_lt hdepth))
    refine .bind (.take h ?_)
    intro s₁ h₁
    have haccept := h₁.advance.accept
    rw [if_neg (kind_ne_of_isBracket ht hbracket)]
    refine .bind (.stay hmore (not_leaves_of_isBracket ht (haccept ▸ hangle)) ?_)
    refine .bind ((skipNested_plain ht h₁.plain).mono ?_)
    rintro _ _ rfl
    refine (ih h₁.here (haccept ▸ hangle) (haccept ▸ by grind) hopener hcloser (by grind) hbracket
      hnone).mono ?_
    rintro found s₂ ⟨rfl, h₂⟩
    exact ⟨rfl, h₁.append h₂⟩
  | @group o c ts us ho hc hts hus ihinner ihrest =>
    rw [List.cons_append, List.append_assoc, List.cons_append] at h
    obtain ⟨depth, rfl⟩ := Nat.exists_eq_succ_of_ne_zero (Nat.ne_of_gt (Nat.zero_lt_of_lt hdepth))
    refine .bind (.take h ?_)
    intro s₁ h₁
    have haccept := h₁.advance.accept
    rw [if_neg (fun hkind => by rw [hkind, hnone] at hc; cases hc)]
    have hstay : s₁.accept.openCurly = true → o.kind ≠ .openCurly := by
      rw [haccept]
      exact fun hopen => hcurly hopen o (by simp)
    have hmore : o.kind ≠ .endOfFile := fun hend => by rw [hend] at hc; cases hc
    refine .bind (.stay hmore (not_leaves_of_closer hc hstay) ?_)
    rw [skipNested_bracket ho hc]
    refine .bind ((skipScope_onward (R := fun _ vs rest' => vs = ts ++ [c] ∧
      rest' = us ++ closer :: rest) hc ?_ h₁ ?_).mono ?_)
    · rintro hangle'
      simp [Token.isBracket, Token.isBrace, hangle'] at ho
    · intro s₂ h₂ haccept₂
      obtain ⟨hbracket', hnone'⟩ := closer_kind ho hc
      obtain ⟨hangle', hcurly'⟩ := accept_inside ho hc s₁.accept
      refine (ihinner h₂ (haccept₂ ▸ hangle') ?_ ho hc (by grind) hbracket' hnone').mono ?_
      · rw [haccept₂]
        intro hopen u hu
        exact hcurly (haccept ▸ hcurly' hopen) u (by simp [hu])
      · rintro _ s₃ ⟨-, h₃⟩
        exact ⟨_, _, h₃, rfl, rfl⟩
    · rintro _ s₂ ⟨_, _, h₂, rfl, rfl⟩
      have haccept₂ := h₂.advance.accept
      refine (ihrest h₂.here (haccept₂ ▸ hangle) (haccept₂ ▸ by grind) hopener hcloser (by grind)
        hbracket hnone).mono ?_
      rintro found s₃ ⟨rfl, h₃⟩
      exact ⟨rfl, by simpa using h₂.append h₃⟩

/-! ## Where skipping stops -/

/-- The brace that opens the body of a function has been read, behind the initializers of a
constructor if there are any. -/
inductive BodyOpens (call : Call) : Session → Token → List MemberInitializer → Token → Session → Prop
  | bare {s₀ s : Session} {opener : Token} (opens : Parse.read s₀ = .ok (opener, s)) :
      BodyOpens call s₀ .absent [] opener s
  | inits {s₀ s₁ s₂ s : Session} {colon opener : Token} {inits : List MemberInitializer}
      (first : Parse.read s₀ = .ok (colon, s₁)) (isColon : colon.kind = .singleColon)
      (initializers : leavingOpenCurly (call (.memberInitializers [])) s₁ = .ok (inits, s₂))
      (opens : Parse.read s₂ = .ok (opener, s)) : BodyOpens call s₀ colon inits opener s

/-- In braces, skipping consumes what is balanced in braces and the closing brace. -/
theorem skipScope_braced (horderly : s.Orderly) (hupcoming : s.Upcoming (inner ++ closer :: rest))
    (hopener : opener.kind = .openCurly) (hcloser : closer.kind = .closeCurly)
    (hbraced : Braced inner) (hdepth : inner.length < depth) :
    Runs (skipScope (fun r => run depth r) opener) s fun found s' => found = some closer ∧
      s.Advance (inner ++ [closer]) s' ∧ s'.Upcoming rest := by
  refine (skipScope_runs (E := False)
    (R := fun found vs rest' => found = some closer ∧ vs = inner ++ [closer] ∧ rest' = rest)
    (by rw [hopener]; rfl) (by simp [hopener]) horderly hupcoming ?_).mono ?_
  · intro s₁ h₁ haccept
    rw [hopener] at haccept
    refine ((stops depth).curly h₁ haccept hbraced hcloser hdepth).mono ?_
    rintro found s₂ ⟨hfound, h₂⟩
    exact ⟨_, _, h₂, hfound, rfl, rfl⟩
  · rintro found s' ⟨_, _, hadvance, hnext, -, -, hfound, rfl, rfl⟩
    exact ⟨hfound, hadvance, hnext⟩

/-- In another bracket, skipping consumes what is well nested and the closer, without a fault. -/
theorem skipScope_nested (horderly : s.Orderly) (hupcoming : s.Upcoming (inner ++ closer :: rest))
    (hopener : opener.isBracket = true) (hcloser : opener.kind.closer? = some closer.kind)
    (hnested : Bracketed inner) (hcurly : s.accept.openCurly = true → ∀ t ∈ inner, t.kind ≠ .openCurly)
    (hdepth : inner.length < depth) :
    Runs (skipScope (fun r => run depth r) opener) s fun found s' => found = some closer ∧
      s.Advance (inner ++ [closer]) s' ∧ s'.Upcoming rest ∧ s.Calm s' := by
  refine (skipScope_runs (E := True)
    (R := fun found vs rest' => found = some closer ∧ vs = inner ++ [closer] ∧ rest' = rest)
    hcloser ?_ horderly hupcoming ?_).mono ?_
  · rintro hangle
    simp [Token.isBracket, Token.isBrace, hangle] at hopener
  · intro s₁ h₁ haccept
    obtain ⟨hangle, hopen⟩ := accept_inside hopener hcloser s.accept
    refine (skipTo_nested hnested h₁ (haccept ▸ hangle) ?_ hopener hcloser hdepth).mono ?_
    · rw [haccept]
      exact fun h => hcurly (hopen h)
    · rintro found s₂ ⟨hfound, h₂⟩
      exact ⟨_, _, h₂, hfound, rfl, rfl⟩
  · rintro found s' ⟨_, _, hadvance, hnext, hcalm, -, hfound, rfl, rfl⟩
    exact ⟨hfound, hadvance, hnext, hcalm trivial⟩

/-- The body of a function is what is balanced in braces. -/
theorem functionBody_braced {declared : Nat} {colon : Token} {inits : List MemberInitializer}
    (hopens : BodyOpens (fun r => run depth r) s₀ colon inits opener s) (horderly : s.Orderly)
    (hupcoming : s.Upcoming (inner ++ closer :: rest)) (hopener : opener.kind = .openCurly)
    (hcloser : closer.kind = .closeCurly) (hbraced : Braced inner) (hdepth : inner.length < depth) :
    Runs (functionBody (fun r => run depth r) declared) s₀ fun init s' =>
      init = .functionBody colon inits opener closer ∧ s.Advance (inner ++ [closer]) s' ∧
        s'.Upcoming rest := by
  -- once the brace is read, all that is done beside skipping leaves tokens alone
  have htail : Runs (do
      enterScope .functionBody
      let closer ← skipScope (fun r => run depth r) opener
      leaveScope .functionBody declared
      return Initializer.functionBody colon inits opener (closer.getD .absent)) s fun init s' =>
        init = .functionBody colon inits opener closer ∧ s.Advance (inner ++ [closer]) s' ∧
          s'.Upcoming rest := by
    let inside : Session := { s with
      scopes := ⟨.functionBody, []⟩ :: s.scopes
      log := .entered (.functionBody :: s.path) :: s.log }
    have hsame : s.Same inside := ⟨.refl _, rfl, rfl, rfl⟩
    have hskip := skipScope_braced (s := inside) (horderly.advance hsame.advance) hupcoming hopener
      hcloser hbraced hdepth
    refine .bind (.modify (.bind (hskip.mono ?_)))
    rintro _ s₁ ⟨rfl, hadvance, hnext⟩
    have hin := hsame.advance.trans hadvance horderly.sound
    exact .bind (.modify (.pure ⟨rfl, ⟨hin.drawn, hin.behind, hin.saving, hin.accept⟩, hnext⟩))
  cases hopens with
  | bare hread =>
    refine .bind ⟨opener, s, hread, ?_⟩
    beta_reduce
    rw [if_neg (show opener.kind ≠ .singleEqual by simp [hopener]),
      if_neg (show opener.kind ≠ .singleColon by simp [hopener])]
    refine .bind (.pure ?_)
    simp only [if_pos hopener]
    exact htail
  | inits hfirst hcolon hinits hread =>
    refine .bind ⟨colon, _, hfirst, ?_⟩
    beta_reduce
    rw [if_neg (show colon.kind ≠ .singleEqual by simp [hcolon]), if_pos hcolon]
    refine .bind ⟨inits, _, hinits, .bind ⟨opener, s, hread, .bind (.pure ?_)⟩⟩
    simp only [if_pos hopener]
    exact htail

/-- Skipping from behind a brace ends at the brace that closes it, with any brackets in between.
Skipping from behind a parenthesis or a square bracket passes over what is well nested, without a
fault, unless there is an opening brace in it and opening braces are left to a rule further out.
What is skipped as the body of a function is what is between its braces. -/
theorem skipScope_stops (horderly : s.Orderly) (hupcoming : s.Upcoming (inner ++ closer :: rest))
    (hcloser : opener.kind.closer? = some closer.kind) (hdepth : inner.length < depth) :
    (opener.kind = .openCurly → Braced inner →
      Runs (skipScope (fun r => run depth r) opener) s fun found s' =>
        found = some closer ∧ s.Advance (inner ++ [closer]) s' ∧ s'.Upcoming rest) ∧
    (opener.kind = .openParen ∨ opener.kind = .openSquare → Bracketed inner →
      (s.accept.openCurly = true → ∀ t ∈ inner, t.kind ≠ .openCurly) →
      Runs (skipScope (fun r => run depth r) opener) s fun found s' => found = some closer ∧
        s.Advance (inner ++ [closer]) s' ∧ s'.Upcoming rest ∧ s.Calm s') ∧
    (∀ s₀ colon inits declared, BodyOpens (fun r => run depth r) s₀ colon inits opener s →
      opener.kind = .openCurly → Braced inner →
      Runs (functionBody (fun r => run depth r) declared) s₀ fun init s' =>
        init = .functionBody colon inits opener closer ∧ s.Advance (inner ++ [closer]) s' ∧
          s'.Upcoming rest) := by
  have hcurly : opener.kind = .openCurly → closer.kind = .closeCurly := by
    intro hopener
    rw [hopener] at hcloser
    exact (Option.some.inj hcloser).symm
  refine ⟨?_, ?_, ?_⟩
  · intro hopener hbraced
    exact skipScope_braced horderly hupcoming hopener (hcurly hopener) hbraced hdepth
  · intro hopener hnested hopen
    have hbracket : opener.isBracket = true := by
      rcases hopener with hopener | hopener <;> simp [Token.isBracket, hopener]
    exact skipScope_nested horderly hupcoming hbracket hcloser hnested hopen hdepth
  · intro s₀ colon inits declared hopens hopener hbraced
    exact functionBody_braced hopens horderly hupcoming hopener (hcurly hopener) hbraced hdepth

/-! ## A brace in a parenthesis -/

/-- A session with nothing to read but the tokens in its queue. -/
def waiting (accept : Accept) (ts : List Token) : Session :=
  { Session.new (Reader.new .empty {}) 0 1 with queue := ⟨[], ts, false⟩, accept }

theorem upcoming_waiting (accept : Accept) (ts : List Token) : (waiting accept ts).Upcoming ts :=
  ⟨0, [], _, List.append_nil ts, .nil _, Nat.le_refl 0⟩

theorem orderly_waiting {accept : Accept} {ts : List Token} (h : ∀ t ∈ ts, t.kind ≠ .endOfFile) :
    (waiting accept ts).Orderly where
  sound := Reader.sound_new {}
  trailing := List.pairwise_of_forall_mem_list fun t ht _ _ hend => absurd hend (h t ht)
  ended t ht hend := absurd hend (h t ht)
  settled _ := rfl

/-- In a brace, neither a parenthesis that is left open nor a stray square bracket is in the way. -/
theorem skipScope_stops_unpaired :
    Runs (skipScope (fun r => run 3 r) ⟨0, .openCurly, "\x7b"⟩)
      (waiting .nothing [⟨1, .closeSquare, "]"⟩, ⟨2, .openParen, "("⟩, ⟨3, .closeCurly, "\x7d"⟩,
        ⟨4, .semicolon, ";"⟩]) fun found s' =>
      found = some ⟨3, .closeCurly, "\x7d"⟩ ∧ s'.Upcoming [⟨4, .semicolon, ";"⟩] := by
  have hupcoming : (waiting .nothing [⟨1, .closeSquare, "]"⟩, ⟨2, .openParen, "("⟩,
      ⟨3, .closeCurly, "\x7d"⟩, ⟨4, .semicolon, ";"⟩]).Upcoming ([⟨1, .closeSquare, "]"⟩,
        ⟨2, .openParen, "("⟩] ++ ⟨3, .closeCurly, "\x7d"⟩ :: [⟨4, .semicolon, ";"⟩]) :=
    upcoming_waiting _ _
  have hcloser : (⟨0, .openCurly, "\x7b"⟩ : Token).kind.closer? =
    some (⟨3, .closeCurly, "\x7d"⟩ : Token).kind := rfl
  have hstops := skipScope_stops (orderly_waiting (by decide)) hupcoming hcloser (by decide : 2 < 3)
  refine (hstops.1 rfl (.plain rfl (by decide) (.plain rfl (by decide) .nil))).mono ?_
  rintro found s' ⟨hfound, -, hnext⟩
  exact ⟨hfound, hnext⟩

/-- A constructor that gives a member a value in braces. -/
def bracedValue : String := "S::S() : x(T\x7b1\x7d) \x7b\x7d"

/-- Where opening braces are left to a rule further out, skipping a parenthesis stops at one inside
of it, though all is well nested, and so the constructor is reported. -/
theorem skipScope_blocked :
    (∃ s', skipScope (fun r => run 100 r) ⟨10, .openParen, "("⟩ (waiting
      { Accept.nothing with openCurly := true } [⟨11, .identifier, "T"⟩, ⟨12, .openCurly, "\x7b"⟩,
        ⟨13, .numericLiteral, "1"⟩, ⟨14, .closeCurly, "\x7d"⟩, ⟨15, .closeParen, ")"⟩]) =
          .ok (none, s') ∧ s'.rawErrors = 1) ∧
    Bracketed [⟨11, .identifier, "T"⟩, ⟨12, .openCurly, "\x7b"⟩, ⟨13, .numericLiteral, "1"⟩,
      ⟨14, .closeCurly, "\x7d"⟩] ∧
    (parse {} "test.h" bracedValue).toOption.map Parsed.errorCount = some 2 := by
  refine ⟨⟨_, rfl, rfl⟩, ?_, by decide +kernel⟩
  have hvalue : Bracketed [⟨13, .numericLiteral, "1"⟩] := .plain rfl (by decide) .nil
  exact .plain rfl (by decide) (.group rfl rfl hvalue .nil)

end Grammar

end CppDecl
