import CppDecl.Proofs.Ahead
import CppDecl.Proofs.Monotone
import CppDecl.Proofs.Opened

/-!
# A declared name in parentheses

Parentheses around a declared name are redundant.  What follows the name is put into the chain
behind the parentheses in place of at its beginning, and it is read in the same way
(`parseDeclaration_parenthesized`).  There is one exception.  Whether a body may follow is decided
by the first production of the chain, and if that is a pair of parentheses, then a brace begins an
initializer (`parseDeclaration_parenthesized_body`).
-/

namespace CppDecl

/-! ## The first words -/

namespace Grammar

open Parse
open Session (opened read_ahead pushBack_opened unmute_opened)

variable {r r₁ r₂ : Reader} {s s₁ s₂ : Session} {t u : Token} {depth n passNumber : Nat}

/-- A name in front of something that does not belong to it. -/
theorem qualifiedId_plain {need : Completeness} (hfirst : read s = .ok (t, s₁))
    (hnext : read s₁ = .ok (u, s₂))
    (hagain : read { s₂ with queue := s₂.queue.pushBack u } = .ok (u, s₂)) (ht : beginsName t = true)
    (hdecltype : t.text ≠ "decltype") (hcolon : u.kind ≠ .doubleColon)
    (hangle : s₂.passNumber ≤ 1 → u.kind ≠ .openAngle) :
    qualifiedId (fun r => run (depth + 1) r) need s =
      .ok (.ofIdentifier t, { s₂ with queue := s₂.queue.pushBack u }) := by
  have hnames : run (depth + 1) (.nestedNames []) s =
      .ok ([.named t .absent .absent [] .absent], { s₂ with queue := s₂.queue.pushBack u }) := by
    refine (bind_ok hfirst).trans ?_
    rw [if_neg (by simpa [beginsName] using ht)]
    refine (bind_ok hnext).trans ?_
    rw [if_neg hdecltype]
    refine (bind_ok rfl).trans ?_
    rw [if_neg (by simpa using fun hopens hpass => hangle hpass hopens)]
    refine (bind_ok rfl).trans ((bind_ok hagain).trans ?_)
    rw [if_neg hcolon]
    rfl
  refine (bind_ok hnames).trans ?_
  cases need <;> rfl

/-- There is no name in front of a token that does not begin one. -/
theorem qualifiedId_absent (ht : beginsName t = false) (htilde : t.kind ≠ .tilde)
    (hoperator : t.isWord "operator" = false) :
    qualifiedId (fun r => run (depth + 1) r) .allowIncomplete (opened r (t :: ahead) n passNumber) =
      .ok (.empty, opened r (t :: ahead) n passNumber) := by
  have hnames : run (depth + 1) (.nestedNames []) (opened r (t :: ahead) n passNumber) =
      .ok ([], opened r (t :: ahead) n passNumber) := by
    refine (bind_ok read_ahead).trans ?_
    rw [if_pos (by simpa [beginsName, ← Bool.not_eq_true, imp_iff_not_or] using ht)]
    rfl
  have hspecial : specialName (opened r (t :: ahead) n passNumber) =
      .ok (.empty, opened r (t :: ahead) n passNumber) := by
    refine (bind_ok read_ahead).trans ?_
    rw [if_neg htilde, hoperator]
    rfl
  refine (bind_ok hnames).trans ((bind_ok hspecial).trans ?_)
  rfl

/-- The word for a type. -/
def intWord : Token := ⟨0, .identifier, "int"⟩

/-- The name that is declared. -/
def nameAt (loc : Nat) : Token := ⟨loc, .identifier, "x"⟩

/-- The parenthesis in front of the name. -/
def leftParen : Token := ⟨4, .openParen, "("⟩

/-- The parenthesis behind the name. -/
def rightParen : Token := ⟨8, .closeParen, ")"⟩

theorem cut_int : intWord.Cut :=
  ⟨⟨_, _, rfl, rfl, fun _ _ => ⟨_, rfl, ⟨rfl, rfl, rfl⟩, rfl⟩⟩, rfl, TokenKind.noConfusion⟩

theorem cut_name (loc : Nat) : (nameAt loc).Cut :=
  ⟨⟨_, _, rfl, rfl, fun _ _ => ⟨_, rfl, ⟨rfl, rfl, rfl⟩, rfl⟩⟩, rfl, TokenKind.noConfusion⟩

theorem cut_leftParen : leftParen.Cut :=
  ⟨⟨_, _, rfl, rfl, fun _ _ => ⟨_, rfl, ⟨rfl, rfl, rfl⟩, rfl⟩⟩, rfl, TokenKind.noConfusion⟩

theorem cut_rightParen : rightParen.Cut :=
  ⟨⟨_, _, rfl, rfl, fun _ _ => ⟨_, rfl, ⟨rfl, rfl, rfl⟩, rfl⟩⟩, rfl, TokenKind.noConfusion⟩

/-- A declaration with a type and no declarators. -/
def typed : SimpleDeclaration := ⟨[plainType intWord], [], .absent⟩

/-- The type is read. -/
theorem specifiers_typeWord
    (hfirst : read (opened r [] (n + 2) passNumber) = .ok (intWord, opened r₁ [] (n + 1) passNumber))
    (hnext : read (opened r₁ [] (n + 1) passNumber) = .ok (u, opened r₂ [] n passNumber))
    (hcolon : u.kind ≠ .doubleColon) (hangle : u.kind ≠ .openAngle) :
    run (depth + 2) (.specifiers (.globalOrMember "") ⟨.empty, false, false⟩)
      (opened r [] (n + 2) passNumber) =
        run (depth + 1) (.specifiers (.globalOrMember "") ⟨typed, true, false⟩)
          (opened r₂ [u] n passNumber) := by
  have hqid : qualifiedId (fun r => run (depth + 1) r) .requireComplete
      (opened r₁ [intWord] (n + 1) passNumber) =
        .ok (.ofIdentifier intWord, opened r₂ [u] n passNumber) :=
    qualifiedId_plain read_ahead hnext rfl rfl (by simp [intWord]) hcolon fun _ => hangle
  have htype : typeSpecifier (fun r => run (depth + 1) r) (.globalOrMember "") .empty intWord
      (opened r₁ [] (n + 1) passNumber) = .ok ((false, typed), opened r₂ [u] n passNumber) := by
    refine (bind_ok pushBack_opened).trans ((bind_ok hqid).trans ?_)
    rfl
  refine (bind_ok hfirst).trans ?_
  refine (bind_ok unmute_opened).trans ?_
  exact (bind_ok htype).trans rfl

/-- Behind the type come the declarators. -/
theorem specifiers_typed {simple : SimpleDeclaration} {r : Reader}
    (hu : u.kind ≠ .identifier ∨ ∃ loc, u = nameAt loc) :
    run (depth + 1) (.specifiers (.globalOrMember "") ⟨simple, true, false⟩)
      (opened r [u] n passNumber) =
        run depth (.initDeclarators simple) (opened r [u] n passNumber) := by
  refine (bind_ok read_ahead).trans ?_
  rcases hu with hkind | ⟨loc, rfl⟩
  · rw [if_pos hkind]
    rfl
  · rfl

/-! ## Initializers -/

/-- What follows a function and is not its body would be read in the same way behind a variable. -/
theorem functionBody_variable {call : Call} {declared : Nat} :
    Leads (functionBody call declared) s fun init s' =>
      init.isFunctionBody = false → variableInitializer call true s = .ok (init, s') := by
  refine .bind fun first s₁ hread => .ite (fun hequal init s' hok _ => ?_) fun hequal => ?_
  · refine (bind_ok hread).trans ?_
    rw [if_neg (by simp [hequal]), if_pos hequal]
    exact hok
  refine .ite (fun hcolon => ?_) fun hcolon => ?_
  · -- behind a colon there is a body, if only a part of it
    refine .bind fun inits s₂ _ => .bind fun token s₃ _ => .bind (.pure ?_)
    refine .ite (fun _ => ?_) fun _ => ?_
    · exact .bind fun _ _ _ => .bind fun _ _ _ => .bind fun _ _ _ => .pure Bool.noConfusion
    · refine .bind fun _ _ _ => .ite (fun _ => .pure Bool.noConfusion) fun habsent => ?_
      exact absurd (by simp [Token.isPresent, hcolon]) habsent
  · refine .bind (.pure (.ite (fun _ => ?_) fun hcurly => .bind fun _ s₂ hback => ?_))
    · exact .bind fun _ _ _ => .bind fun _ _ _ => .bind fun _ _ _ => .pure Bool.noConfusion
    · refine .ite Bool.noConfusion fun _ => .pure fun _ => (bind_ok hread).trans ?_
      rw [if_neg (by simp [hcurly]), if_neg hequal, if_neg hcolon]
      exact (bind_ok hback).trans rfl

/-- The first declarator of a declaration is the one that was read.  If it has no body, its
initializer is read as that of a variable. -/
theorem initialized_first {k : Nat} {simple : SimpleDeclaration} {d : Declarator}
    {first : InitDeclarator} {rest : List InitDeclarator} (hnone : simple.declarators = [])
    (hbody : first.init.isFunctionBody = false) :
    Leads (initialized (fun r => run k r) simple d) s fun result s' =>
      result.declarators = first :: rest → first.declarator = d ∧
        ∃ s₁, variableInitializer (fun r => run k r) true s = .ok (first.init, s₁) ∧
          declaratorSeparator (fun r => run k r) simple d first.init s₁ = .ok (result, s') := by
  have hvariable : ∀ {init : Initializer} {s₁ s' : Session} {result : SimpleDeclaration},
      (init.isFunctionBody = false →
        variableInitializer (fun r => run k r) true s = .ok (init, s₁)) →
      declaratorSeparator (fun r => run k r) simple d init s₁ = .ok (result, s') →
      result.declarators = first :: rest → first.declarator = d ∧
        ∃ s₁, variableInitializer (fun r => run k r) true s = .ok (first.init, s₁) ∧
          declaratorSeparator (fun r => run k r) simple d first.init s₁ = .ok (result, s') := by
    intro init s₁ s' result hinit heq hfirst
    obtain ⟨comma, more, rfl, -⟩ := declaratorSeparator_ok heq
    rw [SimpleDeclaration.extend, hnone, List.nil_append] at hfirst
    cases hfirst
    exact ⟨rfl, s₁, hinit hbody, heq⟩
  refine .ite (fun _ => .pure fun hfirst => ?_) fun _ => .ite (fun _ => ?_) fun _ => ?_
  · rw [hnone] at hfirst
    cases hfirst
  · refine .bind fun init s₁ heq => .ite (fun hinit => ?_) fun _ result s' => ?_
    · rw [if_neg (by simp [hnone])]
      refine .pure fun hfirst => ?_
      rw [addDeclarator, hnone, List.nil_append] at hfirst
      cases hfirst
      rw [hinit] at hbody
      cases hbody
    · exact hvariable (functionBody_variable init s₁ heq)
  · exact .bind fun init s₁ heq result s' => hvariable fun _ => heq

/-! ## The first declarator -/

/-- What a run of arrays and functions does is decided by the token that is read first. -/
theorem suffixes_read {k depth : Nat} {d : Declarator} {nameMissing : Bool} {s₁ s₂ s' : Session}
    (h₁ : read s₁ = .ok (t, s')) (h₂ : read s₂ = .ok (t, s')) :
    run (k + 1) (.suffixes d depth nameMissing) s₁ =
      run (k + 1) (.suffixes d depth nameMissing) s₂ := by
  have hsame : ∀ f : Token → Parse Declarator, (read >>= f) s₁ = (read >>= f) s₂ := fun f =>
    (bind_ok h₁).trans (bind_ok h₂).symm
  exact hsame _

/-- Behind the name of a declarator another token was read. -/
theorem declarator_next {k : Nat} {outer : Chain} {form : DeclaratorForm} {allowQualifier : Bool}
    {x : Token} (hx : beginsName x = true) (hfirst : read s = .ok (x, s₁)) :
    Leads (run (k + 2) (.declarator outer form allowQualifier)) s fun _ _ =>
      ∃ t s₂, read s₁ = .ok (t, s₂) := by
  refine .bind (.bind (.known hfirst ?_))
  rw [if_neg (by simpa [beginsName] using hx)]
  exact .bind fun t s₂ hread _ _ _ _ _ _ _ _ _ => ⟨t, s₂, hread⟩

/-- A declarator that declares its first word as a plain name has nothing in front of the name. -/
theorem declarator_plain {k : Nat} {allowQualifier : Bool} {x : Token} {d : Declarator} {s' : Session}
    (hx : beginsName x = true) (hdecltype : x.text ≠ "decltype") (hs : s.Tidy)
    (hsaving : s.queue.saving = false) (hpass : s₁.passNumber ≤ 1) (hfirst : read s = .ok (x, s₁))
    (heq : run (k + 2) (.declarator [] ⟨true, false⟩ allowQualifier) s = .ok (d, s'))
    (hd : d.qid = .ofIdentifier x) :
    run (k + 1) (.suffixes ⟨[], .ofIdentifier x⟩ 0 false) s₁ = .ok (d, s') := by
  obtain ⟨t, s₂, hnext⟩ := declarator_next hx hfirst d s' heq
  obtain ⟨hcolon, hangle⟩ := declarator_alone hx hdecltype hs hsaving hfirst hnext heq hd
  obtain ⟨hadvance₁, -⟩ := hs.orderly.read hfirst
  have horderly₁ := hs.orderly.advance hadvance₁
  obtain ⟨hadvance₂, -⟩ := horderly₁.read hnext
  have hagain := (horderly₁.advance hadvance₂).read_pushBack
    (hadvance₂.saving.trans (hadvance₁.saving.trans hsaving)) t
  have hqid : qualifiedId (fun r => run (k + 1) r) .allowIncomplete s = .ok (.ofIdentifier x, _) :=
    qualifiedId_plain hfirst hnext hagain hx hdecltype hcolon fun _ => hangle hpass
  rw [suffixes_read hnext hagain, ← heq]
  exact Eq.symm ((bind_ok hqid).trans rfl)

end Grammar

/-! ## Both declarations -/

open Grammar
open Parse (bind_ok Leads)
open Session (opened)

/-- The rule for a declaration by itself. -/
def Rule.single : Rule SimpleDeclaration := .specifiers (.globalOrMember "") ⟨.empty, false, false⟩

/-- A name behind its type. -/
theorem bytes_plain (suffix : String) : Text.bytes ("int x " ++ suffix) =
    Text.bytes intWord.text ++ Byte.space ::
      (Text.bytes (nameAt 4).text ++ Byte.space :: Text.bytes suffix) := by
  rw [Text.bytes_append]
  rfl

/-- A name in parentheses behind its type. -/
theorem bytes_grouped (suffix : String) : Text.bytes ("int ( x ) " ++ suffix) =
    Text.bytes intWord.text ++ Byte.space :: (Text.bytes leftParen.text ++ Byte.space ::
      (Text.bytes (nameAt 6).text ++ Byte.space ::
        (Text.bytes rightParen.text ++ Byte.space :: Text.bytes suffix))) := by
  rw [Text.bytes_append]
  rfl

variable {r r₁ r₂ : Reader} {u : Token} {suffix : String} {k : Nat} {simple : SimpleDeclaration}
  {s' : Session}

/-- Once the type is read, the declaration goes on with its declarators. -/
theorem single_typed
    (hint : ∀ n passNumber, Parse.read (opened r [] (n + 1) passNumber) =
      .ok (intWord, opened r₁ [] n passNumber))
    (hnext : ∀ n passNumber, Parse.read (opened r₁ [] (n + 1) passNumber) =
      .ok (u, opened r₂ [] n passNumber))
    (hu : u = leftParen ∨ ∃ loc, u = nameAt loc) :
    run (k + 2) .single (opened r [] (k + 2) 1) =
      run k (.initDeclarators typed) (opened r₂ [u] k 1) := by
  have hkind : u.kind = .openParen ∨ u.kind = .identifier := by
    rcases hu with rfl | ⟨loc, rfl⟩
    · exact .inl rfl
    · exact .inr rfl
  refine (specifiers_typeWord (hint (k + 1) 1) (hnext k 1) ?_ ?_).trans (specifiers_typed ?_)
  · rcases hkind with hkind | hkind <;> simp [hkind]
  · rcases hkind with hkind | hkind <;> simp [hkind]
  · rcases hu with rfl | hname
    · exact .inl TokenKind.noConfusion
    · exact .inr hname

/-- The words of a name behind its type are read. -/
theorem plain_words (suffix : String) : ∃ r₁ r₂,
    r₁.Stands 3 false
      (Byte.space :: (Text.bytes (nameAt 4).text ++ Byte.space :: Text.bytes suffix)) ∧
    r₂.Stands 5 false (Byte.space :: Text.bytes suffix) ∧
    (∀ n passNumber, Parse.read (opened (textReader ("int x " ++ suffix)) [] (n + 1) passNumber) =
      .ok (intWord, opened r₁ [] n passNumber)) ∧
    ∀ n passNumber, Parse.read (opened r₁ [] (n + 1) passNumber) =
      .ok (nameAt 4, opened r₂ [] n passNumber) := by
  have hstands := textReader_stands ("int x " ++ suffix)
  rw [bytes_plain] at hstands
  obtain ⟨r₁, h₁, hint⟩ := hstands.read cut_int rfl (m := 3) rfl
  obtain ⟨r₂, h₂, hx⟩ := h₁.readBehind (cut_name 4) rfl (m := 5) rfl
  exact ⟨r₁, r₂, h₁, h₂, hint, hx⟩

/-- A name behind its type is read first, and then what follows it. -/
theorem plain_read {first : InitDeclarator} {rest : List InitDeclarator}
    (h : run (k + 5) .single (opened (textReader ("int x " ++ suffix)) [] (k + 5) 1) =
      .ok (simple, s'))
    (hfirst : simple.declarators = first :: rest)
    (hname : first.declarator.qid = .ofIdentifier (nameAt 4))
    (hbody : first.init.isFunctionBody = false) :
    ∃ r s₁ s₂, r.Stands 5 false (Byte.space :: Text.bytes suffix) ∧
      run (k + 1) (.suffixes ⟨[], .ofIdentifier (nameAt 4)⟩ 0 false) (opened r [] (k + 3) 1) =
        .ok (first.declarator, s₁) ∧
      variableInitializer (fun r => run (k + 2) r) true s₁ = .ok (first.init, s₂) ∧
      declaratorSeparator (fun r => run (k + 2) r) typed first.declarator first.init s₂ =
        .ok (simple, s') := by
  obtain ⟨r₁, r₂, h₁, h₂, hint, hx⟩ := plain_words suffix
  rw [single_typed hint hx (.inr ⟨4, rfl⟩)] at h
  obtain ⟨⟨d, s₁⟩, hd, hrest⟩ : ∃ x, run (k + 2) (.declarator [] ⟨true, false⟩ false)
      (opened r₂ [nameAt 4] (k + 3) 1) = .ok x ∧
        initialized (fun r => run (k + 2) r) typed x.1 x.2 = .ok (simple, s') :=
    Halt.bind_eq_ok h
  obtain ⟨rfl, s₂, hinit, hseparator⟩ :=
    initialized_first (show typed.declarators = [] from rfl) hbody _ _ hrest hfirst
  have htidy : (opened r₂ [nameAt 4] (k + 3) 1).Tidy := by
    have hadvance : (opened r₁ [] (k + 4) 1).Advance ([] ++ [nameAt 4]) (opened r₂ [] (k + 3) 1) :=
      (h₁.tidy.orderly.read (hx (k + 3) 1)).1
    exact h₁.tidy.advance (hadvance.pushBack h₁.tidy.orderly).1
  have hsuffixes := declarator_plain rfl (by simp [nameAt]) htidy rfl (le_refl 1)
    (Session.read_ahead (r := r₂)) hd hname
  exact ⟨r₂, s₁, s₂, h₂, hsuffixes, hinit, hseparator⟩

/-- The parentheses around the declared name. -/
def parentheses : Chain := [.parenthesized leftParen rightParen]

/-- A name in parentheses behind its type is read first, and then what follows the parentheses. -/
theorem grouped_read (suffix : String) (k : Nat) :
    ∃ r, r.Stands 9 false (Byte.space :: Text.bytes suffix) ∧
      run (k + 7) .single (opened (textReader ("int ( x ) " ++ suffix)) [] (k + 7) 1) =
        (run (k + 3) (.suffixes ⟨parentheses, .ofIdentifier (nameAt 6)⟩ 1 false) >>=
          initialized (fun r => run (k + 4) r) typed) (opened r [] (k + 3) 1) := by
  have hstands := textReader_stands ("int ( x ) " ++ suffix)
  rw [bytes_grouped] at hstands
  obtain ⟨r₁, h₁, hint⟩ := hstands.read cut_int rfl (m := 3) rfl
  obtain ⟨r₂, h₂, hopen⟩ := h₁.readBehind cut_leftParen rfl (m := 5) rfl
  obtain ⟨r₃, h₃, hx⟩ := h₂.readBehind (cut_name 6) rfl (m := 7) rfl
  obtain ⟨r₄, h₄, hclose⟩ := h₃.readBehind cut_rightParen rfl (m := 9) rfl
  refine ⟨r₄, h₄, ?_⟩
  rw [single_typed hint hopen (.inl rfl)]
  have hnone : qualifiedId (fun r => run (k + 3) r) .allowIncomplete
      (opened r₂ [leftParen] (k + 5) 1) = .ok (.empty, opened r₂ [leftParen] (k + 5) 1) :=
    qualifiedId_absent rfl TokenKind.noConfusion rfl
  have hqid : qualifiedId (fun r => run (k + 2) r) .allowIncomplete (opened r₂ [] (k + 5) 1) =
      .ok (.ofIdentifier (nameAt 6), opened r₄ [rightParen] (k + 3) 1) :=
    qualifiedId_plain (hx (k + 4) 1) (hclose (k + 3) 1) rfl rfl (by simp [nameAt])
      TokenKind.noConfusion fun _ => TokenKind.noConfusion
  have hinner : run (k + 3) (.declarator [] ⟨true, false⟩ false) (opened r₂ [] (k + 5) 1) =
      .ok (⟨[], .ofIdentifier (nameAt 6)⟩, opened r₄ [rightParen] (k + 3) 1) :=
    (bind_ok hqid).trans rfl
  have hparen : innerDeclarator (fun r => run (k + 3) r) [] ⟨true, false⟩ leftParen
      (opened r₂ [] (k + 5) 1) =
        run (k + 3) (.suffixes ⟨parentheses, .ofIdentifier (nameAt 6)⟩ 1 false)
          (opened r₄ [] (k + 3) 1) :=
    (bind_ok hinner).trans rfl
  have houter : run (k + 4) (.declarator [] ⟨true, false⟩ false) (opened r₂ [leftParen] (k + 5) 1) =
      run (k + 3) (.suffixes ⟨parentheses, .ofIdentifier (nameAt 6)⟩ 1 false)
        (opened r₄ [] (k + 3) 1) :=
    (bind_ok hnone).trans (Eq.trans rfl hparen)
  show (run (k + 4) (.declarator [] ⟨true, false⟩ false) (opened r₂ [leftParen] (k + 5) 1) >>=
    fun x => initialized (fun r => run (k + 4) r) typed x.1 x.2) = _
  rw [houter]
  rfl

/-- What `parseDeclaration` gives within a budget. -/
def parseDeclarationWithin (budget : Nat) (source : String) :
    Except Halt (SimpleDeclaration × List Diagnostic) := do
  let (simple, session) ← runGrammar budget 1 (textReader source) Grammar.single
  return (simple, session.events.filterMap Event.diagnostic?)

theorem parseDeclaration_eq_within (source : String) :
    parseDeclaration source 0 = parseDeclarationWithin defaultBudget source := rfl

/-- What is parsed is what the rule gives, and nothing else is reported. -/
theorem parseDeclarationWithin_eq_ok {budget : Nat} {source : String} {faults : List Diagnostic} :
    parseDeclarationWithin budget source = .ok (simple, faults) ↔
      ∃ s, run budget .single (opened (textReader source) [] budget 1) = .ok (simple, s) ∧
        s.events.filterMap Event.diagnostic? = faults := by
  have hrun : runGrammar budget 1 (textReader source) Grammar.single =
      run budget .single (opened (textReader source) [] budget 1) >>= fun x =>
        .ok (x.1, { x.2.record (.left (.unit :: x.2.path.drop 1) 0) with
          scopes := x.2.scopes.drop 1 }) := rfl
  have hleft : ∀ scopes : ScopePath,
      List.filterMap Event.diagnostic? [.left scopes 0] = [] := fun _ => rfl
  rw [parseDeclarationWithin, hrun]
  cases run budget .single (opened (textReader source) [] budget 1) with
  | error halt => simp [bind, Except.bind]
  | ok result =>
    simp [bind, Except.bind, pure, Except.pure, Session.events, Session.record, hleft,
      Prod.ext_iff, and_comm]

/-- A declaration is not parsed with a budget that small. -/
theorem budget_ge {budget : Nat}
    (h : run budget .single (opened (textReader ("int x " ++ suffix)) [] budget 1) =
      .ok (simple, s')) : ∃ k, budget = k + 5 := by
  obtain ⟨r₁, r₂, -, -, hint, hx⟩ := plain_words suffix
  rcases budget with _ | _ | budget
  · cases h
  · -- the type is read, but no name
    exact absurd ((bind_ok (hint 0 1)).symm.trans h) (by rintro ⟨⟩)
  rw [single_typed hint hx (.inr ⟨4, rfl⟩)] at h
  rcases budget with _ | _ | _ | k
  · cases h
  · cases h
  · cases h
  · exact ⟨k, rfl⟩

/-- Parentheses around the declared name change nothing but the chain, in which they stand in front,
and the places of what follows, as long as what is declared is not a function with a body. -/
theorem parseDeclaration_parenthesized {budget : Nat} {suffix : String} {simple : SimpleDeclaration}
    {first : InitDeclarator} {rest : List InitDeclarator} {faults : List Diagnostic}
    (h : parseDeclarationWithin budget ("int x " ++ suffix) = .ok (simple, faults))
    (hfirst : simple.declarators = first :: rest)
    (hname : first.declarator.qid = .ofIdentifier ⟨4, .identifier, "x"⟩)
    (hbody : first.init.isFunctionBody = false) :
    parseDeclarationWithin (budget + 2) ("int ( x ) " ++ suffix) = .ok
      ({ simple with declarators :=
          ⟨⟨.parenthesized ⟨4, .openParen, "("⟩ ⟨8, .closeParen, ")"⟩ ::
              first.declarator.chain.map (Production.shift 4), .ofIdentifier ⟨6, .identifier, "x"⟩⟩,
            first.init.shift 4, first.comma.shift 4⟩ :: rest.map (InitDeclarator.shift 4) },
        faults.map (Diagnostic.shift 4)) := by
  obtain ⟨d, init, comma⟩ := first
  rw [parseDeclarationWithin_eq_ok] at h
  obtain ⟨s', hrun, rfl⟩ := h
  obtain ⟨k, rfl⟩ := budget_ge hrun
  obtain ⟨r, s₁, s₂, hr, hsuffixes, hinit, hseparator⟩ := plain_read hrun hfirst hname hbody
  obtain ⟨q, hq, hgrouped⟩ := grouped_read suffix k
  obtain ⟨_, _, rfl, -⟩ := declaratorSeparator_ok hseparator
  cases hfirst
  -- the same is read further along
  have hmoved : (opened r [] (k + 3) 1).Moved 4 (opened q [] (k + 3) 1) := hr.moved (k := 4) hq
  have hshifts := run_shifts 4
  have hblind₁ := run_blind (k + 1)
  have hblind₂ := run_blind (k + 2)
  obtain ⟨t₁, hsuffixes', h₁⟩ := (hshifts (k + 1) _).moved (hblind₁.blind _) hmoved hsuffixes
  obtain ⟨t₂, hinit', h₂⟩ :=
    (variableInitializer_shifts (hshifts (k + 2)) true).moved inferInstance h₁ hinit
  obtain ⟨t', hseparator', h'⟩ :=
    (declaratorSeparator_shifts (hshifts (k + 2)) _ _ _).moved inferInstance h₂ hseparator
  obtain ⟨comma', rest', hresult, hanywhere⟩ := declaratorSeparator_ok hseparator'
  obtain ⟨rfl, rfl⟩ : comma.shift 4 = comma' ∧ rest.map (InitDeclarator.shift 4) = rest' := by
    simpa [SimpleDeclaration.extend, typed] using congrArg SimpleDeclaration.declarators hresult
  -- and it is read behind the parentheses as well
  let grouped := (d.shift 4).around parentheses (.ofIdentifier (nameAt 6))
  have hsuffixes'' : run (k + 3) (.suffixes ⟨parentheses, .ofIdentifier (nameAt 6)⟩ 1 false)
      (opened q [] (k + 3) 1) = .ok (grouped, t₁) := by
    have hdeeper : k + 1 ≤ k + 3 := by omega
    refine run_mono hdeeper _ _ _ _ ?_
    have haround := suffixes_around parentheses (.ofIdentifier (nameAt 6)) (k + 1)
      (Declarator.shift 4 ⟨[], .ofIdentifier (nameAt 4)⟩) 0 false
    exact (congrFun haround _).trans (map_eq_ok.2 ⟨d.shift 4, hsuffixes', rfl⟩)
  have hinitialized : initialized (fun r => run (k + 4) r) typed grouped t₁ =
      .ok (typed.extend (⟨grouped, init.shift 4, comma.shift 4⟩ ::
        rest.map (InitDeclarator.shift 4)), t') := by
    have hdeeper : k + 2 ≤ k + 4 := by omega
    refine (bind_ok (variableInitializer_mono (run_mono hdeeper) true _ _ _ hinit')).trans ?_
    exact declaratorSeparator_mono (run_mono hdeeper) _ _ _ _ _ _
      (hanywhere typed grouped (init.shift 4) rfl)
  rw [parseDeclarationWithin_eq_ok]
  refine ⟨t', ?_, ?_⟩
  · refine hgrouped.trans ((bind_ok hsuffixes'').trans (hinitialized.trans ?_))
    simp [SimpleDeclaration.extend, typed, grouped, Declarator.around, parentheses, nameAt,
      leftParen, rightParen]
  · rw [h'.twin.events]
    exact s'.diagnostics_shift

/-- The token of a name that is one identifier. -/
def QualifiedId.plain? : QualifiedId → Option Token
  | ⟨[], .identifier name⟩ => some name
  | _ => none

theorem QualifiedId.plain?_eq_some {qid : QualifiedId} {name : Token} (h : qid.plain? = some name) :
    qid = .ofIdentifier name := by
  unfold plain? at h
  split at h
  · cases h
    rfl
  · cases h

/-- What is asked of a declaration with one declarator: the declared name, and whether there is a
body. -/
def declaredWith (declared : SimpleDeclaration × List Diagnostic) :
    List (Option Token × Bool) × List Diagnostic :=
  (declared.1.declarators.map fun d => (d.declarator.qid.plain?, d.init.isFunctionBody), declared.2)

/-- Behind a function there may be an initializer and another declarator. -/
def pureSuffix : String := "() = 0, *y;"

theorem parseDeclaration_parenthesized_pure : ∃ simple first rest,
    parseDeclarationWithin 30 ("int x " ++ pureSuffix) = .ok (simple, []) ∧
    simple.declarators = first :: rest ∧ first.declarator.qid = .ofIdentifier ⟨4, .identifier, "x"⟩ ∧
    first.init.isFunctionBody = false ∧
    parseDeclarationWithin 32 ("int ( x ) " ++ pureSuffix) = .ok
      ({ simple with declarators :=
          ⟨⟨.parenthesized ⟨4, .openParen, "("⟩ ⟨8, .closeParen, ")"⟩ ::
              first.declarator.chain.map (Production.shift 4), .ofIdentifier ⟨6, .identifier, "x"⟩⟩,
            first.init.shift 4, first.comma.shift 4⟩ :: rest.map (InitDeclarator.shift 4) }, []) := by
  have hall : (parseDeclarationWithin 30 ("int x " ++ pureSuffix)).toOption.map declaredWith =
      some ([(some ⟨4, .identifier, "x"⟩, false), (some ⟨15, .identifier, "y"⟩, false)], []) := by
    decide +kernel
  obtain ⟨⟨simple, faults⟩, hrun, hvalues⟩ := Halt.of_toOption_map hall
  obtain ⟨hdeclarators, rfl⟩ := Prod.mk.inj hvalues
  obtain ⟨first, rest, hfirst, hvalue, -⟩ := List.map_eq_cons_iff.1 hdeclarators
  obtain ⟨hplain, hbody⟩ := Prod.mk.inj hvalue
  have hname := QualifiedId.plain?_eq_some hplain
  exact ⟨simple, first, rest, hrun, hfirst, hname, hbody,
    parseDeclaration_parenthesized hrun hfirst hname hbody⟩

/-! ## Bodies -/

/-- Parameters and a body. -/
def bodySuffix : String := "() {}"

/-- The body of a function is no body behind parentheses. -/
theorem parseDeclaration_parenthesized_body : ¬ ∀ (suffix : String) (simple : SimpleDeclaration)
    (first : InitDeclarator) (rest : List InitDeclarator),
    parseDeclaration ("int x " ++ suffix) 0 = .ok (simple, []) →
    simple.declarators = first :: rest →
    first.declarator.qid = .ofIdentifier ⟨4, .identifier, "x"⟩ →
    ∃ simple' first' rest', parseDeclaration ("int ( x ) " ++ suffix) 0 = .ok (simple', []) ∧
      simple'.declarators = first' :: rest' ∧ rest'.length = rest.length ∧
      first'.init.isFunctionBody = first.init.isFunctionBody := by
  intro h
  have hplain : (parseDeclaration ("int x " ++ bodySuffix) 0).toOption.map declaredWith =
      some ([(some ⟨4, .identifier, "x"⟩, true)], []) := by
    decide +kernel
  have hgrouped : (parseDeclaration ("int ( x ) " ++ bodySuffix) 0).toOption.map declaredWith =
      some ([(some ⟨6, .identifier, "x"⟩, false)], []) := by
    decide +kernel
  obtain ⟨⟨simple, faults⟩, hrun, hvalues⟩ := Halt.of_toOption_map hplain
  obtain ⟨hdeclarators, rfl⟩ := Prod.mk.inj hvalues
  obtain ⟨first, hfirst, hvalue⟩ := List.map_eq_singleton_iff.1 hdeclarators
  obtain ⟨hname, hbody⟩ := Prod.mk.inj hvalue
  obtain ⟨simple', first', rest', hrun', hfirst', -, hsame⟩ :=
    h bodySuffix simple first [] hrun hfirst (QualifiedId.plain?_eq_some hname)
  rw [hrun'] at hgrouped
  have hdeclarators' := (Prod.mk.inj (Option.some.inj hgrouped)).1
  rw [hfirst'] at hdeclarators'
  have hbody' := (Prod.mk.inj (List.cons.inj hdeclarators').1).2
  exact Bool.noConfusion (hbody'.symm.trans (hsame.trans hbody))

end CppDecl
