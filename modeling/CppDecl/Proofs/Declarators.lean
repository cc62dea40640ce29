import CppDecl.Parsing
import CppDecl.Proofs.Effects
import CppDecl.Proofs.Words

/-!
# Declarators are composed as in C

A declarator is a core, the name or another declarator in parentheses, with pointers and references
in front of it, and arrays and functions behind it (`Written`).  What it says about its name is read
from the name outwards: what is behind a core binds it more closely than what is in front of it
(`Written.flat`).

The parser reads a declarator from left to right and has a chain of what is said so far.  What is in
front is put at the head of the chain.  A declarator in parentheses is parsed with this chain, and
all that it adds comes before it.  What is behind goes in between.  So `declarator_written` says
what a declarator adds to any chain, and it goes by induction on the declarator.  The depth of calls
that it needs is bounded by the number of words, since each call consumes one of them at least.
-/

namespace CppDecl

/-! ## Declarators of C -/

/-- A numeric literal, as a single word. -/
structure Numeral where
  /-- The text. -/
  text : String
  /-- It is read as one token. -/
  single : (Token.word .numericLiteral text).Single

/-- A qualifier of a pointer. -/
inductive Cv where
  | const
  | volatile
  deriving Repr, DecidableEq

/-- The word for a qualifier. -/
def Cv.text : Cv → String
  | .const => "const"
  | .volatile => "volatile"

/-- What stands in front of a declarator's core. -/
inductive Front where
  /-- A pointer with its qualifiers. -/
  | pointer (qualifiers : List Cv)
  /-- A reference. -/
  | reference
  /-- A reference to what may be moved from. -/
  | rvalueReference

/-- What stands behind a declarator's core. -/
inductive Back where
  /-- An array, with its bound if it has one. -/
  | array (bound? : Option Numeral)
  /-- A function without parameters. -/
  | function

/-- A declarator as it is written.  Its core is the name, or another declarator in parentheses. -/
inductive Written where
  /-- The core is the name. -/
  | name (fronts : List Front) (backs : List Back)
  /-- The core is in parentheses. -/
  | around (fronts : List Front) (inner : Written) (backs : List Back)

/-- What a production says about the declared name. -/
inductive Layer where
  | parenthesized
  | pointer
  | reference
  | rvalueReference
  | qualifier (cv : Cv)
  | array (bound? : Option String)
  | function
  deriving Repr, DecidableEq

/-- The words in front of a core. -/
def Front.words : Front → List Token
  | .pointer qualifiers =>
    .word .star "*" :: qualifiers.map fun cv => .word .identifier cv.text
  | .reference => [.word .singleAmpersand "&"]
  | .rvalueReference => [.word .doubleAmpersand "&&"]

/-- The words behind a core. -/
def Back.words : Back → List Token
  | .array none => [.word .openSquare "[", .word .closeSquare "]"]
  | .array (some n) =>
    [.word .openSquare "[", .word .numericLiteral n.text, .word .closeSquare "]"]
  | .function => [.word .openParen "(", .word .closeParen ")"]

/-- The words of a declarator of `x`. -/
def Written.words : Written → List Token
  | .name fronts backs =>
    fronts.flatMap Front.words ++ .word .identifier "x" :: backs.flatMap Back.words
  | .around fronts inner backs =>
    fronts.flatMap Front.words ++ .word .openParen "(" ::
      (inner.words ++ .word .closeParen ")" :: backs.flatMap Back.words)

/-- What the words in front of a core say, in the order in which they are written. -/
def Front.layers : Front → List Layer
  | .pointer qualifiers => .pointer :: qualifiers.map .qualifier
  | .reference => [.reference]
  | .rvalueReference => [.rvalueReference]

/-- What the words behind a core say. -/
def Back.layer : Back → Layer
  | .array bound? => .array (bound?.map Numeral.text)
  | .function => .function

/-- What a declarator says about its name, from the name outwards: first its core, then what is
behind the core, and then what is in front of it, backwards. -/
def Written.flat : Written → List Layer
  | .name fronts backs => backs.map Back.layer ++ (fronts.flatMap Front.layers).reverse
  | .around fronts inner backs =>
    .parenthesized :: inner.flat ++ (backs.map Back.layer ++ (fronts.flatMap Front.layers).reverse)

/-- An expression is the bound of an array: nothing, or a literal. -/
def Bounds : Option String → Expression → Prop
  | none, .empty => True
  | some n, .range start stop => start = stop ∧ start.kind = .numericLiteral ∧ start.text = n
  | _, _ => False

/-- A production says what it should. -/
def Layer.Made : Layer → Production → Prop
  | .parenthesized, .parenthesized opener closer =>
    opener.kind = .openParen ∧ closer.kind = .closeParen
  | .pointer, .pointerTo nested punc => nested = [] ∧ punc.kind = .star
  | .reference, .pointerTo nested punc => nested = [] ∧ punc.kind = .singleAmpersand
  | .rvalueReference, .pointerTo nested punc => nested = [] ∧ punc.kind = .doubleAmpersand
  | .qualifier cv, .qualifier keyword => keyword.isWord cv.text = true
  | .array bound?, .arrayOf opener closer size =>
    opener.kind = .openSquare ∧ closer.kind = .closeSquare ∧ Bounds bound? size
  | .function, .function f =>
    f.params.openPunc.kind = .openParen ∧ f.params.closePunc.kind = .closeParen ∧
      f.params.params = [] ∧ f.qualifiers = [] ∧ f.arrow = .absent ∧ f.trailing = .empty
  | _, _ => False

/-- The source that declares a name as an `int`. -/
def Written.source (d : Written) : String :=
  joined (.word .identifier "int" :: (d.words ++ [.word .semicolon ";"]))

/-! ## Spelled words -/

/-- The tokens are spelled as the words are. -/
def Spells (words ts : List Token) : Prop := ts.map Token.spelling = words.map Token.spelling

section

variable {words others ts : List Token} {w : Token}

theorem Spells.eq_nil (h : Spells [] ts) : ts = [] := List.map_eq_nil_iff.1 h

theorem Spells.cons (h : Spells (w :: words) ts) : ∃ t us, ts = t :: us ∧ t.kind = w.kind ∧
    t.text = w.text ∧ Spells words us := by
  obtain ⟨t, us, rfl, hhead, hrest⟩ := List.map_eq_cons_iff.1 h
  exact ⟨t, us, rfl, congrArg Prod.fst hhead, congrArg Prod.snd hhead, hrest⟩

theorem Spells.append (h : Spells (words ++ others) ts) : ∃ us vs, ts = us ++ vs ∧
    Spells words us ∧ Spells others vs := by
  rw [Spells, List.map_append] at h
  obtain ⟨us, vs, rfl, hus, hvs⟩ := List.map_eq_append_iff.1 h
  exact ⟨us, vs, rfl, hus, hvs⟩

theorem Spells.length_eq (h : Spells words ts) : ts.length = words.length := by
  have hlength := congrArg List.length h
  rwa [List.length_map, List.length_map] at hlength

end

/-! ## Parsing given tokens -/

namespace Grammar

open Parse
open Session (Onward Upcoming)

variable {E : Prop} {s₀ s s' : Session} {t u : Token} {depth : Nat} {us ts : List Token}

/-- Whether a token can begin a nested name. -/
def beginsName (t : Token) : Bool := t.kind == .identifier && !notNames.contains t.text

theorem nestedNames_none (h : Onward E s₀ us (t :: ts) s) (ht : beginsName t = false) :
    Runs (run (depth + 1) (.nestedNames [])) s fun names s' =>
      names = [] ∧ Onward E s₀ us (t :: ts) s' := by
  refine .bind (.take h ?_)
  intro s₁ h₁
  rw [if_pos (by simpa [beginsName, ← Bool.not_eq_true, imp_iff_not_or] using ht)]
  refine .bind (.giveBack h₁ ?_)
  intro s₂ h₂
  exact .pure ⟨rfl, h₂⟩

theorem specialName_none (h : Onward E s₀ us (t :: ts) s) (htilde : t.kind ≠ .tilde)
    (hoperator : t.isWord "operator" = false) :
    Runs specialName s fun unqual s' => unqual = .empty ∧ Onward E s₀ us (t :: ts) s' := by
  refine .bind (.take h ?_)
  intro s₁ h₁
  rw [if_neg htilde, hoperator]
  refine .bind (.giveBack h₁ ?_)
  intro s₂ h₂
  exact .pure ⟨rfl, h₂⟩

/-- Where no name begins, there is none. -/
theorem qualifiedId_none (h : Onward E s₀ us (t :: ts) s) (ht : beginsName t = false)
    (htilde : t.kind ≠ .tilde) (hoperator : t.isWord "operator" = false) :
    Runs (qualifiedId (fun r => run (depth + 1) r) .allowIncomplete) s fun qid s' =>
      qid = .empty ∧ Onward E s₀ us (t :: ts) s' := by
  refine .bind ((nestedNames_none h ht).mono ?_)
  rintro _ s₁ ⟨rfl, h₁⟩
  simp only [show (splitLast []).unqual.isEmpty = true from rfl, if_true]
  refine .bind ((specialName_none h₁ htilde hoperator).mono ?_)
  rintro _ s₂ ⟨rfl, h₂⟩
  exact .bind (.pure (.pure ⟨rfl, h₂⟩))

/-- A name that is one identifier. -/
theorem qualifiedId_name {need : Completeness} (h : Onward E s₀ us (t :: u :: ts) s)
    (ht : beginsName t = true) (hdecltype : t.text ≠ "decltype") (hangle : u.kind ≠ .openAngle)
    (hcolon : u.kind ≠ .doubleColon) :
    Runs (qualifiedId (fun r => run (depth + 1) r) need) s fun qid s' =>
      qid = .ofIdentifier t ∧ Onward E s₀ (us ++ [t]) (u :: ts) s' := by
  have hnames : Runs (run (depth + 1) (.nestedNames [])) s fun names s' =>
      names = [.named t .absent .absent [] .absent] ∧ Onward E s₀ (us ++ [t]) (u :: ts) s' := by
    refine .bind (.take h ?_)
    intro s₁ h₁
    rw [if_neg (by simpa [beginsName] using ht)]
    refine .bind (.take h₁ ?_)
    intro s₂ h₂
    rw [if_neg hdecltype]
    refine .bind (.get ?_)
    rw [if_neg (by simp [hangle])]
    refine .bind (.giveBack h₂ ?_)
    intro s₃ h₃
    refine .bind (.take h₃ ?_)
    intro s₄ h₄
    rw [if_neg hcolon]
    refine .bind (.giveBack h₄ ?_)
    intro s₅ h₅
    exact .pure ⟨rfl, h₅⟩
  refine .bind (hnames.mono ?_)
  rintro _ s₁ ⟨rfl, h₁⟩
  have hlacks : lacks need (.ofIdentifier t) = false := by cases need <;> rfl
  simp only [show splitLast [.named t .absent .absent [] .absent] = .ofIdentifier t from rfl,
    show (QualifiedId.ofIdentifier t).unqual.isEmpty = false from rfl, Bool.false_eq_true, if_false]
  refine .bind (.pure ?_)
  rw [hlacks]
  exact .pure ⟨rfl, h₁⟩

/-! ## What stands behind a core -/

/-- The token ends a declarator. -/
def Ends (t : Token) : Prop := t.kind = .semicolon ∨ t.kind = .closeParen

theorem expression_none (h : Onward E s₀ us (t :: ts) s) (ht : t.kind = .closeSquare) :
    Runs (run (depth + 1) (.expression true)) s fun range s' =>
      range = (.absent, .absent) ∧ Onward E s₀ us (t :: ts) s' := by
  refine .bind (.take h ?_)
  intro s₁ h₁
  have hnone : operand (fun r => run depth r) t = pure none := by
    unfold operand
    rw [ht]
  rw [hnone]
  refine .bind (.pure (.bind (.giveBack h₁ ?_)))
  intro s₂ h₂
  exact .pure ⟨rfl, h₂⟩

theorem expression_number (h : Onward E s₀ us (t :: u :: ts) s) (ht : t.kind = .numericLiteral)
    (hu : u.kind = .closeSquare) :
    Runs (run (depth + 1) (.expression true)) s fun range s' =>
      range = (t, t) ∧ Onward E s₀ (us ++ [t]) (u :: ts) s' := by
  refine .bind (.take h ?_)
  intro s₁ h₁
  have hsome : operand (fun r => run depth r) t = pure (some t) := by
    unfold operand
    rw [ht]
  rw [hsome]
  refine .bind (.pure (.bind (.bind (.take h₁ ?_))))
  intro s₂ h₂
  simp only [hu]
  refine .bind (.get ?_)
  refine .bind (.giveBack h₂ ?_)
  intro s₃ h₃
  exact .pure (.pure ⟨rfl, h₃⟩)

/-- The bound of an array, if there is one. -/
theorem expression_bound {bound? : Option Numeral} {ws : List Token} (hws : Spells
      (bound?.toList.map fun n => .word .numericLiteral n.text) ws)
    (h : Onward E s₀ us (ws ++ t :: ts) s) (ht : t.kind = .closeSquare) :
    Runs (run (depth + 1) (.expression true)) s fun range s' =>
      Bounds (bound?.map Numeral.text) (.between range.1 range.2) ∧
        Onward E s₀ (us ++ ws) (t :: ts) s' := by
  cases bound? with
  | none =>
    obtain rfl := hws.eq_nil
    refine (expression_none h ht).mono ?_
    rintro _ s₁ ⟨rfl, h₁⟩
    exact ⟨trivial, by simpa using h₁⟩
  | some n =>
    obtain ⟨number, _, rfl, hkind, htext, hws⟩ := hws.cons
    obtain rfl := hws.eq_nil
    refine (expression_number h hkind ht).mono ?_
    rintro _ s₁ ⟨rfl, h₁⟩
    have hpresent : number.isPresent = true := by simp [Token.isPresent, hkind, Token.word]
    rw [Expression.between, if_pos hpresent]
    exact ⟨⟨rfl, hkind, htext⟩, h₁⟩

/-- Parentheses with nothing between them make a function without parameters. -/
theorem functionDeclarator_empty {opener closer : Token}
    (h : Onward E s₀ us (opener :: closer :: t :: ts) s) (hopener : opener.kind = .openParen)
    (hcloser : closer.kind = .closeParen) (ht : Ends t ∨ t.kind = .openParen ∨ t.kind = .openSquare) :
    Runs (functionDeclarator (fun r => run (depth + 1) r)) s fun f? s' =>
      f? = some ⟨⟨opener, closer, []⟩, [], .absent, .empty⟩ ∧
        Onward E s₀ (us ++ [opener, closer]) (t :: ts) s' := by
  refine .bind (.look h ?_)
  intro s₁ h₁
  rw [if_neg (by simp [hopener])]
  refine .bind (.unmute h₁ ?_)
  intro s₂ h₂
  have hlist : Runs (parameterList (fun r => run (depth + 1) r) false) s₂ fun list s' =>
      list = ⟨opener, closer, []⟩ ∧ Onward E s₀ (us ++ [opener] ++ [closer]) (t :: ts) s' := by
    refine .bind (.take h₂ ?_)
    intro s₃ h₃
    refine .bind (.unmute h₃ ?_)
    intro s₄ h₄
    refine .bind (.take h₄ ?_)
    intro s₅ h₅
    rw [if_pos hcloser]
    exact .pure ⟨rfl, h₅⟩
  refine .bind (hlist.mono ?_)
  rintro _ s₃ ⟨rfl, h₃⟩
  have hqualifiers : Runs (run (depth + 1) (.functionQualifiers [])) s₃ fun qualifiers s' =>
      qualifiers = [] ∧ Onward E s₀ (us ++ [opener] ++ [closer]) (t :: ts) s' := by
    refine .bind (.take h₃ ?_)
    intro s₄ h₄
    have hnone : isFunctionQualifier t = false := by
      unfold isFunctionQualifier
      rcases ht with (ht | ht) | ht | ht <;> rw [ht]
    rw [hnone]
    refine .bind (.giveBack h₄ ?_)
    intro s₅ h₅
    exact .pure ⟨rfl, h₅⟩
  refine .bind (hqualifiers.mono ?_)
  rintro _ s₄ ⟨rfl, h₄⟩
  exact .pure ⟨rfl, by simpa using h₄⟩

theorem trailingReturn_none {f : FunctionDeclarator} (h : Onward E s₀ us (t :: ts) s)
    (ht : t.kind ≠ .arrow) :
    Runs (trailingReturn (fun r => run depth r) f) s fun f' s' =>
      f' = f ∧ Onward E s₀ us (t :: ts) s' := by
  refine .bind (.take h ?_)
  intro s₁ h₁
  rw [if_pos ht]
  refine .bind (.giveBack h₁ ?_)
  intro s₂ h₂
  exact .pure ⟨rfl, h₂⟩

theorem insertAt_length (front outer : Chain) (production : Production) :
    Chain.insertAt (front ++ outer) front.length production = front ++ [production] ++ outer := by
  simp [Chain.insertAt]

/-- An array or a function is put in behind what is closer to the name. -/
theorem suffixes_back (b : Back) {ws : List Token} {front outer : Chain} {qid : QualifiedId}
    {Q : Declarator → Session → Prop} (hws : Spells b.words ws)
    (h : Onward E s₀ us (ws ++ t :: ts) s) (ht : Ends t ∨ t.kind = .openParen ∨ t.kind = .openSquare)
    (hQ : ∀ p s', b.layer.Made p → Onward E s₀ (us ++ ws) (t :: ts) s' →
      Runs (run (depth + 1) (.suffixes ⟨front ++ [p] ++ outer, qid⟩ (front.length + 1) false)) s' Q) :
    Runs (run (depth + 2) (.suffixes ⟨front ++ outer, qid⟩ front.length false)) s Q := by
  have harrow : t.kind ≠ .arrow := by rcases ht with (ht | ht) | ht | ht <;> simp [ht]
  cases b with
  | array bound? =>
    obtain ⟨opener, rest, rfl, hopener, hrest⟩ : ∃ opener rest, ws = opener :: rest ∧
        opener.kind = .openSquare ∧ Spells ((bound?.toList.map fun n =>
          .word .numericLiteral n.text) ++ [.word .closeSquare "]"]) rest := by
      cases bound? <;> obtain ⟨opener, rest, rfl, hopener, -, hrest⟩ := hws.cons <;>
        exact ⟨opener, rest, rfl, hopener, hrest⟩
    obtain ⟨bounds, _, rfl, hbounds, hclosers⟩ := hrest.append
    obtain ⟨closer, _, rfl, hcloser, -, hclosers⟩ := hclosers.cons
    obtain rfl := hclosers.eq_nil
    refine .bind (.take h ?_)
    intro s₁ h₁
    simp only [show opener.kind = .openSquare from hopener]
    refine .bind (.bind (.unmute h₁ ?_))
    intro s₂ h₂
    refine .pure (.bind ((expression_bound hbounds (by simpa using h₂) hcloser).mono ?_))
    rintro ⟨start, stop⟩ s₃ ⟨hmade, h₃⟩
    refine .bind (.bind (.take h₃ ?_))
    intro s₄ h₄
    rw [if_pos (by rw [show closer.kind = .closeSquare from hcloser, hopener]; rfl)]
    refine .pure ?_
    simp only [Option.isSome_some, if_true, Option.getD_some]
    rw [insertAt_length]
    exact hQ _ s₄ ⟨hopener, hcloser, hmade⟩ (by simpa using h₄)
  | function =>
    obtain ⟨opener, _, rfl, hopener, -, hws⟩ := hws.cons
    obtain ⟨closer, _, rfl, hcloser, -, hws⟩ := hws.cons
    obtain rfl := hws.eq_nil
    refine .bind (.take h ?_)
    intro s₁ h₁
    simp only [show opener.kind = .openParen from hopener]
    refine .bind (.bind (.unmute h₁ ?_))
    intro s₂ h₂
    refine .pure (.bind (.giveBack h₂ ?_))
    intro s₃ h₃
    refine .bind ((functionDeclarator_empty h₃ hopener hcloser ht).mono ?_)
    rintro _ s₄ ⟨rfl, h₄⟩
    refine .bind ((trailingReturn_none h₄ harrow).mono ?_)
    rintro _ s₅ ⟨rfl, h₅⟩
    rw [insertAt_length]
    exact hQ _ s₅ ⟨hopener, hcloser, rfl, rfl, rfl, rfl⟩ h₅

/-- Behind one array or function there is another one, or the end. -/
theorem next_of_backs {backs : List Back} {ws : List Token}
    (hws : Spells (backs.flatMap Back.words) ws) (ht : Ends t) (rest : List Token) :
    ∃ u vs, ws ++ t :: rest = u :: vs ∧
      (Ends u ∨ u.kind = .openParen ∨ u.kind = .openSquare) := by
  cases backs with
  | nil =>
    obtain rfl := hws.eq_nil
    exact ⟨t, rest, rfl, .inl ht⟩
  | cons b backs =>
    rcases b with ⟨_ | n⟩ | _ <;> obtain ⟨u, vs, rfl, hu, -⟩ := hws.cons <;>
      exact ⟨u, _, rfl, by simp [hu, Token.word]⟩

theorem Back.two_le_length (b : Back) : 2 ≤ b.words.length := by
  rcases b with ⟨_ | n⟩ | _ <;> simp [Back.words]

/-- What stands behind a core is put in from left to right. -/
theorem suffixes_backs (backs : List Back) (front outer : Chain) {depth : Nat} {us ws : List Token}
    {s : Session} {qid : QualifiedId} (hws : Spells (backs.flatMap Back.words) ws)
    (h : Onward E s₀ us (ws ++ t :: ts) s) (ht : Ends t) (hdepth : ws.length < depth) :
    Runs (run depth (.suffixes ⟨front ++ outer, qid⟩ front.length false)) s fun d s' =>
      ∃ new, List.Forall₂ Layer.Made (backs.map Back.layer) new ∧ d = ⟨front ++ new ++ outer, qid⟩ ∧
        Onward E s₀ (us ++ ws) (t :: ts) s' := by
  induction backs generalizing front depth us ws s with
  | nil =>
    obtain rfl := hws.eq_nil
    obtain ⟨depth, rfl⟩ := Nat.exists_eq_succ_of_ne_zero (Nat.ne_of_gt hdepth)
    refine .bind (.take h ?_)
    intro s₁ h₁
    have hend : t.kind ≠ .openSquare ∧ t.kind ≠ .openParen := by rcases ht with ht | ht <;> simp [ht]
    split
    · exact absurd ‹_› hend.1
    · exact absurd ‹_› hend.2
    refine .bind (.giveBack h₁ ?_)
    intro s₂ h₂
    exact .pure ⟨[], .nil, by simp, by simpa using h₂⟩
  | cons b backs ih =>
    rw [List.flatMap_cons] at hws
    obtain ⟨ws, vs, rfl, hb, hbacks⟩ := hws.append
    obtain ⟨u, rest, hnext, hu⟩ := next_of_backs hbacks ht ts
    have htwo := Back.two_le_length b
    rw [← hb.length_eq] at htwo
    rw [List.length_append] at hdepth
    obtain ⟨depth, rfl⟩ : ∃ d, depth = d + 2 := ⟨depth - 2, by omega⟩
    rw [List.append_assoc, hnext] at h
    refine suffixes_back b hb h hu ?_
    intro p s₁ hp h₁
    rw [← hnext] at h₁
    have hlength : front.length + 1 = (front ++ [p]).length := by simp
    rw [hlength]
    refine (ih _ hbacks h₁ (by omega)).mono ?_
    rintro _ s₂ ⟨new, hnew, rfl, h₂⟩
    exact ⟨p :: new, .cons hp hnew, by simp, by simpa using h₂⟩

/-! ## What stands in front of a core -/

section

variable {chain : Chain} {form : DeclaratorForm} {allowQualifier : Bool}
variable {Q : Declarator → Session → Prop}

/-- A pointer or a reference is put in front. -/
theorem declarator_pointer (h : Onward E s₀ us (t :: ts) s) (ht : isPointerKind t.kind = true)
    (hQ : ∀ s', Onward E s₀ (us ++ [t]) ts s' → Runs (run (depth + 1)
      (.declarator (.pointerTo [] t :: chain) form (t.kind == .star))) s' Q) :
    Runs (run (depth + 2) (.declarator chain form allowQualifier)) s Q := by
  have hkind : t.kind = .star ∨ t.kind = .singleAmpersand ∨ t.kind = .doubleAmpersand := by
    simpa [isPointerKind, or_assoc] using ht
  have hnone : beginsName t = false ∧ t.kind ≠ .tilde ∧ t.isWord "operator" = false ∧
      t.kind ≠ .openParen := by
    rcases hkind with hkind | hkind | hkind <;> simp [beginsName, Token.isWord, hkind]
  obtain ⟨hname, htilde, hoperator, hparen⟩ := hnone
  refine .bind ((qualifiedId_none h hname htilde hoperator).mono ?_)
  rintro _ s₁ ⟨rfl, h₁⟩
  rw [if_neg (by simp [QualifiedId.isComplete, QualifiedId.empty, Unqualified.isEmpty])]
  refine .bind (.take h₁ ?_)
  intro s₂ h₂
  rw [if_neg hparen]
  simp only [show QualifiedId.empty.nested.isEmpty = true from rfl, Bool.not_true, Bool.false_and,
    Bool.false_eq_true, if_false, ht, if_true]
  refine .bind (.unmute h₂ ?_)
  intro s₃ h₃
  exact hQ s₃ h₃

/-- A qualifier behind a pointer is put in front. -/
theorem declarator_qualifier {cv : Cv} (h : Onward E s₀ us (t :: ts) s) (ht : t.isWord cv.text = true)
    (hQ : ∀ s', Onward E s₀ (us ++ [t]) ts s' → Runs (run (depth + 1)
      (.declarator (.qualifier t :: chain) form true)) s' Q) :
    Runs (run (depth + 2) (.declarator chain form true)) s Q := by
  obtain ⟨hkind, htext⟩ : t.kind = .identifier ∧ t.text = cv.text := by
    simpa [Token.isWord] using ht
  have hname : beginsName t = false := by
    cases cv <;> simp [beginsName, hkind, htext, Cv.text, notNames]
  have hoperator : t.isWord "operator" = false := by
    cases cv <;> simp [Token.isWord, hkind, htext, Cv.text]
  refine .bind ((qualifiedId_none h hname (by simp [hkind]) hoperator).mono ?_)
  rintro _ s₁ ⟨rfl, h₁⟩
  rw [if_neg (by simp [QualifiedId.isComplete, QualifiedId.empty, Unqualified.isEmpty])]
  refine .bind (.take h₁ ?_)
  intro s₂ h₂
  simp only [show QualifiedId.empty.nested.isEmpty = true from rfl, Bool.not_true, Bool.false_and,
    Bool.false_eq_true, if_false, hkind, reduceCtorEq,
    show isPointerKind TokenKind.identifier = false from rfl, if_true]
  refine .bind (.unmute h₂ ?_)
  intro s₃ h₃
  exact hQ s₃ h₃

/-- The qualifiers of a pointer are put in front, one after the other. -/
theorem declarator_qualifiers (cvs : List Cv) {us ws : List Token} {s : Session} {chain : Chain}
    (hws : Spells (cvs.map fun cv => .word .identifier cv.text) ws) (h : Onward E s₀ us (ws ++ ts) s)
    (hQ : ∀ new s', List.Forall₂ Layer.Made (cvs.map Layer.qualifier).reverse new →
      Onward E s₀ (us ++ ws) ts s' →
      Runs (run (depth + 1) (.declarator (new ++ chain) form true)) s' Q) :
    Runs (run (depth + 1 + ws.length) (.declarator chain form true)) s Q := by
  induction cvs generalizing us ws s chain with
  | nil =>
    obtain rfl := hws.eq_nil
    exact hQ [] s .nil (by simpa using h)
  | cons cv cvs ih =>
    obtain ⟨t, ws, rfl, hkind, htext, hws⟩ := hws.cons
    have hword : t.isWord cv.text = true := by
      simpa [Token.isWord, Token.word] using And.intro hkind htext
    rw [List.length_cons, show depth + 1 + (ws.length + 1) = depth + ws.length + 2 by omega]
    refine declarator_qualifier h hword ?_
    intro s₁ h₁
    rw [Nat.add_right_comm]
    refine ih hws h₁ ?_
    intro new s₂ hnew h₂
    have hmade : List.Forall₂ Layer.Made ((cv :: cvs).map Layer.qualifier).reverse
        (new ++ [.qualifier t]) := by
      rw [List.map_cons, List.reverse_cons]
      exact List.rel_append hnew (.cons hword .nil)
    have hthere := hQ _ s₂ hmade (by simpa using h₂)
    rwa [List.append_assoc] at hthere

theorem declarator_front (f : Front) {us ws : List Token} {s : Session} {chain : Chain}
    {allowQualifier : Bool} (hws : Spells f.words ws) (h : Onward E s₀ us (ws ++ ts) s)
    (hQ : ∀ new allowQualifier s', List.Forall₂ Layer.Made f.layers.reverse new →
      Onward E s₀ (us ++ ws) ts s' →
      Runs (run (depth + 1) (.declarator (new ++ chain) form allowQualifier)) s' Q) :
    Runs (run (depth + 1 + ws.length) (.declarator chain form allowQualifier)) s Q := by
  cases f with
  | pointer cvs =>
    obtain ⟨t, cs, rfl, hkind, -, hcs⟩ := hws.cons
    replace hkind : t.kind = .star := hkind
    rw [List.length_cons, show depth + 1 + (cs.length + 1) = depth + cs.length + 2 by omega]
    refine declarator_pointer h (by simp [isPointerKind, hkind]) ?_
    intro s₁ h₁
    rw [hkind, Nat.add_right_comm]
    refine declarator_qualifiers cvs hcs h₁ ?_
    intro new s₂ hnew h₂
    have hmade : List.Forall₂ Layer.Made (Front.pointer cvs).layers.reverse
        (new ++ [.pointerTo [] t]) := by
      rw [Front.layers, List.reverse_cons]
      exact List.rel_append hnew (.cons ⟨rfl, hkind⟩ .nil)
    have hthere := hQ _ true s₂ hmade (by simpa using h₂)
    rwa [List.append_assoc] at hthere
  | reference | rvalueReference =>
    obtain ⟨t, _, rfl, hkind, -, hws⟩ := hws.cons
    obtain rfl := hws.eq_nil
    refine declarator_pointer h (by rw [hkind]; rfl) ?_
    intro s₁ h₁
    exact hQ [.pointerTo [] t] _ s₁ (.cons ⟨rfl, hkind⟩ .nil) h₁

/-- What stands in front of a core is put in front, one after the other. -/
theorem declarator_fronts (fronts : List Front) {us ws : List Token} {s : Session} {chain : Chain}
    {allowQualifier : Bool} (hws : Spells (fronts.flatMap Front.words) ws)
    (h : Onward E s₀ us (ws ++ ts) s)
    (hQ : ∀ new allowQualifier s',
      List.Forall₂ Layer.Made (fronts.flatMap Front.layers).reverse new →
      Onward E s₀ (us ++ ws) ts s' →
      Runs (run (depth + 1) (.declarator (new ++ chain) form allowQualifier)) s' Q) :
    Runs (run (depth + 1 + ws.length) (.declarator chain form allowQualifier)) s Q := by
  induction fronts generalizing us ws s chain allowQualifier with
  | nil =>
    obtain rfl := hws.eq_nil
    exact hQ [] _ s .nil (by simpa using h)
  | cons f fronts ih =>
    rw [List.flatMap_cons] at hws
    obtain ⟨ws, vs, rfl, hf, hfronts⟩ := hws.append
    rw [List.append_assoc] at h
    rw [List.length_append, show depth + 1 + (ws.length + vs.length) =
      depth + vs.length + 1 + ws.length by omega]
    refine declarator_front f hf h ?_
    intro new allowQualifier s₁ hnew h₁
    rw [Nat.add_right_comm]
    refine ih hfronts h₁ ?_
    intro new' allowQualifier' s₂ hnew' h₂
    rw [List.append_assoc] at h₂
    have hmade : List.Forall₂ Layer.Made ((f :: fronts).flatMap Front.layers).reverse
        (new' ++ new) := by
      rw [List.flatMap_cons, List.reverse_append]
      exact List.rel_append hnew' hnew
    have hthere := hQ _ allowQualifier' s₂ hmade h₂
    rwa [List.append_assoc] at hthere

/-- A name is followed by what stands behind it. -/
theorem declarator_name (h : Onward E s₀ us (t :: u :: ts) s) (ht : t.isWord "x" = true)
    (hangle : u.kind ≠ .openAngle) (hcolon : u.kind ≠ .doubleColon) (hform : form.named = true)
    (hQ : ∀ s', Onward E s₀ (us ++ [t]) (u :: ts) s' →
      Runs (run (depth + 1) (.suffixes ⟨chain, .ofIdentifier t⟩ 0 false)) s' Q) :
    Runs (run (depth + 2) (.declarator chain form allowQualifier)) s Q := by
  obtain ⟨hkind, htext⟩ : t.kind = .identifier ∧ t.text = "x" := by simpa [Token.isWord] using ht
  have hname : beginsName t = true := by simp [beginsName, hkind, htext, notNames]
  refine .bind ((qualifiedId_name h hname (by simp [htext]) hangle hcolon).mono ?_)
  rintro _ s₁ ⟨rfl, h₁⟩
  simp only [show (QualifiedId.ofIdentifier t).isComplete = true from rfl, if_true, hform,
    Bool.not_true, Bool.false_eq_true, if_false]
  exact hQ s₁ h₁

/-- Where a name is needed, a parenthesis holds an inner declarator. -/
theorem declarator_paren (h : Onward E s₀ us (t :: ts) s) (ht : t.kind = .openParen)
    (hform : form.anonymous = false)
    (hQ : ∀ s', Onward E s₀ (us ++ [t]) ts s' →
      Runs (innerDeclarator (fun r => run (depth + 1) r) chain form t) s' Q) :
    Runs (run (depth + 2) (.declarator chain form allowQualifier)) s Q := by
  refine .bind ((qualifiedId_none h (by simp [beginsName, ht]) (by simp [ht])
    (by simp [Token.isWord, ht])).mono ?_)
  rintro _ s₁ ⟨rfl, h₁⟩
  rw [if_neg (by simp [QualifiedId.isComplete, QualifiedId.empty, Unqualified.isEmpty])]
  refine .bind (.take h₁ ?_)
  intro s₂ h₂
  rw [if_pos ht]
  simp only [show QualifiedId.empty.nested.isEmpty = true from rfl, Bool.not_true,
    Bool.false_eq_true, if_false, hform]
  refine .bind (.unmute h₂ ?_)
  intro s₃ h₃
  exact hQ s₃ h₃

end

/-! ## Whole declarators -/

/-- A declarator puts what it says in front of what is said further out. -/
theorem declarator_written (d : Written) {depth : Nat} {us ws ts : List Token} {s : Session}
    {chain : Chain} {allowQualifier : Bool} (hws : Spells d.words ws)
    (h : Onward E s₀ us (ws ++ t :: ts) s) (ht : Ends t) (hdepth : ws.length < depth) :
    Runs (run depth (.declarator chain ⟨true, false⟩ allowQualifier)) s fun d' s' =>
      ∃ new x, List.Forall₂ Layer.Made d.flat new ∧ x.isWord "x" = true ∧
        d' = ⟨new ++ chain, .ofIdentifier x⟩ ∧ Onward E s₀ (us ++ ws) (t :: ts) s' := by
  induction d generalizing depth us ws ts s chain allowQualifier t with
  | name fronts backs =>
    obtain ⟨fs, rest, rfl, hfs, hrest⟩ := hws.append
    obtain ⟨x, bs, rfl, hkind, htext, hbs⟩ := hrest.cons
    have hx : x.isWord "x" = true := by simpa [Token.isWord, Token.word] using And.intro hkind htext
    simp only [List.length_append, List.length_cons] at hdepth
    obtain ⟨depth, rfl⟩ : ∃ n, depth = n + 1 + 1 + fs.length := ⟨depth - 2 - fs.length, by omega⟩
    rw [List.append_assoc, List.cons_append] at h
    refine declarator_fronts fronts hfs h ?_
    intro outer allowQualifier s₁ houter h₁
    obtain ⟨u, vs, hnext, hu⟩ := next_of_backs hbs ht ts
    rw [hnext] at h₁
    refine declarator_name h₁ hx ?_ ?_ rfl ?_
    · rcases hu with (hu | hu) | hu | hu <;> simp [hu]
    · rcases hu with (hu | hu) | hu | hu <;> simp [hu]
    intro s₂ h₂
    rw [← hnext] at h₂
    refine (suffixes_backs backs [] (outer ++ chain) hbs h₂ ht (by omega)).mono ?_
    rintro _ s₃ ⟨behind, hbehind, rfl, h₃⟩
    refine ⟨behind ++ outer, x, List.rel_append hbehind houter, hx, by simp, by simpa using h₃⟩
  | around fronts inner backs ih =>
    obtain ⟨fs, rest, rfl, hfs, hrest⟩ := hws.append
    obtain ⟨opener, rest, rfl, hopener, -, hrest⟩ := hrest.cons
    obtain ⟨is, rest, rfl, his, hrest⟩ := hrest.append
    obtain ⟨closer, bs, rfl, hcloser, -, hbs⟩ := hrest.cons
    replace hopener : opener.kind = .openParen := hopener
    replace hcloser : closer.kind = .closeParen := hcloser
    simp only [List.length_append, List.length_cons] at hdepth
    obtain ⟨depth, rfl⟩ : ∃ n, depth = n + 1 + 1 + fs.length := ⟨depth - 2 - fs.length, by omega⟩
    simp only [List.append_assoc, List.cons_append] at h
    refine declarator_fronts fronts hfs h ?_
    intro outer allowQualifier s₁ houter h₁
    refine declarator_paren h₁ hopener rfl ?_
    intro s₂ h₂
    refine .bind ((ih his h₂ (.inr hcloser) (by omega)).mono ?_)
    rintro _ s₃ ⟨new, x, hnew, hx, rfl, h₃⟩
    refine .bind (.bind (.take h₃ ?_))
    intro s₄ h₄
    rw [if_pos (by rw [hcloser, hopener]; rfl)]
    refine .pure ?_
    simp only [Option.isSome_some, if_true, Option.getD_some]
    -- everything that the inner declarator has added is closer to the name
    have hlength : 1 + ((new ++ (outer ++ chain)).length - (outer ++ chain).length) =
        (Production.parenthesized opener closer :: new).length := by simp; omega
    rw [hlength]
    refine (suffixes_backs backs (.parenthesized opener closer :: new) (outer ++ chain) hbs h₄ ht
      (by omega)).mono ?_
    rintro _ s₅ ⟨behind, hmade, rfl, h₅⟩
    refine ⟨.parenthesized opener closer :: new ++ (behind ++ outer), x, ?_, hx, by simp,
      by simpa using h₅⟩
    exact .cons ⟨hopener, hcloser⟩ (List.rel_append hnew (List.rel_append hmade houter))

/-! ## Whole declarations -/

/-- Words that begin a specifier of their own. -/
def specialWords : List String :=
  keywordSpecifiers ++ typeModifiers ++
    ["extern", "alignas", "typedef", "struct", "class", "union", "enum", "operator"]

/-- A word that begins no specifier of its own is a type, or the declared name if there is a type. -/
theorem specifiers_ordinary {call : Call} {className : String} {simple : SimpleDeclaration}
    {hasType : Bool} {Q : SimpleDeclaration → Session → Prop} (h : Onward E s₀ us (t :: ts) s)
    (hkind : t.kind = .identifier) (ht : t.text ∉ specialWords)
    (hQ : ∀ s', Onward E s₀ (us ++ [t]) ts s' → Runs (do
      if hasType then
        pushBack t
        declarators call (.globalOrMember className) simple
      else
        let (complete, simple) ← typeSpecifier call (.globalOrMember className) simple t
        if complete then return simple
        else call (.specifiers (.globalOrMember className) ⟨simple, true, false⟩)) s' Q) :
    Runs (specifiers call (.globalOrMember className) ⟨simple, hasType, false⟩) s Q := by
  simp only [specialWords, List.mem_append, List.mem_cons, List.not_mem_nil, or_false, not_or] at ht
  obtain ⟨⟨hkeyword, hmodifier⟩, hextern, halignas, htypedef, hstruct, hclass, hunion, henum,
    hoperator⟩ := ht
  refine .bind (.take h ?_)
  intro s₁ h₁
  rw [if_neg (not_not_intro hkind), if_neg hextern, if_neg (by simpa using hkeyword),
    if_neg (by simpa using hmodifier), if_neg (by simp [halignas]), if_neg (by simp [htypedef]),
    if_neg (by simp [hstruct, hclass, hunion]), if_neg (by simp [henum]), if_neg (by simp [hoperator])]
  refine .bind (.unmute h₁ ?_)
  intro s₂ h₂
  rw [if_neg (by simp)]
  exact hQ s₂ h₂

/-- The type `int` is a specifier. -/
theorem specifiers_int {Q : SimpleDeclaration → Session → Prop} (h : Onward E s₀ us (t :: u :: ts) s)
    (ht : t.isWord "int" = true) (hangle : u.kind ≠ .openAngle) (hcolon : u.kind ≠ .doubleColon)
    (hQ : ∀ s', Onward E s₀ (us ++ [t]) (u :: ts) s' → Runs (run (depth + 1)
      (.specifiers (.globalOrMember "") ⟨addSpecifier .empty (plainType t), true, false⟩)) s' Q) :
    Runs (run (depth + 2) (.specifiers (.globalOrMember "") ⟨.empty, false, false⟩)) s Q := by
  obtain ⟨hkind, htext⟩ : t.kind = .identifier ∧ t.text = "int" := by simpa [Token.isWord] using ht
  have hname : beginsName t = true := by simp [beginsName, hkind, htext, notNames]
  refine specifiers_ordinary h hkind (by rw [htext]; decide) ?_
  intro s₁ h₁
  rw [if_neg Bool.false_ne_true]
  have htype : Runs (typeSpecifier (fun r => run (depth + 1) r) (.globalOrMember "") .empty t) s₁
      fun result s' => result = (false, addSpecifier .empty (plainType t)) ∧
        Onward E s₀ (us ++ [t]) (u :: ts) s' := by
    unfold typeSpecifier
    rw [if_neg (by simp [htext])]
    refine .bind (.giveBack h₁ ?_)
    intro s₂ h₂
    refine .bind ((qualifiedId_name h₂ hname (by simp [htext]) hangle hcolon).mono ?_)
    rintro _ s₃ ⟨rfl, h₃⟩
    unfold typeOrConstructor
    simp only [show (!Token.absent.isPresent && (QualifiedId.ofIdentifier t).isStructor "") = false by
      simp [QualifiedId.isStructor, QualifiedId.ofIdentifier, Token.isPresent, Token.absent],
      show (Token.absent.isPresent && (QualifiedId.ofIdentifier t).nested.isEmpty) = false by
        simp [Token.isPresent, Token.absent], Bool.false_eq_true, if_false]
    exact .pure ⟨rfl, h₃⟩
  refine .bind (htype.mono ?_)
  rintro _ s₂ ⟨rfl, h₂⟩
  exact hQ s₂ h₂

/-- Behind a type comes what is declared. -/
theorem specifiers_declarators {simple : SimpleDeclaration} {Q : SimpleDeclaration → Session → Prop}
    (h : Onward E s₀ us (t :: ts) s) (ht : t.kind ≠ .identifier ∨ t.isWord "x" = true)
    (hQ : ∀ s', Onward E s₀ us (t :: ts) s' → Runs (run depth (.initDeclarators simple)) s' Q) :
    Runs (run (depth + 1) (.specifiers (.globalOrMember "") ⟨simple, true, false⟩)) s Q := by
  by_cases hkind : t.kind = .identifier
  · have htext : t.text = "x" := by simpa [hkind, Token.isWord] using ht
    refine specifiers_ordinary h hkind (by rw [htext]; decide) ?_
    intro s₁ h₁
    rw [if_pos rfl]
    refine .bind (.giveBack h₁ ?_)
    intro s₂ h₂
    exact hQ s₂ h₂
  · refine .bind (.take h ?_)
    intro s₁ h₁
    rw [if_pos hkind, if_neg (by simp)]
    refine .bind (.giveBack h₁ ?_)
    intro s₂ h₂
    exact hQ s₂ h₂

/-- A declarator that ends with a semicolon is the only one, and has no initializer. -/
theorem initDeclarators_written (d : Written) {simple : SimpleDeclaration} {ws : List Token}
    (hws : Spells d.words ws) (h : Onward E s₀ us (ws ++ t :: ts) s) (ht : t.kind = .semicolon)
    (hdepth : ws.length < depth) :
    Runs (run (depth + 1) (.initDeclarators simple)) s fun result s' => ∃ chain x,
      List.Forall₂ Layer.Made d.flat chain ∧ x.isWord "x" = true ∧
        result = addDeclarator simple ⟨chain, .ofIdentifier x⟩ .none .absent ∧
        Onward E s₀ (us ++ ws) (t :: ts) s' := by
  refine .bind ((declarator_written d hws h (.inl ht) hdepth).mono ?_)
  rintro _ s₁ ⟨chain, x, hchain, hx, rfl, h₁⟩
  rw [List.append_nil]
  rw [if_neg (by simp [QualifiedId.isEmpty, QualifiedId.ofIdentifier, Unqualified.isEmpty])]
  -- neither the body of a function nor the value of a variable begins with a semicolon
  have hseparator : ∀ s₂, Onward E s₀ (us ++ ws) (t :: ts) s₂ → Runs (declaratorSeparator
      (fun r => run depth r) simple ⟨chain, .ofIdentifier x⟩ .none) s₂ fun result s' =>
        result = addDeclarator simple ⟨chain, .ofIdentifier x⟩ .none .absent ∧
          Onward E s₀ (us ++ ws) (t :: ts) s' := by
    intro s₂ h₂
    refine .bind (.take h₂ ?_)
    intro s₃ h₃
    rw [if_neg (by simp [ht])]
    refine .bind (.giveBack h₃ ?_)
    intro s₄ h₄
    exact .pure ⟨rfl, h₄⟩
  split
  · have hbody : Runs (functionBody (fun r => run depth r) (simple.declarators.length + 1)) s₁
        fun init s' => init = .none ∧ Onward E s₀ (us ++ ws) (t :: ts) s' := by
      refine .bind (.take h₁ ?_)
      intro s₂ h₂
      rw [if_neg (by simp [ht]), if_neg (by simp [ht])]
      refine .bind (.pure ?_)
      simp only [ht, reduceCtorEq, if_false]
      refine .bind (.giveBack h₂ ?_)
      intro s₃ h₃
      exact .pure ⟨rfl, h₃⟩
    refine .bind (hbody.mono ?_)
    rintro _ s₂ ⟨rfl, h₂⟩
    refine (hseparator s₂ h₂).mono ?_
    rintro _ s₃ ⟨rfl, h₃⟩
    exact ⟨chain, x, hchain, hx, rfl, h₃⟩
  · have hvalue : Runs (variableInitializer (fun r => run depth r) true) s₁
        fun init s' => init = .none ∧ Onward E s₀ (us ++ ws) (t :: ts) s' := by
      refine .bind (.take h₁ ?_)
      intro s₂ h₂
      simp only [ht, reduceCtorEq, decide_false, Bool.false_and, Bool.false_eq_true, if_false]
      refine .bind (.giveBack h₂ ?_)
      intro s₃ h₃
      exact .pure ⟨rfl, h₃⟩
    refine .bind (hvalue.mono ?_)
    rintro _ s₂ ⟨rfl, h₂⟩
    refine (hseparator s₂ h₂).mono ?_
    rintro _ s₃ ⟨rfl, h₃⟩
    exact ⟨chain, x, hchain, hx, rfl, h₃⟩

/-- A declarator begins with its name, a parenthesis, or a pointer. -/
theorem head_written (d : Written) {ws : List Token} (hws : Spells d.words ws) :
    ∃ u rest, ws = u :: rest ∧
      (u.isWord "x" = true ∨ u.kind = .openParen ∨ isPointerKind u.kind = true) := by
  have hfront : ∀ {fronts : List Front} {others : List Token}, fronts ≠ [] →
      Spells (fronts.flatMap Front.words ++ others) ws →
      ∃ u rest, ws = u :: rest ∧ isPointerKind u.kind = true := by
    intro fronts others hne hws
    rcases fronts with _ | ⟨_ | _ | _, fronts⟩
    · exact absurd rfl hne
    all_goals
      obtain ⟨u, rest, rfl, hkind, -⟩ := hws.cons
      exact ⟨u, rest, rfl, by rw [hkind]; rfl⟩
  cases d with
  | name fronts backs =>
    by_cases hfronts : fronts = []
    · subst hfronts
      obtain ⟨u, rest, rfl, hkind, htext, -⟩ := hws.cons
      exact ⟨u, rest, rfl, .inl (by simpa [Token.isWord, Token.word] using And.intro hkind htext)⟩
    · obtain ⟨u, rest, rfl, hu⟩ := hfront hfronts hws
      exact ⟨u, rest, rfl, .inr (.inr hu)⟩
  | around fronts inner backs =>
    by_cases hfronts : fronts = []
    · subst hfronts
      obtain ⟨u, rest, rfl, hkind, -⟩ := hws.cons
      exact ⟨u, rest, rfl, .inr (.inl hkind)⟩
    · obtain ⟨u, rest, rfl, hu⟩ := hfront hfronts hws
      exact ⟨u, rest, rfl, .inr (.inr hu)⟩

/-- A declaration of a name as an `int`. -/
theorem specified_written (d : Written) {ws : List Token} {first last : Token}
    (hws : Spells d.words ws) (h : Onward E s₀ us (first :: (ws ++ [last])) s)
    (hfirst : first.isWord "int" = true) (hlast : last.kind = .semicolon)
    (hdepth : ws.length + 3 < depth) :
    Runs (specified (fun r => run depth r) (.globalOrMember "")) s fun simple s' => ∃ chain x,
      List.Forall₂ Layer.Made d.flat chain ∧ x.isWord "x" = true ∧
        simple = ⟨[plainType first], [⟨⟨chain, .ofIdentifier x⟩, .none, .absent⟩], .absent⟩ ∧
        Onward E s₀ (us ++ [first] ++ ws) [last] s' := by
  obtain ⟨depth, rfl⟩ : ∃ n, depth = n + 3 := ⟨depth - 3, by omega⟩
  obtain ⟨u, rest, rfl, hu⟩ := head_written d hws
  have hkinds : u.kind ≠ .openAngle ∧ u.kind ≠ .doubleColon ∧
      (u.kind ≠ .identifier ∨ u.isWord "x" = true) := by
    rcases hu with hu | hu | hu
    · have hkind : u.kind = .identifier := by simp_all [Token.isWord]
      simp [hkind, hu]
    · simp [hu]
    · have hkind : u.kind = .star ∨ u.kind = .singleAmpersand ∨ u.kind = .doubleAmpersand := by
        simpa [isPointerKind, or_assoc] using hu
      rcases hkind with hkind | hkind | hkind <;> simp [hkind]
  obtain ⟨hangle, hcolon, hnamed⟩ := hkinds
  refine specifiers_int h hfirst hangle hcolon ?_
  intro s₁ h₁
  refine specifiers_declarators h₁ hnamed ?_
  intro s₂ h₂
  exact initDeclarators_written d hws h₂ hlast (by omega)

end Grammar

open Parse (Runs)

/-- A log that reports no fault of the text and nothing else reports nothing. -/
theorem Session.diagnostics_eq_nil {s : Session} (hothers : s.log.countP Event.isOther = 0)
    (hlexical : s.events.filterMap Event.lexical? = []) : s.events.filterMap Event.diagnostic? = [] := by
  refine List.filterMap_eq_nil_iff.2 fun e he => ?_
  have hother := List.countP_eq_zero.1 hothers e (List.mem_reverse.1 he)
  have hnone := List.filterMap_eq_nil_iff.1 hlexical e he
  rw [Event.isOther, hnone] at hother
  simpa [Event.isReport] using hother

theorem Cv.single_word (cv : Cv) : (Token.word .identifier cv.text).Single := by
  cases cv <;> exact ⟨⟨_, _, rfl, ⟨rfl, rfl, rfl⟩⟩, rfl⟩

theorem Front.single_words (f : Front) : ∀ w ∈ f.words, w.Single := by
  cases f with
  | pointer qualifiers =>
    refine List.forall_mem_cons.2 ⟨⟨⟨_, _, rfl, ⟨rfl, rfl, rfl⟩⟩, rfl⟩, ?_⟩
    exact List.forall_mem_map.2 fun cv _ => cv.single_word
  | reference | rvalueReference =>
    exact List.forall_mem_singleton.2 ⟨⟨_, _, rfl, ⟨rfl, rfl, rfl⟩⟩, rfl⟩

theorem Back.single_words (b : Back) : ∀ w ∈ b.words, w.Single := by
  have hopen : (Token.word .openSquare "[").Single := ⟨⟨_, _, rfl, ⟨rfl, rfl, rfl⟩⟩, rfl⟩
  have hclose : (Token.word .closeSquare "]").Single := ⟨⟨_, _, rfl, ⟨rfl, rfl, rfl⟩⟩, rfl⟩
  rcases b with (_ | n) | _
  · simpa [Back.words] using And.intro hopen hclose
  · simpa [Back.words] using And.intro hopen (And.intro n.single hclose)
  · refine List.forall_mem_cons.2 ⟨⟨⟨_, _, rfl, ⟨rfl, rfl, rfl⟩⟩, rfl⟩, ?_⟩
    exact List.forall_mem_singleton.2 ⟨⟨_, _, rfl, ⟨rfl, rfl, rfl⟩⟩, rfl⟩

/-- The words of a declarator are single. -/
theorem Written.single_words (d : Written) : ∀ w ∈ d.words, w.Single := by
  have hfronts : ∀ fronts : List Front, ∀ w ∈ fronts.flatMap Front.words, w.Single := by
    intro fronts w hw
    obtain ⟨f, -, hw⟩ := List.mem_flatMap.1 hw
    exact f.single_words w hw
  have hbacks : ∀ backs : List Back, ∀ w ∈ backs.flatMap Back.words, w.Single := by
    intro backs w hw
    obtain ⟨b, -, hw⟩ := List.mem_flatMap.1 hw
    exact b.single_words w hw
  induction d with
  | name fronts backs =>
    refine List.forall_mem_append.2 ⟨hfronts fronts, List.forall_mem_cons.2 ⟨?_, hbacks backs⟩⟩
    exact ⟨⟨_, _, rfl, ⟨rfl, rfl, rfl⟩⟩, rfl⟩
  | around fronts inner backs ih =>
    refine List.forall_mem_append.2 ⟨hfronts fronts, List.forall_mem_cons.2 ⟨?_, ?_⟩⟩
    · exact ⟨⟨_, _, rfl, ⟨rfl, rfl, rfl⟩⟩, rfl⟩
    refine List.forall_mem_append.2 ⟨ih, List.forall_mem_cons.2 ⟨?_, hbacks backs⟩⟩
    exact ⟨⟨_, _, rfl, ⟨rfl, rfl, rfl⟩⟩, rfl⟩

/-- Declarators are composed as in C: whatever a declarator is made of, a declaration with it has one
declarator, of the name, that says what the declarator says, and nothing is reported. -/
theorem declaration_written (d : Written) {budget : Nat} (hbudget : d.words.length + 4 ≤ budget)
    (passNumber : Nat) (path : String) : ∃ chain x first s,
      runGrammar budget passNumber ((Reader.new .empty {}).push path d.source).2 Grammar.single =
        .ok (⟨[Grammar.plainType first], [⟨⟨chain, .ofIdentifier x⟩, .none, .absent⟩], .absent⟩, s) ∧
      s.events.filterMap Event.diagnostic? = [] ∧ x.isWord "x" = true ∧ first.isWord "int" = true ∧
      List.Forall₂ Layer.Made d.flat chain := by
  have hsingle : ∀ w ∈ .word .identifier "int" :: (d.words ++ [.word .semicolon ";"]),
      w.Single := by
    refine List.forall_mem_cons.2 ⟨⟨⟨_, _, rfl, ⟨rfl, rfl, rfl⟩⟩, rfl⟩, ?_⟩
    refine List.forall_mem_append.2 ⟨d.single_words, List.forall_mem_singleton.2 ?_⟩
    exact ⟨⟨_, _, rfl, ⟨rfl, rfl, rfl⟩⟩, rfl⟩
  have hfew : (Token.word .identifier "int" :: (d.words ++ [.word .semicolon ";"])).length ≤ budget := by
    simp only [List.length_cons, List.length_append, List.length_nil]
    omega
  obtain ⟨tokens, htokens, hupcoming, hforwards⟩ :=
    Session.upcoming_joined hsingle path hfew passNumber
  have hsound := Reader.sound_pushed {} path d.source
  have horderly := Session.orderly_new hsound budget passNumber
  have hspells : Spells (.word .identifier "int" :: (d.words ++ [.word .semicolon ";"])) tokens :=
    htokens
  obtain ⟨first, rest, rfl, hkind, htext, hrest⟩ := hspells.cons
  obtain ⟨ws, _, rfl, hws, hlasts⟩ := hrest.append
  obtain ⟨last, _, rfl, hlast, -, hnil⟩ := hlasts.cons
  obtain rfl := hnil.eq_nil
  have hfirst : first.isWord "int" = true := by
    simpa [Token.isWord, Token.word] using And.intro hkind htext
  have hruns : Runs (Grammar.single fun rule => Grammar.run budget rule)
      (Session.new ((Reader.new .empty {}).push path d.source).2 budget passNumber)
      fun simple s => ∃ chain x, simple =
        ⟨[Grammar.plainType first], [⟨⟨chain, .ofIdentifier x⟩, .none, .absent⟩], .absent⟩ ∧
        s.log.countP Event.isOther = 0 ∧ x.isWord "x" = true ∧
        List.Forall₂ Layer.Made d.flat chain := by
    refine .bind (.entering (hupcoming.onward horderly rfl : Session.Onward True _ _ _ _) ?_)
    intro s₁ h₁
    refine .bind ((Grammar.specified_written d hws h₁ hfirst hlast ?_).mono ?_)
    · rw [hws.length_eq]
      omega
    rintro _ s₂ ⟨chain, x, hchain, hx, rfl, h₂⟩
    refine .bind (.modify (.pure ⟨chain, x, rfl, ?_, hx, hchain⟩))
    exact (h₂.calm trivial).reports
  obtain ⟨_, s, hrun, chain, x, rfl, hothers, hx, hchain⟩ := hruns
  refine ⟨chain, x, first, s, hrun, Session.diagnostics_eq_nil hothers ?_, hx, hfirst, hchain⟩
  -- what is drawn on the way is part of what can be drawn
  obtain ⟨us, ps, hpast⟩ := Grammar.single_leads (Grammar.run_effects budget)
    ⟨horderly, False.elim⟩ _ s hrun
  obtain ⟨news, hnews, -⟩ := hpast.told
  obtain ⟨_, _, -, -, hnone⟩ := hnews.forwards hforwards
  have hevents : s.events = news := hnews.events
  rw [hevents]
  exact (List.append_eq_nil_iff.1 hnone.symm).1

/-- A declarator with something of everything. -/
def windingDeclarator : Written :=
  .around [.pointer [.const, .volatile], .reference]
    (.around [.pointer []] (.name [.rvalueReference] [.array none, .function]) [.function])
    [.array (some ⟨"3", ⟨_, _, rfl, ⟨rfl, rfl, rfl⟩⟩, rfl⟩), .function]

theorem declaration_written_winding :
    windingDeclarator.source =
      "int * const volatile & ( * ( && x [ ] ( ) ) ( ) ) [ 3 ] ( ) ;" ∧
    windingDeclarator.flat = [.parenthesized, .parenthesized, .array none, .function,
      .rvalueReference, .function, .pointer, .array (some "3"), .function, .reference,
      .qualifier .volatile, .qualifier .const, .pointer] ∧
    windingDeclarator.words.length + 4 ≤ defaultBudget ∧ ∃ chain x first,
      parseDeclaration windingDeclarator.source 0 =
        .ok (⟨[Grammar.plainType first], [⟨⟨chain, .ofIdentifier x⟩, .none, .absent⟩], .absent⟩, []) ∧
      x.isWord "x" = true ∧ List.Forall₂ Layer.Made windingDeclarator.flat chain := by
  have hbudget : windingDeclarator.words.length + 4 ≤ defaultBudget := by decide
  obtain ⟨chain, x, first, s, hrun, hnone, hx, -, hchain⟩ :=
    declaration_written windingDeclarator hbudget 1 "(declaration)"
  refine ⟨rfl, rfl, hbudget, chain, x, first, ?_, hx, hchain⟩
  have hpushed : ((Reader.new .empty {}).pushAt "(declaration)" windingDeclarator.source 0).2 =
    ((Reader.new .empty {}).push "(declaration)" windingDeclarator.source).2 := rfl
  simp only [parseDeclaration, hpushed, hrun, ← hnone]
  rfl

end CppDecl
