import CppDecl.Proofs.Braces
import CppDecl.Proofs.Parts

/-!
# Blocks among the tokens

A block of the tree is *matched* in some tokens if its braces are among them and what stands between
the braces is paired.  Tokens are *level* if they are paired as a whole, or if the end of the file
is among them, in which case braces may be open that are never closed.  `Level W ps ts` says this
together with all blocks among the parts `ps` being matched.

Whether anybody asks for it, and what is known of lists of expressions, is a matter of a `Concern`.
What the grammar does about faults and scopes is the same if nobody asks.
-/

namespace CppDecl

/-- What is asked of braces. -/
structure Concern where
  /-- Somebody asks whether blocks are matched. -/
  asked : Prop
  /-- Lists of expressions in braces are known to be closed. -/
  closed : Prop

/-- Nobody asks. -/
abbrev Concern.nothing : Concern := ⟨False, False⟩

/-- If a part is a block with both of its braces, they are among the tokens, and what stands between
them is paired. -/
def Part.Matched (closed : Prop) (ts : List Token) : Part → Prop
  | .block opener closer => opener.isPresent = true → closer.isPresent = true →
      opener.kind = .openCurly ∧ closer.kind = .closeCurly ∧
        ∃ before inner after, ts = before ++ opener :: (inner ++ closer :: after) ∧ Paired closed inner
  | _ => True

/-- The tokens are level and the blocks among the parts are matched in them. -/
structure Level (W : Concern) (ps : List Part) (ts : List Token) : Prop where
  /-- The tokens are paired, or the end of the file is among them. -/
  paired : W.asked → Paired W.closed ts ∨ ∃ t ∈ ts, t.kind = .endOfFile
  /-- Blocks are matched. -/
  matched : W.asked → ∀ p ∈ ps, p.Matched W.closed ts

/-- The tokens behind an opening brace, up to its closing one `closer`.  Without closing brace they
go on to the end of the file. -/
structure Closes (W : Concern) (ps : List Part) (ts : List Token) (closer : Token) : Prop where
  /-- The closing brace is there, or it is not. -/
  brace : closer.kind = .closeCurly ∨ closer.isPresent = false
  /-- With the closing brace, what is in front of it is paired. -/
  closed : W.asked → closer.kind = .closeCurly → ∃ inner, ts = inner ++ [closer] ∧ Paired W.closed inner
  /-- Without it, the end of the file has come. -/
  ended : W.asked → closer.isPresent = false → ∃ t ∈ ts, t.kind = .endOfFile
  /-- Blocks are matched. -/
  matched : W.asked → ∀ p ∈ ps, p.Matched W.closed ts

section Parts

variable {closed : Prop} {ts : List Token} {o c : Token} {p : Part}

theorem Part.Matched.infix (h : p.Matched closed ts) (before after : List Token) :
    p.Matched closed (before ++ ts ++ after) := by
  cases p with
  | block opener closer =>
    intro hopener hcloser
    obtain ⟨ho, hc, front, inner, back, rfl, hinner⟩ := h hopener hcloser
    exact ⟨ho, hc, before ++ front, inner, back ++ after, by simp, hinner⟩
  | _ => trivial

theorem Part.Matched.left (h : p.Matched closed ts) (after : List Token) :
    p.Matched closed (ts ++ after) := h.infix [] after

theorem Part.Matched.right (h : p.Matched closed ts) (before : List Token) :
    p.Matched closed (before ++ ts) := by
  have hmatched := h.infix before []
  rwa [List.append_nil] at hmatched

/-- A block without closing brace is matched in any tokens. -/
theorem Part.matched_of_absent (h : c.isPresent = false) : (Part.block o c).Matched closed ts := by
  intro _ hc
  rw [h] at hc
  cases hc

end Parts

variable {W : Concern} {ps qs : List Part} {ts us : List Token} {t u o c : Token} {p : Part}

namespace Level

theorem nil : Level W [] [] := ⟨fun _ => .inl .nil, fun _ => List.forall_mem_nil _⟩

/-- Nothing has to be shown if nobody asks. -/
theorem of_imp (h : W.asked → Level W ps ts) : Level W ps ts :=
  ⟨fun hW => (h hW).paired hW, fun hW => (h hW).matched hW⟩

theorem append (h : Level W ps ts) (h' : Level W qs us) : Level W (ps ++ qs) (ts ++ us) := by
  refine ⟨?_, ?_⟩
  · intro hW
    rcases h.paired hW with hpaired | ⟨t, ht, hend⟩
    · rcases h'.paired hW with hpaired' | ⟨t, ht, hend⟩
      · exact .inl (hpaired.append hpaired')
      · exact .inr ⟨t, List.mem_append_right _ ht, hend⟩
    · exact .inr ⟨t, List.mem_append_left _ ht, hend⟩
  · intro hW
    refine List.forall_mem_append.2 ⟨?_, ?_⟩
    · exact fun p hp => (h.matched hW p hp).left us
    · exact fun p hp => (h'.matched hW p hp).right ts

/-- What comes behind a token that is read by itself. -/
theorem span (h : Level W ps ts) (h' : Level W qs (t :: us)) :
    Level W (ps ++ qs) (ts ++ [t] ++ us) := by
  have happend := h.append h'
  rwa [← List.singleton_append, ← List.append_assoc] at happend

theorem extend (h : Level W ps ts) (h' : Level W [] us) : Level W ps (ts ++ us) := by
  have happend := h.append h'
  rwa [List.append_nil] at happend

theorem plain (h : Level W ps ts) (ht : t.isBrace = false) : Level W ps (ts ++ [t]) :=
  h.extend ⟨fun _ => .inl (.single ht), fun _ => List.forall_mem_nil _⟩

/-- A token of another kind than the braces. -/
theorem kind {kind : TokenKind} (h : Level W ps ts) (ht : t.kind = kind)
    (hkind : kind ≠ .openCurly ∧ kind ≠ .closeCurly) : Level W ps (ts ++ [t]) :=
  h.plain (by simp [Token.isBrace, ht, hkind])

/-- A token in front that is no brace. -/
theorem front (h : Level W ps ts) (ht : t.isBrace = false) : Level W ps (t :: ts) :=
  (nil.plain ht).append h

theorem word {word : String} (h : Level W ps ts) (ht : t.isWord word = true) :
    Level W ps (ts ++ [t]) := by
  simp only [Token.isWord, Bool.and_eq_true, beq_iff_eq] at ht
  exact h.kind ht.1 (by decide)

/-- A token that is read without looking at it. -/
theorem blind (h : Level W ps ts) (ht : t.isBlind = true) : Level W ps (ts ++ [t] ++ [u]) := by
  rw [List.append_assoc]
  exact h.extend ⟨fun _ => .inl (.pair ht), fun _ => List.forall_mem_nil _⟩

theorem add (h : Level W ps ts) (hp : p.Matched W.closed ts) : Level W (ps ++ [p]) ts :=
  ⟨h.paired, fun hW =>
    List.forall_mem_append.2 ⟨h.matched hW, List.forall_mem_singleton.2 hp⟩⟩

/-- Tokens in front of a brace that closes a block. -/
theorem closes (h : Level W ps ts) (hc : c.kind = .closeCurly)
    (hmore : ∀ t ∈ ts, t.kind ≠ .endOfFile) : Closes W ps (ts ++ [c]) c := by
  refine ⟨.inl hc, ?_, ?_, fun hW p hp => (h.matched hW p hp).left _⟩
  · intro hW _
    rcases h.paired hW with hpaired | ⟨t, ht, hend⟩
    · exact ⟨ts, rfl, hpaired⟩
    · exact absurd hend (hmore t ht)
  · intro _ habsent
    simp [Token.isPresent, hc] at habsent

/-- Tokens up to the end of the file. -/
theorem closes_of_end (h : Level W ps ts) (hend : W.asked → ∃ t ∈ ts, t.kind = .endOfFile) :
    Closes W ps ts .absent := by
  refine ⟨.inr rfl, ?_, fun hW _ => hend hW, h.matched⟩
  rintro - ⟨⟩

end Level

/-- Whatever is in front of the end of the file. -/
theorem Level.behind (h : Level W ps ts) (hend : W.asked → ∃ t ∈ ts, t.kind = .endOfFile) (o : Token) :
    Level W ps (o :: ts) := by
  refine ⟨?_, fun hW p hp => (h.matched hW p hp).right [o]⟩
  intro hW
  obtain ⟨t, ht, hend⟩ := hend hW
  exact .inr ⟨t, List.mem_cons_of_mem o ht, hend⟩

/-- The brace of a list that is left open. -/
theorem Level.leftOpen (h : Level W ps ts) (hunknown : ¬ W.closed) (ho : o.kind = .openCurly) :
    Level W ps (o :: ts) := by
  refine ⟨?_, fun hW p hp => (h.matched hW p hp).right [o]⟩
  intro hW
  rcases h.paired hW with hpaired | ⟨t, ht, hend⟩
  · exact .inl (.left hunknown ho hpaired)
  · exact .inr ⟨t, List.mem_cons_of_mem o ht, hend⟩

namespace Closes

/-- An opening brace with what is behind it. -/
theorem level (h : Closes W ps ts c) (ho : o.kind = .openCurly) : Level W ps (o :: ts) := by
  refine ⟨?_, fun hW p hp => (h.matched hW p hp).right [o]⟩
  intro hW
  rcases h.brace with hc | hc
  · obtain ⟨inner, rfl, hinner⟩ := h.closed hW hc
    exact .inl (.braces ho hc hinner)
  · obtain ⟨t, ht, hend⟩ := h.ended hW hc
    exact .inr ⟨t, List.mem_cons_of_mem o ht, hend⟩

/-- A block with what is in it. -/
theorem block (h : Closes W ps ts c) (ho : o.kind = .openCurly) :
    Level W (ps ++ [.block o c]) (o :: ts) := by
  refine ⟨(h.level ho).paired, ?_⟩
  intro hW
  refine List.forall_mem_append.2 ⟨(h.level ho).matched hW, List.forall_mem_singleton.2 ?_⟩
  · rcases h.brace with hc | hc
    · obtain ⟨inner, rfl, hinner⟩ := h.closed hW hc
      exact fun _ _ => ⟨ho, hc, [], inner, [], rfl, hinner⟩
    · exact Part.matched_of_absent hc

end Closes

end CppDecl
