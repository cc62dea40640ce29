import CppDecl.Proofs.Variation
import CppDecl.Session

/-!
# The sequence of tokens behind a session

A reader stands for an endless sequence of tokens: those that it gives and that are no asides, and
from the end of the file on, the end of the file again and again.  `Reader.At` says which token is
at which place.  It is a relation, since asides may go on and on in front of a token that then
never comes.

A session takes the tokens of the sequence one after the other.  Before the end of the file it
counts what it takes, asides included, against its allowance.  `Session.pull_spec` says that it gets
the next token of the sequence if the allowance is enough.
-/

namespace CppDecl

namespace Reader

/-! ## The next token that is no aside -/

/-- The reader gives a token that is no aside, and is another reader then.  The number is that of
the tokens taken before the end of the file. -/
inductive Gives : Reader → Nat → Token → Reader → Prop
  /-- The end of the file comes next. -/
  | ended {r r' : Reader} {t : Token} (read : r.readToken = .ok (t, r'))
      (ended : t.kind = .endOfFile) : Gives r 0 t r'
  /-- A token comes next that is no aside. -/
  | plain {r r' : Reader} {t : Token} (read : r.readToken = .ok (t, r'))
      (more : t.kind ≠ .endOfFile) (plain : t.kind.isAside = false) : Gives r 1 t r'
  /-- An aside comes next. -/
  | aside {r r₁ r' : Reader} {a t : Token} {n : Nat} (read : r.readToken = .ok (a, r₁))
      (aside : a.kind.isAside = true) (rest : Gives r₁ n t r') : Gives r (n + 1) t r'

variable {r r' r'' : Reader} {t u : Token} {n m : Nat}

theorem not_end_of_aside {kind : TokenKind} (h : kind.isAside = true) : kind ≠ .endOfFile := by
  rintro rfl
  cases h

theorem Gives.unique (h : r.Gives n t r') (h' : r.Gives m u r'') : n = m ∧ t = u ∧ r' = r'' := by
  induction h generalizing m with
  | ended hread hend =>
    cases h' with
    | ended hread' _ | plain hread' _ _ =>
      rw [hread] at hread'
      cases hread'
      first | exact ⟨rfl, rfl, rfl⟩ | contradiction
    | aside hread' haside _ =>
      rw [hread] at hread'
      cases hread'
      exact absurd hend (not_end_of_aside haside)
  | plain hread hmore hplain =>
    cases h' with
    | ended hread' _ | plain hread' _ _ =>
      rw [hread] at hread'
      cases hread'
      first | exact ⟨rfl, rfl, rfl⟩ | contradiction
    | aside hread' haside _ =>
      rw [hread] at hread'
      cases hread'
      rw [hplain] at haside
      cases haside
  | aside hread haside _ ih =>
    cases h' with
    | ended hread' hend =>
      rw [hread] at hread'
      cases hread'
      exact absurd hend (not_end_of_aside haside)
    | plain hread' _ hplain =>
      rw [hread] at hread'
      cases hread'
      rw [hplain] at haside
      cases haside
    | aside hread' _ hrest =>
      rw [hread] at hread'
      cases hread'
      obtain ⟨rfl, rfl, rfl⟩ := ih hrest
      exact ⟨rfl, rfl, rfl⟩

theorem Sound.of_readToken (h : r.Sound) (hread : r.readToken = .ok (t, r')) : r'.Sound := by
  obtain ⟨_, _, heq, hsound⟩ := h.readToken
  rw [hread] at heq
  cases heq
  exact hsound

theorem Gives.sound (h : r.Gives n t r') (hsound : r.Sound) : r'.Sound := by
  induction h with
  | ended hread _ | plain hread _ _ => exact hsound.of_readToken hread
  | aside hread _ _ ih => exact ih (hsound.of_readToken hread)

/-- The end of the file comes again and again. -/
theorem Gives.again (h : r.Gives n t r') (hsound : r.Sound) (hend : t.kind = .endOfFile) :
    r'.Gives 0 t r' := by
  induction h with
  | ended hread _ => exact .ended (hsound.readToken_end hread hend).2 hend
  | plain _ hmore _ => exact absurd hend hmore
  | aside hread _ _ ih => exact ih (hsound.of_readToken hread) hend

/-! ## The sequence -/

/-- Which token is at which place of the sequence that a reader stands for. -/
inductive At : Reader → Nat → Token → Prop
  /-- The first token is the one that the reader gives. -/
  | here {r r' : Reader} {n : Nat} {t : Token} (gives : r.Gives n t r') : At r 0 t
  /-- The others are those that it gives later. -/
  | later {r r' : Reader} {n i : Nat} {t u : Token} (gives : r.Gives n t r')
      (more : t.kind ≠ .endOfFile) (rest : At r' i u) : At r (i + 1) u
  /-- Behind the end of the file there is only the end of the file. -/
  | beyond {r r' : Reader} {n i : Nat} {t : Token} (gives : r.Gives n t r')
      (ended : t.kind = .endOfFile) : At r (i + 1) t

/-- The reader gives some tokens that are no asides, one after the other. -/
inductive Delivers : Reader → Nat → List Token → Reader → Prop
  | nil (r : Reader) : Delivers r 0 [] r
  | cons {r r₁ r' : Reader} {m n : Nat} {t : Token} {ts : List Token} (gives : r.Gives m t r₁)
      (rest : Delivers r₁ n ts r') : Delivers r (m + n) (t :: ts) r'

variable {ts us : List Token}

theorem Delivers.sound (h : r.Delivers n ts r') (hsound : r.Sound) : r'.Sound := by
  induction h with
  | nil _ => exact hsound
  | cons hgives _ ih => exact ih (hgives.sound hsound)

theorem Delivers.snoc (h : r.Delivers n ts r') (hgives : r'.Gives m t r'') :
    r.Delivers (n + m) (ts ++ [t]) r'' := by
  induction h with
  | nil r =>
    rw [Nat.add_comm]
    exact .cons hgives (.nil r'')
  | cons hfirst _ ih =>
    rw [Nat.add_assoc]
    exact .cons hfirst (ih hgives)

/-- Where a reader gives some tokens, a run that is longer gives one more. -/
theorem Delivers.more (h : r.Delivers n ts r') (h' : r.Delivers m us r'')
    (hlength : ts.length < us.length) : ∃ k u q, r'.Gives k u q ∧ n + k ≤ m := by
  induction h generalizing m us with
  | nil _ =>
    cases h' with
    | nil _ => cases hlength
    | cons hgives _ => exact ⟨_, _, _, hgives, by omega⟩
  | cons hgives _ ih =>
    cases h' with
    | nil _ => cases hlength
    | cons hgives' hrest =>
      obtain ⟨rfl, rfl, rfl⟩ := hgives.unique hgives'
      obtain ⟨k, u, q, hmore, hle⟩ := ih hrest (Nat.lt_of_succ_lt_succ hlength)
      exact ⟨k, u, q, hmore, by omega⟩

/-- Behind the end of the file, only the end of the file is given. -/
theorem Delivers.eq_of_again (h : r.Delivers n ts r') (hagain : r.Gives 0 t r) :
    ∀ u ∈ ts, u = t := by
  induction h with
  | nil _ => simp
  | cons hgives _ ih =>
    obtain ⟨-, rfl, rfl⟩ := hgives.unique hagain
    intro u hu
    rcases List.mem_cons.1 hu with rfl | hu
    · rfl
    · exact ih hagain u hu

/-- What is given is what the sequence holds. -/
theorem Delivers.at (h : r.Delivers n ts r') (hsound : r.Sound) {i : Nat} (hi : ts[i]? = some t) :
    r.At i t := by
  induction h generalizing i with
  | nil _ => cases hi
  | @cons r r₁ _ _ _ first rest hgives hrest ih =>
    cases i with
    | zero =>
      cases hi
      exact .here hgives
    | succ i =>
      by_cases hend : first.kind = .endOfFile
      · rw [hrest.eq_of_again (hgives.again hsound hend) t (List.mem_of_getElem? hi)]
        exact .beyond hgives hend
      · exact .later hgives hend (ih (hgives.sound hsound) hi)

theorem Gives.again_delivers (h : r.Gives 0 t r) (count : Nat) :
    r.Delivers 0 (List.replicate count t) r := by
  induction count with
  | zero => exact .nil r
  | succ count ih => exact .cons h ih

/-- What the sequence holds is given sometime. -/
theorem At.delivers {i : Nat} (h : r.At i t) (hsound : r.Sound) :
    ∃ n ts r', r.Delivers n ts r' ∧ ts.length = i + 1 := by
  induction h with
  | here hgives => exact ⟨_, _, _, .cons hgives (.nil _), rfl⟩
  | later hgives _ _ ih =>
    obtain ⟨n, ts, r', hdelivers, hlength⟩ := ih (hgives.sound hsound)
    exact ⟨_, _, r', .cons hgives hdelivers, by rw [List.length_cons, hlength]⟩
  | @beyond _ _ _ i t hgives hend =>
    have hagain := (hgives.again hsound hend).again_delivers (i + 1)
    exact ⟨_, _, _, .cons hgives hagain, by simp⟩

theorem At.unique {i : Nat} (h : r.At i t) (h' : r.At i u) : t = u := by
  induction h with
  | here hgives =>
    cases h' with
    | here hgives' => exact (hgives.unique hgives').2.1
  | later hgives hmore _ ih =>
    cases h' with
    | later hgives' _ hrest =>
      obtain ⟨-, -, rfl⟩ := hgives.unique hgives'
      exact ih hrest
    | beyond hgives' hend =>
      obtain ⟨-, rfl, -⟩ := hgives.unique hgives'
      exact absurd hend hmore
  | beyond hgives hend =>
    cases h' with
    | later hgives' hmore _ =>
      obtain ⟨-, rfl, -⟩ := hgives.unique hgives'
      exact absurd hend hmore
    | beyond hgives' _ => exact (hgives.unique hgives').2.1

end Reader

/-! ## Taking tokens -/

namespace Session

variable {s : Session} {r : Reader} {t : Token} {n : Nat}

/-- What taking tokens leaves alone. -/
def Took (s s' : Session) : Prop :=
  s' = { s with
    reader := s'.reader
    allowance := s'.allowance
    lexErrors := s'.lexErrors
    log := s'.log }

theorem Took.trans {s₁ s₂ s₃ : Session} (h₁ : s₁.Took s₂) (h₂ : s₂.Took s₃) : s₁.Took s₃ := by
  unfold Took at *
  rw [h₂, h₁]

theorem pull_end (hread : s.reader.readToken = .ok (t, r)) (hend : t.kind = .endOfFile) :
    s.pull n = .ok (t, { s with reader := r }.drain) := by
  unfold pull
  simp only [hread, bind, Except.bind, if_pos hend]
  rfl

theorem pull_zero (hread : s.reader.readToken = .ok (t, r)) (hmore : t.kind ≠ .endOfFile) :
    s.pull 0 = .error .exhausted := by
  unfold pull
  simp only [hread, bind, Except.bind, if_neg hmore]
  rfl

theorem pull_plain (hread : s.reader.readToken = .ok (t, r)) (hmore : t.kind ≠ .endOfFile)
    (hplain : t.kind.isAside = false) :
    s.pull (n + 1) = .ok (t, { s with reader := r, allowance := n }.drain) := by
  unfold pull
  simp only [hread, bind, Except.bind, if_neg hmore, hplain]
  rfl

/-- The session once an aside has been taken. -/
def afterAside (s : Session) (a : Token) (r : Reader) (n : Nat) : Session :=
  { s with reader := r, allowance := n }.drain.record
    (.aside a (if a.kind = TokenKind.macroUse then r.args else []))

theorem took_afterAside : s.Took (s.afterAside t r n) := rfl

theorem pull_aside (hread : s.reader.readToken = .ok (t, r)) (haside : t.kind.isAside = true) :
    s.pull (n + 1) = (s.afterAside t r n).pull n := by
  rw [pull]
  simp only [hread, bind, Except.bind, if_neg (Reader.not_end_of_aside haside), if_pos haside]
  rfl

/-- How a token is drawn from the reader: the asides in front of it are taken one after the other. -/
inductive Draws : Session → Token → Session → Prop
  /-- The token comes next. -/
  | last {s : Session} {t : Token} {r : Reader} (n : Nat) (sound : s.reader.Sound)
      (read : s.reader.readToken = .ok (t, r)) (plain : t.kind.isAside = false) :
      Draws s t { s with reader := r, allowance := n }.drain
  /-- An aside comes next. -/
  | aside {s s' : Session} {t u : Token} {r : Reader} {n : Nat} (sound : s.reader.Sound)
      (read : s.reader.readToken = .ok (u, r)) (is_aside : u.kind.isAside = true)
      (rest : Draws (s.afterAside u r n) t s') : Draws s t s'

theorem draws_of_pull {s' : Session} (hsound : s.reader.Sound) (h : s.pull n = .ok (t, s')) :
    s.Draws t s' := by
  have hlast : ∀ {u : Token}, u.kind = .endOfFile → u.kind.isAside = false := by
    intro u hend
    rw [hend]
    rfl
  induction n generalizing s with
  | zero =>
    obtain ⟨u, r, hread, -⟩ := hsound.readToken
    by_cases hend : u.kind = .endOfFile
    · rw [pull_end hread hend] at h
      cases h
      exact .last s.allowance hsound hread (hlast hend)
    · rw [pull_zero hread hend] at h
      cases h
  | succ n ih =>
    obtain ⟨u, r, hread, hsound'⟩ := hsound.readToken
    by_cases hend : u.kind = .endOfFile
    · rw [pull_end hread hend] at h
      cases h
      exact .last s.allowance hsound hread (hlast hend)
    by_cases haside : u.kind.isAside = true
    · rw [pull_aside hread haside] at h
      have halike : r.Alike (s.afterAside u r n).reader := .refl r
      exact .aside hsound hread haside (ih (halike.sound hsound') h)
    · rw [pull_plain hread hend (Bool.eq_false_iff.2 haside)] at h
      cases h
      exact .last n hsound hread (Bool.eq_false_iff.2 haside)

/-- A session takes the next token of the sequence, or its allowance is not enough for it. -/
theorem pull_spec (halike : s.reader.Alike r) (hsound : r.Sound) (hallowance : s.allowance = n) :
    (s.pull n = .error .exhausted ∧ ∀ m t r', r.Gives m t r' → n < m) ∨
    ∃ m t r' s', s.pull n = .ok (t, s') ∧ r.Gives m t r' ∧ s'.reader.Alike r' ∧
      s'.allowance + m = n ∧ s.Took s' := by
  induction n generalizing s r with
  | zero =>
    obtain ⟨t, r', hread, -⟩ := hsound.readToken
    obtain ⟨q, hq, hlike⟩ := halike.symm.readToken hsound hread
    by_cases hend : t.kind = .endOfFile
    · exact .inr ⟨0, t, r', _, pull_end hq hend, .ended hread hend, hlike.symm, hallowance, rfl⟩
    · refine .inl ⟨pull_zero hq hend, ?_⟩
      intro m t' r'' hgives
      cases hgives with
      | ended hread' hend' =>
        rw [hread] at hread'
        cases hread'
        exact absurd hend' hend
      | plain _ _ _ => exact Nat.zero_lt_one
      | aside _ _ _ => exact Nat.succ_pos _
  | succ n ih =>
    obtain ⟨t, r', hread, hsound'⟩ := hsound.readToken
    obtain ⟨q, hq, hlike⟩ := halike.symm.readToken hsound hread
    by_cases hend : t.kind = .endOfFile
    · exact .inr ⟨0, t, r', _, pull_end hq hend, .ended hread hend, hlike.symm, hallowance, rfl⟩
    by_cases haside : t.kind.isAside = true
    · rw [pull_aside hq haside]
      rcases ih (s := s.afterAside t q n) hlike.symm hsound' rfl with
        ⟨herror, hfew⟩ | ⟨m, u, r'', s', hpull, hgives, hlast, hcount, htook⟩
      · refine .inl ⟨herror, ?_⟩
        intro m u r'' hgives
        cases hgives with
        | ended hread' hend' =>
          rw [hread] at hread'
          cases hread'
          exact absurd hend' hend
        | plain hread' _ hplain =>
          rw [hread] at hread'
          cases hread'
          rw [hplain] at haside
          cases haside
        | aside hread' _ hrest =>
          rw [hread] at hread'
          cases hread'
          exact Nat.succ_lt_succ (hfew _ _ _ hrest)
      · exact .inr ⟨m + 1, u, r'', s', hpull, .aside hread haside hgives, hlast,
          congrArg Nat.succ hcount, took_afterAside.trans htook⟩
    · have hplain := Bool.eq_false_iff.2 haside
      exact .inr ⟨1, t, r', _, pull_plain hq hend hplain, .plain hread hend hplain, hlike.symm,
        rfl, rfl⟩

end Session

end CppDecl
