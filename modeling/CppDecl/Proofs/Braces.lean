import CppDecl.Token
import Mathlib

/-!
# Braces that match

Which brace closes which is told by counting: `closing?` looks for the brace that closes one that
stands in front.

The grammar reads some tokens without looking at them.  That happens behind the word `using` and
behind an opening square bracket.  In a *paired* run of tokens every opening brace is followed by the
brace that closes it, and the braces that are read without looking are left out.  The brace of a list
of expressions may be left open.  So if no brace was read without looking (`Seen`), a run opens as many
braces as it closes or more, and it never closes one that it has not opened (`Paired.closing?`).
Counting finds the same partners if and only if none was left open (`Paired.closing?_append_iff`).
-/

namespace CppDecl

/-- Whether a token is a brace. -/
def Token.isBrace (t : Token) : Bool := t.kind == .openCurly || t.kind == .closeCurly

/-- Whether the token behind this one may be read without looking at it. -/
def Token.isBlind (t : Token) : Bool := t.isWord "using" || t.kind == .openSquare

/-- How many tokens come before the brace that closes a brace in front, if `depth` further braces are
open.  Only braces count. -/
def closing? : (depth : Nat) → List Token → Option Nat
  | _, [] => none
  | depth, t :: ts =>
    if t.kind = .openCurly then (closing? (depth + 1) ts).map (· + 1)
    else if t.kind = .closeCurly then
      if depth = 0 then some 0 else (closing? (depth - 1) ts).map (· + 1)
    else (closing? depth ts).map (· + 1)

/-- Every opening brace has its closing one, and the other way round.  A token that was read without
looking at it may be anything.  Unless lists of expressions are known to be closed, the brace of one
may be left open. -/
inductive Paired (closed : Prop) : List Token → Prop
  | nil : Paired closed []
  | plain {t : Token} {ts : List Token} (plain : t.isBrace = false) (rest : Paired closed ts) :
      Paired closed (t :: ts)
  | block {o c : Token} {ts us : List Token} (opener : o.kind = .openCurly)
      (closer : c.kind = .closeCurly) (inner : Paired closed ts) (rest : Paired closed us) :
      Paired closed (o :: (ts ++ c :: us))
  | blind {t u : Token} {ts : List Token} (blind : t.isBlind = true) (rest : Paired closed ts) :
      Paired closed (t :: u :: ts)
  | left {o : Token} {ts : List Token} (unknown : ¬ closed) (opener : o.kind = .openCurly)
      (rest : Paired closed ts) : Paired closed (o :: ts)

/-- No brace was read without looking at it. -/
def Seen (ts : List Token) : Prop :=
  ts.IsChain fun t u => t.isBlind = true → u.isBrace = false

instance (ts : List Token) : Decidable (Seen ts) :=
  inferInstanceAs (Decidable (ts.IsChain _))

/-- As many braces are opened as are closed. -/
def Balanced (ts : List Token) : Prop :=
  ts.countP (fun t => t.kind == .openCurly) = ts.countP fun t => t.kind == .closeCurly

instance (ts : List Token) : Decidable (Balanced ts) := inferInstanceAs (Decidable (_ = _))

namespace Paired

variable {closed closed' : Prop} {ts us : List Token} {t u : Token}

theorem append (h : Paired closed ts) (h' : Paired closed us) : Paired closed (ts ++ us) := by
  induction h with
  | nil => exact h'
  | plain ht _ ih => exact .plain ht ih
  | block ho hc hinner _ _ ih =>
    rw [List.cons_append, List.append_assoc, List.cons_append]
    exact .block ho hc hinner ih
  | blind ht _ ih => exact .blind ht ih
  | left hunknown ho _ ih => exact .left hunknown ho ih

theorem single (h : t.isBrace = false) : Paired closed [t] := .plain h .nil

theorem pair (h : t.isBlind = true) : Paired closed [t, u] := .blind h .nil

theorem braces {o c : Token} (ho : o.kind = .openCurly) (hc : c.kind = .closeCurly)
    (h : Paired closed ts) : Paired closed (o :: (ts ++ [c])) := .block ho hc h .nil

/-- With less known of lists, the tokens are paired as well. -/
theorem mono (h : Paired closed ts) (himp : closed' → closed) : Paired closed' ts := by
  induction h with
  | nil => exact .nil
  | plain ht _ ih => exact .plain ht ih
  | block ho hc _ _ ihinner ihrest => exact .block ho hc ihinner ihrest
  | blind ht _ ih => exact .blind ht ih
  | left hunknown ho _ ih => exact .left (mt himp hunknown) ho ih

end Paired

/-! ## Counting -/

theorem closing?_plain {t : Token} (h : t.isBrace = false) (depth : Nat) (ts : List Token) :
    closing? depth (t :: ts) = (closing? depth ts).map (· + 1) := by
  simp only [Token.isBrace, Bool.or_eq_false_iff, beq_eq_false_iff_ne] at h
  rw [closing?, if_neg h.1, if_neg h.2]

theorem isBrace_of_isBlind {t : Token} (h : t.isBlind = true) : t.isBrace = false := by
  simp only [Token.isBlind, Token.isWord, Bool.or_eq_true, Bool.and_eq_true, beq_iff_eq] at h
  rcases h with ⟨h, -⟩ | h <;> simp [Token.isBrace, h]

/-- A paired run of tokens is passed over when the brace that closes one in front of it is looked for.
The braces that it leaves open have to be closed as well. -/
theorem Paired.closing? {closed : Prop} {ts : List Token} (h : Paired closed ts) (hseen : Seen ts) :
    ∃ n, (closed → n = 0) ∧
      ts.countP (fun t => t.kind == .openCurly) = ts.countP (fun t => t.kind == .closeCurly) + n ∧
      ∀ depth rest, CppDecl.closing? depth (ts ++ rest) =
        (CppDecl.closing? (depth + n) rest).map (· + ts.length) := by
  induction h with
  | nil => exact ⟨0, fun _ => rfl, rfl, by simp⟩
  | @plain t ts ht _ ih =>
    obtain ⟨n, hclosed, hcount, hpassed⟩ := ih hseen.tail
    have hkind := ht
    rw [Token.isBrace, Bool.or_eq_false_iff] at hkind
    refine ⟨n, hclosed, by simp [hkind, hcount], fun depth rest => ?_⟩
    rw [List.cons_append, closing?_plain ht, hpassed]
    simp [Function.comp_def, Nat.add_assoc]
  | @block o c ts us ho hc _ _ ihinner ihrest =>
    obtain ⟨n, hclosed, hcount, hpassed⟩ := ihinner hseen.tail.left_of_append
    obtain ⟨m, hclosed', hcount', hpassed'⟩ := ihrest hseen.tail.right_of_append.tail
    refine ⟨n + m, fun h => by rw [hclosed h, hclosed' h], ?_, fun depth rest => ?_⟩
    · simp [ho, hc, hcount, hcount']
      omega
    · rw [List.cons_append, List.append_assoc, List.cons_append, CppDecl.closing?, if_pos ho, hpassed,
        CppDecl.closing?, if_neg (by rw [hc]; decide), if_pos hc, if_neg (by omega), hpassed']
      rw [show depth + 1 + n - 1 + m = depth + (n + m) by omega]
      simp only [Option.map_map, List.length_cons, List.length_append]
      congr 1
      funext k
      simp only [Function.comp_apply]
      omega
  | @blind t u ts ht _ ih =>
    have hu : u.isBrace = false := (List.isChain_cons_cons.1 hseen).1 ht
    have ht := isBrace_of_isBlind ht
    obtain ⟨n, hclosed, hcount, hpassed⟩ := ih hseen.tail.tail
    have hkinds := And.intro ht hu
    rw [Token.isBrace, Token.isBrace, Bool.or_eq_false_iff, Bool.or_eq_false_iff] at hkinds
    refine ⟨n, hclosed, by simp [hkinds, hcount], fun depth rest => ?_⟩
    rw [List.cons_append, List.cons_append, closing?_plain ht, closing?_plain hu, hpassed]
    simp [Function.comp_def, Nat.add_assoc]
  | @left o ts hunknown ho _ ih =>
    obtain ⟨n, -, hcount, hpassed⟩ := ih hseen.tail
    refine ⟨n + 1, fun h => absurd h hunknown, ?_, fun depth rest => ?_⟩
    · simp [ho, hcount]
      omega
    · rw [List.cons_append, CppDecl.closing?, if_pos ho, hpassed,
        show depth + 1 + n = depth + (n + 1) by omega]
      simp [Function.comp_def, Nat.add_assoc]

/-- Where no list is left open, as many braces are opened as are closed. -/
theorem Paired.balanced {ts : List Token} (h : Paired True ts) (hseen : Seen ts) : Balanced ts := by
  obtain ⟨n, hclosed, hcount, -⟩ := h.closing? hseen
  rw [hclosed trivial] at hcount
  exact hcount

/-- The brace behind a paired run of tokens closes the one in front of it if and only if as many braces
are opened in the run as are closed. -/
theorem Paired.closing?_append_iff {closed : Prop} {ts : List Token} (h : Paired closed ts)
    (hseen : Seen ts) {c : Token} (hc : c.kind = .closeCurly) (rest : List Token) :
    CppDecl.closing? 0 (ts ++ c :: rest) = some ts.length ↔ Balanced ts := by
  obtain ⟨n, -, hcount, hpassed⟩ := h.closing? hseen
  rw [hpassed, CppDecl.closing?, if_neg (by rw [hc]; decide), if_pos hc, Balanced, hcount]
  by_cases hn : n = 0
  · simp [hn]
  · simp [hn]
    intro k _
    omega

end CppDecl
