import CppDecl.Proofs.Building
import CppDecl.Proofs.Ranges

/-!
# Declarations of a tree stand apart

In every block of the tree of a source, all tokens of a declaration stand in front of all tokens of
the declarations behind it.  And the tree is made of tokens that the parse has taken from its
reader.

Neither depends on the source being a good one.  Where template arguments are cut off, the token that
cuts them off is part of the tree although it is left to be read again, and that no later declaration
has it as well is due to the tokens that a declaration can begin with (`Session.Listed.before`).
-/

namespace CppDecl

open Session (Gained Listed)

variable {s : Session}

namespace Reader

variable {r r' : Reader} {n : Nat} {t : Token} {ts : List Token}

theorem Gives.files (h : r.Gives n t r') (hsound : r.Sound) : r'.visited.files = r.visited.files := by
  induction h with
  | ended hread _ | plain hread _ _ => exact hsound.files_of_readToken hread
  | aside hread _ _ ih =>
    exact (ih (hsound.of_readToken hread)).trans (hsound.files_of_readToken hread)

/-- No file is added when tokens are drawn. -/
theorem Draws.files (h : r.Draws n ts r') (hsound : r.Sound) : r'.visited.files = r.visited.files := by
  induction h with
  | @nil r r' hkin =>
    have hvisited := congrArg Reader.visited
      (show (r.withAngles false).collected = (r'.withAngles false).collected from hkin)
    exact (congrArg Visited.files hvisited).symm
  | cons hgives _ ih =>
    exact (ih (hgives.sound (hsound.withAngles _))).trans (hgives.files (hsound.withAngles _))

end Reader

namespace Grammar

/-- What is known of the tree of a whole source. -/
theorem unit_listed {call : Call} [Call.Builds call] {s s' : Session} {unit : TranslationUnit}
    (hs : s.Tidy) (heq : Grammar.unit call s = .ok (unit, s')) :
    ∃ us, s.Advance us s' ∧ ∀ i ∈ unit.items, i.counts = true → Gained us s' i := by
  let s₁ : Session :=
    { s with scopes := ⟨.unit, []⟩ :: s.scopes, log := .entered (.unit :: s.path) :: s.log }
  obtain ⟨⟨closer, s₂⟩, hlist, heq⟩ := Halt.bind_eq_ok (show
    (declarationList call false "" s₁ >>= _) = _ from heq)
  have hthere : s.Advance [] s₁ := Session.Same.advance ⟨.refl _, rfl, rfl, rfl⟩
  have hs₁ := hs.advance hthere
  obtain ⟨us, inner, hlisted, hscopes, -⟩ := declarationList_lists hs₁ hlist ⟨.unit, []⟩ s.scopes rfl rfl
  have hs₂ := hs₁.advance hlisted.advance
  obtain ⟨⟨last, s₃⟩, hread, heq⟩ := Halt.bind_eq_ok (show (Parse.read s₂ >>= _) = _ from heq)
  have hlast := (hs₂.orderly.read hread).1
  have hscopes₃ : s₃.scopes = ⟨.unit, inner⟩ :: s.scopes :=
    (Session.read_steady hs₂.orderly.sound hread).2.2.trans hscopes
  obtain ⟨⟨_, _⟩, hmembers, heq⟩ := Halt.bind_eq_ok (show (Parse.members s₃ >>= _) = _ from heq)
  rw [members_eq hscopes₃] at hmembers
  cases hmembers
  cases heq
  have hback : s₃.Advance [] { s₃ with
      scopes := s₃.scopes.drop 1, log := .left (.unit :: s₃.path.drop 1) inner.length :: s₃.log } :=
    Session.Same.advance ⟨.refl _, rfl, rfl, rfl⟩
  have hall := (hlisted.advance.trans hlast hs₁.orderly.sound).trans hback hs₁.orderly.sound
  refine ⟨_, hthere.trans hall hs.orderly.sound, fun i hi hcounts => ?_⟩
  have hinner : Gained us s₂ i := by
    rcases List.mem_cons.1 hi with rfl | hi
    · exact hlisted.apart
    · exact hlisted.gained i (declarationsItems_eq inner ▸ hi) hcounts
  exact (hinner.trans hlast).trans hback

end Grammar

end CppDecl
