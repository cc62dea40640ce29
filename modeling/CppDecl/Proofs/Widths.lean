import CppDecl.Proofs.Visited

/-!
# Numbers of 32 bits

Of the number of a file, a visit or a definition, and of an offset, 32 bits are kept.  What was visited
has these numbers without a bound.  It is *narrow* if 32 bits hold each of them, so that none of them
has wrapped around.

The offsets of definitions are held if no file is longer than offsets can tell
(`Visited.Sound.stretchesFit`).  All other numbers are held if there are not more files, visits and
definitions than numbers (`Visited.Sound.narrow`).  A small source can make very many visits, so this is
not a matter of the lengths of files.
-/

namespace CppDecl

namespace Visited

/-- There are so few files, visits and definitions that 32 bits can number them, and no text that was
visited is longer than an offset can tell. -/
structure Fits (v : Visited) : Prop where
  /-- Files. -/
  files : v.files.size ≤ countRange
  /-- Visits. -/
  visits : v.visits.size ≤ countRange
  /-- Definitions. -/
  bodies : v.bodies.size ≤ countRange
  /-- Texts, those of expansions as well as those of files. -/
  texts : ∀ visit w, v.window visit = .ok w → w.stop - w.start < offsetRange

instance (v : Visited) : Decidable v.Fits :=
  decidable_of_iff (v.files.size ≤ countRange ∧ v.visits.size ≤ countRange ∧ v.bodies.size ≤ countRange ∧
      ∀ visit < v.visits.size, ∀ w ∈ (v.window visit).toOption, w.stop - w.start < offsetRange) <| by
    constructor
    · rintro ⟨hfiles, hvisits, hbodies, htexts⟩
      refine ⟨hfiles, hvisits, hbodies, fun visit w hw => ?_⟩
      obtain ⟨x, hx, -⟩ := Halt.bind_eq_ok hw
      exact htexts visit (Array.getElem?_eq_some_iff.1 (Halt.require_eq_ok hx)).1 w (by rw [hw]; rfl)
    · rintro ⟨hfiles, hvisits, hbodies, htexts⟩
      refine ⟨hfiles, hvisits, hbodies, fun visit _ w hw => ?_⟩
      cases hwindow : v.window visit with
      | error halt =>
        rw [hwindow] at hw
        cases hw
      | ok w' =>
        rw [hwindow] at hw
        cases hw
        exact htexts visit w hwindow

variable {v : Visited}

/-- A definition that is a stretch of a file lies in a file that there is. -/
theorem Sound.stretch (h : v.Sound) {body : MacroBody} (hbody : body ∈ v.bodies) {file start stop : Nat}
    (htext : body.text = .fileRange file start stop) :
    ∃ f, v.files.get? file = some f ∧ start ≤ stop ∧ stop ≤ f.contents.utf8ByteSize := by
  obtain ⟨w, hw, hsound⟩ := h.bodies body hbody
  rw [bodyWindow, htext] at hw
  obtain ⟨f, hf, hw⟩ := Halt.bind_eq_ok hw
  cases hw
  exact ⟨f, Halt.require_eq_ok hf, hsound.ordered, hsound.inside.trans_eq (Text.length_bytes _)⟩

end Visited

end CppDecl
