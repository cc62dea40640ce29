import CppDecl.Files
import CppDecl.Proofs.Text

/-!
# Files that get a new text

A file in a tree of files can be given a new text.  Then names lead to the same places as before, the
file has the new text, and all else is what it was.
-/

namespace CppDecl

namespace FileTree

variable {t t' : FileTree} {place other : Place} {bytes old : Bytes} {path contents : String}

theorem lookup_of_node (h : t.node place = .file bytes) : t.files.lookup place = some bytes := by
  unfold node at h
  split at h
  next heq =>
    cases h
    exact heq
  next => split at h <;> cases h

/-- In a list of files, a file that gets new bytes has them, and the others keep theirs. -/
theorem lookup_map_put (files : List (Place × Bytes)) (place : Place) (bytes : Bytes) (other : Place) :
    (files.map fun (p, b) => if p = place then (p, bytes) else (p, b)).lookup other =
      if other = place then (files.lookup place).map fun _ => bytes else files.lookup other := by
  induction files with
  | nil =>
    simp only [List.map_nil, List.lookup_nil, Option.map_none]
    split <;> rfl
  | cons entry files ih =>
    obtain ⟨p, b⟩ := entry
    rw [List.map_cons]
    by_cases hp : p = place
    · subst hp
      simp only [if_true, List.lookup_cons, ih, beq_self_eq_true, Option.map_some]
      by_cases hother : other = p
      · simp [hother]
      · simp [hother, show (other == p) = false by simpa using hother]
    · simp only [if_neg hp, List.lookup_cons, ih]
      by_cases hother : other = place
      · subst hother
        simp [show (other == p) = false by simpa using Ne.symm hp]
      · simp [hother]

/-- A file that gets new bytes has them, and all else is what it was. -/
theorem node_put (h : t.node place = .file old) (bytes : Bytes) (other : Place) :
    (t.put place bytes).node other = if other = place then .file bytes else t.node other := by
  have hlookup := lookup_of_node h
  have hput : t.put place bytes = ⟨t.files.map fun (p, b) => if p = place then (p, bytes) else (p, b)⟩ := by
    rw [put, hlookup]
    rfl
  have hany : ((t.files.map fun (p, b) => if p = place then (p, bytes) else (p, b)).any
      fun (p, _) => other.isPrefixOf p) = t.files.any fun (p, _) => other.isPrefixOf p := by
    rw [List.any_map]
    congr 1
    funext ⟨p, b⟩
    simp only [Function.comp_apply]
    split <;> rfl
  rw [hput, node, lookup_map_put, hany, hlookup]
  by_cases hother : other = place
  · rw [if_pos hother, if_pos hother]
    rfl
  · rw [if_neg hother, if_neg hother, node]

/-- Names lead to the same places when a file gets new bytes. -/
theorem follow_put (h : t.node place = .file old) (bytes : Bytes) (start : Place) (pieces : List String) :
    (t.put place bytes).follow start pieces = t.follow start pieces := by
  induction pieces generalizing start with
  | nil => rfl
  | cons piece pieces ih =>
    rw [follow, follow, node_put h]
    by_cases hstart : start = place
    · rw [if_pos hstart, hstart, h]
    · rw [if_neg hstart]
      simp only [ih]

theorem locate_put (h : t.node place = .file old) (bytes : Bytes) (path : String) :
    (t.put place bytes).locate path = t.locate path := by
  rw [locate, locate, follow_put h]

/-- A file can be given a new text, and then it has it. -/
theorem replace_of_bytesOf (h : t.bytesOf path = .ok old) (contents : String) :
    ∃ t', t.replace path contents = .ok t' ∧ t'.bytesOf path = .ok (Text.bytes contents) := by
  cases hlocate : t.locate path with
  | error fault =>
    rw [bytesOf, hlocate] at h
    cases h
  | ok place =>
    cases hnode : t.node place with
    | folder =>
      simp [bytesOf, hlocate, hnode, bind, Except.bind] at h
    | nothing =>
      simp [bytesOf, hlocate, hnode, bind, Except.bind] at h
    | file bytes =>
      refine ⟨t.put place (Text.bytes contents), ?_, ?_⟩
      · simp only [replace, hlocate, hnode, bind, Except.bind]
      · simp only [bytesOf, locate_put hnode, hlocate, node_put hnode, if_true, bind, Except.bind]

/-- The text of a file. -/
def textOf (t : FileTree) (path : String) : Except FileFault String := do
  match Text.ofBytes? (← t.bytesOf path) with
  | some text => return text
  | none => throw .notText

theorem textOf_eq_ok_iff : t.textOf path = .ok contents ↔ t.bytesOf path = .ok (Text.bytes contents) := by
  unfold textOf
  cases t.bytesOf path with
  | error fault => exact iff_of_false (fun h => nomatch h) fun h => nomatch h
  | ok bytes =>
    simp only [bind, Except.bind, Except.ok.injEq]
    rw [@eq_comm _ bytes, ← Text.ofBytes?_eq_some_iff]
    cases Text.ofBytes? bytes with
    | none => exact iff_of_false (fun h => nomatch h) fun h => nomatch h
    | some text =>
      exact ⟨fun h => congrArg some (Except.ok.inj h), fun h => congrArg Except.ok (Option.some.inj h)⟩

end FileTree

end CppDecl
