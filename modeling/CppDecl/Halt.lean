/-!
# Reasons to stop

Reading and parsing are total, but two things can keep them from an answer.  Neither is an error
of the program that is read; those are diagnostics and never stop anything.

* A place can be asked for that does not exist: a file, visit or macro number that was never
  given out, or a stretch of a file that the file no longer has because it was registered again
  with a shorter text.
* Work that is bounded by an explicit budget can use it up.
-/

namespace CppDecl

/-- Why there is no answer. -/
inductive Halt where
  /-- A number or a stretch of text lies outside of what exists. -/
  | outOfRange
  /-- The budget of steps was used up. -/
  | exhausted
  deriving Repr, DecidableEq

/-- A value that has to exist, or `Halt.outOfRange`. -/
def Halt.require {α : Type} : Option α → Except Halt α
  | some a => .ok a
  | none => .error .outOfRange

end CppDecl
