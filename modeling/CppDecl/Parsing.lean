import CppDecl.Grammar
import CppDecl.Tokens

/-!
# Parsing a source

The ways to have something parsed.  A parse never fails on account of the program: it gives a
tree and the events on the way to it, reports among them.

A watcher may have requests for other files sent elsewhere.  They are then not among the events
that it sees.
-/

namespace CppDecl

/-- What a parse gives. -/
structure Parsed where
  /-- The tree. -/
  unit : TranslationUnit
  /-- The session at its end. -/
  session : Session

namespace Parsed

/-- Everything that happened, in order. -/
def events (p : Parsed) : List Event := p.session.events

/-- All that was visited. -/
def visited (p : Parsed) : Visited := p.session.reader.visited

/-- How many errors were reported, in 32 bits. -/
def errorCount (p : Parsed) : Nat := p.session.errorCount

/-- The diagnostics, in order. -/
def diagnostics (p : Parsed) : List Diagnostic := p.events.filterMap Event.diagnostic?

/-- The requests for other files, in order. -/
def inclusions (p : Parsed) : List String := p.events.filterMap Event.directive?

/-- What a watcher sees if requests for other files are sent elsewhere or not. -/
def watched (p : Parsed) (inclusionsElsewhere : Bool) : List Event :=
  if inclusionsElsewhere then p.events.filter fun e => e.directive?.isNone else p.events

end Parsed

/-- Carries out a parse, with a budget for both the tokens and the depth of the grammar. -/
def runGrammar {α : Type} (budget passNumber : Nat) (reader : Reader)
    (p : Call → Parse α) : Except Halt (α × Session) :=
  (p fun rule => Grammar.run budget rule).run (Session.new reader budget passNumber)

/-- Parses all that a reader has to read. -/
def parseReader (passNumber : Nat) (reader : Reader) : Except Halt Parsed := do
  let (unit, session) ← runGrammar defaultBudget passNumber reader Grammar.unit
  return ⟨unit, session⟩

/-- Parses a source. -/
def parse (config : Configuration) (path source : String) : Except Halt Parsed :=
  parseReader 1 ((Reader.new .empty config).push path source).2

/-- Parses a single declaration whose first byte is at the given location.  Gives it with the
diagnostics. -/
def parseDeclaration (source : String) (loc : LinearLoc) :
    Except Halt (SimpleDeclaration × List Diagnostic) := do
  let reader := ((Reader.new .empty {}).pushAt "(declaration)" source loc).2
  let (simple, session) ← runGrammar defaultBudget 1 reader Grammar.single
  return (simple, session.events.filterMap Event.diagnostic?)

end CppDecl
