import CppDecl.Reader

/-!
# All tokens of a source

`tokenize` reads one source to its end and gives every token but the end of the file itself,
asides included, together with the faults of the text and all that was visited.

Expansions can define further macros, so no bound on the number of tokens is known beforehand.
The budget below is far beyond what can be read in practice.
-/

namespace CppDecl

/-- How many tokens, or steps of the grammar, are allowed at most. -/
def defaultBudget : Nat := 0x4000000000000000

/-- What reading a source gives. -/
structure Tokens where
  /-- The tokens without the end of the file. -/
  tokens : List Token
  /-- The faults of the text, in order. -/
  errors : List LexError
  /-- All that was visited. -/
  visited : Visited
  deriving Repr

/-- Reads all tokens of one source, at most `budget` of them. -/
def tokenizeWithin (budget : Nat) (config : Configuration) (path source : String) :
    Except Halt Tokens := do
  let (_, reader) := (Reader.new .empty config).push path source
  let (tokens, reader) ← reader.readAll budget
  return ⟨tokens.dropLast, reader.errors, reader.visited⟩

/-- Reads all tokens of one source. -/
def tokenize (config : Configuration) (path source : String) : Except Halt Tokens :=
  tokenizeWithin defaultBudget config path source

end CppDecl
