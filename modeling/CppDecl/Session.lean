import CppDecl.Reader
import CppDecl.Scope
import CppDecl.Tree.Chain

/-!
# The session of a parse

A session is all that a parse carries along: the reader, the tokens that have been read ahead,
the counts of errors, the brackets that may end what is being parsed, the open scopes, and the
log of events.  The rules of the grammar are actions on a session.

*Tokens.*  `read` gives the next token that is not an aside.  A token can be pushed back.  While
a *trial* is on, tokens that are read stay in the queue, so that the parse can go back to the
place where the trial began.  The queue has two sides, the tokens behind, which a trial might
return to, and the tokens ahead.

*Errors.*  Every fault of the grammar counts as a raw error.  It is reported only if errors are
not muted and no trial is on.  A fault may mute the ones that follow it, until something is read
that makes sense again.  A session counts as far as there is something to be counted; whoever asks
for a count is told the last 32 bits of it.

*Recovery.*  When a token makes no sense, the parse goes on behind it, unless the token closes a
bracket that is open further out.  Which closing brackets those are is told by `Accept`.
-/

namespace CppDecl

/-! ## The queue of tokens -/

/-- Tokens around the place that is read next. -/
structure TokenQueue where
  /-- Tokens that a trial might return to, the last one read first. -/
  behind : List Token
  /-- Tokens that come next. -/
  ahead : List Token
  /-- Whether a trial is on. -/
  saving : Bool
  deriving Repr, DecidableEq

namespace TokenQueue

/-- An empty queue. -/
def empty : TokenQueue := ⟨[], [], false⟩

/-- The place in the queue, as the number of tokens behind. -/
def pos (q : TokenQueue) : Nat := q.behind.length

/-- The queue after a token has been read that is no longer ahead. -/
def passed (q : TokenQueue) (t : Token) : TokenQueue :=
  if q.saving then { q with behind := t :: q.behind } else q

/-- The next token of the queue. -/
def next? (q : TokenQueue) : Option (Token × TokenQueue) :=
  match q.ahead with
  | [] => none
  | t :: ahead => some (t, { q with ahead }.passed t)

/-- Goes back by one token.  With nothing behind, the given token is the one that comes next. -/
def pushBack (q : TokenQueue) (t : Token) : TokenQueue :=
  match q.behind with
  | last :: behind => { q with behind, ahead := last :: q.ahead }
  | [] => { q with ahead := t :: q.ahead }

/-- Goes to a place. -/
def seek (q : TokenQueue) (pos : Nat) : TokenQueue :=
  let all := q.behind.reverse ++ q.ahead
  { q with behind := (all.take pos).reverse, ahead := all.drop pos }

/-- Ends the outermost trial: there is no way back any more. -/
def settle (q : TokenQueue) : TokenQueue := { q with behind := [], saving := false }

end TokenQueue

/-! ## Brackets that end what is being parsed -/

/-- Which tokens are left to the rules further out. -/
structure Accept where
  /-- The brace that opens a body. -/
  openCurly : Bool
  /-- The brace that closes a body. -/
  closeCurly : Bool
  /-- The closing parenthesis. -/
  closeParen : Bool
  /-- The closing square bracket. -/
  closeSquare : Bool
  /-- The closing angle bracket. -/
  closeAngle : Bool
  deriving Repr, DecidableEq

namespace Accept

/-- Nothing is left to anyone else. -/
def nothing : Accept := ⟨false, false, false, false, false⟩

/-- What is accepted inside of a bracket.  A brace starts afresh.  A parenthesis and a square
bracket hide the angle bracket around them, since a `>` inside them may be an operator. -/
def inside (opener : TokenKind) (a : Accept) : Accept :=
  match opener with
  | .openCurly => { nothing with closeCurly := true }
  | .openParen => { a with closeParen := true, closeAngle := false }
  | .openSquare => { a with closeSquare := true, closeAngle := false }
  | .openAngle => { a with closeAngle := true }
  | _ => a

/-- Whether a token is one that could be left to a rule further out, and whether it is now. -/
def leaves? (a : Accept) : TokenKind → Option Bool
  | .openCurly => some a.openCurly
  | .closeCurly => some a.closeCurly
  | .closeParen => some a.closeParen
  | .closeAngle => some a.closeAngle
  | .closeSquare => some a.closeSquare
  | _ => none

end Accept

/-- Whether a `>` is a token of its own inside of a bracket. -/
def closeAnglesInside (opener : TokenKind) (outside : Bool) : Bool :=
  match opener with
  | .openCurly | .openParen | .openSquare => false
  | .openAngle => true
  | _ => outside

/-! ## Sessions -/

/-- The state of a parse. -/
structure Session where
  /-- Where tokens come from. -/
  reader : Reader
  /-- Tokens that have been read ahead. -/
  queue : TokenQueue
  /-- How many more tokens may be taken from the reader before the end of the file. -/
  allowance : Nat
  /-- On the first pass, a `<` behind a name always opens template arguments. -/
  passNumber : Nat
  /-- Faults of the grammar, reported or not. -/
  rawErrors : Nat
  /-- Faults of the grammar that were reported. -/
  reportedErrors : Nat
  /-- Faults of the text, all of which are reported. -/
  lexErrors : Nat
  /-- Whether faults of the grammar are kept silent. -/
  muted : Bool
  /-- Which tokens are left to the rules further out. -/
  accept : Accept
  /-- The open scopes, innermost first. -/
  scopes : List OpenScope
  /-- The events, last one first. -/
  log : List Event

/-- An action on a session. -/
abbrev Parse := StateT Session (Except Halt)

namespace Session

/-- A session at the start of a parse. -/
def new (reader : Reader) (allowance passNumber : Nat) : Session :=
  { reader, queue := .empty, allowance, passNumber, rawErrors := 0, reportedErrors := 0,
    lexErrors := 0, muted := false, accept := .nothing, scopes := [], log := [] }

/-- The open scopes without what they hold. -/
def path (s : Session) : ScopePath := s.scopes.map OpenScope.scope

/-- The events, first one first. -/
def events (s : Session) : List Event := s.log.reverse

/-- All errors that were reported. -/
def allErrors (s : Session) : Nat := s.reportedErrors + s.lexErrors

/-- The count of the faults of the grammar, as it is told. -/
def rawErrorCount (s : Session) : Nat := s.rawErrors % countRange

/-- The count of all errors that were reported, as it is told. -/
def errorCount (s : Session) : Nat := s.allErrors % countRange

/-- Whether no count of errors has wrapped around. -/
structure Counted (s : Session) : Prop where
  /-- Faults of the grammar, reported or not. -/
  raw : s.rawErrors < countRange
  /-- All that was reported. -/
  all : s.allErrors < countRange

instance (s : Session) : Decidable s.Counted :=
  decidable_of_iff (s.rawErrors < countRange ∧ s.allErrors < countRange)
    ⟨fun h => ⟨h.1, h.2⟩, fun h => ⟨h.raw, h.all⟩⟩

/-- Adds an event to the log. -/
def record (s : Session) (e : Event) : Session := { s with log := e :: s.log }

/-- Moves what has come up in the reader to the log, faults first. -/
def drain (s : Session) : Session :=
  let (errors, reader) := s.reader.takeErrors
  let (inclusions, reader) := reader.takeInclusions
  let events := errors.map (fun e => Event.diagnosed (.lexical e)) ++ inclusions.map Event.included
  { s with reader, lexErrors := s.lexErrors + errors.length, log := events.reverse ++ s.log }

/-- Takes tokens from the reader, up to one that is not an aside.  Before the end of the file, at
most `n` of them are taken. -/
def pull (n : Nat) (s : Session) : Except Halt (Token × Session) := do
  let (token, reader) ← s.reader.readToken
  if token.kind = .endOfFile then
    return (token, { s with reader }.drain)
  match n with
  | 0 => throw .exhausted
  | n + 1 =>
    let s := { s with reader, allowance := n }.drain
    if token.kind.isAside then
      let args := if token.kind = .macroUse then s.reader.args else []
      pull n (s.record (.aside token args))
    else
      return (token, s)

end Session

namespace Parse

/-! ## Tokens -/

/-- The next token. -/
def read : Parse Token := fun s =>
  match s.queue.next? with
  | some (token, queue) => .ok (token, { s with queue })
  | none => do
    let (token, s) ← s.pull s.allowance
    return (token, { s with queue := s.queue.passed token })

/-- Makes the token that was read last the next one again. -/
def pushBack (token : Token) : Parse Unit :=
  modify fun s => { s with queue := s.queue.pushBack token }

/-- The next token, which stays the next one. -/
def peek : Parse Token := do
  let token ← read
  pushBack token
  return token

/-! ## Errors -/

/-- Notes a fault, and mutes the ones that follow if asked to. -/
def fault (mute : Bool) (e : ParseError) : Parse Unit :=
  modify fun s =>
    let s := { s with rawErrors := s.rawErrors + 1 }
    let s :=
      if !s.muted && !s.queue.saving then
        { s with reportedErrors := s.reportedErrors + 1 }.record (.diagnosed (.grammatical e))
      else s
    if mute then { s with muted := true } else s

/-- Notes that something else was expected, and mutes what follows. -/
def faultExpected (what : Expected) (token : Token) : Parse Unit :=
  fault true (.expected what token)

/-- Ends muting. -/
def unmute : Parse Unit := modify fun s => { s with muted := false }

/-! ## Trials -/

/-- What has to be put back when a trial is given up. -/
structure Trial where
  /-- Whether a trial was on already. -/
  saving : Bool
  /-- The place in the queue. -/
  pos : Nat
  /-- The number of raw errors. -/
  rawErrors : Nat
  /-- Whether errors were muted. -/
  muted : Bool
  deriving Repr, DecidableEq

/-- Begins a trial. -/
def beginTrial : Parse Trial := fun s =>
  .ok (⟨s.queue.saving, s.queue.pos, s.rawErrors, s.muted⟩,
    { s with queue := { s.queue with saving := true } })

/-- Whether an error has come up since the number of raw errors was `before`, as far as the count of
them tells. -/
def failedSince (before : Nat) : Parse Bool := return (← get).rawErrorCount != before % countRange

/-- Goes back to where a trial began. -/
def backtrack (t : Trial) : Parse Unit :=
  modify fun s =>
    { s with queue := s.queue.seek t.pos, rawErrors := t.rawErrors, muted := t.muted }

/-- Ends a trial where the parse now is. -/
def endTrial (t : Trial) : Parse Unit :=
  if t.saving then pure () else modify fun s => { s with queue := s.queue.settle }

/-- Gives a trial up. -/
def abandon (t : Trial) : Parse Unit := do
  backtrack t
  endTrial t

/-- Where a stretch of parsing began, to tell what has happened since. -/
structure Activity where
  /-- The number of raw errors. -/
  rawErrors : Nat
  /-- The place of the next token. -/
  loc : LinearLoc
  deriving Repr, DecidableEq

/-- Remembers where the parse now is. -/
def beginActivity : Parse Activity := do
  let token ← peek
  return ⟨(← get).rawErrors, token.loc⟩

/-- Whether any token has been consumed. -/
def consumedSince (a : Activity) : Parse Bool := return (← peek).loc != a.loc

/-- Ends muting if no error has come up. -/
def unmuteUnlessFailed (a : Activity) : Parse Unit := do
  if !(← failedSince a.rawErrors) then
    unmute

/-! ## Brackets -/

/-- Does something with other tokens left to the rules further out, and with another way to read
a `>`. -/
def within {α : Type} (accept : Accept → Accept) (closeAngles : Bool → Bool) (p : Parse α) :
    Parse α := do
  let outside ← get
  let angles := outside.reader.closeAnglesOnly
  set { outside with
    accept := accept outside.accept
    reader := { outside.reader with closeAnglesOnly := closeAngles angles } }
  let result ← p
  modify fun s =>
    { s with accept := outside.accept, reader := { s.reader with closeAnglesOnly := angles } }
  return result

/-- Does something inside of a bracket. -/
def inside {α : Type} (opener : TokenKind) (p : Parse α) : Parse α :=
  within (Accept.inside opener) (closeAnglesInside opener) p

/-- Does something with every `>` a token of its own. -/
def withCloseAngles {α : Type} (p : Parse α) : Parse α := within id (fun _ => true) p

/-- Does something with opening braces left to the caller. -/
def leavingOpenCurly {α : Type} (p : Parse α) : Parse α :=
  within (fun a => { a with openCurly := true }) id p

/-- Whether the parse may go on behind a token that makes no sense.  A token that is left to a
rule further out is pushed back.  Nothing is behind the end of the file. -/
def mayStay (token : Token) : Parse Bool := do
  if token.kind = .endOfFile then
    return false
  match (← get).accept.leaves? token.kind with
  | some true =>
    pushBack token
    return false
  | _ => return true

/-! ## Scopes -/

/-- Opens a scope. -/
def enterScope (scope : Scope) : Parse Unit :=
  modify fun s =>
    let s := { s with scopes := ⟨scope, []⟩ :: s.scopes }
    s.record (.entered s.path)

/-- The declarations collected in the innermost scope. -/
def members : Parse (List Declaration) := do
  match (← get).scopes with
  | [] => return []
  | top :: _ => return top.members

/-- Closes the innermost scope.  The caller says which one it takes that to be, and how many parts it
has. -/
def leaveScope (scope : Scope) (count : Nat) : Parse Unit :=
  modify fun s =>
    { s.record (.left (scope :: s.path.drop 1) count) with scopes := s.scopes.drop 1 }

/-- Collects a declaration in the innermost scope. -/
def declare (d : Declaration) : Parse Unit :=
  modify fun s =>
    let s := s.record (.declared d s.path)
    match s.scopes with
    | [] => s
    | top :: outer => { s with scopes := top.collect d :: outer }

/-- Tells of an enumerator. -/
def tell (e : Event) : Parse Unit := modify fun s => s.record e

end Parse

end CppDecl
