import CppDecl.Diagnostic

/-!
# Lexemes

This module says where the first lexeme of a run of bytes ends and what it is.  Everything here
is a function of the bytes alone, except for two switches: whether the lexeme stands at the start
of a line, which decides what a `#` is, and whether a `>` is always read by itself, which is how
it is read between the angle brackets of a template.

`Lexeme.scanFrom` gives a `Scan`.  Its places are offsets from the first byte of the lexeme, so the
result does not depend on where the lexeme stands.  A scan without a kind is no token: it skips
blanks, or text that has been reported as a fault.

There is one function for each class of lexeme, and each of them says how many bytes the lexeme
has.  Punctuators are recognised by their spellings, longer ones first.

A scan also says how many bytes had to be looked at, mostly one past the end, to know that the
lexeme ends there.  The count is of interest only for a window onto a text that turns out to be
shorter than the window.  How many bytes such a window has past the end of its text is the
argument `beyond`.  It matters in two places.  A dot has to be looked past only if the window
leaves room for an ellipsis, and the byte after a backslash in a literal is passed over unseen,
also where the text has no such byte.
-/

namespace CppDecl

/-- A fault at an offset from the start of the lexeme. -/
structure Fault where
  /-- What is wrong. -/
  cause : LexCause
  /-- The offset at which it was noticed. -/
  offset : Nat
  /-- The offset at which the unfinished thing began. -/
  other? : Option Nat
  deriving Repr, DecidableEq

/-- The fault in a lexeme that starts at `base`. -/
def Fault.locate (base : LinearLoc) (f : Fault) : LexError :=
  ⟨f.cause, base + f.offset, match f.other? with | some n => base + n | none => -1⟩

/-- What a directive does, beyond being a token. -/
inductive Effect where
  /-- Nothing. -/
  | nothing
  /-- Its text is passed on as a request for another file. -/
  | inclusion
  /-- The first word after the given offset is no longer a macro. -/
  | undefine (offset : Nat)
  /-- The text after the given offset defines a macro. -/
  | define (offset : Nat)
  deriving Repr, DecidableEq

/-- The first lexeme of a run of bytes. -/
structure Scan where
  /-- The kind of token, or none if the bytes are skipped. -/
  kind? : Option TokenKind
  /-- How many bytes the lexeme has. -/
  len : Nat
  /-- How many bytes, from its first one on, were looked at. -/
  seen : Nat := len
  /-- What is wrong with it. -/
  faults : List Fault := []
  /-- Whether the next lexeme stands at the start of a line. -/
  lineStart : Bool := false
  /-- What it does, if it is a directive. -/
  effect : Effect := .nothing
  deriving Repr, DecidableEq

namespace Lexeme

open Byte

/-- The bytes up to and with the first newline, and whether there is one. -/
def line : Bytes → Nat × Bool
  | [] => (0, false)
  | b :: bs =>
    if b = newline then (1, true)
    else
      let (n, ended) := line bs
      (n + 1, ended)

/-- How many bytes were looked at past a stretch that may have its own end mark. -/
def aheadOf (ended : Bool) : Nat := if ended then 0 else 1

/-! ## Blanks and comments -/

/-- Blanks.  Only they keep the next lexeme at the start of a line, and a newline puts it there. -/
def blanks (lineStart : Bool) (bs : Bytes) : Scan :=
  let run := bs.takeWhile isBlank
  { kind? := none, len := run.length, seen := run.length + 1,
    lineStart := lineStart || run.contains newline }

/-- A comment to the end of the line, given the bytes after its two slashes. -/
def lineComment (bs : Bytes) : Scan :=
  let (n, ended) := line bs
  { kind? := some .lineComment, len := 2 + n, seen := 2 + n + aheadOf ended, lineStart := true }

/-- How many bytes it takes to get past the first star followed by a slash. -/
def commentEnd? : Bytes → Option Nat
  | [] => none
  | b :: bs =>
    if b = star && bs.head? = some slash then some 2
    else (commentEnd? bs).map (· + 1)

/-- A comment between marks, given the bytes after its opening. -/
def blockComment (bs : Bytes) : Scan :=
  match commentEnd? bs with
  | some n => { kind? := some .blockComment, len := 2 + n }
  | none =>
    let len := 2 + bs.length
    { kind? := none, len, seen := len + 1, faults := [⟨.endInComment, len, some 0⟩] }

/-! ## Literals -/

/-- How many bytes it takes to get past the closing quote.  A backslash takes the next byte
with it. -/
def literalEnd? (mark : UInt8) : Bytes → Option Nat
  | [] => none
  | b :: bs =>
    if b = backslash then
      match bs with
      | [] => none
      | _ :: rest => (literalEnd? mark rest).map (· + 2)
    else if b = mark then some 1
    else (literalEnd? mark bs).map (· + 1)

/-- Whether the bytes of a literal break off right after a backslash, before the byte that it
takes with it. -/
def endsInEscape : Bytes → Bool
  | [] => false
  | b :: bs =>
    if b = backslash then
      match bs with
      | [] => true
      | _ :: rest => endsInEscape rest
    else endsInEscape bs

/-- How many bytes are passed over after the opening quote of a literal that is not closed, and
how many of them are looked at.  A backslash takes the next byte with it unseen.  If that is the
one byte that the window has past the text, the literal ends with the window. -/
def unclosed (beyond : Nat) (bs : Bytes) : Nat × Nat :=
  if beyond = 1 && endsInEscape bs then (bs.length + 1, bs.length)
  else (bs.length, bs.length + 1)

/-- A literal whose opening quote is the byte at offset `lead`, given the bytes after it and the
faults found so far. -/
def literal (beyond : Nat) (mark : UInt8) (lead : Nat) (faults : List Fault) (bs : Bytes) :
    Scan :=
  match literalEnd? mark bs with
  | some n => { kind? := some .stringLiteral, len := lead + 1 + n, faults }
  | none =>
    let (n, seen) := unclosed beyond bs
    let len := lead + 1 + n
    { kind? := none, len, seen := lead + 1 + seen,
      faults := faults ++ [⟨.endInLiteral, len, some 0⟩] }

/-- How many bytes it takes to get past the first occurrence of a terminator. -/
def terminatorEnd? (terminator : Bytes) : Bytes → Option Nat
  | [] => none
  | b :: bs =>
    if terminator.isPrefixOf (b :: bs) then some terminator.length
    else (terminatorEnd? terminator bs).map (· + 1)

/-- Bytes that may stand in the delimiter of a raw literal. -/
def isDelimiterByte (b : UInt8) : Bool :=
  !(isBlank b || b == openParen || b == closeParen || b == backslash)

/-- A raw literal whose opening quote is the byte at offset `lead`, given the bytes after it.  Its
terminator is looked for in all of the window. -/
def rawLiteral (lead : Nat) (bs : Bytes) : Scan :=
  let delimiter := bs.takeWhile isDelimiterByte
  let start := lead + 1 + delimiter.length
  match bs.drop delimiter.length with
  | [] =>
    { kind? := none, len := start, seen := start + 1,
      faults := [⟨.endInRawDelimiter, start, some 0⟩] }
  | b :: rest =>
    if b = openParen then
      let stop := start + 1 + rest.length
      match terminatorEnd? (closeParen :: delimiter ++ [quote]) rest with
      | some n => { kind? := some .stringLiteral, len := start + 1 + n, seen := stop + 1 }
      | none =>
        { kind? := none, len := stop, seen := stop + 1,
          faults := [⟨.endInLiteral, stop, some 0⟩] }
    else
      { kind? := none, len := start, seen := start + 1,
        faults := [⟨.badCharInRawDelimiter, start, some 0⟩] }

/-- What may stand right before the opening quote of a plain literal. -/
def literalLeads : List Bytes := ["L", "u", "U", "u8"].map fun s => Text.spelled s.toList

/-- What may stand right before the opening quote of a raw literal. -/
def rawLeads : List Bytes := ["R", "LR", "uR", "UR", "u8R"].map fun s => Text.spelled s.toList

/-! ## Numbers -/

/-- The length of the exponent that `bs` starts with, and how far one had to look if there is
none. -/
def exponent (bs : Bytes) : Nat × Nat :=
  match bs with
  | e :: rest =>
    if Char.ofUInt8 e ∈ ['e', 'E'] then
      let sign := (rest.take 1).countP fun s => Char.ofUInt8 s ∈ ['+', '-']
      let digits := ((rest.drop sign).takeWhile isDigit).length
      if digits = 0 then (0, 2 + sign) else (1 + sign + digits, 1)
    else (0, 1)
  | [] => (0, 1)

/-- The length of the type marks that `bs` starts with, an `f`, or a `U` and up to two `L`s, and
whether no further mark could follow. -/
def typeMarks (bs : Bytes) : Nat × Bool :=
  match (bs.take 3).map Char.ofUInt8 with
  | 'f' :: _ => (1, true)
  | ['U', 'L', 'L'] => (3, true)
  | 'U' :: 'L' :: _ => (2, false)
  | 'U' :: _ => (1, false)
  | 'L' :: 'L' :: _ => (2, true)
  | 'L' :: _ => (1, false)
  | _ => (0, false)

/-- What a hexadecimal number starts with. -/
def hexLeads : List Bytes := ["0x", "0X"].map fun s => Text.spelled s.toList

/-- The length of the digits of a number, with point and exponent, and how far one had to look
past them. -/
def numberCore (bs : Bytes) : Nat × Nat :=
  if hexLeads.contains (bs.take 2) then
    (2 + ((bs.drop 2).takeWhile isHexDigit).length, 1)
  else
    let whole := (bs.takeWhile isDigit).length
    let afterWhole := bs.drop whole
    let fraction :=
      if afterWhole.head? = some dot then 1 + (afterWhole.tail.takeWhile isDigit).length else 0
    let (n, ahead) := exponent (afterWhole.drop fraction)
    (whole + fraction + n, ahead)

/-- A number. -/
def number (bs : Bytes) : Scan :=
  let (core, ahead) := numberCore bs
  let (marks, ended) := typeMarks (bs.drop core)
  let ahead := if marks = 0 then ahead else aheadOf ended
  { kind? := some .numericLiteral, len := core + marks, seen := core + marks + ahead }

/-! ## Words -/

/-- An identifier, or the literal that an identifier leads into. -/
def word (beyond : Nat) (bs : Bytes) : Scan :=
  let lead := bs.takeWhile isIdentifierByte
  let n := lead.length
  match bs.drop n with
  | [] => { kind? := some .identifier, len := n, seen := n + 1 }
  | mark :: rest =>
    if mark = quote && rawLeads.contains lead then rawLiteral n rest
    else if mark = quote || mark = apostrophe then
      let faults := if literalLeads.contains lead then [] else [⟨.badLiteralLead, 0, none⟩]
      literal beyond mark n faults rest
    else { kind? := some .identifier, len := n, seen := n + 1 }

/-! ## Punctuators -/

/-- The punctuators, longer ones first. -/
def punctuators : List TokenKind :=
  [.ellipsis, .leftShift, .lessThanOrEqual, .rightShift, .greaterThanOrEqual, .doubleColon,
   .doubleEqual, .starEqual, .doubleAmpersand, .doubleVerticalBar, .doublePlus, .plusEqual,
   .doubleMinus, .minusEqual, .arrow, .notEqual, .slashEqual, .openCurly, .closeCurly,
   .semicolon, .openParen, .closeParen, .openSquare, .closeSquare, .comma, .questionMark,
   .percent, .tilde, .caret, .openAngle, .closeAngle, .singleColon, .singleEqual, .star,
   .singleAmpersand, .singleVerticalBar, .singlePlus, .singleMinus, .bang, .dot, .forwardSlash]

/-- Whether a punctuator is read as one between the angle brackets of a template. -/
def keptWhole (closeAnglesOnly : Bool) (kind : TokenKind) : Bool :=
  !(closeAnglesOnly && (kind == .rightShift || kind == .greaterThanOrEqual))

/-- The bytes of a punctuator. -/
def spellingBytes (kind : TokenKind) : Bytes := Text.spelled kind.spelling.toList

/-- The punctuator that `bs` starts with. -/
def punctuator? (closeAnglesOnly : Bool) (bs : Bytes) : Option TokenKind :=
  (punctuators.filter (keptWhole closeAnglesOnly)).find? fun kind =>
    (spellingBytes kind).isPrefixOf bs

/-- How far one has to look past a punctuator to know that it is not a longer one, given the bytes
after it. -/
def aheadOfPunctuator (closeAnglesOnly : Bool) (beyond : Nat) (kind : TokenKind) (rest : Bytes) :
    Nat :=
  if kind = .dot then
    if rest.length + beyond < 2 then 0 else if rest.head? = some dot then 2 else 1
  else if kind ∈ [.openAngle, .singleColon, .singleEqual, .star, .singleAmpersand,
      .singleVerticalBar, .singlePlus, .singleMinus, .bang, .forwardSlash] then 1
  else if kind = .closeAngle && !closeAnglesOnly then 1
  else 0

/-! ## Directives -/

/-- The names of directives that are accepted and ignored. -/
def ignoredDirectives : List String :=
  ["pragma", "if", "else", "elif", "endif", "ifdef", "ifndef", "error", "import"]

/-- The bytes of a definition: up to and with the first newline that no backslash escapes.
Carriage returns may stand between a backslash and the newline.  Once escaped, newlines stay
escaped until another byte follows. -/
def definitionLine (escaped : Bool) : Bytes → Nat × Bool
  | [] => (0, false)
  | b :: bs =>
    if b = newline && !escaped then (1, true)
    else
      let (n, ended) :=
        definitionLine (if b = newline || b = carriageReturn then escaped else b == backslash) bs
      (n + 1, ended)

/-- The directive with a given name, which is followed by `bs` and starts at the offset `start`. -/
def namedDirective (name : String) (start : Nat) (bs : Bytes) : Scan :=
  let after := start + name.utf8ByteSize
  let toLine (effect : Effect) (faults : List Fault) : Scan :=
    let (n, ended) := line bs
    { kind? := some .directive, len := after + n, seen := after + n + aheadOf ended,
      lineStart := true, effect, faults }
  if name = "include" then toLine .inclusion []
  else if name = "undef" then toLine (.undefine after) []
  else if name = "define" then
    let (n, ended) := definitionLine false bs
    { kind? := some .directive, len := after + n, seen := after + n + aheadOf ended,
      lineStart := true, effect := .define after }
  else if ignoredDirectives.contains name then toLine .nothing []
  else toLine .nothing [⟨.invalidDirective, start, none⟩]

/-- A directive, given the bytes after the `#`.  A line with nothing after the `#` is one too. -/
def directive (bs : Bytes) : Scan :=
  let gap := bs.takeWhile isBlank
  if gap.contains newline then
    { kind? := some .directive, len := 1 + (line bs).1, lineStart := true }
  else
    let rest := bs.drop gap.length
    let name := rest.takeWhile isWordByte
    namedDirective ((Text.ofBytes? name).getD "") (1 + gap.length) (rest.drop name.length)

/-! ## Any lexeme -/

/-- The first lexeme of a run of bytes that starts with `b`, in a window that has `beyond` bytes
more than the text. -/
def scanFrom (closeAnglesOnly lineStart : Bool) (beyond : Nat) (b : UInt8) (bs : Bytes) : Scan :=
  if isBlank b then blanks lineStart (b :: bs)
  else if b = hash then
    if lineStart then directive bs
    else
      { kind? := none, len := 1, faults := [⟨.directiveNotAtLineStart, 0, none⟩] }
  else if b = slash && bs.head? = some slash then lineComment bs.tail
  else if b = slash && bs.head? = some star then blockComment bs.tail
  else if b = quote || b = apostrophe then literal beyond b 0 [] bs
  else
    match punctuator? closeAnglesOnly (b :: bs) with
    | some kind =>
      let len := kind.spelling.utf8ByteSize
      { kind? := some kind, len,
        seen := len + aheadOfPunctuator closeAnglesOnly beyond kind (bs.drop (len - 1)) }
    | none =>
      if isDigit b then number (b :: bs)
      else if isIdentifierByte b then word beyond (b :: bs)
      else { kind? := none, len := 1, faults := [⟨.garbage, 0, none⟩] }

end Lexeme

end CppDecl
