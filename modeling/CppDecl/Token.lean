/-!
# Tokens

A token is a kind, a spelling and a place.  The place is a *linear location*: all text that is
read, files and macro expansions alike, is thought of as laid out on one line, and the linear
location counts bytes along it.  A negative location stands for no place at all.

Kinds fall into three groups.

* Punctuators have exactly one spelling, `TokenKind.spelling`.
* Identifiers and literals are told apart by their text.
* Asides (comments, directives and macro uses) never reach the grammar.  They are handed to
  whoever watches the parse.

Two tokens are *alike* when a reader of the program would call them the same word, wherever they
stand.  Identifiers and numbers have to agree in spelling, all other kinds agree by kind alone.
-/

namespace CppDecl

/-- A place on the line of all text that is read, in bytes.  Negative means nowhere. -/
abbrev LinearLoc := Int

/-- What sort of word a token is. -/
inductive TokenKind where
  | invalid
  | lineComment
  | blockComment
  | macroUse
  | macroArgument
  | directive
  | openCurly
  | closeCurly
  | openParen
  | closeParen
  | openAngle
  | closeAngle
  | lessThanOrEqual
  | greaterThanOrEqual
  | openSquare
  | closeSquare
  | semicolon
  | singleColon
  | doubleColon
  | singleEqual
  | doubleEqual
  | notEqual
  | plusEqual
  | minusEqual
  | arrow
  | starEqual
  | slashEqual
  | comma
  | questionMark
  | forwardSlash
  | star
  | percent
  | singleAmpersand
  | doubleAmpersand
  | singleVerticalBar
  | doubleVerticalBar
  | singlePlus
  | doublePlus
  | singleMinus
  | doubleMinus
  | leftShift
  | rightShift
  | dot
  | tilde
  | caret
  | bang
  | ellipsis
  | identifier
  | stringLiteral
  | numericLiteral
  | endOfFile
  deriving Repr, DecidableEq, Inhabited

namespace TokenKind

/-- Every kind, in the order of declaration. -/
def all : List TokenKind :=
  [.invalid, .lineComment, .blockComment, .macroUse, .macroArgument, .directive, .openCurly,
   .closeCurly, .openParen, .closeParen, .openAngle, .closeAngle, .lessThanOrEqual,
   .greaterThanOrEqual, .openSquare, .closeSquare, .semicolon, .singleColon, .doubleColon,
   .singleEqual, .doubleEqual, .notEqual, .plusEqual, .minusEqual, .arrow, .starEqual,
   .slashEqual, .comma, .questionMark, .forwardSlash, .star, .percent, .singleAmpersand,
   .doubleAmpersand, .singleVerticalBar, .doubleVerticalBar, .singlePlus, .doublePlus,
   .singleMinus, .doubleMinus, .leftShift, .rightShift, .dot, .tilde, .caret, .bang, .ellipsis,
   .identifier, .stringLiteral, .numericLiteral, .endOfFile]

/-- The name of a kind as it is written in token listings and data views. -/
def name : TokenKind → String
  | .invalid => "Invalid"
  | .lineComment => "LineComment"
  | .blockComment => "CStyleComment"
  | .macroUse => "Macro"
  | .macroArgument => "MacroArgument"
  | .directive => "Directive"
  | .openCurly => "OpenCurly"
  | .closeCurly => "CloseCurly"
  | .openParen => "OpenParen"
  | .closeParen => "CloseParen"
  | .openAngle => "OpenAngle"
  | .closeAngle => "CloseAngle"
  | .lessThanOrEqual => "LessThanOrEqual"
  | .greaterThanOrEqual => "GreaterThanOrEqual"
  | .openSquare => "OpenSquare"
  | .closeSquare => "CloseSquare"
  | .semicolon => "Semicolon"
  | .singleColon => "SingleColon"
  | .doubleColon => "DoubleColon"
  | .singleEqual => "SingleEqual"
  | .doubleEqual => "DoubleEqual"
  | .notEqual => "NotEqual"
  | .plusEqual => "PlusEqual"
  | .minusEqual => "MinusEqual"
  | .arrow => "Arrow"
  | .starEqual => "StarEqual"
  | .slashEqual => "SlashEqual"
  | .comma => "Comma"
  | .questionMark => "QuestionMark"
  | .forwardSlash => "ForwardSlash"
  | .star => "Star"
  | .percent => "Percent"
  | .singleAmpersand => "SingleAmpersand"
  | .doubleAmpersand => "DoubleAmpersand"
  | .singleVerticalBar => "SingleVerticalBar"
  | .doubleVerticalBar => "DoubleVerticalBar"
  | .singlePlus => "SinglePlus"
  | .doublePlus => "DoublePlus"
  | .singleMinus => "SingleMinus"
  | .doubleMinus => "DoubleMinus"
  | .leftShift => "LeftShift"
  | .rightShift => "RightShift"
  | .dot => "Dot"
  | .tilde => "Tilde"
  | .caret => "Caret"
  | .bang => "Bang"
  | .ellipsis => "Ellipsis"
  | .identifier => "Identifier"
  | .stringLiteral => "StringLiteral"
  | .numericLiteral => "NumericLiteral"
  | .endOfFile => "EndOfFile"

/-- The kind that closes what a kind opens. -/
def closer? : TokenKind → Option TokenKind
  | .openCurly => some .closeCurly
  | .openParen => some .closeParen
  | .openAngle => some .closeAngle
  | .openSquare => some .closeSquare
  | _ => none

/-- How a punctuator is spelled.  Comments show their opening, and a kind without a spelling of
its own shows three question marks. -/
def spelling : TokenKind → String
  | .openCurly => "\x7b"
  | .closeCurly => "\x7d"
  | .openParen => "("
  | .closeParen => ")"
  | .openAngle => "<"
  | .closeAngle => ">"
  | .openSquare => "["
  | .closeSquare => "]"
  | .semicolon => ";"
  | .singleColon => ":"
  | .doubleColon => "::"
  | .singleEqual => "="
  | .doubleEqual => "=="
  | .notEqual => "!="
  | .plusEqual => "+="
  | .minusEqual => "-="
  | .comma => ","
  | .questionMark => "?"
  | .forwardSlash => "/"
  | .star => "*"
  | .percent => "%"
  | .singleAmpersand => "&"
  | .doubleAmpersand => "&&"
  | .singleVerticalBar => "|"
  | .doubleVerticalBar => "||"
  | .singlePlus => "+"
  | .doublePlus => "++"
  | .singleMinus => "-"
  | .doubleMinus => "--"
  | .leftShift => "<<"
  | .rightShift => ">>"
  | .dot => "."
  | .tilde => "~"
  | .bang => "!"
  | .ellipsis => "..."
  | .lineComment => "//"
  | .blockComment => "/*"
  | .lessThanOrEqual => "<="
  | .greaterThanOrEqual => ">="
  | .arrow => "->"
  | .starEqual => "*="
  | .slashEqual => "/="
  | .caret => "^"
  | _ => "???"

/-- Comments, directives and macro uses are kept from the grammar. -/
def isAside : TokenKind → Bool
  | .lineComment | .blockComment | .directive | .macroUse => true
  | _ => false

end TokenKind

/-- A word of the program with its place. -/
structure Token where
  /-- Where the first byte stands. -/
  loc : LinearLoc
  /-- What sort of word it is. -/
  kind : TokenKind
  /-- The text, byte for byte. -/
  text : String
  deriving Repr, DecidableEq

namespace Token

/-- The token that is not there: no place, no text, no kind. -/
def absent : Token := ⟨-1, .invalid, ""⟩

instance : Inhabited Token := ⟨absent⟩

/-- Whether the token is there. -/
def isPresent (t : Token) : Bool := t.kind != .invalid

/-- Whether the token is the identifier `word`. -/
def isWord (t : Token) (word : String) : Bool := t.kind == .identifier && t.text == word

/-- Whether two tokens are the same word, wherever they stand. -/
def alike (a b : Token) : Bool :=
  a.kind == b.kind &&
    match a.kind with
    | .identifier | .numericLiteral => a.text == b.text
    | _ => true

/-- How messages show a token. -/
def display (t : Token) : String :=
  match t.kind with
  | .identifier | .stringLiteral | .numericLiteral => t.text
  | .endOfFile => "end-of-file"
  | kind => kind.spelling

end Token

end CppDecl
