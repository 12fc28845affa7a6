import RouteScript.Token.Basic
/-!
# The lexeme at the head of a text

`Lexeme.scan` says of which kind the first token of a text is and how many characters it takes.
It never takes none of them and never more than there are.

`Token.all` cuts a whole text into tokens, trivia among them; blanks and line breaks between the
tokens are dropped.
-/
namespace RouteScript.Token.Lexeme

/-- Characters before the end of the line. -/
def lineLength (text : List Char) : Nat := (text.takeWhile (· ≠ '\n')).length

/-- Characters up to and with the closing mark of a block comment, or all of them. -/
def blockLength : List Char → Nat
  | [] => 0
  | '*' :: '/' :: _ => 2
  | _ :: rest => 1 + blockLength rest

/--
Characters of a directive. It ends before a line feed that no backslash precedes; carriage returns
may stand between the two. `escaped` says that a backslash precedes the text.
-/
def directiveLength (escaped : Bool) : List Char → Nat
  | [] => 0
  | c :: rest =>
    if c = '\n' then if escaped then 1 + directiveLength false rest else 0
    else 1 + directiveLength (c = '\\' || (escaped && c = '\r')) rest

/-- Whether a string body closes, and its characters with the closing quote. -/
def stringLength (quote : Char) : List Char → Bool × Nat
  | [] => (false, 0)
  | '\\' :: c :: rest =>
    if c = '\n' then (false, 1) else ((stringLength quote rest).1, 2 + (stringLength quote rest).2)
  | c :: rest =>
    if c = '\n' then (false, 0)
    else if c = quote then (true, 1)
    else ((stringLength quote rest).1, 1 + (stringLength quote rest).2)

def isWordChar (c : Char) : Bool := c.isAlphanum || c = '_'

def isHexDigit (c : Char) : Bool := c.isDigit || ('a' ≤ c && c ≤ 'f') || ('A' ≤ c && c ≤ 'F')

def runLength (p : Char → Bool) (text : List Char) : Nat := (text.takeWhile p).length

/-- A hexadecimal number starts with a zero and an x; its digits may be missing. -/
def numberLength : List Char → Nat
  | '0' :: 'x' :: rest => 2 + runLength isHexDigit rest
  | '0' :: 'X' :: rest => 2 + runLength isHexDigit rest
  | text => runLength Char.isDigit text

/-- Punctuation of two characters. -/
def pair? : Char → Char → Option Kind
  | '=', '=' => some .eq
  | '=', '~' => some .regexMatch
  | '=', '>' => some .arrow
  | '!', '=' => some .notEq
  | '!', '~' => some .regexNotMatch
  | '<', '=' => some .ltEq
  | '>', '=' => some .gtEq
  | '&', '&' => some .andAnd
  | '|', '|' => some .orOr
  | _, _ => none

/-- Punctuation of one character. -/
def single : Char → Kind
  | '$' => .dollar
  | '(' => .lParen
  | ')' => .rParen
  | '{' => .lBrace
  | '}' => .rBrace
  | '[' => .lBracket
  | ']' => .rBracket
  | ';' => .semicolon
  | ',' => .comma
  | ':' => .colon
  | '.' => .dot
  | '=' => .assign
  | '<' => .lt
  | '>' => .gt
  | '+' => .plus
  | '-' => .minus
  | '*' => .star
  | '/' => .slash
  | '%' => .percent
  | '!' => .bang
  | '&' => .amp
  | '|' => .pipe
  | '^' => .caret
  | '~' => .tilde
  | _ => .unknown

/-- Punctuation takes two characters where it can. -/
def punctuation (c : Char) (rest : List Char) : Kind × Nat :=
  match rest.head?.bind (pair? c) with
  | some kind => (kind, 2)
  | none => (single c, 1)

/--
Kind and length of the token that starts with `c`. Two exclamation marks open a directive only
where nothing but blanks precedes them on their line.
-/
def scan (lineStart : Bool) (c : Char) (rest : List Char) : Kind × Nat :=
  match c, rest with
  | '/', '*' :: body => (.comment, 2 + blockLength body)
  | '/', '/' :: _ => (.comment, lineLength (c :: rest))
  | '#', '!' :: _ => (.directive, directiveLength false (c :: rest))
  | '#', _ => (.deprecatedComment, lineLength (c :: rest))
  | _, _ =>
    if lineStart && c = '!' && rest.head? = some '!' then
      (.directive, directiveLength false (c :: rest))
    else if c = '"' || c = '\'' then
      let (closed, n) := stringLength c rest
      (if closed then .string else .unterminatedString, 1 + n)
    else if c.isDigit then (.number, numberLength (c :: rest))
    else if isWordChar c then (.identifier, runLength isWordChar (c :: rest))
    else punctuation c rest

end RouteScript.Token.Lexeme

namespace RouteScript.Token

/-- Where a scan stands in a text. -/
structure Scan where
  rest : List Char
  /-- Byte offset of the rest. -/
  offset : Nat
  /-- Only blanks stand before the rest on its line. -/
  lineStart : Bool
  /-- A line break was passed since the last significant token. -/
  newline : Bool

namespace Scan

/-- Blanks between tokens; behind a carriage return or form feed no line starts. -/
def pass (s : Scan) (c : Char) (rest : List Char) : Scan :=
  { rest, offset := s.offset + c.utf8Size,
    lineStart := c = '\n' || (s.lineStart && (c = ' ' || c = '\t')),
    newline := s.newline || c = '\n' }

def isGap (c : Char) : Bool := c = '\n' || c = ' ' || c = '\t' || c = '\r' || c = '\x0c'

/-- The token that starts with `c`, before `rest`. -/
def token (s : Scan) (c : Char) (rest : List Char) : Token :=
  let (kind, n) := Lexeme.scan s.lineStart c rest
  { kind, text := (c :: rest).take n, start := s.offset, newlineBefore := s.newline }

/-- A comment with a line feed in it separates the tokens around it as a line break does. -/
def beyond (s : Scan) (t : Token) : Scan :=
  { rest := s.rest.drop t.text.length, offset := t.stop, lineStart := false,
    newline := t.isTrivia && (s.newline || (t.kind = .comment && t.text.contains '\n')) }

/-- The tokens ahead; `rounds` bounds the characters still to be read. -/
def tokens : Nat → Scan → List Token
  | 0, _ => []
  | rounds + 1, s =>
    match s.rest with
    | [] => []
    | c :: rest =>
      if isGap c then tokens rounds (s.pass c rest)
      else
        let t := s.token c rest
        t :: tokens rounds (s.beyond t)

end Scan

/-- Tokens of a text that stands at `offset`; `newline` says whether a line break precedes it. -/
def allFrom (offset : Nat) (newline : Bool) (text : List Char) : List Token :=
  Scan.tokens text.length ⟨text, offset, true, newline⟩

/-- All tokens of a text. The first one counts as standing on a new line. -/
def all (text : List Char) : List Token := allFrom 0 true text

end RouteScript.Token
