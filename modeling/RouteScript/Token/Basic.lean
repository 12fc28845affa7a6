import RouteScript.Text.Bytes
/-!
# Tokens

A token is a kind, the characters it covers, the byte offset of the first of them, and whether a
line break stands between it and the significant token before.
-/
namespace RouteScript.Token

inductive Kind where
  | identifier
  | number
  | string
  /-- A string whose line ends before its closing quote. -/
  | unterminatedString
  | comment
  /-- A comment that starts with a hash sign. -/
  | deprecatedComment
  | directive
  | dollar
  | lParen | rParen | lBrace | rBrace | lBracket | rBracket
  | semicolon | comma | colon | dot
  | assign | eq | notEq | regexMatch | regexNotMatch | lt | gt | ltEq | gtEq
  | plus | minus | star | slash | percent
  | bang | amp | andAnd | pipe | orOr | caret | tilde | arrow
  /-- A character that the language does not use. -/
  | unknown
  deriving DecidableEq, Repr, Inhabited

namespace Kind

/-- Comments and directives may stand between any two other tokens. -/
def isTrivia : Kind → Bool
  | comment | deprecatedComment | directive => true
  | _ => false

/-- The one spelling of a punctuation token. -/
def spelling? : Kind → Option String
  | dollar => some "$"
  | lParen => some "("
  | rParen => some ")"
  | lBrace => some "\x7b"
  | rBrace => some "\x7d"
  | lBracket => some "["
  | rBracket => some "]"
  | semicolon => some ";"
  | comma => some ","
  | colon => some ":"
  | dot => some "."
  | assign => some "="
  | eq => some "=="
  | notEq => some "!="
  | regexMatch => some "=~"
  | regexNotMatch => some "!~"
  | lt => some "<"
  | gt => some ">"
  | ltEq => some "<="
  | gtEq => some ">="
  | plus => some "+"
  | minus => some "-"
  | star => some "*"
  | slash => some "/"
  | percent => some "%"
  | bang => some "!"
  | amp => some "&"
  | andAnd => some "&&"
  | pipe => some "|"
  | orOr => some "||"
  | caret => some "^"
  | tilde => some "~"
  | arrow => some "=>"
  | _ => none

end Kind
end Token

structure Token where
  kind : Token.Kind
  text : List Char
  start : Nat
  /-- A line break separates this token from the significant one before it. -/
  newlineBefore : Bool
  deriving DecidableEq, Repr, Inhabited

namespace Token

def stop (t : Token) : Nat := t.start + Text.size t.text

def word (t : Token) : String := String.ofList t.text

def isTrivia (t : Token) : Bool := t.kind.isTrivia

def isSignificant (t : Token) : Bool := !t.isTrivia

end RouteScript.Token
