import RouteScript.Query.Basic
import RouteScript.Grammar.Basic
import RouteScript.Text.Basic
import RouteScript.Text.Bytes
import RouteScript.Text.Letter
/-!
# Reading queries

Patterns are written as S-expressions: `(kind field: (child) @capture)`, `[(a) (b)]`, `"token"`,
`(_)` for any named node and `_` for any node. A semicolon starts a comment.
-/
namespace RouteScript.Query

/-- What is left of a source, where that starts, and the capture names met so far. -/
structure Source where
  rest : List Char
  offset : Nat
  names : List String

abbrev Reader (α : Type) := StateT Source (Except Error) α

namespace Reader

def fail {α : Type} (fault : Fault) (offset : Nat) : Reader α := fun _ => .error ⟨fault, offset⟩

def offset : Reader Nat := return (← get).offset

def peek : Reader (Option Char) := return (← get).rest.head?

/-- Goes on behind the characters that pass the test, and gives them. -/
def takeWhile (p : Char → Bool) : Reader (List Char) := fun s =>
  let taken := s.rest.takeWhile p
  .ok (taken, { s with rest := s.rest.dropWhile p, offset := s.offset + Text.size taken })

/-- Goes on behind one character. -/
def skip : Reader Unit := fun s =>
  .ok ((), { s with rest := s.rest.tail, offset := s.offset + Text.size (s.rest.take 1) })

/-- Characters of white space and comments at the head of a text. -/
def blankLength : Bool → List Char → Nat
  | _, [] => 0
  | true, c :: rest => if c = '\n' then 1 + blankLength false rest else 1 + blankLength true rest
  | false, c :: rest =>
    if Text.isBlank c then 1 + blankLength false rest
    else if c = ';' then 1 + blankLength true rest
    else 0

/-- Goes on behind white space and comments. -/
def skipBlanks : Reader Unit := fun s =>
  let n := blankLength false s.rest
  .ok ((), { s with
    rest := s.rest.drop n
    offset := s.offset + Text.size (s.rest.take n) })

def isNameChar (c : Char) : Bool := Text.isAlphanumeric c || c = '_' || c = '-' || c = '.'

def name : Reader String := return String.ofList (← takeWhile isNameChar)

/-- The text of a string up to its closing quote, and the characters it takes with the quote. -/
def stringBody : List Char → Option (List Char × Nat)
  | [] => none
  | '"' :: _ => some ([], 1)
  | '\\' :: c :: rest =>
    let escaped := if c = 'n' then '\n' else if c = 't' then '\t' else c
    (stringBody rest).map fun (text, n) => (escaped :: text, n + 2)
  | c :: rest => (stringBody rest).map fun (text, n) => (c :: text, n + 1)

/-- A token in quotes, of which the next character is the first. -/
def token (language : Language) : Reader Pattern := do
  let start ← offset
  skip
  match stringBody (← get).rest with
  | none => fail .openString start
  | some (text, n) =>
    modify fun s =>
      { s with rest := s.rest.drop n, offset := s.offset + Text.size (s.rest.take n) }
    match language.anonymousKind? (String.ofList text) with
    | some kind => return .node (.token kind) [] []
    | none => fail (.unknownToken (String.ofList text)) start

/-- The number of a capture name, which is new if it has not been met. -/
def captureIndex (name : String) : Reader Nat := do
  match (← get).names.findIdx? (· == name) with
  | some i => return i
  | none =>
    modify fun s => { s with names := s.names ++ [name] }
    return (← get).names.length - 1

/-- The captures behind a pattern; `rounds` bounds their number. -/
def captures : Nat → Pattern → Reader Pattern
  | 0, p => return p
  | rounds + 1, p => do
    skipBlanks
    if (← peek) != some '@' then
      return p
    skip
    let start ← offset
    let word ← name
    if word.isEmpty then
      fail .emptyCapture start
    captures rounds (p.capture (← captureIndex word))

/-- What the kind at the head of a node pattern stands for. -/
def matcher (language : Language) : Reader Matcher := do
  let start ← offset
  let word ← name
  if word.isEmpty then
    fail .noKind start
  if word == "_" then
    return .anyNamed
  match language.namedKind? word with
  | some kind => return .named kind
  | none => fail (.unknownKind word) start

/-- The role of a child, from the first letter of its field on. -/
def role (language : Language) : Reader String := do
  let start ← offset
  let word ← name
  skipBlanks
  if (← peek) != some ':' then
    fail (.noColon word) start
  skip
  match language.field? word with
  | some field => return field
  | none => fail (.unknownField word) start

/-- An underscore stands for itself unless it starts a longer word. -/
def isLoneUnderscore (rest : List Char) : Bool :=
  match rest with
  | '_' :: c :: _ => !(Text.isAlphanumeric c || c = '_')
  | '_' :: [] => true
  | _ => false

mutual

/-- A pattern with its captures; `rounds` bounds the nesting. -/
def pattern (language : Language) : Nat → Reader Pattern
  | 0 => do fail .unexpectedEnd (← offset)
  | rounds + 1 => do
    skipBlanks
    let start ← offset
    let rest := (← get).rest
    let p ← match rest.head? with
      | some '(' => do
        skip
        skipBlanks
        let m ← matcher language
        pure (.node m (← children language rounds) [])
      | some '[' => do
        skip
        let alternatives ← alternatives language start rounds
        if alternatives.isEmpty then
          fail .emptyAlternation start
        pure (.oneOf alternatives [])
      | some '"' => token language
      | some c =>
        if isLoneUnderscore rest then do
          skip
          pure (.node .any [] [])
        else fail (.unexpected c) start
      | none => fail .unexpectedEnd start
    captures (rest.length + 1) p

/-- Child patterns up to a closing parenthesis. -/
def children (language : Language) : Nat → Reader (List (Option String × Pattern))
  | 0 => do fail .openParen (← offset)
  | rounds + 1 => do
    skipBlanks
    match ← peek with
    | none => do fail .openParen (← offset)
    | some c =>
      if c = ')' then
        skip
        return []
      let field ← if Text.isAlphabetic c then some <$> role language else pure none
      let p ← pattern language rounds
      return (field, p) :: (← children language rounds)

/-- Alternatives up to a closing bracket. -/
def alternatives (language : Language) (start : Nat) : Nat → Reader (List Pattern)
  | 0 => fail .openBracket start
  | rounds + 1 => do
    skipBlanks
    match ← peek with
    | none => fail .openBracket start
    | some c =>
      if c = ']' then
        skip
        return []
      let p ← pattern language rounds
      return p :: (← alternatives language start rounds)

end

/-- All patterns of a source; each takes characters, so their number is bounded. -/
def patterns (language : Language) (depth : Nat) : Nat → Reader (List Pattern)
  | 0 => return []
  | rounds + 1 => do
    skipBlanks
    match ← peek with
    | none => return []
    | some _ =>
      let p ← pattern language depth
      return p :: (← patterns language depth rounds)

end Reader

/-- Reads a query over a language. -/
def compile (language : Language) (source : List Char) : Except Error Query := do
  let bound := 2 * source.length + 2
  let (patterns, s) ← Reader.patterns language bound bound ⟨source, 0, []⟩
  if patterns.isEmpty then
    .error ⟨.noPatterns, 0⟩
  else
    .ok ⟨patterns, s.names⟩

end RouteScript.Query
