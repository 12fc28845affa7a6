import RouteScript.Query.Compile
import RouteScript.Script.Vocabulary
/-!
# Queries as they are written

A pattern with the names of its captures, the pieces it is written in, and the texts in which
pieces stand behind each other with white space and comments between them.
-/
namespace RouteScript.Query

/-- A pattern with the names of its captures in the place of their numbers. -/
inductive Sketch where
  | node (matcher : Matcher) (children : List (Option String × Sketch)) (captures : List String)
  | oneOf (alternatives : List Sketch) (captures : List String)

/-- What is written without anything in between. -/
inductive Piece where
  /-- A kind, a field or an underscore. -/
  | word (text : String)
  | capture (name : String)
  /-- A bracket or colon. -/
  | mark (c : Char)
  | quoted (text : String)
  deriving DecidableEq, Repr

/-- A word over the characters of names. -/
def isName (word : String) : Bool := !word.isEmpty && word.toList.all Reader.isNameChar

namespace Piece

/-- Quotes and backslashes take a backslash. -/
def escape (text : List Char) : List Char :=
  text.flatMap fun c => if c = '"' ∨ c = '\\' then ['\\', c] else [c]

def text : Piece → List Char
  | word text => text.toList
  | capture name => '@' :: name.toList
  | mark c => [c]
  | quoted text => '"' :: (escape text.toList ++ ['"'])

def isWord : Piece → Bool
  | word _ => true
  | _ => false

def isCapture : Piece → Bool
  | capture _ => true
  | _ => false

/-- Whether a word that follows at once would be read as part of the piece. -/
def endsInWord (p : Piece) : Bool := p.isWord || p.isCapture

def isValid : Piece → Bool
  | word text => isName text
  | capture name => isName name
  | mark c => c = '(' || c = ')' || c = '[' || c = ']' || c = ':'
  | quoted _ => true

end Piece

namespace Matcher

/-- Whether a matcher asks for a kind of the language, if for any. -/
def isOver (l : Language) : Matcher → Bool
  | named kind => l.namedKinds.contains kind
  | token kind => l.anonymousKinds.contains kind
  | anyNamed | any => true

/-- A pattern for any node and one for a token are written without parentheses. -/
def isBare : Matcher → Bool
  | any | token _ => true
  | _ => false

/-- What stands for a matcher. -/
def piece : Matcher → Piece
  | named kind => .word kind
  | anyNamed | any => .word "_"
  | token kind => .quoted kind

end Matcher

namespace Sketch

mutual

/-- Whether a pattern can be written in a language: kinds and fields are there, alternations are not
empty, patterns without parentheses have no children, and captures have names. -/
def isOver (l : Language) : Sketch → Bool
  | node m children captures => m.isOver l && (!m.isBare || children.isEmpty)
    && childrenAreOver l children && captures.all isName
  | oneOf alternatives captures =>
    !alternatives.isEmpty && allAreOver l alternatives && captures.all isName

def childrenAreOver (l : Language) : List (Option String × Sketch) → Bool
  | [] => true
  | (field, p) :: rest => field.all l.fields.contains && p.isOver l && childrenAreOver l rest

def allAreOver (l : Language) : List Sketch → Bool
  | [] => true
  | p :: rest => p.isOver l && allAreOver l rest

end

mutual

/-- The pieces of a pattern. Its captures stand behind it. -/
def pieces : Sketch → List Piece
  | node m children captures =>
    (if m.isBare then [m.piece]
      else .mark '(' :: m.piece :: (childPieces children ++ [.mark ')'])) ++ captures.map .capture
  | oneOf alternatives captures =>
    .mark '[' :: (allPieces alternatives ++ [.mark ']']) ++ captures.map .capture

def childPieces : List (Option String × Sketch) → List Piece
  | [] => []
  | (field, p) :: rest =>
    field.elim [] (fun name => [.word name, .mark ':']) ++ p.pieces ++ childPieces rest

def allPieces : List Sketch → List Piece
  | [] => []
  | p :: rest => p.pieces ++ allPieces rest

end

mutual

/-- The names of the captures in the order in which they are written. -/
def names : Sketch → List String
  | node _ children captures => childNames children ++ captures
  | oneOf alternatives captures => allNames alternatives ++ captures

def childNames : List (Option String × Sketch) → List String
  | [] => []
  | (_, p) :: rest => p.names ++ childNames rest

def allNames : List Sketch → List String
  | [] => []
  | p :: rest => p.names ++ allNames rest

end

mutual

/-- The pattern whose captures are numbered by their places in a table of names. -/
def number (table : List String) : Sketch → Pattern
  | node m children captures =>
    .node m (numberChildren table children) (captures.map (table.idxOf ·))
  | oneOf alternatives captures =>
    .oneOf (numberAll table alternatives) (captures.map (table.idxOf ·))

def numberChildren (table : List String) :
    List (Option String × Sketch) → List (Option String × Pattern)
  | [] => []
  | (field, p) :: rest => (field, p.number table) :: numberChildren table rest

def numberAll (table : List String) : List Sketch → List Pattern
  | [] => []
  | p :: rest => p.number table :: numberAll table rest

end

end Sketch

/-- White space and whole comments. -/
inductive Gap : List Char → Prop
  | nil : Gap []
  | blank {c : Char} {gap : List Char} (blank : Text.isBlank c) (more : Gap gap) : Gap (c :: gap)
  | comment {body gap : List Char} (inLine : '\n' ∉ body) (more : Gap gap) :
      Gap (';' :: (body ++ '\n' :: gap))

/-- A text of pieces, perhaps behind a word. Two words do not touch, and the last line may be a
comment without an end. -/
inductive Layout : Bool → List Piece → List Char → Prop
  | nil {behind : Bool} {gap : List Char} (empty : Gap gap) : Layout behind [] gap
  | comment {behind : Bool} {gap body : List Char} (empty : Gap gap) (inLine : '\n' ∉ body) :
      Layout behind [] (gap ++ ';' :: body)
  | cons {behind : Bool} {gap : List Char} {p : Piece} {rest : List Piece} {text : List Char}
      (empty : Gap gap) (apart : behind → p.isWord → gap ≠ [])
      (more : Layout p.endsInWord rest text) :
      Layout behind (p :: rest) (gap ++ (p.text ++ text))

end RouteScript.Query
