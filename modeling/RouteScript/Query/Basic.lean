/-!
# Queries

A query is a list of tree patterns with numbered captures. Patterns are checked against a language
when they are read, so every kind and field in them is one that the language has.
-/
namespace RouteScript.Query

/-- Which nodes a pattern may stand at. -/
inductive Matcher where
  /-- A named node of one kind. -/
  | named (kind : String)
  | anyNamed
  | any
  /-- A fixed token. -/
  | token (kind : String)
  deriving DecidableEq, Repr, Inhabited

/-- A pattern of a tree. Children may be required in a role; captures number the names. -/
inductive Pattern where
  | node (matcher : Matcher) (children : List (Option String × Pattern)) (captures : List Nat)
  | oneOf (alternatives : List Pattern) (captures : List Nat)
  deriving Repr, Inhabited

namespace Pattern

/-- Adds a capture behind those that the pattern has. -/
def capture (index : Nat) : Pattern → Pattern
  | node m cs captures => node m cs (captures ++ [index])
  | oneOf alternatives captures => oneOf alternatives (captures ++ [index])

mutual

/-- Whether the pattern can stand only at named nodes. -/
def requiresNamed : Pattern → Bool
  | node (.named _) _ _ => true
  | node .anyNamed _ _ => true
  | node _ _ _ => false
  | oneOf alternatives _ => allRequireNamed alternatives

def allRequireNamed : List Pattern → Bool
  | [] => true
  | p :: rest => requiresNamed p && allRequireNamed rest

end

end Pattern

/-- What is wrong with the source of a query. -/
inductive Fault where
  | noPatterns
  | unexpected (c : Char)
  | unexpectedEnd
  | emptyCapture
  | noKind
  | openParen
  | noColon (field : String)
  | openBracket
  | emptyAlternation
  | openString
  | unknownToken (text : String)
  | unknownKind (kind : String)
  | unknownField (field : String)
  deriving DecidableEq, Repr

/-- The three ways in which a query can be wrong. -/
inductive Fault.Category where
  | malformed
  | nodeType
  | field
  deriving DecidableEq, Repr

namespace Fault

def category : Fault → Fault.Category
  | unknownToken _ | unknownKind _ => .nodeType
  | unknownField _ => .field
  | _ => .malformed

def Category.name : Category → String
  | .malformed => "Syntax"
  | .nodeType => "NodeType"
  | .field => "Field"

def message : Fault → String
  | noPatterns => "query contains no patterns"
  | unexpected c => "unexpected character '" ++ c.toString ++ "'"
  | unexpectedEnd => "unexpected end of query"
  | emptyCapture => "empty capture name"
  | noKind => "expected a node kind"
  | openParen => "unclosed '('"
  | noColon field => "expected ':' after field '" ++ field ++ "'"
  | openBracket => "unclosed '['"
  | emptyAlternation => "empty alternation"
  | openString => "unterminated string"
  | unknownToken text => "unknown token \"" ++ text ++ "\""
  | unknownKind kind => "unknown node kind '" ++ kind ++ "'"
  | unknownField field => "unknown field '" ++ field ++ "'"

end Fault

/-- The first fault of a query and the byte offset at which it was found. -/
structure Error where
  fault : Fault
  offset : Nat
  deriving DecidableEq, Repr

def Error.message (e : Error) : String :=
  e.fault.category.name ++ " error at offset " ++ toString e.offset ++ ": " ++ e.fault.message

end Query

structure Query where
  patterns : List Query.Pattern
  /-- Names of the captures, by their first use. -/
  captureNames : List String
  deriving Repr, Inhabited

/-- The number of a capture name. -/
def Query.captureIndex? (q : Query) (name : String) : Option Nat :=
  q.captureNames.findIdx? (· == name)

end RouteScript
