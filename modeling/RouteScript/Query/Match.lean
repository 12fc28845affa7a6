import RouteScript.Query.Basic
import RouteScript.Tree.Cursor
/-!
# Matches

A match is the number of a pattern and the nodes that its captures name. Matches come in preorder
of their nodes, then in the order of the patterns, then from left to right over the children.
-/
namespace RouteScript.Query

/-- A node under the number of a capture name. -/
structure Capture where
  index : Nat
  cursor : Cursor
  deriving Inhabited

/-- The same name and the same node. -/
def Capture.same (a b : Capture) : Bool := a.index == b.index && a.cursor.id == b.cursor.id

/-- Two lists of the same captures in the same order. -/
def sameCaptures : List Capture → List Capture → Bool
  | [], [] => true
  | a :: as, b :: bs => a.same b && sameCaptures as bs
  | _, _ => false

structure Match where
  pattern : Nat
  captures : List Capture
  deriving Inhabited

namespace Match

/-- All nodes under a capture name. -/
def nodes (m : Match) (index : Nat) : List Cursor :=
  (m.captures.filter (·.index == index)).map Capture.cursor

/-- The first node under a capture name. -/
def node? (m : Match) (index : Nat) : Option Cursor := (m.nodes index).head?

end Match

/-- Whether a matcher allows a node. -/
def Matcher.accepts (m : Matcher) (n : Node) : Bool :=
  match m with
  | .named kind => n.isNamed && n.kind == kind
  | .anyNamed => n.isNamed
  | .any => true
  | .token kind => !n.isNamed && n.kind == kind

/-- Every split of a list into an element and what stands behind it, from left to right. -/
def picks {α : Type} : List α → List (α × List α)
  | [] => []
  | a :: rest => (a, rest) :: picks rest

/-- Whether a child can stand in a role at all. -/
def fits (field : Option String) (p : Pattern) (c : Cursor) : Bool :=
  (field.isNone || c.node.field? == field) && (!p.requiresNamed || c.isNamed)

mutual

/-- The captures of every way in which a pattern binds at a node. -/
def bindings (p : Pattern) (c : Cursor) : List (List Capture) :=
  match p with
  | .node m children captures =>
    if m.accepts c.node then
      (bindingsAmong children c.children).map (captures.map (Capture.mk · c) ++ ·)
    else []
  | .oneOf alternatives captures =>
    (bindingsOfAny alternatives c).map (captures.map (Capture.mk · c) ++ ·)

/-- The captures of every way in which some alternative binds at a node. -/
def bindingsOfAny (alternatives : List Pattern) (c : Cursor) : List (List Capture) :=
  match alternatives with
  | [] => []
  | p :: rest => bindings p c ++ bindingsOfAny rest c

/-- The captures of every way in which patterns bind to some of the nodes, in their order. -/
def bindingsAmong (patterns : List (Option String × Pattern)) (nodes : List Cursor) :
    List (List Capture) :=
  match patterns with
  | [] => [[]]
  | (field, p) :: rest =>
    (picks nodes).flatMap fun (child, behind) =>
      if fits field p child then
        (bindings p child).flatMap fun first =>
          (bindingsAmong rest behind).map (first ++ ·)
      else []

end

/-- A list without the elements that repeat the one before them. -/
def dropRepeats (previous : Option (List Capture)) : List (List Capture) → List (List Capture)
  | [] => []
  | a :: rest =>
    if previous.any (sameCaptures · a) then dropRepeats previous rest
    else a :: dropRepeats (some a) rest

/-- Matches of all patterns at one node. -/
def matchesAt (q : Query) (c : Cursor) : List Match :=
  q.patterns.zipIdx.flatMap fun (p, i) => (dropRepeats none (bindings p c)).map (Match.mk i)

/-- Matches at a node and everywhere below it. -/
def run (q : Query) (root : Cursor) : List Match := root.preorder.flatMap (matchesAt q)

/-- The captures of all matches, in their order. -/
def captured (q : Query) (root : Cursor) : List Capture := (run q root).flatMap Match.captures

end RouteScript.Query
