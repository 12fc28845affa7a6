import RouteScript.Tree.Basic
/-!
# Cursors

A cursor is a node together with the way down to it, so that it can move up and sideways as well as
down. Two cursors of one tree are the same place when their nodes have the same number.

`Cursor.descent` goes down from a node through the children that cover a stretch of points. A point
behind the last character of a token still leads to that token, unless another one starts there.
-/
namespace RouteScript

structure Cursor where
  node : Node
  /-- The nodes above, innermost first, each with the index of the child on the way. -/
  above : List (Node × Nat)
  deriving DecidableEq, Inhabited

namespace Cursor

def ofNode (n : Node) : Cursor := ⟨n, []⟩

def root (t : Tree) : Cursor := ofNode t.root

def id (c : Cursor) : Nat := c.node.id

def kind (c : Cursor) : String := c.node.kind

def isNamed (c : Cursor) : Bool := c.node.isNamed

/-- Named and neither a comment nor a directive. -/
def isSignificant (c : Cursor) : Bool := c.node.isNamed && !c.node.isExtra

def range (c : Cursor) : Range := c.node.range

def parent? (c : Cursor) : Option Cursor :=
  match c.above with
  | [] => none
  | (p, _) :: rest => some ⟨p, rest⟩

/-- All nodes above, innermost first. -/
def ancestorsOf : List (Node × Nat) → List Cursor
  | [] => []
  | (p, _) :: rest => ⟨p, rest⟩ :: ancestorsOf rest

def ancestors (c : Cursor) : List Cursor := ancestorsOf c.above

def children (c : Cursor) : List Cursor :=
  c.node.children.zipIdx.map fun (n, i) => ⟨n, (c.node, i) :: c.above⟩

def namedChildren (c : Cursor) : List Cursor := c.children.filter isNamed

def significantChildren (c : Cursor) : List Cursor := c.children.filter isSignificant

/-- The first child in a role. -/
def child? (c : Cursor) (field : String) : Option Cursor :=
  c.children.find? fun d => d.node.field? == some field

/-- The siblings behind, nearest first. -/
def following (c : Cursor) : List Cursor :=
  match c.above with
  | [] => []
  | (p, i) :: rest => (children ⟨p, rest⟩).drop (i + 1)

/-- The siblings before, nearest first. -/
def preceding (c : Cursor) : List Cursor :=
  match c.above with
  | [] => []
  | (p, i) :: rest => ((children ⟨p, rest⟩).take i).reverse

def nextSibling? (c : Cursor) : Option Cursor := c.following.head?

def previousSibling? (c : Cursor) : Option Cursor := c.preceding.head?

mutual

/-- Every cursor at or below a node, a node before its children. -/
def walk (above : List (Node × Nat)) : Node → List Cursor
  | .node e children =>
    ⟨.node e children, above⟩ :: walkAll above (.node e children) 0 children

def walkAll (above : List (Node × Nat)) (parent : Node) (index : Nat) : List Node → List Cursor
  | [] => []
  | n :: rest => walk ((parent, index) :: above) n ++ walkAll above parent (index + 1) rest

end

def preorder (c : Cursor) : List Cursor := walk c.above c.node

/-- The text that the node covers. -/
def textIn (c : Cursor) (t : Tree) : List Char := t.textOf c.node

def wordIn (c : Cursor) (t : Tree) : String := String.ofList (c.textIn t)

end Cursor

/-- The child to go on with: the first that reaches past the end, else the last that touches it. -/
def Node.covering (children : List Node) (start stop : Point) : Option Nat :=
  match children.findIdx? fun c => c.startPoint.le start && stop.lt c.stopPoint with
  | some i => some i
  | none =>
    (children.reverse.findIdx? fun c =>
      c.startPoint.le start && stop.le c.stopPoint && c.startPoint != c.stopPoint).map
      fun i => children.length - 1 - i

namespace Cursor

mutual

/-- The cursors on the way down from a node to the smallest one that covers the points. -/
def descentFrom (start stop : Point) (above : List (Node × Nat)) : Node → List Cursor
  | .node e children =>
    ⟨.node e children, above⟩ ::
      match Node.covering children start stop with
      | some i => descentInto start stop ((.node e children, i) :: above) i children
      | none => []

/-- The way on, through the child with the index. -/
def descentInto (start stop : Point) (above : List (Node × Nat)) : Nat → List Node → List Cursor
  | _, [] => []
  | 0, n :: _ => descentFrom start stop above n
  | i + 1, _ :: rest => descentInto start stop above i rest

end

def descent (c : Cursor) (start stop : Point) : List Cursor :=
  descentFrom start stop c.above c.node

def reaches (c : Cursor) (start stop : Point) : Bool :=
  c.node.startPoint.le start && stop.le c.node.stopPoint

/-- The smallest node at or below that covers the points. -/
def smallest? (c : Cursor) (start stop : Point) : Option Cursor :=
  if c.reaches start stop then (c.descent start stop).getLast? else none

/-- The smallest such node that is named, or the starting node. -/
def smallestNamed? (c : Cursor) (start stop : Point) : Option Cursor :=
  if c.reaches start stop then
    some (((c.descent start stop).tail.filter isNamed).getLast?.getD c)
  else none

end Cursor

/-- The smallest named node of a tree at a point. -/
def Tree.nodeAt? (t : Tree) (p : Point) : Option Cursor := (Cursor.root t).smallestNamed? p p

end RouteScript
