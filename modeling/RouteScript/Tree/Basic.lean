import RouteScript.Tree.Draft
import RouteScript.Text.Line
/-!
# Syntax trees

A tree is a draft whose nodes are numbered in preorder and carry the points of their ends, together
with the text it describes. `Node.thaw` takes a frozen node back to its draft.
-/
namespace RouteScript

structure Entry where
  tag : Tag
  /-- Number of the node in preorder. -/
  id : Nat
  startPoint : Point
  stopPoint : Point
  deriving DecidableEq, Repr, Inhabited

abbrev Node := Rose Entry

namespace Node

def tag (n : Node) : Tag := n.label.tag

def id (n : Node) : Nat := n.label.id

def kind (n : Node) : String := n.tag.kind

def isNamed (n : Node) : Bool := n.tag.named

def isExtra (n : Node) : Bool := n.tag.extra

def isError (n : Node) : Bool := n.tag.isError

def field? (n : Node) : Option String := n.tag.field

def start (n : Node) : Nat := n.tag.start

def stop (n : Node) : Nat := n.tag.stop

def startPoint (n : Node) : Point := n.label.startPoint

def stopPoint (n : Node) : Point := n.label.stopPoint

def range (n : Node) : Range := ⟨n.start, n.stop, n.startPoint, n.stopPoint⟩

def namedChildren (n : Node) : List Node := n.children.filter isNamed

/-- Named children without comments and directives. -/
def significantChildren (n : Node) : List Node :=
  n.children.filter fun c => c.isNamed && !c.isExtra

/-- A short description for people. -/
def describe (n : Node) : String :=
  "\x7bNode " ++ n.kind ++ " " ++ n.startPoint.toString ++ " - " ++ n.stopPoint.toString ++ "\x7d"

def thaw (n : Node) : Draft := n.map Entry.tag

mutual

/-- Numbers a draft from `id` on; also gives the first number that is left. -/
def freezeFrom (rows : List Nat) (id : Nat) : Draft → Node × Nat
  | .node tag children =>
    let (frozen, next) := freezeAllFrom rows (id + 1) children
    (.node ⟨tag, id, .ofOffset rows tag.start, .ofOffset rows tag.stop⟩ frozen, next)

def freezeAllFrom (rows : List Nat) (id : Nat) : List Draft → List Node × Nat
  | [] => ([], id)
  | d :: ds =>
    let (first, next) := freezeFrom rows id d
    let (others, last) := freezeAllFrom rows next ds
    (first :: others, last)

end

end Node

structure Tree where
  language : String
  source : List Char
  root : Node
  deriving Inhabited

namespace Tree

/-- Freezes a draft over its text. -/
def ofDraft (language : String) (source : List Char) (draft : Draft) : Tree :=
  ⟨language, source, (Node.freezeFrom (Text.rowStarts source) 0 draft).1⟩

def nodeCount (t : Tree) : Nat := t.root.size

/-- Whether any node is an error. -/
def hasError (t : Tree) : Bool := t.root.labels.any fun e => e.tag.isError

/-- The text that a range covers. -/
def textOf (t : Tree) (n : Node) : List Char := Text.slice t.source n.start n.stop

end Tree

end RouteScript
