import RouteScript.Tree.Rose
/-!
# Drafts

A draft is a tree as a grammar builds it: kinds, fields and byte spans, no numbers and no points.
Error nodes absorb the error nodes among their children, so one malformed region is one error.
-/
namespace RouteScript

/-- What a node is: its kind, its place in the parent, the bytes it covers. -/
structure Tag where
  kind : String
  /-- Named nodes stand for productions, the others for fixed tokens. -/
  named : Bool
  /-- Extra nodes may stand anywhere and are no part of the structure. -/
  extra : Bool
  /-- The role in the parent. -/
  field : Option String
  start : Nat
  stop : Nat
  deriving DecidableEq, Repr, Inhabited

/-- The kind of error nodes. -/
def errorKind : String := "ERROR"

/-- An error node is named; a token that an error node holds may have the same kind, unnamed. -/
def Tag.isError (t : Tag) : Bool := t.named && t.kind == errorKind

abbrev Draft := Rose Tag

namespace Draft

def start (d : Draft) : Nat := d.label.start

def stop (d : Draft) : Nat := d.label.stop

def isError (d : Draft) : Bool := d.label.isError

def leaf (kind : String) (named : Bool) (start stop : Nat) : Draft :=
  .node ⟨kind, named, false, none, start, stop⟩ []

/-- A named node from the start of its first child to the end of its last, at zero without any. -/
def branch (kind : String) (children : List Draft) : Draft :=
  let first := (children.head?.map start).getD 0
  .node ⟨kind, true, false, none, first, (children.getLast?.map stop).getD first⟩ children

def relabel (f : Tag → Tag) : Draft → Draft
  | .node tag children => .node (f tag) children

def withField (field : String) (d : Draft) : Draft :=
  d.relabel fun t => { t with field := some field }

def asExtra (d : Draft) : Draft := d.relabel fun t => { t with extra := true }

def spanning (start stop : Nat) (d : Draft) : Draft :=
  d.relabel fun t => { t with start, stop }

/-- What a child of an error node contributes to it. -/
def salvage (d : Draft) : List Draft :=
  if d.isError then
    if d.children.isEmpty then [d.relabel fun t => { t with named := false, field := none }]
    else d.children
  else [d.relabel fun t => { t with field := none }]

def error (children : List Draft) : Draft :=
  branch errorKind (children.flatMap salvage)

end Draft

end RouteScript
