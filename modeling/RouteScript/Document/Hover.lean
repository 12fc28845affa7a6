import RouteScript.Documentation.Basic
import RouteScript.Variable.Basic
/-!
# Documentation of a node

The name of a called function leads to module descriptions and a user variable to its last value.
What leads nowhere is looked up as a word.
-/
namespace RouteScript.Hover

/-- What is shown where nothing is known. -/
def notFound : String := "Documentation not found"

/-- Whether a node is the name of the function in a call. -/
def isCallee (c : Cursor) : Bool :=
  c.kind == Kind.identifier
    && c.parent?.any fun callee =>
      callee.kind == Kind.expression && callee.node.field? == some Field.function
        && callee.parent?.any fun call => call.kind == Kind.call

def isMarker (c : Cursor) : Bool := (Scope.ofKind? c.kind).isSome

/-- The node of the user variable to which a node belongs. -/
def marker? (c : Cursor) : Option Cursor :=
  let found :=
    if c.kind == Kind.pseudoVariable then do
      let content ← c.significantChildren.find? fun d => d.kind == Kind.pseudoContent
      content.significantChildren.head?
    else if c.kind == Kind.pseudoContent then c.significantChildren.head?
    else if c.kind == Kind.variableName then c.parent?
    else if c.kind == Kind.identifier then do
      let name ← c.parent?
      if name.kind != Kind.variableName then none
      name.parent?
    else some c
  found.filter isMarker

/-- The variable to which a node belongs, if it has a value. -/
def variableOf? (t : Tree) (vs : Variables) (c : Cursor) : Option Variable := do
  let marker ← marker? c
  let scope ← Scope.ofKind? marker.kind
  vs.get? scope (scope.qualify (← Variable.identifierOf? t marker))

def isWordKey (c : Char) : Bool := c.isAlphanum || c = ' ' || c = '_'

/-- The word to look up for a text: its ASCII letters, digits, spaces and underscores. -/
def wordKey (text : List Char) : String := String.ofList (text.filter isWordKey)

/-- The documentation of a node in a tree. -/
def documentation? (t : Tree) (vs : Variables) (d : Documentation) (c : Cursor) : Option String :=
  let ofCall := if isCallee c then d.function? (c.wordIn t) else none
  let ofVariable := (variableOf? t vs c).map Variable.documentation
  (ofCall.or ofVariable).or (d.word? (wordKey (c.textIn t)))

end RouteScript.Hover
