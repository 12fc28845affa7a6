import RouteScript.Script.Vocabulary
import RouteScript.Text.Basic
import RouteScript.Tree.Cursor
/-!
# Routes

Route blocks at the top of a script, and the calls that jump to them. A call leads to the first
block of a type it may jump to that has the name in its first argument.
-/
namespace RouteScript

structure Route where
  type : String
  name : Option String
  /-- The whole block. -/
  range : Range
  /-- The name, or the type of a block without one. -/
  selection : Range
  deriving DecidableEq, Repr, Inhabited

namespace Route

def label (r : Route) : String :=
  match r.name with
  | some name => r.type ++ "[" ++ name ++ "]"
  | none => r.type

/-- The route of a block that has a body. -/
def ofNode? (t : Tree) (block : Cursor) : Option Route := do
  let _ ← block.child? Field.body
  let type ← block.child? Field.routeType
  let name := block.child? Field.name
  return ⟨type.wordIn t, name.map fun n => String.ofList (Text.trim (n.textIn t)), block.range,
    (name.getD type).range⟩

/-- A call that names a route. -/
structure Reference where
  /-- The types of routes that the call may jump to. -/
  types : List String
  name : String
  /-- The argument that names the route. -/
  range : Range
  deriving DecidableEq, Repr

/-- The types of routes to which a function jumps. -/
def targetTypes? (function : String) : Option (List String) :=
  if function == "route" then some ["route"]
  else if function == "t_on_failure" then some ["failure_route"]
  else if function == "t_on_branch" then some ["branch_route"]
  else if function == "t_on_branch_failure" then some ["branch_failure_route"]
  else if function == "t_on_reply" then some ["onreply_route", "reply_route"]
  else none

def isQuote (c : Char) : Bool := c = '"' || c = '\''

/-- A text without the quotes at its ends. -/
def unquote (text : List Char) : List Char :=
  ((text.dropWhile isQuote).reverse.dropWhile isQuote).reverse

/-- The innermost argument list around a place, and the argument in which it lies. -/
def enclosingArgument? (c : Cursor) : Option (Cursor × Cursor) :=
  ((c :: c.ancestors).zip c.ancestors).find? fun (_, list) => list.kind == Kind.argumentList

/-- The reference at a place in the first argument of a call that jumps. -/
def Reference.at? (t : Tree) (c : Cursor) : Option Reference := do
  let (argument, arguments) ← enclosingArgument? c
  let first ← arguments.significantChildren.head?
  if first.id != argument.id then none
  let call ← arguments.parent?
  if call.kind != Kind.call then none
  let function ← (← call.child? Field.function).significantChildren.head?
  let types ← targetTypes? (function.wordIn t)
  let name := unquote (argument.textIn t)
  if name.isEmpty then none
  return ⟨types, String.ofList name, argument.range⟩

/-- The first of some routes to which a reference leads. -/
def resolve? (routes : List Route) (r : Reference) : Option Route :=
  routes.find? fun route => r.types.contains route.type && route.name == some r.name

end Route

/-- The routes of a script, in their order. -/
def Tree.routes (t : Tree) : List Route :=
  ((Cursor.root t).significantChildren.filter fun c => c.kind == Kind.routeDefinition).filterMap
    (Route.ofNode? t)

end RouteScript
