import RouteScript.Diagnostic.Rules
import RouteScript.Document.Format
import RouteScript.Route.Basic
import RouteScript.Script.Items
import RouteScript.Tree.Cursor
import RouteScript.Variable.Basic
/-!
# Documents

A document is a text with its tree and everything that an analysis found in it.
-/
namespace RouteScript

structure Document where
  uri : String
  version : Int
  text : List Char
  tree : Tree
  diagnostics : List Diagnostic
  userVariables : Variables
  routes : List Route
  deriving Inhabited

namespace Document

/-- A document with the results of an analysis of its tree. -/
def analyze (flags : Diagnostic.Flags) (uri : String) (version : Int) (text : List Char)
    (tree : Tree) : Document where
  uri
  version
  text
  tree
  diagnostics := Diagnostic.analyze Diagnostic.rules flags tree
  userVariables := .ofTree tree
  routes := tree.routes

/-- The text with its lines indented, if that changes it. -/
def format? (d : Document) (options : Format.Options) : Option (List Char) :=
  (Format.format options d.text).filter (· != d.text)

/-- The route to which the call at a point jumps. -/
def definition? (d : Document) (p : Point) : Option Route := do
  Route.resolve? d.routes (← Route.Reference.at? d.tree (← d.tree.nodeAt? p))

end Document

end RouteScript
