import RouteScript.Query.Match
/-!
# Diagnostics

A rule selects nodes by a query and turns its matches into diagnostics. An analysis runs the
enabled rules one after the other over a whole tree.
-/
namespace RouteScript

inductive Severity where
  | error
  | warning
  | information
  | hint
  deriving DecidableEq, Repr

def Severity.name : Severity → String
  | error => "error"
  | warning => "warning"
  | information => "information"
  | hint => "hint"

structure Diagnostic where
  range : Range
  severity : Severity
  message : String
  deriving DecidableEq, Repr

/-- Points, severity and message in one line. -/
def Diagnostic.describe (d : Diagnostic) : String :=
  d.range.startPoint.toString ++ "-" ++ d.range.stopPoint.toString ++ " " ++ d.severity.name
    ++ ": " ++ d.message

namespace Diagnostic

/-- Which optional rules run. -/
structure Flags where
  deprecatedCommentHints : Bool
  syntaxErrors : Bool
  deriving DecidableEq, Repr

/-- One check. A rule without a query finds nothing. -/
structure Rule where
  name : String
  query : Option Query
  enabled : Flags → Bool
  diagnose : List Query.Match → List Diagnostic

namespace Rule

/-- What a rule finds in a tree, whether it is enabled or not. -/
def findings (r : Rule) (t : Tree) : List Diagnostic :=
  match r.query with
  | some q => r.diagnose (q.run (Cursor.root t))
  | none => []

/-- A rule that reports every capture of a query under its own name. -/
def ofQuery (name : String) (query : Option Query) (severity : Severity) (needsHints : Bool) :
    Rule where
  name
  query
  enabled := fun flags => !needsHints || flags.deprecatedCommentHints
  diagnose := fun found =>
    (found.flatMap Query.Match.captures).map fun c => ⟨c.cursor.range, severity, name⟩

end Rule

/-- Everything that the enabled rules find, rule by rule. -/
def analyze (rules : List Rule) (flags : Flags) (t : Tree) : List Diagnostic :=
  (rules.filter (·.enabled flags)).flatMap (·.findings t)

end Diagnostic

end RouteScript
