import RouteScript.Dictionary
import RouteScript.Script.Vocabulary
import RouteScript.Tree.Cursor
/-!
# User variables

A script makes its own variables in three classes, which live for a transaction, in one worker
process, or for a dialog. A table per class keeps the last assignment of every name.

Every assignment to a user variable counts, wherever it stands; of two to the same name the later
one stays. Assignments of another shape are passed over.
-/
namespace RouteScript

/-- How long a user variable lives. -/
inductive Scope where
  | transaction
  | worker
  | dialog
  deriving DecidableEq, Repr, Inhabited

namespace Scope

def all : List Scope := [transaction, worker, dialog]

/-- The scope of a node that stands for a user variable. -/
def ofKind? (kind : String) : Option Scope :=
  if kind == Kind.avpVar then some transaction
  else if kind == Kind.scriptVar then some worker
  else if kind == Kind.dlgVar then some dialog
  else none

/-- The class that a script writes behind the dollar sign. -/
def pvarClass : Scope → String
  | transaction => "avp"
  | worker => "var"
  | dialog => "dlg_var"

/-- The name of a variable as a script writes it. -/
def qualify (s : Scope) (identifier : String) : String :=
  "$" ++ s.pvarClass ++ "(" ++ identifier ++ ")"

def title : Scope → String
  | transaction => "User defined AVP"
  | worker => "Local variable"
  | dialog => "Dialog variable"

def detail : Scope → String
  | transaction => "AVP"
  | worker => "Local Variable"
  | dialog => "Dialog Variable"

def label : Scope → String
  | transaction => "Transaction"
  | worker => "Local"
  | dialog => "Dialog"

end Scope

structure Variable where
  /-- The qualified name. -/
  name : String
  identifier : String
  /-- The text of the value that was assigned. -/
  value : String
  scope : Scope
  /-- The range of the assignment. -/
  range : Range
  deriving DecidableEq, Repr, Inhabited

/-- The documentation of a variable, in Markdown. -/
def Variable.documentation (v : Variable) : String :=
  "## " ++ v.scope.title ++ "\n\t" ++ v.identifier ++ "\n### Value\n\t```\n\t" ++ v.value
    ++ "\n```\n### Scope\n\t" ++ v.scope.label ++ "\n"

/-- The variables of a document, a table per scope. -/
structure Variables where
  transaction : Dictionary Variable
  worker : Dictionary Variable
  dialog : Dictionary Variable
  deriving Inhabited

namespace Variables

def empty : Variables := ⟨.empty, .empty, .empty⟩

def table (vs : Variables) : Scope → Dictionary Variable
  | .transaction => vs.transaction
  | .worker => vs.worker
  | .dialog => vs.dialog

/-- Records a variable in the place of an earlier one of the same name. -/
def insert (vs : Variables) (v : Variable) : Variables :=
  match v.scope with
  | .transaction => { vs with transaction := vs.transaction.insert v.name v }
  | .worker => { vs with worker := vs.worker.insert v.name v }
  | .dialog => { vs with dialog := vs.dialog.insert v.name v }

def get? (vs : Variables) (s : Scope) (name : String) : Option Variable := (vs.table s).get? name

/-- All variables, scope by scope, by name in each. -/
def toList (vs : Variables) : List Variable := Scope.all.flatMap fun s => (vs.table s).values

def size (vs : Variables) : Nat := vs.transaction.size + vs.worker.size + vs.dialog.size

theorem table_insert (vs : Variables) (v : Variable) (s : Scope) :
    (vs.insert v).table s = if s = v.scope then (vs.table s).insert v.name v else vs.table s := by
  unfold insert
  cases v.scope <;> cases s <;> rfl

end Variables

namespace Variable

/-- The name in the parentheses of a user variable; with a prefix, what stands behind it. -/
def identifierOf? (t : Tree) (marker : Cursor) : Option String := do
  let name ← marker.child? Field.name
  let last ← (name.namedChildren.filter fun c => c.kind == Kind.identifier).getLast?
  return last.wordIn t

/-- The variable that an assignment sets. -/
def ofAssignment? (t : Tree) (assignment : Cursor) : Option Variable := do
  let target ← assignment.child? Field.left
  if target.kind != Kind.pseudoVariable then none
  let content ← target.significantChildren.find? fun c => c.kind == Kind.pseudoContent
  let marker ← content.significantChildren.head?
  let scope ← Scope.ofKind? marker.kind
  let identifier ← identifierOf? t marker
  let value ← assignment.child? Field.right
  return ⟨scope.qualify identifier, identifier, value.wordIn t, scope, assignment.range⟩

end Variable

/-- The variables that assignments in a tree set, in the order of the text. -/
def Tree.assigned (t : Tree) : List Variable :=
  ((Cursor.root t).preorder.filter fun c => c.isNamed && c.kind == Kind.assignment).filterMap
    (Variable.ofAssignment? t)

def Variables.ofTree (t : Tree) : Variables := t.assigned.foldl Variables.insert .empty

end RouteScript
