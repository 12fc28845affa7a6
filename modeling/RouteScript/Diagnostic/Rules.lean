import RouteScript.Diagnostic.Basic
import RouteScript.Script.Vocabulary
/-!
# The rules for routing scripts

Errors of the text, comments in the old style, code behind the end of a control path, statements
that are bare values, and assignments that lack a target or a value.
-/
namespace RouteScript.Diagnostic

open Query (Pattern)

/-- A pattern for nodes of one kind. -/
def ofKind (kind : String) (children : List Pattern) (captures : List Nat) : Pattern :=
  .node (.named kind) (children.map (none, ·)) captures

/-- The kinds of the significant children of a node, in their order. -/
def significantKinds (c : Cursor) : List String := c.significantChildren.map Cursor.kind

/-- Reports error nodes. Those inside markup say nothing about the script. -/
def syntaxErrors : Rule where
  name := "syntax-error"
  query := some ⟨[ofKind Kind.error [] [0], ofKind Kind.xml [] [1]], ["error", "xml"]⟩
  enabled := Flags.syntaxErrors
  diagnose := fun found =>
    let markup := (found.flatMap (·.nodes 1)).map Cursor.range
    let errors := (found.flatMap (·.nodes 0)).map Cursor.range
    (errors.filter fun r => !markup.any (·.covers r)).map fun r => ⟨r, .error, "Syntax error"⟩

def deprecatedComments : Rule where
  name := "deprecated-comment"
  query := some ⟨[ofKind Kind.deprecatedComment [] [0]], ["deprecated"]⟩
  enabled := Flags.deprecatedCommentHints
  diagnose := fun found =>
    (found.flatMap Query.Match.captures).map fun c =>
      ⟨c.cursor.range, .hint, "use /* comment */"⟩

/-- Whether a statement is the label of a case, which can be reached from outside. -/
def isLabel (statement : Cursor) : Bool :=
  (significantKinds statement).head? == some Kind.caseStatement

/-- The last statement of a block, whether the block is closed or not. -/
def lastStatement? (block : Cursor) : Option Cursor :=
  match block.significantChildren.getLast? with
  | none => none
  | some last =>
    if last.kind == Kind.blockEnd then last.preceding.find? Cursor.isSignificant else some last

/-- What stands behind a statement that ends its control path, to the end of its block. -/
def unreachableRange? (statement : Cursor) : Option Range := do
  if statement.significantChildren.length != 1 then none
  let block ← statement.parent?
  if block.kind != Kind.compoundStatement && block.kind != Kind.sourceFile then none
  let next ← statement.following.find? Cursor.isSignificant
  if next.kind != Kind.statement || isLabel next then none
  let last ← lastStatement? block
  return next.range.through last.range

def unreachableCode : Rule where
  name := "unreachable-code"
  query := some ⟨[.node (.named Kind.statement)
      [(none, .oneOf [ofKind Kind.coreFunction [] [], ofKind Kind.returnStatement [] []] [0])]
      [1]], ["terminal", "statement"]⟩
  enabled := fun _ => true
  diagnose := fun found =>
    ((found.filterMap (·.node? 1)).filterMap unreachableRange?).map fun r =>
      ⟨r, .warning, "Unreachable code"⟩

/-- Expressions that may be statements. -/
def statementKinds : List String :=
  [Kind.coreFunction, Kind.assignment, Kind.returnStatement, Kind.call, Kind.unary, Kind.binary,
    Kind.parenthesized]

/-- A statement that consists of one expression which is nothing but a value. -/
def isBareValue (statement expression : Cursor) : Bool :=
  statement.significantChildren.length == 1
    && (expression.following.find? Cursor.isSignificant).isNone
    && match significantKinds expression with
      | [kind] => !statementKinds.contains kind
      | _ => false

def bareValues : Rule where
  name := "invalid-statement"
  query := some ⟨[ofKind Kind.statement [ofKind Kind.expression [] [0]] [1]],
    ["expression", "statement"]⟩
  enabled := fun _ => true
  diagnose := fun found =>
    found.filterMap fun m => do
      let statement ← m.node? 1
      let expression ← m.node? 0
      if isBareValue statement expression then
        some ⟨expression.range, .error, "Invalid statement"⟩
      else none

/-- The message for an assignment without two operands, or to what is no variable. -/
def invalidAssignment : String := "Invalid assignment expression"

/-- The message for an assignment of what is no value. -/
def invalidValue : String := "Invalid value on the right side of expression"

/-- Whether a node is a value: an expression that is more than a name. -/
def isValue (right : Cursor) : Bool :=
  right.kind == Kind.expression
    && match significantKinds right with
      | [kind] => kind != Kind.identifier
      | _ => false

/-- The first thing that is wrong with an assignment statement. -/
def checkAssignment (statement : Cursor) : Option Diagnostic :=
  match statement.significantChildren.head?.bind (·.significantChildren.head?) with
  | none => some ⟨statement.range, .error, invalidAssignment⟩
  | some assignment =>
    let toVariable := (assignment.child? Field.left).any fun left =>
      left.kind == Kind.pseudoVariable || left.kind == Kind.pvarExpression
    if assignment.significantChildren.length != 2 || !toVariable then
      some ⟨assignment.range, .error, invalidAssignment⟩
    else
      match assignment.child? Field.right with
      | none => none
      | some right =>
        if isValue right then none else some ⟨right.range, .error, invalidValue⟩

def assignments : Rule where
  name := "invalid-assignment"
  query := some ⟨[ofKind Kind.compoundStatement
      [ofKind Kind.statement [ofKind Kind.expression [ofKind Kind.assignment [] []] []] [0]] []],
    ["statement"]⟩
  enabled := fun _ => true
  diagnose := fun found => (found.filterMap (·.node? 0)).filterMap checkAssignment

/-- All rules, in the order of their reports. -/
def rules : List Rule :=
  [syntaxErrors, deprecatedComments, unreachableCode, bareValues, assignments]

end RouteScript.Diagnostic
