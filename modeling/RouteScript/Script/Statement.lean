import RouteScript.Script.Expression
import RouteScript.Script.Markup
/-!
# Statements

A malformed statement ends before the next semicolon, brace or new line; what was taken of it is
one error node. A semicolon may be missing before a new line or a closing brace.
-/
namespace RouteScript.Script

/-- Goes on to the end of a statement; only its first token may stand on a new line. -/
def statementRestStep (first : Bool) (t : Token) : Option Bool :=
  if t.kind == .semicolon || t.kind == .lBrace || t.kind == .rBrace
      || (t.newlineBefore && !first) then none
  else some false

def skipStatementRest : Reader (List Draft) := do
  return (← collect statementRestStep true).2

/-- Delimiters open in a region that is nested too deeply, and whether anything was taken. -/
structure Depths where
  opened : Nat
  started : Bool

/-- Goes on to a closer, semicolon, comma or new line outside the groups of the region. -/
def nestedRegionStep (d : Depths) (t : Token) : Option Depths :=
  match t.kind with
  | .lBrace | .lParen | .lBracket => some ⟨d.opened + 1, true⟩
  | .rBrace | .rParen | .rBracket =>
    if d.opened == 0 then none else some ⟨d.opened - 1, true⟩
  | kind =>
    if d.opened == 0 && (kind == .semicolon || kind == .comma
        || (t.newlineBefore && d.started)) then none
    else some ⟨d.opened, true⟩

/-- Takes a region that is nested too deeply as a flat list. -/
def skipNestedRegion : Reader (List Draft) := do
  return (← collect nestedRegionStep ⟨0, false⟩).2

/-- The semicolon of a statement, and an error node for anything before it. -/
def finishStatement (children : List Draft) : Reader Draft := do
  match ← peek with
  | none => node Kind.statement children
  | some t =>
    if t.kind == .semicolon then
      node Kind.statement (children ++ (← nextLeaf))
    else if t.kind == .rBrace || t.newlineBefore then
      node Kind.statement children
    else
      let garbage ← errorNodes (← skipStatementRest)
      node Kind.statement (children ++ garbage ++ (← optionalLeaf .semicolon))

/-- An item of a block: markup or a statement. -/
def blockItem (inner : Level) : Reader Draft := do
  if ← isAt .lt then markup else inner.statement

/-- Reads on in a block. If it never closes, its opening brace is the error. -/
def blockStep (inner : Level) (opening : Token) (children : List Draft) :
    Reader (List Draft ⊕ List Draft) := do
  match ← peekKind with
  | none =>
    let brace := Draft.leaf "\x7b" false opening.start opening.stop
    return .inr ((← flush children).set 0 (.error [brace]))
  | some .rBrace =>
    match ← next with
    | none => return .inr children
    | some close =>
      return .inr (← place children (.leaf Kind.blockEnd true close.start close.stop))
  | some _ => return .inl (← place children (← blockItem inner))

/-- A block in braces, from the opening one on. -/
def compound (inner : Level) : Reader Draft := do
  match ← next with
  | none => node Kind.compoundStatement []
  | some opening =>
    let start := Draft.leaf Kind.blockStart true opening.start opening.stop
    node Kind.compoundStatement (← repeatUntil (blockStep inner opening) id [start])

/-- A block or a single statement. -/
def body (inner : Level) (field : String) : Reader (List Draft) := do
  match ← peekKind with
  | none => return []
  | some .lBrace => return [(← compound inner).withField field]
  | some _ => return [(← inner.statement).withField field]

def isBlockOrEnd (t : Token) : Bool :=
  t.kind == .lBrace || t.kind == .rBrace || t.kind == .semicolon

/-- Goes on to a closing parenthesis and takes it; stops before a brace or semicolon. -/
def closingParenStep (finished : Bool) (t : Token) : Option Bool :=
  if finished || isBlockOrEnd t then none else some (t.kind == .rParen)

/-- A condition in parentheses, or an error node for what stands there instead. -/
def condition (inner : Level) : Reader (List Draft) := do
  if ← isAt .lParen then
    match ← parenthesized inner with
    | .ok group => return [group.withField Field.condition]
    | .error consumed =>
      let rest ← collect closingParenStep false
      return [← errorNode (consumed ++ rest.2)]
  else
    errorNodes (← collectWhile fun t => !isBlockOrEnd t)

def ifStatement (inner : Level) : Reader Draft := do
  let word ← nextKeyword
  let test ← condition inner
  let consequence ← body inner Field.consequence
  if ← isAtWord "else" then
    let otherwise ← nextKeyword
    let alternative ← body inner Field.alternative
    node Kind.ifStatement (word ++ test ++ consequence ++ otherwise ++ alternative)
  else
    node Kind.ifStatement (word ++ test ++ consequence)

def whileStatement (inner : Level) : Reader Draft := do
  let word ← nextKeyword
  let test ← condition inner
  node Kind.whileStatement (word ++ test ++ (← body inner Field.body))

def switchStatement (inner : Level) : Reader Draft := do
  let word ← nextKeyword
  let test ← condition inner
  if ← isAt .lBrace then
    node Kind.switchStatement (word ++ test ++ [(← compound inner).withField Field.body])
  else
    node Kind.switchStatement (word ++ test ++ (← errorNodes (← skipStatementRest)))

/-- A `case` or `default` label, which is a statement of its own. -/
def caseStatement (inner : Level) : Reader Draft := do
  let isDefault ← isAtWord "default"
  let word ← nextKeyword
  if isDefault then
    node Kind.caseStatement (word ++ (← optionalLeaf .colon))
  else
    match ← binary inner with
    | .ok value =>
      node Kind.caseStatement
        (word ++ [value.withField Field.value] ++ (← optionalLeaf .colon))
    | .error consumed =>
      let garbage ← errorNodes consumed
      node Kind.caseStatement (word ++ garbage ++ (← optionalLeaf .colon))

/-- A `return` with the value on the same line, if there is one. -/
def returnStatement (inner : Level) : Reader Draft := do
  let word ← nextKeyword
  match ← peek with
  | none => node Kind.returnStatement word
  | some t =>
    if t.newlineBefore || t.kind == .semicolon || t.kind == .rBrace then
      node Kind.returnStatement word
    else
      match ← inner.expression with
      | .ok value => node Kind.returnStatement (word ++ [value])
      | .error consumed => node Kind.returnStatement (word ++ (← errorNodes consumed))

/-- A statement that starts with a word which is an instruction of its own. -/
def wordStatement? (inner : Level) (word : String) (following : Option Token.Kind) :
    Option (Reader Draft) :=
  if word == "if" then some do node Kind.statement [← ifStatement inner]
  else if word == "switch" then some do node Kind.statement [← switchStatement inner]
  else if word == "while" then some do node Kind.statement [← whileStatement inner]
  else if word == "case" then some do node Kind.statement [← caseStatement inner]
  else if word == "default" && following == some .colon then
    some do node Kind.statement [← caseStatement inner]
  else if word == "return" then some do finishStatement [← returnStatement inner]
  else if Vocabulary.coreActions.contains word && following != some .lParen then
    some do finishStatement [← node Kind.coreFunction (← nextKeyword)]
  else none

/-- An expression with its semicolon, or an error node. -/
def expressionStatement (inner : Level) : Reader Draft := do
  match ← inner.expression with
  | .ok value => finishStatement [value]
  | .error consumed =>
    let consumed ← if consumed.isEmpty then nextLeaf else pure consumed
    let rest ← skipStatementRest
    finishStatement [← errorNode (consumed ++ rest)]

def statement (inner : Level) : Reader Draft := do
  match ← peek with
  | none => node Kind.statement []
  | some t =>
    let following ← peekSecondKind
    match if t.kind == .identifier then wordStatement? inner t.word following else none with
    | some read => read
    | none =>
      match t.kind with
      | .lBrace => node Kind.statement [← compound inner]
      | .semicolon => node Kind.statement (← nextLeaf)
      | _ => expressionStatement inner

/-- Statements, expressions and unary operands are read to this depth. -/
def maxNesting : Nat := 64

/-- A statement that is nested too deeply: an error node and its semicolon. -/
def deepStatement : Reader Draft := do
  let region ← skipNestedRegion
  let consumed ←
    if region.isEmpty then
      if ← isAt .semicolon then pure [] else nextLeaf
    else pure region
  finishStatement (← errorNodes consumed)

/-- The readers at a place that has `remaining` nestings left; with none they read flat lists. -/
def level : Nat → Level
  | 0 => ⟨deepStatement, return .error (← skipNestedRegion), return .error (← skipNestedRegion)⟩
  | remaining + 1 =>
    ⟨statement (level remaining), assignment (level remaining), unary (level remaining)⟩

end RouteScript.Script
