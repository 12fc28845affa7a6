import RouteScript.Script.Stream
/-!
# Pseudo-variables

`$ru`, `$avp(name)`, `$hdr(From)[0]`, `$(ru\x7buri.user\x7d)`. The parts of a variable stand
without gaps, and a group in it closes on its own line.
-/
namespace RouteScript.Script

/-- What reading an expression gives: its node, or the nodes taken before it failed. -/
abbrev Outcome := Except (List Draft) Draft

/-- How far a group of delimiters has been read. -/
structure Group where
  depth : Nat
  started : Bool
  closed : Bool

/-- Reads on in a group that `opening` and `closing` delimit. -/
def Group.step (opening closing : Token.Kind) (g : Group) (t : Token) : Option Group :=
  if g.closed || (g.started && (t.newlineBefore || t.kind == .semicolon)) then none
  else if t.kind == opening then some ⟨g.depth + 1, true, false⟩
  else if t.kind == closing then some ⟨g.depth - 1, true, g.depth - 1 == 0⟩
  else some ⟨g.depth, true, false⟩

/-- Takes a whole group with its delimiters, or nothing if it does not close on its line. -/
def balanced (opening closing : Token.Kind) : Reader (Option (List Draft)) := fun s =>
  let ((final, leaves), s') := collect (Group.step opening closing) ⟨0, false, false⟩ s
  if final.closed then (some leaves, s') else (none, s)

/-- The kind of a user variable by its class. -/
def userVariableKind? (word : String) : Option String :=
  if word == "avp" then some Kind.avpVar
  else if word == "var" then some Kind.scriptVar
  else if word == "dlg_var" then some Kind.dlgVar
  else none

/-- An index in brackets, read as one node. -/
def index : Reader (Option Draft) := do
  match ← balanced .lBracket .rBracket with
  | some tokens => return some (← node Kind.pvarIndex tokens)
  | none => return none

/-- The class, the opening parenthesis, what stands in the parentheses and the closing one. -/
def variableParts (className : Token) (opening : Draft) (inner : List Draft) (closing : Draft) :
    Reader Draft := do
  match userVariableKind? className.word with
  | some kind =>
    let name ← node Kind.variableName inner
    node kind [keywordLeaf className, opening, name.withField Field.name, closing]
  | none =>
    let argument ← node Kind.pvarArgument inner
    node Kind.pvarCall
      [(tokenLeaf className).withField Field.pvarClass, opening,
        argument.withField Field.argument, closing]

/-- What follows the dollar sign: a class, its argument if it has one, an index if it has one. -/
def pseudoContent : Reader Outcome := do
  match ← next with
  | none => return .error []
  | some className =>
    if !(← isAdjacent className.stop .lParen) then
      return .ok (← node Kind.pseudoContent [tokenLeaf className])
    match ← balanced .lParen .rParen with
    | some (opening :: second :: third :: more) =>
      let inner := (second :: third :: more).dropLast
      let closing := ((third :: more).getLast?).getD third
      let parts ← variableParts className opening inner closing
      if ← isAdjacent parts.stop .lBracket then
        return .ok (← node Kind.pseudoContent (parts :: (← index).toList))
      return .ok (← node Kind.pseudoContent [parts])
    | tokens => return .error (tokenLeaf className :: tokens.getD [])

/-- Transformations and indexes of a variable in parentheses, one after the other. -/
def transformationStep (children : List Draft) :
    Reader (List Draft ⊕ Except (List Draft) (List Draft)) := do
  match ← peekKind with
  | some .lBrace =>
    match ← balanced .lBrace .rBrace with
    | some tokens => return .inl (children ++ [← node Kind.transformation tokens])
    | none => return .inr (.error children)
  | some .lBracket =>
    match ← index with
    | some n => return .inl (children ++ [n])
    | none => return .inr (.error children)
  | _ => return .inr (.ok children)

/-- A variable in parentheses, whose dollar sign has been taken. -/
def pvarExpression (dollar : Token) : Reader Outcome := do
  match ← next with
  | none => return .error []
  | some opening =>
    let start := Draft.leaf "$(" false dollar.start opening.stop
    if !(← isAdjacent opening.stop .identifier) then
      return .error [start]
    match ← pseudoContent with
    | .error consumed => return .error (start :: consumed)
    | .ok content =>
      match ← repeatUntil transformationStep .error [start, content] with
      | .error consumed => return .error consumed
      | .ok children =>
        if ← isAt .rParen then
          return .ok (wrap (← node Kind.pvarExpression (children ++ (← nextLeaf))))
        return .error children

/-- A pseudo-variable, from its dollar sign on. -/
def pseudoVariable : Reader Outcome := do
  match ← next with
  | none => return .error []
  | some dollar =>
    if ← isAdjacent dollar.stop .lParen then
      pvarExpression dollar
    else
      let sign := Draft.leaf "$" false dollar.start dollar.stop
      if !(← isAdjacent dollar.stop .identifier) then
        return .error [sign]
      match ← pseudoContent with
      | .ok content => return .ok (wrap (← node Kind.pseudoVariable [sign, content]))
      | .error consumed => return .error (sign :: consumed)

end RouteScript.Script
