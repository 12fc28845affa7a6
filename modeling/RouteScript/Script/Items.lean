import RouteScript.Script.Statement
import RouteScript.Grammar.Basic
/-!
# Routing scripts

Top-level items, and the draft of a whole script. Reading a script never fails.
-/
namespace RouteScript.Script

/-- The level at the top of a script. -/
def topLevel : Level := level maxNesting

/-- A word with a string behind it, such as `loadmodule "tm.so"`. -/
def stringItem (kind field : String) : Reader Draft := do
  let word ← nextKeyword
  match ← peek with
  | some t =>
    if t.kind == .string && !t.newlineBefore then
      let value := (← nextLeaf).map (Draft.withField field)
      node kind (word ++ value ++ (← optionalLeaf .semicolon))
    else
      errorNode (word ++ (← skipStatementRest))
  | none => errorNode word

/-- A module parameter, set by a list of arguments. -/
def modParam : Reader Draft := do
  let word ← nextKeyword
  match ← argumentList topLevel with
  | .ok arguments =>
    node Kind.modParam
      (word ++ [arguments.withField Field.arguments] ++ (← optionalLeaf .semicolon))
  | .error consumed =>
    errorNode (word ++ consumed ++ (← skipStatementRest))

/-- Where the name of a route ends. -/
def endsRouteName (t : Token) : Bool :=
  t.kind == .rBracket || t.kind == .lBrace || t.kind == .rBrace || t.kind == .semicolon

/-- The name of a route in brackets, and whether the brackets close. -/
def routeName : Reader (List Draft × Bool) := do
  let opening ← nextLeaf
  let words ← collectWhile fun t => !endsRouteName t
  let name ← if words.isEmpty then pure [] else
    pure [(← node Kind.routeName words).withField Field.name]
  if ← isAt .rBracket then
    return (opening ++ name ++ (← nextLeaf), true)
  return (opening ++ name, false)

/-- The block of a route whose type and name have been taken. -/
def routeBody (children : List Draft) : Reader Draft := do
  if ← isAt .lBrace then
    let block ← compound topLevel
    node Kind.routeDefinition (children ++ [block.withField Field.body])
  else
    errorNode (children ++ (← skipStatementRest))

/-- A route block, such as `route[NAME]` with its body. -/
def routeDefinition : Reader Draft := do
  let type := (← next).toList.map fun t =>
    (Draft.leaf Kind.routeType true t.start t.stop).withField Field.routeType
  if ← isAt .lBracket then
    let (name, closed) ← routeName
    if closed then routeBody (type ++ name)
    else errorNode (type ++ name ++ (← skipStatementRest))
  else
    routeBody type

/-- Where the value of a global assignment ends. -/
def endsValue (t : Token) : Bool :=
  t.newlineBefore || t.kind == .semicolon || t.kind == .lBrace || t.kind == .rBrace

/-- A core parameter with a value that runs to the end of the line. -/
def globalAssignment : Reader Draft := do
  let key := (← nextLeaf).map (Draft.withField Field.key)
  let sign ← nextLeaf
  let words ← collectWhile fun t => !endsValue t
  let value ← if words.isEmpty then pure [] else
    pure [(← node Kind.coreValue words).withField Field.value]
  match ← peek with
  | some t =>
    if t.kind == .semicolon && !t.newlineBefore then
      node Kind.globalAssignment (key ++ sign ++ value ++ (← nextLeaf))
    else
      node Kind.globalAssignment (key ++ sign ++ value)
  | none => node Kind.globalAssignment (key ++ sign ++ value)

/-- An item that starts with a word. -/
def wordItem (word : String) (following : Option Token.Kind) : Reader Draft :=
  if word == "loadmodule" then stringItem Kind.loadModule Field.moduleFile
  else if word == "loadpath" then stringItem Kind.loadPath Field.path
  else if word == "include_file" || word == "import_file" then
    stringItem Kind.includeFile Field.file
  else if word == "modparam" && following == some .lParen then modParam
  else if (Vocabulary.routeType? word).isSome
      && (following == some .lBracket || following == some .lBrace) then routeDefinition
  else if following == some .assign then globalAssignment
  else topLevel.statement

/-- An item at the top of a script. A closing brace there is an error. -/
def topLevelItem (t : Token) : Reader Draft := do
  match t.kind with
  | .identifier => wordItem t.word (← peekSecondKind)
  | .lt => markup
  | .rBrace => errorNode (← nextLeaf)
  | _ => topLevel.statement

def itemStep (children : List Draft) : Reader (List Draft ⊕ List Draft) := do
  match ← peek with
  | none => return .inr (← flush children)
  | some t => return .inl (← place children (← topLevelItem t))

/-- All items of a script. -/
def items : Reader (List Draft) := repeatUntil itemStep id []

/-- The start of a script. -/
def Stream.ofText (source : List Char) : Stream :=
  Stream.settle ⟨source, Text.size source, [], Token.all source⟩

/-- The draft of a script, which spans the whole text. -/
def draft (source : List Char) : Draft :=
  (Draft.branch Kind.sourceFile (items (.ofText source)).1).spanning 0 (Text.size source)

/-- The grammar of routing scripts. -/
def grammar : Grammar := ⟨Vocabulary.language, draft⟩

end RouteScript.Script

/-- The tree of a routing script. -/
def RouteScript.Tree.ofScript (source : List Char) : RouteScript.Tree :=
  RouteScript.Script.grammar.parse source
