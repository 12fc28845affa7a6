import RouteScript.Script.Vocabulary
import RouteScript.Token.Lexeme
import RouteScript.Tree.Draft
/-!
# Reading tokens into drafts

A grammar reads a `Stream`: the tokens ahead, of which the first is significant, and the comments
and directives passed so far that no node has taken in yet. A node takes in the waiting ones that
lie inside its span; a container takes those that stand before its next item.
-/
namespace RouteScript.Script

structure Stream where
  source : List Char
  /-- Bytes of the source; no loop of the grammar takes more rounds. -/
  size : Nat
  /-- Comments and directives not yet in the tree, in source order. -/
  waiting : List Draft
  tokens : List Token

/-- A step of the grammar. -/
abbrev Reader (α : Type) := StateM Stream α

/-- The leaf of a comment or directive. -/
def extraLeaf (t : Token) : Draft :=
  let kind := match t.kind with
    | .deprecatedComment => Kind.deprecatedComment
    | .directive => Kind.directive
    | _ => Kind.comment
  (Draft.leaf kind true t.start t.stop).asExtra

/-- The leaf of a significant token. -/
def tokenLeaf (t : Token) : Draft :=
  match t.kind with
  | .identifier => .leaf Kind.identifier true t.start t.stop
  | .number => .leaf Kind.number true t.start t.stop
  | .string => .leaf Kind.string true t.start t.stop
  | .unterminatedString | .unknown => .leaf Kind.error true t.start t.stop
  | kind => .leaf (kind.spelling?.getD Kind.error) false t.start t.stop

/-- The leaf of a word that the grammar knows. -/
def keywordLeaf (t : Token) : Draft :=
  match Vocabulary.anonymousKind? t.word with
  | some kind => .leaf kind false t.start t.stop
  | none => .leaf Kind.identifier true t.start t.stop

/-- Moves comments and directives at the head of the tokens to the waiting ones. -/
def Stream.settle (s : Stream) : Stream :=
  { s with
    waiting := s.waiting ++ (s.tokens.takeWhile Token.isTrivia).map extraLeaf
    tokens := s.tokens.dropWhile Token.isTrivia }

/-- The next token, which stays where it is. -/
def peek : Reader (Option Token) := fun s => (s.tokens.head?, s)

def peekKind : Reader (Option Token.Kind) := fun s => (s.tokens.head?.map Token.kind, s)

/-- The kind of the significant token behind the next one. -/
def peekSecondKind : Reader (Option Token.Kind) := fun s =>
  ((s.tokens.tail.find? Token.isSignificant).map Token.kind, s)

def isAt (kind : Token.Kind) : Reader Bool := do
  return (← peekKind) == some kind

def isAtWord (word : String) : Reader Bool := do
  match ← peek with
  | some t => return t.kind == .identifier && t.word == word
  | none => return false

/-- The next token is of this kind and starts at this offset. -/
def isAdjacent (offset : Nat) (kind : Token.Kind) : Reader Bool := do
  match ← peek with
  | some t => return t.kind == kind && t.start == offset
  | none => return false

/-- Takes the next token. -/
def next : Reader (Option Token) := fun s =>
  match s.tokens with
  | [] => (none, s)
  | t :: rest => (some t, { s with tokens := rest }.settle)

/-- Takes the next token as a leaf. -/
def nextLeaf : Reader (List Draft) := do
  return ((← next).map tokenLeaf).toList

/-- Takes the next token as a keyword. -/
def nextKeyword : Reader (List Draft) := do
  return ((← next).map keywordLeaf).toList

/-- Takes the next token as a leaf if it is of this kind. -/
def optionalLeaf (kind : Token.Kind) : Reader (List Draft) := do
  if ← isAt kind then nextLeaf else return []

/-- Tokens that `step` accepts one after the other, trivia among them, and the tokens it leaves. -/
def takeSteps {σ : Type} (step : σ → Token → Option σ) (state : σ) :
    List Token → σ × List Token × List Token
  | [] => (state, [], [])
  | t :: ts =>
    if t.isTrivia then
      let (final, taken, rest) := takeSteps step state ts
      (final, t :: taken, rest)
    else
      match step state t with
      | none => (state, [], t :: ts)
      | some state' =>
        let (final, taken, rest) := takeSteps step state' ts
        (final, t :: taken, rest)

/-- Takes tokens as leaves while `step` accepts them. -/
def collect {σ : Type} (step : σ → Token → Option σ) (state : σ) : Reader (σ × List Draft) :=
  fun s =>
    let (final, taken, rest) := takeSteps step state s.tokens
    ((final, (taken.filter Token.isSignificant).map tokenLeaf),
      { s with
        waiting := s.waiting ++ (taken.filter Token.isTrivia).map extraLeaf
        tokens := rest })

/-- Takes tokens as leaves as long as they pass the test. -/
def collectWhile (accepts : Token → Bool) : Reader (List Draft) := do
  return (← collect (fun _ t => if accepts t then some () else none) ()).2

/-- Puts a node behind those that start no later. -/
def insertByStart (d : Draft) : List Draft → List Draft
  | [] => [d]
  | c :: cs => if c.start ≤ d.start then c :: insertByStart d cs else d :: c :: cs

/-- Whether a node lies between the start of the first and the end of the last of a list. -/
def isInside (children : List Draft) (d : Draft) : Bool :=
  match children.head?, children.getLast? with
  | some first, some last => first.start ≤ d.start && d.stop ≤ last.stop
  | _, _ => false

/-- Adds the waiting nodes that lie inside the span of the children. -/
def absorb (children : List Draft) : Reader (List Draft) := fun s =>
  ((s.waiting.filter (isInside children)).foldl (fun cs d => insertByStart d cs) children,
    { s with waiting := s.waiting.filter fun d => !isInside children d })

def node (kind : String) (children : List Draft) : Reader Draft := do
  return .branch kind (← absorb children)

def errorNode (children : List Draft) : Reader Draft := do
  return .error (← absorb children)

/-- An error node over what was collected, or nothing. -/
def errorNodes (children : List Draft) : Reader (List Draft) := do
  if children.isEmpty then return [] else return [← errorNode children]

/-- An expression node around one other. -/
def wrap (inner : Draft) : Draft := .branch Kind.expression [inner]

/-- Appends an item to a container, behind the waiting nodes that start before it. -/
def place (children : List Draft) (item : Draft) : Reader (List Draft) := fun s =>
  (children ++ s.waiting.filter (fun d => d.start < item.start) ++ [item],
    { s with waiting := s.waiting.filter fun d => !(d.start < item.start) })

/-- Appends all waiting nodes to a container. -/
def flush (children : List Draft) : Reader (List Draft) := fun s =>
  (children ++ s.waiting, { s with waiting := [] })

/-- Repeats `step` until it gives a result; `unfinished` stands in when the rounds run out. -/
def repeatAtMost {α β : Type} (step : α → Reader (α ⊕ β)) (unfinished : α → β) :
    Nat → α → Reader β
  | 0, a => return unfinished a
  | rounds + 1, a => do
    match ← step a with
    | .inl a' => repeatAtMost step unfinished rounds a'
    | .inr b => return b

/-- Repeats a step, every round of which takes a token or ends the loop. -/
def repeatUntil {α β : Type} (step : α → Reader (α ⊕ β)) (unfinished : α → β) (a : α) :
    Reader β := fun s =>
  repeatAtMost step unfinished (s.size + 1) a s

end RouteScript.Script
