import RouteScript.Text.Basic
import RouteScript.Token.Lexeme
/-!
# Indentation

Every line is indented by the braces open before it, less the closing ones it starts with. Lines
that start inside a token stay as they are, and an opening brace at the end of a line has one space
before it. Braces that do not balance leave a text without a format.
-/
namespace RouteScript.Format

structure Options where
  insertSpaces : Bool
  tabSize : Nat
  deriving DecidableEq, Repr

def Options.default : Options := ⟨false, 4⟩

/-- One step of indentation. -/
def Options.unit (o : Options) : List Char :=
  if o.insertSpaces then List.replicate o.tabSize ' ' else ['\t']

/-- A line with its end, at its byte offset. -/
structure Line where
  start : Nat
  text : List Char

/-- The lines of a text that stands at an offset. -/
def linesFrom (start : Nat) : List (List Char × Bool) → List Line
  | [] => []
  | (text, ended) :: rest =>
    let text := if ended then text ++ ['\n'] else text
    ⟨start, text⟩ :: linesFrom (start + Text.size text) rest

namespace Line

def stop (l : Line) : Nat := l.start + Text.size l.text

def isEnd (c : Char) : Bool := c = '\n' || c = '\r'

/-- The line without the characters that end it. -/
def body (l : Line) : List Char := (l.text.reverse.dropWhile isEnd).reverse

def ending (l : Line) : List Char := l.text.drop l.body.length

/-- The tokens on the line, and those from which the next line is read. Tokens that end before the
line are passed over, and a token that runs past it is read again for the next line. -/
def window (l : Line) (ahead : List Token) : List Token × List Token :=
  let ahead := ahead.dropWhile fun t => t.stop ≤ l.start
  let on := ahead.takeWhile fun t => t.start < l.stop
  let crossing := on.getLast?.filter fun t => l.stop < t.stop
  (on, crossing.toList ++ ahead.dropWhile fun t => t.start < l.stop)

/-- Whether the line starts inside the first of its tokens. -/
def continues (l : Line) (on : List Token) : Bool :=
  on.head?.any fun t => t.start < l.start

/-- Closing braces at the start of the line. -/
def leadingCloses (l : Line) (on : List Token) : Nat :=
  let own := if l.continues on then on.drop 1 else on
  (own.takeWhile fun t => t.kind = .rBrace).length

/-- The line without blanks around it, and with one space before a brace at its end. -/
def normalized (l : Line) (on : List Token) : List Char :=
  match on.getLast? with
  | some last =>
    if last.kind = .lBrace then
      let before := Text.trim (Text.slice l.body 0 (last.start - l.start))
      let behind := (Text.after? l.body (last.start - l.start)).getD []
      if before.isEmpty then Text.trim l.body else before ++ ' ' :: Text.trimEnd behind
    else Text.trim l.body
  | none => Text.trim l.body

/-- The line at a depth of open braces. -/
def indented (unit : List Char) (depth : Nat) (l : Line) (on : List Token) :
    Option (List Char) :=
  if l.continues on then some l.text
  else if (Text.trim l.body).isEmpty then some l.ending
  else if depth < l.leadingCloses on then none
  else
    some ((List.replicate (depth - l.leadingCloses on) unit).flatten ++ l.normalized on
      ++ l.ending)

end Line

/-- The depth behind a token; none if it closes what is not open. -/
def depthBehind (depth : Nat) (t : Token) : Option Nat :=
  if t.kind = .lBrace then some (depth + 1)
  else if t.kind = .rBrace then if depth = 0 then none else some (depth - 1)
  else some depth

/-- The lines at their depths, if the braces balance. -/
def formatAhead (unit : List Char) (ahead : List Token) (depth : Nat) :
    List Line → Option (List Char)
  | [] => if depth = 0 then some [] else none
  | l :: rest => do
    let (on, ahead) := l.window ahead
    let text ← l.indented unit depth on
    let depth ← on.foldlM depthBehind depth
    return text ++ (← formatAhead unit ahead depth rest)

/-- A text with its lines indented, if its braces balance. -/
def format (options : Options) (text : List Char) : Option (List Char) :=
  formatAhead options.unit (Token.all text) 0 (linesFrom 0 (Text.pieces text))

end RouteScript.Format
