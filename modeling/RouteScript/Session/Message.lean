import RouteScript.Session.Notice
/-!
# Messages between client and server

A client sends requests, which are answered, and notifications, which are not. While it handles a
message the server may publish the diagnostics of documents. Positions count UTF-16 code units in
the text of the document that they belong to.
-/
namespace RouteScript

/-- A message from the client; a request has a name under which it is answered. -/
structure Message where
  id : Option Json
  method : String
  params : Option Json
  deriving Repr, Inhabited

namespace Message

def isRequest (m : Message) : Bool := m.id.isSome

/-- The message of a JSON object. -/
def ofJson? (j : Json) : Option Message := do
  return ⟨j.member? "id", ← (← j.member? "method").string?, j.member? "params"⟩

end Message

/-- Why a request has no result. -/
inductive Fault where
  /-- The session has not begun. -/
  | notReady
  /-- The session has begun already, or is over. -/
  | invalidRequest
  | unknownMethod
  | invalidParams
  deriving DecidableEq, Repr

namespace Fault

def code : Fault → Int
  | notReady => -32002
  | invalidRequest => -32600
  | unknownMethod => -32601
  | invalidParams => -32602

def message : Fault → String
  | notReady => "Server not initialized"
  | invalidRequest => "Invalid request"
  | unknownMethod => "Method not found"
  | invalidParams => "Invalid params"

end Fault

inductive Reply where
  /-- Nothing is sent back. -/
  | silence
  | result (value : Json)
  | failure (fault : Fault)
  /-- The server has left; no message is handled any more. -/
  | gone
  deriving Repr, Inhabited

/-- What comes of one message. -/
structure Outcome where
  reply : Reply
  publications : List Publication
  deriving Repr, Inhabited

/-- An outcome that publishes nothing. -/
def Reply.alone (r : Reply) : Outcome := ⟨r, []⟩

namespace Answer

def position (p : Position) : Json :=
  .object [("line", .ofNat p.line), ("character", .ofNat p.character)]

def span (s : Position.Span) : Json :=
  .object [("start", position s.start), ("end", position s.stop)]

def markdown (text : String) : Json :=
  .object [("kind", .string "markdown"), ("value", .string text)]

/-- What the server can do, and what it is called. -/
def greeting : Json :=
  .object [
    ("capabilities", .object [
      ("textDocumentSync", .ofNat 1),
      ("hoverProvider", .bool true),
      ("completionProvider", .object [
        ("resolveProvider", .bool false), ("triggerCharacters", .array [.string "$"])]),
      ("definitionProvider", .bool true),
      ("documentSymbolProvider", .bool true),
      ("documentFormattingProvider", .bool true)]),
    ("serverInfo", .object [
      ("name", .string "kamailio-language-server"), ("version", .string "0.2.0")])]

def hover (text : List Char) (documentation : String) (r : Range) : Json :=
  .object [("contents", markdown documentation), ("range", span (r.toSpan text))]

/-- The number of a kind of completion. -/
def completionKind : Completion.Kind → Nat
  | .function => 3
  | .keyword => 14
  | .variable => 6
  | .module => 9
  | .text => 1

def completion (c : Completion) : Json :=
  .object [("label", .string c.label), ("kind", .ofNat (completionKind c.kind)),
    ("detail", .string c.detail), ("documentation", markdown c.documentation)]

/-- The place of a route in a document. -/
def location (uri : String) (text : List Char) (r : Route) : Json :=
  .object [("uri", .string uri), ("range", span (r.selection.toSpan text))]

/-- A route as a symbol of a document; its kind is that of functions. -/
def symbol (text : List Char) (r : Route) : Json :=
  .object [("name", .string r.label), ("kind", .ofNat 12), ("range", span (r.range.toSpan text)),
    ("selectionRange", span (r.selection.toSpan text))]

/-- The edit that puts another text in the place of a document. -/
def replacement (old new : List Char) : Json :=
  .object [("range", span (Text.wholeSpan old)), ("newText", .string (String.ofList new))]

/-- The number of a severity. -/
def severity : Severity → Nat
  | .error => 1
  | .warning => 2
  | .information => 3
  | .hint => 4

def diagnostic (found : Position.Span × Diagnostic) : Json :=
  .object [("range", span found.1), ("severity", .ofNat (severity found.2.severity)),
    ("source", .string "kamailio"), ("message", .string found.2.message)]

end Answer

namespace Publication

/-- The method of the notification that carries a publication. -/
def method : String := "textDocument/publishDiagnostics"

def params (p : Publication) : Json :=
  .object <| [("uri", .string p.uri), ("diagnostics", .array (p.diagnostics.map Answer.diagnostic))]
    ++ (p.version.map fun v => ("version", .ofInt v)).toList

end Publication

end RouteScript

