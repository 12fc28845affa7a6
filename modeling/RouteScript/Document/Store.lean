import RouteScript.Text.Position
import RouteScript.Document.Basic
import RouteScript.Document.Completion
import RouteScript.Document.Hover
import RouteScript.Settings
/-!
# The store of open documents

Every operation on a text reads and analyzes it as a whole before anything is stored, so no document
mixes results of two texts. Diagnostics are always stored and published only where the settings ask
for them. An edit puts a text in the place of a span, or of everything; a span that ends before it
starts is empty and stands at its start.
-/
namespace RouteScript

structure Edit where
  /-- What is replaced; everything, if there is none. -/
  span : Option Position.Span
  text : List Char
  deriving DecidableEq, Repr

namespace Edit

def apply (text : List Char) (e : Edit) : List Char :=
  match e.span with
  | none => e.text
  | some span =>
    let start := span.start.toIndex text
    let stop := max start (span.stop.toIndex text)
    text.take start ++ e.text ++ text.drop stop

/-- The text after several edits, each of which sees the ones before. -/
def applyAll (text : List Char) (edits : List Edit) : List Char := edits.foldl apply text

end Edit

structure Store where
  settings : Settings
  documentation : Documentation
  /-- The open documents by their addresses. -/
  documents : Dictionary Document
  deriving Inhabited

namespace Store

/-- A store without documents. -/
def empty (settings : Settings) : Store := ⟨settings, .empty, .empty⟩

def get? (s : Store) (uri : String) : Option Document := s.documents.get? uri

/-- The addresses of the open documents, in their order. -/
def uris (s : Store) : List String := s.documents.keys

def withSettings (s : Store) (settings : Settings) : Store := { s with settings }

def withDocumentation (s : Store) (documentation : Documentation) : Store :=
  { s with documentation }

/-- The diagnostics of a document that a client gets to see. -/
def published (s : Store) (d : Document) : List Diagnostic :=
  if s.settings.diagnosticsEnabled then d.diagnostics else []

/-- Stores a document over a tree; also gives what to publish. -/
def put (s : Store) (uri : String) (version : Int) (text : List Char) (tree : Tree) :
    Store × List Diagnostic :=
  let d := Document.analyze s.settings.flags uri version text tree
  ({ s with documents := s.documents.insert uri d }, s.published d)

def openText (s : Store) (uri : String) (version : Int) (text : List Char) :
    Store × List Diagnostic :=
  s.put uri version text (Script.grammar.parse text)

/-- Gives a document a new text; one that is not open is opened. -/
def change (s : Store) (uri : String) (version : Int) (text : List Char) :
    Store × List Diagnostic :=
  match s.get? uri with
  | some previous => s.put uri version text (Script.grammar.reparse text previous.tree)
  | none => s.openText uri version text

/-- Edits the text of an open document. -/
def edit? (s : Store) (uri : String) (version : Int) (edits : List Edit) :
    Option (Store × List Diagnostic) :=
  (s.get? uri).map fun d => s.change uri version (Edit.applyAll d.text edits)

/-- Closes a document; also says whether it was open. -/
def close (s : Store) (uri : String) : Store × Bool :=
  ({ s with documents := s.documents.erase uri }, (s.get? uri).isSome)

/-- The document with its tree analyzed once more, under the settings of the store. -/
def reanalyzed (s : Store) (d : Document) : Document :=
  .analyze s.settings.flags d.uri d.version d.text d.tree

/-- Analyzes all documents once more; also gives what to publish, by address. -/
def reanalyze (s : Store) : Store × List (Document × List Diagnostic) :=
  let s' := { s with documents := s.documents.map s.reanalyzed }
  (s', s'.documents.values.map fun d => (d, s.published d))

def nodeAt? (s : Store) (uri : String) (p : Point) : Option (Document × Cursor) := do
  let d ← s.get? uri
  return (d, ← d.tree.nodeAt? p)

/-- The documentation of the node at a point, and the range of the node. -/
def hover? (s : Store) (uri : String) (p : Point) : Option (String × Range) := do
  let (d, c) ← s.nodeAt? uri p
  let text := Hover.documentation? d.tree d.userVariables s.documentation c
  return (text.getD Hover.notFound, c.range)

def hoverText (s : Store) (uri : String) (p : Point) : String :=
  ((s.hover? uri p).map (·.1)).getD Hover.notFound

/-- Completions in a document; without one, those that come from documentation. -/
def completions (s : Store) (uri : String) : List Completion :=
  Completion.all (((s.get? uri).map Document.userVariables).getD .empty) s.documentation

def definition? (s : Store) (uri : String) (p : Point) : Option Route :=
  (s.get? uri).bind (·.definition? p)

def routes? (s : Store) (uri : String) : Option (List Route) := (s.get? uri).map Document.routes

def format? (s : Store) (uri : String) (options : Format.Options) : Option (List Char) :=
  (s.get? uri).bind (·.format? options)

end Store

end RouteScript
