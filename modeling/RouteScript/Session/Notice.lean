import RouteScript.Documentation.Load
import RouteScript.Document.Store
/-!
# Sessions

A session keeps the store of documents for a client, which tells it of documents that it opens,
changes and closes and of new settings. What the client leaves open in its settings comes from the
command line. How the members of settings are read and what documentation settings name is up to the
host of the session.
-/
namespace RouteScript

/-- What a session relies on: a reader for the members of settings, and the documentation that
settings name. -/
structure Host where
  ofMembers? : List (String × Json) → Option Settings
  load : Settings → Documentation

/-- A host that reads the members of settings by their names. -/
def Host.ofLoad (load : Settings → Documentation) : Host :=
  ⟨fun members => (Settings.ofMembers members).toOption, load⟩

/-- The diagnostics that a client is to show for a document, in place of all before. -/
structure Publication where
  uri : String
  version : Option Int
  diagnostics : List (Position.Span × Diagnostic)
  deriving Repr

namespace Publication

/-- The publication of diagnostics for a document. -/
def ofDocument (d : Document) (found : List Diagnostic) : Publication :=
  ⟨d.uri, some d.version, found.map fun f => (f.range.toSpan d.text, f)⟩

/-- The publication that takes all diagnostics from a document. -/
def clear (uri : String) : Publication := ⟨uri, none, []⟩

end Publication

/-- What a client tells a session that has begun. -/
inductive Notice where
  | opened (uri : String) (version : Int) (text : List Char)
  | changed (uri : String) (version : Int) (edits : List Edit)
  | closed (uri : String)
  | configured (settings : Json)
  deriving Repr

structure Session where
  store : Store
  /-- The settings of the command line. -/
  commandLine : Settings
  deriving Inhabited

namespace Session

/-- The session of a server that was started with some settings. -/
def start (commandLine : Settings) : Session := ⟨.empty commandLine, commandLine⟩

/-- The settings that a client sends, with what it leaves open; none if they cannot be read. -/
def newSettings? (s : Session) (host : Host) (j : Json) : Option Settings :=
  (Settings.ofValue host.ofMembers? j).toOption.map (·.withFallback s.commandLine)

/-- The settings that a client sends when the session begins; what cannot be read counts as nothing,
and so does what is not there. -/
def greetingSettings (s : Session) (host : Host) (options : Option Json) : Settings :=
  (options.bind (s.newSettings? host)).getD (Settings.default.withFallback s.commandLine)

/-- Begins the session with what the client sends of settings. -/
def greet (s : Session) (host : Host) (options : Option Json) : Session :=
  let settings := s.greetingSettings host options
  { s with store := (s.store.withDocumentation (host.load settings)).withSettings settings }

/-- A new store, and the publication of what was found in one of its documents. -/
def publish (s : Session) (uri : String) (changed : Store × List Diagnostic) :
    Session × List Publication :=
  ({ s with store := changed.1 },
    ((changed.1.get? uri).map fun d => Publication.ofDocument d changed.2).toList)

/-- A document that is not open can only be changed by giving its whole text. -/
def change (s : Session) (uri : String) (version : Int) (edits : List Edit) :
    Session × List Publication :=
  match s.store.edit? uri version edits with
  | some changed => s.publish uri changed
  | none =>
    match edits.reverse.find? (·.span.isNone) with
    | some e => s.publish uri (s.store.change uri version e.text)
    | none => (s, [])

def close (s : Session) (uri : String) : Session × List Publication :=
  ({ s with store := (s.store.close uri).1 }, [.clear uri])

/-- Takes new settings, loads documentation that they name anew, and analyzes all documents. -/
def configure (s : Session) (load : Settings → Documentation) (settings : Settings) :
    Session × List Publication :=
  let store :=
    if settings.sameSources s.store.settings then s.store
    else s.store.withDocumentation (load settings)
  let (store, found) := (store.withSettings settings).reanalyze
  ({ s with store }, found.map fun (d, ds) => .ofDocument d ds)

/-- The effect of a notice; settings that cannot be read have none. -/
def notify (s : Session) (host : Host) : Notice → Session × List Publication
  | .opened uri version text => s.publish uri (s.store.openText uri version text)
  | .changed uri version edits => s.change uri version edits
  | .closed uri => s.close uri
  | .configured j =>
    match s.newSettings? host j with
    | some settings => s.configure host.load settings
    | none => (s, [])

/-- What several notices in a row lead to, and what is published on the way. -/
def notifyAll (s : Session) (host : Host) : List Notice → Session × List Publication
  | [] => (s, [])
  | n :: rest =>
    let (s', publications) := s.notify host n
    let (s'', further) := notifyAll s' host rest
    (s'', publications ++ further)

/-- The settings whose documentation a notice makes the session load. -/
def settingsToLoad? (s : Session) (host : Host) : Notice → Option Settings
  | .configured j =>
    (s.newSettings? host j).filter fun settings => !settings.sameSources s.store.settings
  | _ => none

end Session

end RouteScript
