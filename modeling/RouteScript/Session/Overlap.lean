import RouteScript.Session.Notice
/-!
# Configurations that overlap

A configuration is handled without a break up to a point where its handler has to wait: for
documentation that is being loaded, or for a publication that is on its way. Meanwhile further
messages come in and other handlers go on, all of them over the same store.
-/
namespace RouteScript

/-- What the handler of a configuration waits for. -/
inductive Handler where
  /-- The documentation that new settings name. -/
  | loading (settings : Settings)
  /-- A publication; those of further documents are still to come. -/
  | publishing (now : Publication) (later : List (Document × List Diagnostic))

/-- The settings whose documentation a handler waits for. -/
def Handler.settings? : Handler → Option Settings
  | loading settings => some settings
  | publishing _ _ => none

/-- The publication of what was found in a document at some time. Its ranges are those of the text
that the document has by now; nothing is shown in a document that was closed. -/
def Store.publication (s : Store) (d : Document) (found : List Diagnostic) : Publication :=
  ⟨d.uri, some d.version, match s.get? d.uri with
    | some stored => found.map fun f => (f.range.toSpan stored.text, f)
    | none => []⟩

/-- A session with the handlers that have not come to their end. -/
structure Overlap where
  session : Session
  waiting : List Handler

namespace Overlap

/-- What can happen next: a configuration comes in, or the handler at some place goes on. -/
inductive Event where
  | receive (settings : Json)
  | resume (i : Nat)

/-- A handler that publishes what was found in documents, if there are any. -/
def publisher (s : Store) : List (Document × List Diagnostic) → List Handler
  | [] => []
  | (d, found) :: later => [.publishing (s.publication d found) later]

/-- Settings take effect on a store, and all documents are analyzed once more. -/
def settle (o : Overlap) (store : Store) (settings : Settings) : Overlap :=
  let (store, found) := (store.withSettings settings).reanalyze
  ⟨{ o.session with store }, o.waiting ++ publisher store found⟩

/-- Begins the handler of a configuration. It is here that the settings in force decide whether
documentation is loaded. -/
def receive (o : Overlap) (host : Host) (j : Json) : Overlap :=
  match o.session.newSettings? host j with
  | none => o
  | some settings =>
    if settings.sameSources o.session.store.settings then o.settle o.session.store settings
    else { o with waiting := o.waiting ++ [.loading settings] }

/-- A handler goes on to where it waits next, or to its end; also gives what it has published. -/
def resume (load : Settings → Documentation) (o : Overlap) (i : Nat) :
    Overlap × List Publication :=
  let others := { o with waiting := o.waiting.eraseIdx i }
  match o.waiting[i]? with
  | none => (o, [])
  | some (.loading settings) =>
    (others.settle (o.session.store.withDocumentation (load settings)) settings, [])
  | some (.publishing now later) =>
    ({ others with waiting := others.waiting ++ publisher o.session.store later }, [now])

def step (host : Host) (o : Overlap) : Event → Overlap × List Publication
  | .receive j => (o.receive host j, [])
  | .resume i => o.resume host.load i

/-- What several events lead to, and what is published on the way. -/
def run (host : Host) (o : Overlap) : List Event → Overlap × List Publication
  | [] => (o, [])
  | e :: rest =>
    let (o', publications) := o.step host e
    let (o'', further) := run host o' rest
    (o'', publications ++ further)

end Overlap

end RouteScript
