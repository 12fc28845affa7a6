import RouteScript.Session.Message
import RouteScript.Session.Method
/-!
# Connections

The messages of a client come in over a connection, one by one. It begins with a greeting, which
brings the settings of the client, and ends when the client leaves; between the two, notifications
are given to the session as notices and requests are answered from its store.
-/
namespace RouteScript

/-- How far a connection has come. -/
inductive Phase where
  | silent
  | ready
  | shutDown
  | gone
  deriving DecidableEq, Repr, Inhabited

/-- What a request is answered in a phase that does not allow it. -/
def Phase.fault : Phase → Fault
  | shutDown => .invalidRequest
  | _ => .notReady

namespace Session

/-- The result of a question about an open document; null if there is none. -/
def aboutDocument (s : Session) (uri : String) (answer : Document → Option Json) : Json :=
  ((s.store.get? uri).bind answer).getD .null

def hoverAt (s : Session) (uri : String) (p : Position) : Json :=
  s.aboutDocument uri fun d =>
    (s.store.hover? uri (p.toPoint d.text)).map fun (found, r) => Answer.hover d.text found r

def definitionAt (s : Session) (uri : String) (p : Position) : Json :=
  s.aboutDocument uri fun d =>
    (s.store.definition? uri (p.toPoint d.text)).map (Answer.location uri d.text)

def symbols (s : Session) (uri : String) : Json :=
  s.aboutDocument uri fun d => some (.array (d.routes.map (Answer.symbol d.text)))

def edits (s : Session) (uri : String) (options : Format.Options) : Json :=
  s.aboutDocument uri fun d =>
    some (.array ((d.format? options).map (Answer.replacement d.text)).toList)

/-- The result of a request. -/
def answer (s : Session) (method : Method) (params : Json) : Except Fault Json :=
  let read {α : Type} (value : Option α) (result : α → Json) : Except Fault Json :=
    match value with
    | some v => .ok (result v)
    | none => .error .invalidParams
  match method with
  | .hover => read (Params.atPosition? Params.progress params) fun (uri, p) => s.hoverAt uri p
  | .completion =>
    read (Params.completion? params) fun uri =>
      .array ((s.store.completions uri).map Answer.completion)
  | .definition =>
    read (Params.atPosition? Params.progressInParts params) fun (uri, p) => s.definitionAt uri p
  | .documentSymbol => read (Params.inDocument? Params.progressInParts params) s.symbols
  | .formatting => read (Params.formatting? params) fun (uri, options) => s.edits uri options
  | .unserved shape => .error (if shape params then .unknownMethod else .invalidParams)
  | _ => .error .unknownMethod

end Session

/-- A session behind the messages of its client. -/
structure Connection where
  phase : Phase
  session : Session
  deriving Inhabited

def Reply.ofExcept : Except Fault Json → Reply
  | .ok j => .result j
  | .error fault => .failure fault

namespace Connection

/-- Begins the session, if the greeting can be read. -/
def greet (load : Settings → Documentation) (c : Connection) (params : Option Json) :
    Connection × Reply :=
  match params.bind Params.greeting? with
  | none => (c, .failure .invalidParams)
  | some options => (⟨.ready, c.session.greet (.ofLoad load) options⟩, .result Answer.greeting)

/-- Gives a notification to the session; one that cannot be read has no effect. -/
def notify (load : Settings → Documentation) (c : Connection) (method : Method)
    (params : Option Json) : Connection × List Publication :=
  match method.notice? (params.getD .null) with
  | none => (c, [])
  | some notice =>
    let (session, publications) := c.session.notify (.ofLoad load) notice
    ({ c with session }, publications)

/-- A request is refused with a fault and a notification passed over. -/
def refuse (m : Message) (fault : Fault) : Outcome :=
  if m.isRequest then (Reply.failure fault).alone else Reply.silence.alone

/-- The connection behind a message, and what comes of the message. A request under the name of a
notification, or the other way round, has no effect and no answer. -/
def step (load : Settings → Documentation) (c : Connection) (m : Message) :
    Connection × Outcome :=
  if c.phase = .gone then (c, Reply.gone.alone)
  else
    match Method.ofName m.method with
    | .leave => ({ c with phase := .gone }, Reply.silence.alone)
    | .withdrawal => (c, Reply.silence.alone)
    | .unknown => (c, refuse m .unknownMethod)
    | .greet =>
      if c.phase != .silent then (c, refuse m .invalidRequest)
      else if m.isRequest then
        let (c', reply) := c.greet load m.params
        (c', reply.alone)
      else (c, Reply.silence.alone)
    | method =>
      if c.phase != .ready then (c, refuse m c.phase.fault)
      else
        match method with
        | .shutDown =>
          let c' := { c with phase := .shutDown }
          if !m.isRequest then (c', Reply.silence.alone)
          else if m.params.isSome then (c', (Reply.failure .invalidParams).alone)
          else (c', (Reply.result .null).alone)
        | .opened | .changed | .closed | .configured | .ignored =>
          if m.isRequest then (c, Reply.silence.alone)
          else
            let (c', publications) := c.notify load method m.params
            (c', ⟨.silence, publications⟩)
        | _ =>
          if !m.isRequest then (c, Reply.silence.alone)
          else
            match m.params with
            | none => (c, (Reply.failure .invalidParams).alone)
            | some params => (c, (Reply.ofExcept (c.session.answer method params)).alone)

/-- The connections and outcomes of several messages in a row. -/
def run (load : Settings → Documentation) (c : Connection) :
    List Message → Connection × List Outcome
  | [] => (c, [])
  | m :: rest =>
    let (c', outcome) := c.step load m
    let (c'', outcomes) := run load c' rest
    (c'', outcome :: outcomes)

/-- The settings whose documentation a message makes the session load. -/
def settingsToLoad? (c : Connection) (m : Message) : Option Settings :=
  let host : Host := .ofLoad fun _ => .empty
  match Method.ofName m.method, c.phase with
  | .greet, .silent =>
    if m.isRequest then
      (m.params.bind Params.greeting?).map (c.session.greetingSettings host)
    else none
  | method, .ready =>
    if m.isRequest then none
    else (method.notice? (m.params.getD .null)).bind (c.session.settingsToLoad? host)
  | _, _ => none

end Connection

/-- What comes of the messages of a client that has not greeted the session yet. -/
def Session.run (load : Settings → Documentation) (s : Session) (messages : List Message) :
    Connection × List Outcome :=
  Connection.run load ⟨.silent, s⟩ messages

end RouteScript
