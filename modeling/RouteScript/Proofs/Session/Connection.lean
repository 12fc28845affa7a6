import RouteScript.Proofs.Session.Seen
import RouteScript.Session.Basic
/-!
# Sessions behind connections

Of the messages of a client two kinds reach the session: the first greeting that can be read, and
behind it the notifications that can be read, as notices. All others leave the session as it is and
publish nothing, so that a connection does with its session what a greeting and notices do.
-/
namespace RouteScript.Connection

/-- The settings of the greeting that a message brings, if the connection waits for one. -/
def greeting? (c : Connection) (m : Message) : Option (Option Json) :=
  match c.phase, Method.ofName m.method with
  | .silent, .greet => if m.isRequest then m.params.bind Params.greeting? else none
  | _, _ => none

/-- What a message tells the session, if it has begun. -/
def notice? (c : Connection) (m : Message) : Option Notice :=
  if c.phase = .ready ∧ !m.isRequest then
    (Method.ofName m.method).notice? (m.params.getD .null)
  else none

variable {load : Settings → Documentation} {c : Connection} {m : Message} {options : Option Json}
  {n : Notice}

theorem step_greeting (h : c.greeting? m = some options) :
    c.step load m = (⟨.ready, c.session.greet (.ofLoad load) options⟩,
      (Reply.result Answer.greeting).alone) := by
  unfold greeting? at h
  split at h
  · rename_i silent greet
    obtain ⟨request, read⟩ := Option.ite_none_right_eq_some.1 h
    simp [step, Connection.greet, silent, greet, request, read]
  · cases h

theorem step_notice (h : c.notice? m = some n) :
    c.step load m = ({ c with session := (c.session.notify (.ofLoad load) n).1 },
      ⟨.silence, (c.session.notify (.ofLoad load) n).2⟩) := by
  obtain ⟨⟨ready, notification⟩, read⟩ := Option.ite_none_right_eq_some.1 h
  simp only [Bool.not_eq_true'] at notification
  cases method : Method.ofName m.method <;>
    simp_all [step, Connection.notify, Method.notice?]

@[simp] theorem publications_alone (r : Reply) : r.alone.publications = [] := rfl

@[simp] theorem publications_refuse (m : Message) (fault : Fault) :
    (refuse m fault).publications = [] := by
  unfold refuse
  split <;> rfl

/-- What else comes in leaves the session as it is; it makes no connection ready, and none waits
for a greeting again. -/
theorem step_idle (load : Settings → Documentation) (ungreeted : c.greeting? m = none)
    (untold : c.notice? m = none) :
    (c.step load m).1.session = c.session ∧ (c.step load m).2.publications = [] ∧
      (c.phase ≠ .ready → (c.step load m).1.phase ≠ .ready) ∧
      (c.phase ≠ .silent → (c.step load m).1.phase ≠ .silent) := by
  unfold step
  split
  · exact ⟨rfl, rfl, id, id⟩
  split
  · simp
  · simp
  · simp
  · rename_i greet
    split
    · simp
    rename_i waits
    simp only [bne_iff_ne, ne_eq, Decidable.not_not] at waits
    split
    · rename_i request
      have unread : m.params.bind Params.greeting? = none := by
        simpa [greeting?, waits, greet, request] using ungreeted
      simp [Connection.greet, unread]
    · simp
  · split
    · simp
    rename_i ready
    simp only [bne_iff_ne, ne_eq, Decidable.not_not] at ready
    have untold (notification : m.isRequest = false) :
        (Method.ofName m.method).notice? (m.params.getD .null) = none := by
      simpa [notice?, ready, notification] using untold
    split
    · split
      · simp
      split <;> simp
    -- The five kinds of notifications go the same way.
    iterate 5
      split
      · simp
      · rename_i notification
        simp [Connection.notify, untold (by simpa using notification)]
    split
    · simp
    · split <;> simp

/-- What the messages behind a greeting tell the session. -/
def notices (load : Settings → Documentation) (c : Connection) : List Message → List Notice
  | [] => []
  | m :: rest => (c.notice? m).toList ++ notices load (c.step load m).1 rest

/-- The settings of the greeting for which a connection waits, and the messages behind it. -/
def greeted? (load : Settings → Documentation) (c : Connection) :
    List Message → Option (Option Json × List Message)
  | [] => none
  | m :: rest =>
    match c.greeting? m with
    | some options => some (options, rest)
    | none => greeted? load (c.step load m).1 rest

/-- What the outcomes of messages publish. -/
def published (outcomes : List Outcome) : List Publication :=
  outcomes.flatMap Outcome.publications

theorem run_begun (load : Settings → Documentation) (begun : c.phase ≠ .silent)
    (messages : List Message) :
    let told := c.session.notifyAll (.ofLoad load) (c.notices load messages)
    (c.run load messages).1.session = told.1 ∧ published (c.run load messages).2 = told.2 := by
  induction messages generalizing c with
  | nil => exact ⟨rfl, rfl⟩
  | cons m rest ih =>
    simp only [run, notices, published, List.flatMap_cons]
    cases told : c.notice? m with
    | none =>
      have ungreeted : c.greeting? m = none := by
        unfold greeting?
        split
        · contradiction
        · rfl
      obtain ⟨session, silence, -, begun'⟩ := step_idle load ungreeted told
      obtain ⟨later, further⟩ := ih (begun' begun)
      rw [session] at later further
      exact ⟨later, by rw [silence]; exact further⟩
    | some n =>
      rw [step_notice told]
      obtain ⟨later, further⟩ := ih (c := ⟨c.phase, (c.session.notify (.ofLoad load) n).1⟩) begun
      exact ⟨later, congrArg _ further⟩

theorem untold_of_waits (waits : c.phase ≠ .ready) (m : Message) : c.notice? m = none :=
  if_neg fun ready => waits ready.1

/-- Without a greeting nothing reaches the session. -/
theorem run_ungreeted {messages : List Message} (waits : c.phase ≠ .ready)
    (ungreeted : c.greeted? load messages = none) :
    (c.run load messages).1.session = c.session ∧ published (c.run load messages).2 = [] := by
  induction messages generalizing c with
  | nil => exact ⟨rfl, rfl⟩
  | cons m rest ih =>
    rw [greeted?] at ungreeted
    cases greeting : c.greeting? m with
    | some given => simp [greeting] at ungreeted
    | none =>
      rw [greeting] at ungreeted
      obtain ⟨session, silence, waits', -⟩ := step_idle load greeting (untold_of_waits waits m)
      obtain ⟨later, further⟩ := ih (waits' waits) ungreeted
      exact ⟨later.trans session, by rw [run, published, List.flatMap_cons, silence]; exact further⟩

/-- A connection does with its session what the greeting and the notices behind it do. -/
theorem run_greeted {messages behind : List Message} (waits : c.phase ≠ .ready)
    (greeted : c.greeted? load messages = some (options, behind)) :
    let begun := c.session.greet (.ofLoad load) options
    let told := begun.notifyAll (.ofLoad load) (notices load ⟨.ready, begun⟩ behind)
    (c.run load messages).1.session = told.1 ∧ published (c.run load messages).2 = told.2 := by
  induction messages generalizing c with
  | nil => cases greeted
  | cons m rest ih =>
    rw [greeted?] at greeted
    cases greeting : c.greeting? m with
    | some given =>
      rw [greeting] at greeted
      cases greeted
      rw [run, step_greeting greeting]
      exact run_begun load Phase.noConfusion behind
    | none =>
      rw [greeting] at greeted
      obtain ⟨session, silence, waits', -⟩ := step_idle load greeting (untold_of_waits waits m)
      have later := ih (waits' waits) greeted
      rw [session] at later
      rw [run, published, List.flatMap_cons, silence]
      exact later

/-- So a client sees what the session keeps of its documents. -/
theorem follows_run {commandLine : Settings} {messages behind : List Message}
    (greeted : greeted? load ⟨.silent, .start commandLine⟩ messages = some (options, behind)) :
    ∃ loaded, (((Session.start commandLine).run load messages).1.session).Follows load
      (published ((Session.start commandLine).run load messages).2) loaded := by
  let begun := (Session.start commandLine).greet (.ofLoad load) options
  have follows : (begun.notifyAll (.ofLoad load) _).1.Follows load _ _ :=
    (Session.follows_greet (.ofLoad load) commandLine options).notifyAll
      (notices load ⟨.ready, begun⟩ behind)
  obtain ⟨session, seen⟩ := run_greeted Phase.noConfusion greeted
  rw [Session.run, session, seen]
  exact ⟨_, follows⟩

end RouteScript.Connection
