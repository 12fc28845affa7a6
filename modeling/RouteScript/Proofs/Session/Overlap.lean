import Mathlib.Algebra.Ring.Nat
import Mathlib.Data.List.Perm.Basic
import RouteScript.Proofs.Session.Seen
import RouteScript.Session.Overlap
/-!
# Which of several configurations is in force

Whether a configuration has to wait for documentation is decided when it comes in, and it takes
effect when the wait is over. So every configuration takes effect once, in an order in which one
that waits may be overtaken, and the last to take effect stays in force, with documentation of the
sources that it names.
-/
namespace RouteScript

/-- The documentation is that of settings that name the same sources as those in force. -/
structure Store.Documented (load : Settings → Documentation) (s : Store) (loaded : Settings) :
    Prop where
  sources : loaded.sameSources s.settings
  documentation : s.documentation = load loaded

theorem Settings.sameSources_refl (a : Settings) : a.sameSources a :=
  sameSources_iff.2 ⟨rfl, rfl⟩

theorem Settings.sameSources_trans_symm {a b c : Settings} (left : a.sameSources b)
    (right : c.sameSources b) : a.sameSources c := by
  obtain ⟨modules, cookbook⟩ := sameSources_iff.1 left
  obtain ⟨modules', cookbook'⟩ := sameSources_iff.1 right
  exact sameSources_iff.2 ⟨modules.trans modules'.symm, cookbook.trans cookbook'.symm⟩

namespace Overlap

open scoped List

variable {load : Settings → Documentation} {host : Host} {o : Overlap}

/-- The settings that come in with an event. -/
def received? (host : Host) (s : Session) : Event → Option Settings
  | .receive j => s.newSettings? host j
  | .resume _ => none

/-- The settings whose documentation is there by an event. -/
def loaded? (o : Overlap) : Event → Option Settings
  | .receive _ => none
  | .resume i => o.waiting[i]?.bind Handler.settings?

/-- The settings that take effect by an event. -/
def effect? (host : Host) (o : Overlap) : Event → Option Settings
  | .receive j =>
    (o.session.newSettings? host j).filter (·.sameSources o.session.store.settings)
  | .resume i => o.waiting[i]?.bind Handler.settings?

/-- The settings that wait for their documentation. -/
def loading (waiting : List Handler) : List Settings := waiting.filterMap Handler.settings?

/-- What an event can do: the settings that come in by it, those whose documentation is there, those
that take effect, what the event leads to and what is published. -/
inductive Change (load : Settings → Documentation) (o : Overlap) :
    Option Settings → Option Settings → Option Settings → Overlap → List Publication → Prop
  | idle : Change load o none none none o []
  | delayed (settings : Settings) :
    Change load o (some settings) none none
      { o with waiting := o.waiting ++ [.loading settings] } []
  | accepted (settings : Settings) (same : settings.sameSources o.session.store.settings) :
    Change load o (some settings) none (some settings) (o.settle o.session.store settings) []
  | loaded (i : Nat) (settings : Settings) (waits : o.waiting[i]? = some (.loading settings)) :
    Change load o none (some settings) (some settings)
      ({ o with waiting := o.waiting.eraseIdx i }.settle
        (o.session.store.withDocumentation (load settings)) settings) []
  | published (i : Nat) (now : Publication) (later : List (Document × List Diagnostic))
    (waits : o.waiting[i]? = some (.publishing now later)) :
    Change load o none none none
      { o with waiting := o.waiting.eraseIdx i ++ publisher o.session.store later } [now]

theorem step_change (host : Host) (o : Overlap) (e : Event) :
    Change host.load o (received? host o.session e) (o.loaded? e) (effect? host o e)
      (o.step host e).1 (o.step host e).2 := by
  cases e with
  | receive j =>
    simp only [received?, loaded?, effect?, step, receive]
    cases o.session.newSettings? host j with
    | none => exact .idle
    | some settings =>
      simp only [Option.filter_some]
      split
      · rename_i same
        exact .accepted settings same
      · exact .delayed settings
  | resume i =>
    simp only [received?, loaded?, effect?, step, resume]
    cases waits : o.waiting[i]? with
    | none => exact .idle
    | some handler =>
      cases handler with
      | loading settings => exact .loaded i settings waits
      | publishing now later => exact .published i now later waits

variable {new loaded taken : Option Settings} {o' : Overlap} {publications : List Publication}

@[simp] theorem loading_publisher (s : Store) (found : List (Document × List Diagnostic)) :
    loading (publisher s found) = [] := by
  cases found <;> rfl

@[simp] theorem loading_append (first more : List Handler) :
    loading (first ++ more) = loading first ++ loading more := List.filterMap_append

@[simp] theorem loading_settle (o : Overlap) (store : Store) (settings : Settings) :
    loading (o.settle store settings).waiting = loading o.waiting := by
  simp [settle]

/-- A handler that goes on is taken from those that wait. -/
theorem loading_eraseIdx {i : Nat} {handler : Handler} (waits : o.waiting[i]? = some handler) :
    handler.settings?.toList ++ loading (o.waiting.eraseIdx i) ~ loading o.waiting := by
  obtain ⟨inside, rfl⟩ := List.getElem?_eq_some_iff.1 waits
  have apart := (List.getElem_cons_eraseIdx_perm inside).filterMap Handler.settings?
  rwa [← List.singleton_append, List.filterMap_append] at apart

namespace Change

theorem newSettings? (h : Change load o new loaded taken o' publications) :
    o'.session.newSettings? = o.session.newSettings? := by
  cases h <;> rfl

theorem settings (h : Change load o new loaded taken o' publications) :
    o'.session.store.settings = taken.getD o.session.store.settings := by
  cases h <;> rfl

theorem documented (h : Change load o new loaded taken o' publications) {before : Settings}
    (documented : o.session.store.Documented load before) :
    o'.session.store.Documented load (loaded.getD before) := by
  cases h with
  | accepted settings same =>
    exact ⟨Settings.sameSources_trans_symm documented.sources same, documented.documentation⟩
  | loaded _ settings _ => exact ⟨settings.sameSources_refl, rfl⟩
  | _ => exact documented

/-- What comes in takes effect at once or waits, and what waited still waits or takes effect. -/
theorem loading (h : Change load o new loaded taken o' publications) :
    taken.toList ++ loading o'.waiting ~ loading o.waiting ++ new.toList := by
  cases h with
  | idle => simp
  | delayed settings => simp [Overlap.loading, Handler.settings?]
  | accepted settings => simpa using (List.perm_append_singleton settings _).symm
  | loaded i settings waits => simpa [Handler.settings?] using loading_eraseIdx waits
  | published i now later waits => simpa [Handler.settings?] using loading_eraseIdx waits

end Change

/-- The settings that come in with events, in their order. -/
def received (host : Host) (s : Session) (events : List Event) : List Settings :=
  events.filterMap (received? host s)

theorem received_cons (host : Host) (s : Session) (e : Event) (rest : List Event) :
    received host s (e :: rest) = (received? host s e).toList ++ received host s rest := by
  cases new : received? host s e <;> simp [received, new]

/-- The settings that take effect in a run, in their order. -/
def effects (host : Host) (o : Overlap) : List Event → List Settings
  | [] => []
  | e :: rest => (effect? host o e).toList ++ effects host (o.step host e).1 rest

theorem run_append (host : Host) (o : Overlap) (first rest : List Event) :
    o.run host (first ++ rest) =
      (((o.run host first).1.run host rest).1,
        (o.run host first).2 ++ ((o.run host first).1.run host rest).2) := by
  induction first generalizing o with
  | nil => rfl
  | cons e first ih => simp only [List.cons_append, run, ih, List.append_assoc]

theorem newSettings?_run (host : Host) (o : Overlap) (events : List Event) :
    (o.run host events).1.session.newSettings? = o.session.newSettings? := by
  induction events generalizing o with
  | nil => rfl
  | cons e rest ih => exact (ih _).trans (step_change host o e).newSettings?

theorem received_congr {s s' : Session} (same : s'.newSettings? = s.newSettings?) :
    received host s' = received host s := by
  have each : received? host s' = received? host s := by
    funext e
    cases e with
    | receive j => exact congrFun (congrFun same host) j
    | resume i => rfl
  funext events
  rw [received, each, received]

/-- The settings that took effect last are in force. -/
theorem settings_run (host : Host) (o : Overlap) (events : List Event) :
    (o.run host events).1.session.store.settings =
      (effects host o events).getLast?.getD o.session.store.settings := by
  induction events generalizing o with
  | nil => rfl
  | cons e rest ih =>
    have first := (step_change host o e).settings
    simp only [run, effects, ih, first, List.getLast?_append]
    cases (effects host (o.step host e).1 rest).getLast? <;> cases effect? host o e <;> rfl

/-- The settings whose documentation was there last. -/
def lastLoaded? (host : Host) (o : Overlap) : List Event → Option Settings
  | [] => none
  | e :: rest => (lastLoaded? host (o.step host e).1 rest).or (o.loaded? e)

theorem documented_run {before : Settings}
    (documented : o.session.store.Documented host.load before) (events : List Event) :
    (o.run host events).1.session.store.Documented host.load
      ((lastLoaded? host o events).getD before) := by
  induction events generalizing o before with
  | nil => exact documented
  | cons e rest ih =>
    have later := ih ((step_change host o e).documented documented)
    rw [lastLoaded?, Option.getD_or]
    exact later

/-- Settings neither get lost nor take effect twice. -/
theorem effects_perm (host : Host) (o : Overlap) (events : List Event) :
    effects host o events ++ loading (o.run host events).1.waiting ~
      loading o.waiting ++ received host o.session events := by
  induction events generalizing o with
  | nil => simp [effects, run, received]
  | cons e rest ih =>
    have change := step_change host o e
    have later := ih (o.step host e).1
    rw [received_congr change.newSettings?] at later
    calc effects host o (e :: rest) ++ loading (o.run host (e :: rest)).1.waiting
        = (effect? host o e).toList ++ (effects host (o.step host e).1 rest ++
            loading ((o.step host e).1.run host rest).1.waiting) := by
          simp only [effects, run, List.append_assoc]
      _ ~ (effect? host o e).toList ++
            (loading (o.step host e).1.waiting ++ received host o.session rest) :=
          later.append_left _
      _ ~ loading o.waiting ++ (received? host o.session e).toList ++
            received host o.session rest := by
          rw [← List.append_assoc]
          exact change.loading.append_right _
      _ = loading o.waiting ++ received host o.session (e :: rest) := by
          rw [List.append_assoc, received_cons]

/-- If nothing is being loaded when the last configuration comes in, that one stays in force. -/
theorem settings_last {before after : List Event} {j : Json} {settings : Settings}
    (still : loading (o.run host before).1.waiting = [])
    (new : o.session.newSettings? host j = some settings)
    (last : received host o.session after = [])
    (done : loading (o.run host (before ++ .receive j :: after)).1.waiting = []) :
    (o.run host (before ++ .receive j :: after)).1.session.store.settings = settings := by
  have same := newSettings?_run host o before
  rw [run_append] at done ⊢
  have only := effects_perm host (o.run host before).1 (.receive j :: after)
  rw [done, still, List.append_nil, List.nil_append, received_congr same, received_cons, last,
    received?, new] at only
  rw [settings_run, List.perm_singleton.1 only]
  rfl

/-- How often a handler waits before its end, over some number of documents. -/
def waits (documents : Nat) : Handler → Nat
  | .loading _ => documents + 1
  | .publishing _ later => later.length + 1

/-- How often all handlers together wait before their ends. -/
def remaining (o : Overlap) : Nat := (o.waiting.map (waits o.session.store.documents.size)).sum

theorem waiting_of_remaining (none : o.remaining = 0) : o.waiting = [] := by
  cases there : o.waiting with
  | nil => rfl
  | cons handler rest =>
    rw [remaining, there, List.map_cons, List.sum_cons] at none
    cases handler <;> simp [waits] at none

theorem sum_publisher (s : Store) (found : List (Document × List Diagnostic)) (n : Nat) :
    ((publisher s found).map (waits n)).sum = found.length := by
  cases found <;> simp [publisher, waits]

theorem sum_eraseIdx {i : Nat} {handler : Handler} (there : o.waiting[i]? = some handler)
    (n : Nat) : waits n handler + ((o.waiting.eraseIdx i).map (waits n)).sum =
      (o.waiting.map (waits n)).sum := by
  obtain ⟨inside, rfl⟩ := List.getElem?_eq_some_iff.1 there
  have apart := (List.getElem_cons_eraseIdx_perm inside).map (waits n)
  rw [← apart.sum_nat, List.map_cons, List.sum_cons]

theorem length_reanalyze (s : Store) : s.reanalyze.2.length = s.documents.size := by
  simp [Store.reanalyze, Dictionary.values, Dictionary.map, Dictionary.size]

theorem remaining_settle (o : Overlap) (store : Store) (settings : Settings) :
    (o.settle store settings).remaining =
      (o.waiting.map (waits store.documents.size)).sum + store.documents.size := by
  have kept : (o.settle store settings).session.store.documents.size = store.documents.size := by
    simp [settle, Store.reanalyze, Dictionary.map, Dictionary.size, Store.withSettings]
  rw [remaining, kept, settle, List.map_append, List.sum_append_nat, sum_publisher,
    length_reanalyze]
  rfl

/-- Whichever handler goes on, there is one wait less. -/
theorem remaining_resume (load : Settings → Documentation) {i : Nat}
    (inside : i < o.waiting.length) : (o.resume load i).1.remaining + 1 = o.remaining := by
  obtain ⟨handler, there⟩ : ∃ handler, o.waiting[i]? = some handler :=
    ⟨_, List.getElem?_eq_getElem inside⟩
  have before : waits o.session.store.documents.size handler +
      ((o.waiting.eraseIdx i).map (waits o.session.store.documents.size)).sum = o.remaining :=
    sum_eraseIdx there o.session.store.documents.size
  cases handler with
  | loading settings =>
    have after : (o.resume load i).1.remaining =
        ((o.waiting.eraseIdx i).map (waits o.session.store.documents.size)).sum +
          o.session.store.documents.size := by
      simp only [resume, there]
      exact remaining_settle _ _ settings
    rw [waits] at before
    omega
  | publishing now later =>
    have after : (o.resume load i).1.remaining =
        ((o.waiting.eraseIdx i).map (waits o.session.store.documents.size)).sum +
          later.length := by
      simp only [resume, there, remaining]
      rw [List.map_append, List.sum_append_nat, sum_publisher]
    rw [waits] at before
    omega

/-- No handler waits for another: all come to their ends when one after another goes on. -/
theorem waiting_run_resume (host : Host) (o : Overlap) :
    (o.run host (List.replicate o.remaining (.resume 0))).1.waiting = [] := by
  induction n : o.remaining generalizing o with
  | zero => exact waiting_of_remaining n
  | succ n ih =>
    have inside : 0 < o.waiting.length := by
      refine List.length_pos_iff.2 fun none => ?_
      simp [remaining, none] at n
    have less := remaining_resume host.load inside
    exact ih (o.step host (.resume 0)).1 (by rw [step]; omega)

/-- What was just found in the documents is published as it is. -/
theorem publication_reanalyze {flags : String → Diagnostic.Flags} {s : Store} (h : s.Holds flags)
    {d : Document} {found : List Diagnostic} (there : (d, found) ∈ s.reanalyze.2) :
    s.reanalyze.1.publication d found = .ofDocument d found := by
  obtain ⟨e, stored, rfl⟩ : ∃ e ∈ s.reanalyze.1.documents.entries, d = e.2 := by
    simp only [Store.reanalyze, Dictionary.values, List.mem_map, Prod.mk.injEq] at there
    obtain ⟨_, ⟨e, stored, rfl⟩, rfl, _⟩ := there
    exact ⟨e, stored, rfl⟩
  have kept : s.reanalyze.1.get? e.1 = some e.2 := Dictionary.get?_of_mem stored
  have named := (Store.reanalyze_holds h e.1 e.2 kept).uri
  simp only [Store.publication, named, kept, Publication.ofDocument]

/-- Alone, a handler publishes one document after another. -/
theorem run_publisher (host : Host) (s : Session) (found : List (Document × List Diagnostic)) :
    run host ⟨s, publisher s.store found⟩ (List.replicate found.length (.resume 0)) =
      (⟨s, []⟩, found.map fun (d, ds) => s.store.publication d ds) := by
  induction found with
  | nil => rfl
  | cons first later ih =>
    have next : step host ⟨s, publisher s.store (first :: later)⟩ (.resume 0) =
        (⟨s, publisher s.store later⟩, [s.store.publication first.1 first.2]) := rfl
    simp only [List.length_cons, List.replicate_succ, run, next, ih]
    rfl

/-- Alone, a handler publishes all that was found when its settings took effect. -/
theorem run_settle {flags : String → Diagnostic.Flags} (host : Host) (s : Session) {store : Store}
    (holds : store.Holds flags) (settings : Settings) :
    let result := (store.withSettings settings).reanalyze
    run host (settle ⟨s, []⟩ store settings) (List.replicate result.2.length (.resume 0)) =
      (⟨{ s with store := result.1 }, []⟩, result.2.map fun (d, ds) => .ofDocument d ds) := by
  intro result
  have begun : settle ⟨s, []⟩ store settings =
      ⟨{ s with store := result.1 }, publisher result.1 result.2⟩ := rfl
  rw [begun, run_publisher]
  refine congrArg (Prod.mk _) (List.map_congr_left fun (d, ds) there => ?_)
  exact publication_reanalyze (Store.withSettings_holds holds settings) there

/-- Alone, a configuration does with its waits what it does in one go. -/
theorem run_alone {flags : String → Diagnostic.Flags} (host : Host) {s : Session}
    (holds : s.store.Holds flags) (j : Json) :
    ∃ n, run host ⟨s, []⟩ (.receive j :: List.replicate n (.resume 0)) =
      (⟨(s.notify host (.configured j)).1, []⟩, (s.notify host (.configured j)).2) := by
  rw [Session.notify]
  cases new : s.newSettings? host j with
  | none => exact ⟨0, by simp [run, step, receive, new]⟩
  | some settings =>
    by_cases same : settings.sameSources s.store.settings
    · have first : step host ⟨s, []⟩ (.receive j) = (settle ⟨s, []⟩ s.store settings, []) := by
        simp [step, receive, new, same]
      refine ⟨(s.store.withSettings settings).reanalyze.2.length, ?_⟩
      simp only [run, first, run_settle host s holds settings, List.nil_append]
      simp [Session.configure, same]
    · have first : step host ⟨s, []⟩ (.receive j) = (⟨s, [.loading settings]⟩, []) := by
        simp [step, receive, new, same]
      have second : step host ⟨s, [.loading settings]⟩ (.resume 0) =
          (settle ⟨s, []⟩ (s.store.withDocumentation (host.load settings)) settings, []) := rfl
      have holds := Store.withDocumentation_holds holds (host.load settings)
      refine ⟨((s.store.withDocumentation
        (host.load settings)).withSettings settings).reanalyze.2.length + 1, ?_⟩
      simp only [List.replicate_succ, run, first, second, run_settle host s holds settings,
        List.nil_append]
      simp [Session.configure, same]

theorem received_resume (host : Host) (s : Session) (n : Nat) :
    received host s (List.replicate n (.resume 0)) = [] := by
  simp [received, received?]

/-- Configurations that come in one after another, each when the handlers of those before have come
to their ends, do what notices of them do to the session. -/
theorem run_serial {seen : List Publication} {loaded : Settings} {s : Session}
    (follows : s.Follows host.load seen loaded) (sent : List Json) :
    ∃ events, received host s events = sent.filterMap (s.newSettings? host) ∧
      run host ⟨s, []⟩ events = (⟨(s.notifyAll host (sent.map .configured)).1, []⟩,
        (s.notifyAll host (sent.map .configured)).2) := by
  induction sent generalizing s seen loaded with
  | nil => exact ⟨[], rfl, rfl⟩
  | cons j rest ih =>
    obtain ⟨flags, holds⟩ := follows.coherent
    obtain ⟨n, alone⟩ := run_alone host holds j
    obtain ⟨events, same, later⟩ := ih (follows.notify (.configured j))
    have kept : (s.notify host (.configured j)).1.newSettings? = s.newSettings? := by
      have kept := newSettings?_run host ⟨s, []⟩ (.receive j :: List.replicate n (.resume 0))
      rwa [alone] at kept
    refine ⟨(.receive j :: List.replicate n (.resume 0)) ++ events, ?_, ?_⟩
    · rw [received_congr kept, kept] at same
      rw [List.cons_append, received_cons, received, List.filterMap_append, ← received, ← received,
        received_resume, same, List.nil_append, received?]
      cases new : s.newSettings? host j <;> simp [new]
    · rw [run_append, alone, later]
      rfl

open Session (hostOf naming smallCookbook)

/-- Behind a greeting and any notices, configurations come in and their handlers go on in any order.
The settings that took effect last are in force. When all handlers have come to their ends, every
configuration has taken effect once; the last to come in is in force unless another was being loaded
at that time. The documentation is at all times that of the settings for which it was last loaded,
and those in force name the same sources. Where it is read from files, those in force have the same
module descriptions, and the same documentation if both spellings of the cookbook end alike. -/
theorem configurations_settle (host : Host) (commandLine : Settings) (options : Option Json)
    (notices : List Notice) (events : List Event) :
    let begun := (Session.start commandLine).greet host options
    let s := (begun.notifyAll host notices).1
    let o := (run host ⟨s, []⟩ events).1
    let store := o.session.store
    let loaded := ((lastLoaded? host ⟨s, []⟩ events).or (begun.lastLoaded? host notices)).getD
      ((Session.start commandLine).greetingSettings host options)
    store.settings = (effects host ⟨s, []⟩ events).getLast?.getD s.store.settings ∧
    (o.waiting = [] →
      effects host ⟨s, []⟩ events ~ received host s events ∧
      ∀ before j settings after, events = before ++ .receive j :: after →
        s.newSettings? host j = some settings → received host s after = [] →
        loading (run host ⟨s, []⟩ before).1.waiting = [] → store.settings = settings) ∧
    store.documentation = host.load loaded ∧ loaded.sameSources store.settings ∧
    ∀ cookbook? fs, host.load = Documentation.ofSettings cookbook? fs →
      store.documentation.modules = (host.load store.settings).modules ∧
      (loaded.cookbookPath.map Files.endsInside =
          store.settings.cookbookPath.map Files.endsInside →
        store.documentation = host.load store.settings) := by
  intro begun s o store loaded
  have follows := (Session.follows_greet host commandLine options).notifyAll notices
  have documented : store.Documented host.load loaded := by
    have documented := documented_run (o := ⟨s, []⟩) ⟨follows.sources, follows.documentation⟩ events
    rwa [← Option.getD_or] at documented
  refine ⟨settings_run host ⟨s, []⟩ events, fun done => ?_, documented.documentation,
    documented.sources, fun cookbook? fs files => ⟨?_, fun ends => ?_⟩⟩
  · have none : loading o.waiting = [] := by rw [done]; rfl
    refine ⟨?_, ?_⟩
    · have perm := effects_perm host ⟨s, []⟩ events
      rwa [none, List.append_nil] at perm
    · rintro before j settings after rfl new last still
      exact settings_last still new last none
  · rw [documented.documentation, files]
    exact Documentation.modules_congr cookbook? fs documented.sources
  · rw [documented.documentation, files]
    exact Documentation.ofSettings_congr cookbook? fs documented.sources ends

/-- Of two configurations that wait for their documentation the second is ready first, so that the
first takes effect last and stays in force, until a third comes in alone. -/
theorem configurations_settle_overtaken :
    let host := hostOf smallCookbook
    let s := (((Session.start .default).greet host (some (naming "a"))).notifyAll host []).1
    let overtaken := [.receive (naming "/work/b/c"), .receive (naming "d"), .resume 1, .resume 0]
    let store := (run host ⟨s, []⟩ overtaken).1.session.store
    let followed := overtaken ++ [.receive (naming "d"), .resume 0]
    let final := (run host ⟨s, []⟩ followed).1.session.store
    (received host s overtaken).map (·.cookbookPath) = [some "/work/b/c", some "d"] ∧
      store.settings.cookbookPath = some "/work/b/c" ∧
      store.documentation = host.load store.settings ∧
      final.settings = { Settings.default with cookbookPath := some "d" } := by
  intro host s overtaken store followed final
  have settles := configurations_settle host .default (some (naming "a")) []
  -- with the names unfolded the goal has the terms of the theorem, and nothing is run to compare them
  dsimp only [s, store, followed, final]
  obtain ⟨last, -, -, -, files⟩ := settles overtaken
  obtain ⟨-, alone, -⟩ := settles (overtaken ++ [.receive (naming "d"), .resume 0])
  refine ⟨by decide, ?_, (files Cookbook.parse? smallCookbook rfl).2 (by decide), ?_⟩
  · rw [last]
    decide
  · exact (alone (List.isEmpty_iff.1 (by decide))).2 overtaken (naming "d") _ [.resume 0] rfl
      (by decide) (by decide) (by decide)

/-- A cookbook whose path ends like that of a directory cannot be read, and is not read again when
the next configuration gives its path without the slash. -/
theorem configurations_outdated :
    ¬ ∀ (fs : Files) (commandLine : Settings) (options : Option Json) (notices : List Notice)
        (events : List Event) (settings : Settings),
      let host := hostOf fs
      let s := (((Session.start commandLine).greet host options).notifyAll host notices).1
      let o := (run host ⟨s, []⟩ events).1
      o.waiting = [] → (∀ j, .receive j ∈ events → (s.newSettings? host j).isSome) →
        (received host s events).getLast? = some settings →
        o.session.store.settings = settings ∧
          o.session.store.documentation = host.load settings := by
  intro current
  let host := hostOf smallCookbook
  let s := (Session.start .default).greet host (some (naming "a"))
  let events : List Event :=
    [.receive (naming "/work/b/c/"), .resume 0, .receive (naming "/work/b/c")]
  have readable : ∀ j, .receive j ∈ events → (s.newSettings? host j).isSome := by
    intro j there
    rcases List.mem_cons.1 there with here | there
    · cases here
      rfl
    · rcases List.mem_cons.1 there with here | there
      · cases here
      · cases List.mem_singleton.1 there
        rfl
  obtain ⟨-, same⟩ := current smallCookbook .default (some (naming "a")) [] events _ rfl readable
    rfl
  have word := congrArg (fun d : Documentation => d.cookbook.get? "w") same
  exact absurd word (by decide +kernel)

end Overlap

end RouteScript
