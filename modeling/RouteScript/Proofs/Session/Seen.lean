import RouteScript.Proofs.Paths
import RouteScript.Proofs.History
import RouteScript.Session.Notice
/-!
# What a client sees

A notice opens a document with some text, closes one, brings settings, or leaves everything as it
is. What was last published for a document follows what the session keeps of it, and the
documentation in use is that of the settings for which it was last loaded. These name the same
sources as the settings in force, but a cookbook may be spelled like a directory in the ones and not
in the others.
-/
namespace RouteScript

/-- The last of some publications that is for a document. -/
def Publication.lastFor? (uri : String) (seen : List Publication) : Option Publication :=
  (seen.filter (·.uri == uri)).getLast?

theorem Publication.lastFor?_append (uri : String) (seen new : List Publication) :
    lastFor? uri (seen ++ new) = (lastFor? uri new).or (lastFor? uri seen) := by
  rw [lastFor?, List.filter_append, List.getLast?_append]
  rfl

theorem Publication.lastFor?_singleton (uri : String) (p : Publication) :
    lastFor? uri [p] = if p.uri = uri then some p else none := by
  by_cases same : p.uri = uri <;> simp [lastFor?, same]

/-- Of sorted entries at most one has a given name. -/
theorem getLast?_filter_of_sorted {α : Type} {entries : List (String × α)}
    (sorted : entries.Pairwise (·.1 < ·.1)) (k : String) :
    (entries.filter (·.1 == k)).getLast? = entries.find? (·.1 == k) := by
  induction entries with
  | nil => rfl
  | cons e rest ih =>
    obtain ⟨first, others⟩ := List.pairwise_cons.1 sorted
    by_cases here : e.1 = k
    · have gone : rest.filter (·.1 == k) = [] := by
        refine List.filter_eq_nil_iff.2 fun f hf same => ?_
        have later := first f hf
        rw [here, beq_iff_eq.1 same] at later
        exact String.lt_irrefl k later
      simp [here, gone]
    · simpa [here] using ih others

theorem Settings.sameSources_iff {a b : Settings} : a.sameSources b ↔
    a.sourcePath.map Files.names = b.sourcePath.map Files.names ∧
      a.cookbookPath.map Files.names = b.cookbookPath.map Files.names := by
  simp [sameSources]

/-- The documentation that settings name, read from files; some reader reads the cookbook. -/
def Documentation.ofSettings (cookbook? : List Char → Option Cookbook) (fs : Files)
    (settings : Settings) : Documentation :=
  .loadBy cookbook? fs settings.sourcePath settings.cookbookPath

/-- What is read of two paths, each of which may be missing. -/
theorem bind_congr_of_map {α β : Type} {f : String → α} (read : String → Option β)
    {a b : Option String} (same : a.map f = b.map f)
    (reads : ∀ p q, a = some p → b = some q → f p = f q → read p = read q) :
    a.bind read = b.bind read := by
  rcases a with _ | p <;> rcases b with _ | q
  · rfl
  · cases same
  · cases same
  · exact reads p q rfl rfl (Option.some.inj same)

section Documentation

variable (cookbook? : List Char → Option Cookbook) (fs : Files) {a b : Settings}

theorem Documentation.modules_congr (same : a.sameSources b) :
    (ofSettings cookbook? fs a).modules = (ofSettings cookbook? fs b).modules := by
  have modules := bind_congr_of_map (fun path => (ModuleDocs.load fs path).toOption)
    (Settings.sameSources_iff.1 same).1 fun p q _ _ names => ModuleDocs.load_congr fs names
  simp only [ofSettings, loadBy, modules]

theorem Documentation.ofSettings_congr (same : a.sameSources b)
    (ends : a.cookbookPath.map Files.endsInside = b.cookbookPath.map Files.endsInside) :
    ofSettings cookbook? fs a = ofSettings cookbook? fs b := by
  have cookbook := bind_congr_of_map (fun path => (Cookbook.loadBy cookbook? fs path).toOption)
    (Settings.sameSources_iff.1 same).2 fun p q left right names => by
      rw [left, right] at ends
      rw [Cookbook.loadBy_congr cookbook? fs names (Option.some.inj ends)]
  have modules := modules_congr cookbook? fs same
  simp only [ofSettings, loadBy] at modules ⊢
  rw [modules, cookbook]

end Documentation

namespace Session

open Publication (lastFor? lastFor?_append lastFor?_singleton)

/-- What a notice can do: the settings whose documentation is loaded, the session behind the notice
and what is published. -/
inductive Effect (load : Settings → Documentation) (s : Session) :
    Option Settings → Session → List Publication → Prop
  | idle : Effect load s none s []
  | opened (uri : String) (version : Int) (text : List Char) :
    Effect load s none (s.publish uri (s.store.openText uri version text)).1
      (s.publish uri (s.store.openText uri version text)).2
  | closed (uri : String) : Effect load s none (s.close uri).1 (s.close uri).2
  | configured (settings : Settings) :
    Effect load s (if settings.sameSources s.store.settings then none else some settings)
      (s.configure load settings).1 (s.configure load settings).2

/-- A change is an opening with the text that it leads to. -/
theorem change_effect {flags : String → Diagnostic.Flags} {s : Session}
    (load : Settings → Documentation) (holds : s.store.Holds flags) (uri : String) (version : Int)
    (edits : List Edit) :
    Effect load s none (s.change uri version edits).1 (s.change uri version edits).2 := by
  rw [change, Store.edit?_eq_openText holds]
  cases stored : s.store.get? uri with
  | some d => exact .opened uri version _
  | none =>
    cases whole : edits.reverse.find? (·.span.isNone) with
    | some e =>
      simp only [Option.map_none, Store.change_eq_openText holds]
      exact .opened uri version e.text
    | none => exact .idle

theorem notify_effect {flags : String → Diagnostic.Flags} {s : Session} (host : Host)
    (holds : s.store.Holds flags) (n : Notice) :
    Effect host.load s (s.settingsToLoad? host n) (s.notify host n).1 (s.notify host n).2 := by
  cases n with
  | opened uri version text => exact .opened uri version text
  | changed uri version edits => exact change_effect host.load holds uri version edits
  | closed uri => exact .closed uri
  | configured j =>
    rw [notify, settingsToLoad?]
    cases s.newSettings? host j with
    | none => exact .idle
    | some settings =>
      have effect : Effect host.load s _ _ _ := .configured settings
      rw [Option.filter_some]
      cases same : settings.sameSources s.store.settings <;> simpa [same] using effect

/-- The settings for which documentation was last loaded by notices. -/
def lastLoaded? (s : Session) (host : Host) : List Notice → Option Settings
  | [] => none
  | n :: rest => ((s.notify host n).1.lastLoaded? host rest).or (s.settingsToLoad? host n)

/-- What holds between a session that has begun, the publications so far, and the settings for which
documentation was last loaded. -/
structure Follows (load : Settings → Documentation) (s : Session) (seen : List Publication)
    (loaded : Settings) : Prop where
  coherent : ∃ flags, s.store.Holds flags
  opened : ∀ uri d, s.store.get? uri = some d →
    lastFor? uri seen = some (.ofDocument d (s.store.published d))
  closed : ∀ uri, s.store.get? uri = none → ∀ p, lastFor? uri seen = some p → p.diagnostics = []
  sources : loaded.sameSources s.store.settings
  documentation : s.store.documentation = load loaded

variable {load : Settings → Documentation} {s : Session} {seen : List Publication}
  {loaded : Settings}

theorem lastFor?_concat (uri : String) (seen : List Publication) (p : Publication) :
    lastFor? uri (seen ++ [p]) = if p.uri = uri then some p else lastFor? uri seen := by
  rw [lastFor?_append, lastFor?_singleton]
  split <;> simp

/-- A document is published as it is stored. -/
theorem publish_openText (s : Session) (uri : String) (version : Int) (text : List Char) :
    ∃ d : Document, d.uri = uri ∧
      (s.publish uri (s.store.openText uri version text)).2 =
        [.ofDocument d (s.store.published d)] ∧
      ∀ k, (s.store.openText uri version text).1.get? k =
        if uri = k then some d else s.store.get? k := by
  have stored := Store.get?_put s.store uri version text (Script.grammar.parse text)
  refine ⟨_, rfl, ?_, stored⟩
  simp only [publish, Store.openText, stored, if_true, Option.map_some, Option.toList_some]
  rfl

theorem Follows.opening (h : Follows load s seen loaded) (uri : String) (version : Int)
    (text : List Char) :
    Follows load (s.publish uri (s.store.openText uri version text)).1
      (seen ++ (s.publish uri (s.store.openText uri version text)).2) loaded := by
  obtain ⟨flags, holds⟩ := h.coherent
  obtain ⟨d, named, published, stored⟩ := publish_openText s uri version text
  rw [published]
  refine ⟨⟨_, Store.openText_holds holds uri version text⟩, ?_, ?_, h.sources,
    h.documentation⟩
  · intro k e there
    have there := (stored k).symm.trans there
    rw [lastFor?_concat, Publication.ofDocument, named]
    split at there
    · rename_i here
      cases there
      rw [if_pos here, ← named]
      rfl
    · rename_i elsewhere
      rw [if_neg elsewhere]
      exact h.opened k e there
  · intro k absent p last
    have absent := (stored k).symm.trans absent
    rw [lastFor?_concat, Publication.ofDocument, named] at last
    split at absent
    · cases absent
    · rename_i elsewhere
      rw [if_neg elsewhere] at last
      exact h.closed k absent p last

theorem Follows.closing (h : Follows load s seen loaded) (uri : String) :
    Follows load (s.close uri).1 (seen ++ (s.close uri).2) loaded := by
  obtain ⟨flags, holds⟩ := h.coherent
  have stored (k : String) : (s.store.close uri).1.get? k =
      if uri = k then none else s.store.get? k := s.store.documents.get?_erase uri k
  refine ⟨⟨flags, Store.close_holds holds uri⟩, ?_, ?_, h.sources, h.documentation⟩
  · intro k d there
    have there := (stored k).symm.trans there
    rw [close, lastFor?_concat, Publication.clear]
    split at there
    · cases there
    · rename_i elsewhere
      rw [if_neg elsewhere]
      exact h.opened k d there
  · intro k absent p last
    have absent := (stored k).symm.trans absent
    rw [close, lastFor?_concat, Publication.clear] at last
    split at absent
    · rename_i here
      rw [if_pos here] at last
      cases last
      rfl
    · rename_i elsewhere
      rw [if_neg elsewhere] at last
      exact h.closed k absent p last

/-- Analyzing all documents once more publishes every one of them. -/
theorem lastFor?_reanalyze {flags : String → Diagnostic.Flags} {s : Store} (h : s.Holds flags)
    (k : String) :
    lastFor? k (s.reanalyze.2.map fun (d, found) => Publication.ofDocument d found) =
      (s.reanalyze.1.get? k).map fun d => .ofDocument d (s.published d) := by
  have named : ∀ e ∈ s.reanalyze.1.documents.entries, e.2.uri = e.1 := fun e there =>
    (Store.reanalyze_holds h e.1 e.2 (Dictionary.get?_of_mem there)).uri
  have found : s.reanalyze.2.map (fun (d, found) => Publication.ofDocument d found) =
      s.reanalyze.1.documents.entries.map fun e => .ofDocument e.2 (s.published e.2) := by
    simp only [Store.reanalyze, Dictionary.values, List.map_map, Function.comp_def]
  have kept : s.reanalyze.1.documents.entries.filter
      ((fun p : Publication => p.uri == k) ∘ fun e => .ofDocument e.2 (s.published e.2)) =
        s.reanalyze.1.documents.entries.filter (·.1 == k) :=
    List.filter_congr fun e there => by
      simp only [Function.comp_apply, Publication.ofDocument, named e there]
  rw [found, lastFor?, List.filter_map, kept, List.getLast?_map,
    getLast?_filter_of_sorted s.reanalyze.1.documents.sorted, Store.get?, Dictionary.get?,
    Option.map_map]
  rfl

/-- The store behind new settings, before its documents are analyzed once more. -/
theorem exists_configure (s : Session) (load : Settings → Documentation) (settings : Settings) :
    ∃ store : Store, store.settings = settings ∧ store.documents = s.store.documents ∧
      store.documentation = (if settings.sameSources s.store.settings then s.store.documentation
        else load settings) ∧
      s.configure load settings = ({ s with store := store.reanalyze.1 },
        store.reanalyze.2.map fun (d, found) => .ofDocument d found) := by
  unfold configure
  split
  · exact ⟨s.store.withSettings settings, rfl, rfl, rfl, rfl⟩
  · exact ⟨(s.store.withDocumentation (load settings)).withSettings settings, rfl, rfl, rfl, rfl⟩

theorem Follows.configuring (h : Follows load s seen loaded) (settings : Settings) :
    Follows load (s.configure load settings).1 (seen ++ (s.configure load settings).2)
      ((if settings.sameSources s.store.settings then none else some settings).getD loaded) := by
  obtain ⟨flags, holds⟩ := h.coherent
  obtain ⟨store, given, documents, documentation, eq⟩ := exists_configure s load settings
  have same (k : String) : store.get? k = s.store.get? k := by rw [Store.get?, documents]; rfl
  have holds : store.Holds flags := fun k d there => holds k d ((same k).symm.trans there)
  have last (k : String) := lastFor?_reanalyze holds k
  rw [eq]
  refine ⟨⟨_, Store.reanalyze_holds holds⟩, ?_, ?_, ?_, ?_⟩
  · intro k d there
    have there : store.reanalyze.1.get? k = some d := there
    rw [lastFor?_append, last, there]
    rfl
  · intro k absent p seen_last
    have absent : store.reanalyze.1.get? k = none := absent
    rw [lastFor?_append, last, absent] at seen_last
    rw [Store.get?_reanalyze, Option.map_eq_none_iff, same] at absent
    exact h.closed k absent p seen_last
  · have settled : store.reanalyze.1.settings = settings := given
    rw [settled]
    split
    · rename_i kept
      have before := Settings.sameSources_iff.1 h.sources
      have now := Settings.sameSources_iff.1 kept
      exact Settings.sameSources_iff.2 ⟨before.1.trans now.1.symm, before.2.trans now.2.symm⟩
    · exact Settings.sameSources_iff.2 ⟨rfl, rfl⟩
  · have settled : store.reanalyze.1.documentation = store.documentation := rfl
    rw [settled, documentation]
    split
    · exact h.documentation
    · rfl

theorem Follows.effect (h : Follows load s seen loaded) {new : Option Settings} {s' : Session}
    {publications : List Publication} (effect : Effect load s new s' publications) :
    Follows load s' (seen ++ publications) (new.getD loaded) := by
  cases effect with
  | idle =>
    rw [List.append_nil]
    exact h
  | opened uri version text => exact h.opening uri version text
  | closed uri => exact h.closing uri
  | configured settings => exact h.configuring settings

variable {host : Host}

theorem Follows.notify (h : Follows host.load s seen loaded) (n : Notice) :
    Follows host.load (s.notify host n).1 (seen ++ (s.notify host n).2)
      ((s.settingsToLoad? host n).getD loaded) := by
  obtain ⟨flags, holds⟩ := h.coherent
  exact h.effect (notify_effect host holds n)

theorem Follows.notifyAll (h : Follows host.load s seen loaded) (notices : List Notice) :
    Follows host.load (s.notifyAll host notices).1 (seen ++ (s.notifyAll host notices).2)
      ((s.lastLoaded? host notices).getD loaded) := by
  induction notices generalizing s seen loaded with
  | nil => simpa [Session.notifyAll, lastLoaded?] using h
  | cons n rest ih =>
    have later := ih (h.notify n)
    rw [List.append_assoc] at later
    cases last : (s.notify host n).1.lastLoaded? host rest <;>
      simpa [Session.notifyAll, lastLoaded?, last] using later

/-- A session begins without documents, and with the documentation of its settings. -/
theorem follows_greet (host : Host) (commandLine : Settings) (options : Option Json) :
    Follows host.load ((start commandLine).greet host options) []
      ((start commandLine).greetingSettings host options) := by
  refine ⟨⟨fun _ => commandLine.flags, fun uri d there => ?_⟩, fun uri d there => ?_,
    fun uri _ p last => ?_, Settings.sameSources_iff.2 ⟨rfl, rfl⟩, rfl⟩
  · cases there
  · cases there
  · cases last

/-- Behind a greeting and any notices, a client was last told of every open document what the
session found in its present text, or nothing where diagnostics are off, and nothing of any other
document. Settings that cannot be read have no effect. The documentation in use is that of the
settings for which it was last loaded, and those in force name the same sources. Where it is read
from files, those in force have the same module descriptions, and the same documentation if both
spellings of the cookbook end alike. -/
theorem client_follows (host : Host) (commandLine : Settings) (options : Option Json)
    (notices : List Notice) :
    let begun := (start commandLine).greet host options
    let s := (begun.notifyAll host notices).1
    let seen := (begun.notifyAll host notices).2
    let loaded := (begun.lastLoaded? host notices).getD
      ((start commandLine).greetingSettings host options)
    (∀ uri d, s.store.get? uri = some d → lastFor? uri seen =
      some (.ofDocument d (if s.store.settings.diagnosticsEnabled then d.diagnostics else []))) ∧
    (∀ uri, s.store.get? uri = none → ∀ p, lastFor? uri seen = some p → p.diagnostics = []) ∧
    (∀ j, s.newSettings? host j = none → s.notify host (.configured j) = (s, [])) ∧
    s.store.documentation = host.load loaded ∧ loaded.sameSources s.store.settings ∧
    ∀ cookbook? fs, host.load = Documentation.ofSettings cookbook? fs →
      s.store.documentation.modules = (host.load s.store.settings).modules ∧
      (loaded.cookbookPath.map Files.endsInside =
          s.store.settings.cookbookPath.map Files.endsInside →
        s.store.documentation = host.load s.store.settings) := by
  intro begun s seen loaded
  have follows : Follows host.load s seen loaded :=
    (follows_greet host commandLine options).notifyAll notices
  refine ⟨follows.opened, follows.closed, fun j unreadable => ?_, follows.documentation,
    follows.sources, fun cookbook? fs files => ⟨?_, fun ends => ?_⟩⟩
  · rw [Session.notify, unreadable]
  · rw [follows.documentation, files]
    exact Documentation.modules_congr cookbook? fs follows.sources
  · rw [follows.documentation, files]
    exact Documentation.ofSettings_congr cookbook? fs follows.sources ends

/-- A host that reads documentation from files. -/
def hostOf (fs : Files) : Host := .ofLoad (.ofSettings Cookbook.parse? fs)

/-- Settings that name a cookbook. -/
def naming (cookbook : String) : Json := .object [("cookbookPath", .string cookbook)]

/-- A file of documentation for one word. -/
def smallCookbook : Files := .ofList [("b/c", .file (some "[[[\"w\",\"A word.\"]]]".toList))]

/-- A cookbook that is spelled anew stays in use. -/
theorem client_follows_respelled :
    let host := hostOf smallCookbook
    let s := (((start .default).greet host (some (naming "/work//b/c"))).notifyAll host
      [.configured (naming "/work/b/./c")]).1
    s.store.settings.cookbookPath = some "/work/b/./c" ∧
      s.store.documentation = host.load s.store.settings ∧
      s.store.documentation.word? "w" = some "A word." := by
  intro host s
  have same := ((client_follows host .default (some (naming "/work//b/c"))
    [.configured (naming "/work/b/./c")]).2.2.2.2.2 Cookbook.parse? smallCookbook rfl).2
  exact ⟨by decide, same (by decide), by decide +kernel⟩

/-- A cookbook whose path ends like that of a directory cannot be read, and is not read again when
its path is given without the slash. -/
theorem client_outdated :
    ¬ ∀ (fs : Files) (commandLine : Settings) (options : Option Json) (notices : List Notice),
      let host := hostOf fs
      let s := (((start commandLine).greet host options).notifyAll host notices).1
      s.store.documentation = host.load s.store.settings := by
  intro current
  have same := current smallCookbook .default (some (naming "/work/b/c/"))
    [.configured (naming "/work/b/c")]
  have word := congrArg (fun d : Documentation => d.cookbook.get? "w") same
  exact absurd word (by decide +kernel)

end Session

end RouteScript
