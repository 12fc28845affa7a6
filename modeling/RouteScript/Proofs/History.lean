import RouteScript.Document.Store
import Mathlib.Data.List.Induction
/-!
# Histories of the document store

A store goes through a history of operations. Whatever the history, every stored document holds the
results of reading its present text afresh, under the flags of its last analysis.
-/
namespace RouteScript

/-- What a caller can do to a store. -/
inductive Operation where
  | openText (uri : String) (version : Int) (text : List Char)
  | change (uri : String) (version : Int) (text : List Char)
  | edit (uri : String) (version : Int) (edits : List Edit)
  | close (uri : String)
  | setSettings (settings : Settings)
  | setDocumentation (documentation : Documentation)
  | reanalyze

namespace Operation

/-- Whether an operation analyzes the document at an address, if there is one. -/
def analyzes (uri : String) : Operation → Bool
  | openText u _ _ | change u _ _ | edit u _ _ => u == uri
  | reanalyze => true
  | _ => false

/-- The settings in force behind an operation. -/
def settingsAfter (settings : Settings) : Operation → Settings
  | setSettings new => new
  | _ => settings

/-- The settings in force behind a history. -/
def settingsOf (initial : Settings) (history : List Operation) : Settings :=
  history.foldl settingsAfter initial

/-- A history up to and with the last analysis of a document. -/
def untilAnalysis (uri : String) (history : List Operation) : List Operation :=
  (history.reverse.dropWhile fun op => !op.analyzes uri).reverse

/-- The flags in force at the last analysis of a document. -/
def flagsOf (initial : Settings) (uri : String) (history : List Operation) : Diagnostic.Flags :=
  (settingsOf initial (untilAnalysis uri history)).flags

theorem settingsOf_concat (initial : Settings) (history : List Operation) (op : Operation) :
    settingsOf initial (history ++ [op]) = op.settingsAfter (settingsOf initial history) := by
  simp [settingsOf]

theorem settingsAfter_of_analyzes {op : Operation} {uri : String} (h : op.analyzes uri)
    (settings : Settings) : op.settingsAfter settings = settings := by
  cases op <;> simp_all [analyzes, settingsAfter]

theorem flagsOf_concat_of_analyzes {op : Operation} {uri : String} (h : op.analyzes uri)
    (initial : Settings) (history : List Operation) :
    flagsOf initial uri (history ++ [op]) = (settingsOf initial history).flags := by
  simp [flagsOf, untilAnalysis, h, settingsOf_concat, settingsAfter_of_analyzes h]

theorem flagsOf_concat_of_not {op : Operation} {uri : String} (h : ¬ op.analyzes uri)
    (initial : Settings) (history : List Operation) :
    flagsOf initial uri (history ++ [op]) = flagsOf initial uri history := by
  simp [flagsOf, untilAnalysis, h]

end Operation

/-- A document that holds the results of reading its text afresh and of one analysis. -/
structure Document.Coherent (flags : Diagnostic.Flags) (uri : String) (d : Document) : Prop where
  uri : d.uri = uri
  source : d.tree.source = d.text
  tree : d.tree = Script.grammar.parse d.text
  userVariables : d.userVariables = .ofTree d.tree
  routes : d.routes = d.tree.routes
  diagnostics : d.diagnostics = Diagnostic.analyze Diagnostic.rules flags d.tree

theorem Document.analyze_coherent (flags : Diagnostic.Flags) (uri : String) (version : Int)
    {text : List Char} {tree : Tree} (h : tree = Script.grammar.parse text) :
    (analyze flags uri version text tree).Coherent flags uri :=
  ⟨rfl, by subst h; rfl, h, rfl, rfl, rfl⟩

/-- An earlier tree saves a reading only where a new one would give the same. -/
theorem Grammar.reparse_eq_parse (g : Grammar) (source earlier : List Char) :
    g.reparse source (g.parse earlier) = g.parse source := by
  unfold reparse
  split
  · rename_i reusable
    have same : earlier = source := by
      simp only [canReuse, Bool.and_eq_true, beq_iff_eq] at reusable
      exact reusable.2
    rw [same]
  · rfl

namespace Store

/-- An operation on a store: the store behind it, and the diagnostics it returns by address. -/
def perform (s : Store) : Operation → Store × List (String × List Diagnostic)
  | .openText uri version text =>
    let (s', found) := s.openText uri version text
    (s', [(uri, found)])
  | .change uri version text =>
    let (s', found) := s.change uri version text
    (s', [(uri, found)])
  | .edit uri version edits =>
    match s.edit? uri version edits with
    | some (s', found) => (s', [(uri, found)])
    | none => (s, [])
  | .close uri => ((s.close uri).1, [])
  | .setSettings settings => (s.withSettings settings, [])
  | .setDocumentation documentation => (s.withDocumentation documentation, [])
  | .reanalyze =>
    let (s', found) := s.reanalyze
    (s', found.map fun (d, published) => (d.uri, published))

/-- The store behind a history that starts without documents. -/
def ofHistory (settings : Settings) (history : List Operation) : Store :=
  history.foldl (fun s op => (s.perform op).1) (empty settings)

theorem ofHistory_concat (settings : Settings) (history : List Operation) (op : Operation) :
    ofHistory settings (history ++ [op]) = ((ofHistory settings history).perform op).1 := by
  simp [ofHistory]

theorem get?_put (s : Store) (uri : String) (version : Int) (text : List Char) (tree : Tree)
    (k : String) : (s.put uri version text tree).1.get? k =
      if uri = k then some (.analyze s.settings.flags uri version text tree) else s.get? k :=
  s.documents.get?_insert uri _ k

theorem get?_reanalyze (s : Store) (k : String) :
    s.reanalyze.1.get? k = (s.get? k).map s.reanalyzed :=
  s.documents.get?_map s.reanalyzed k

/-- What every document of a store satisfies, each under the flags given for its address. -/
def Holds (flags : String → Diagnostic.Flags) (s : Store) : Prop :=
  ∀ uri d, s.get? uri = some d → d.Coherent (flags uri) uri

/-- A change reads the text afresh, whatever tree was there before. -/
theorem change_eq_openText {flags : String → Diagnostic.Flags} {s : Store} (h : s.Holds flags)
    (uri : String) (version : Int) (text : List Char) :
    s.change uri version text = s.openText uri version text := by
  unfold change
  split
  · rename_i previous stored
    rw [(h uri previous stored).tree, Grammar.reparse_eq_parse]
    rfl
  · rfl

theorem edit?_eq_openText {flags : String → Diagnostic.Flags} {s : Store} (h : s.Holds flags)
    (uri : String) (version : Int) (edits : List Edit) :
    s.edit? uri version edits =
      (s.get? uri).map fun d => s.openText uri version (Edit.applyAll d.text edits) := by
  simp only [edit?, change_eq_openText h]

theorem openText_holds {flags : String → Diagnostic.Flags} {s : Store} (h : s.Holds flags)
    (uri : String) (version : Int) (text : List Char) :
    (s.openText uri version text).1.Holds
      fun k => if uri = k then s.settings.flags else flags k := by
  intro k d stored
  rw [openText, get?_put] at stored
  split at stored
  · rename_i same
    cases stored
    subst same
    simpa using Document.analyze_coherent s.settings.flags uri version rfl
  · rename_i other
    simpa [other] using h k d stored

theorem withSettings_holds {flags : String → Diagnostic.Flags} {s : Store} (h : s.Holds flags)
    (settings : Settings) : (s.withSettings settings).Holds flags := h

theorem withDocumentation_holds {flags : String → Diagnostic.Flags} {s : Store}
    (h : s.Holds flags) (documentation : Documentation) :
    (s.withDocumentation documentation).Holds flags := h

theorem close_holds {flags : String → Diagnostic.Flags} {s : Store} (h : s.Holds flags)
    (uri : String) : (s.close uri).1.Holds flags := by
  intro k d stored
  have kept : (s.documents.erase uri).get? k = some d := stored
  rw [Dictionary.get?_erase] at kept
  split at kept
  · cases kept
  · exact h k d kept

theorem reanalyze_holds {flags : String → Diagnostic.Flags} {s : Store} (h : s.Holds flags) :
    s.reanalyze.1.Holds fun _ => s.settings.flags := by
  intro k d stored
  rw [get?_reanalyze, Option.map_eq_some_iff] at stored
  obtain ⟨previous, there, rfl⟩ := stored
  have coherent := h k previous there
  rw [← coherent.uri]
  exact Document.analyze_coherent _ _ _ coherent.tree

theorem perform_settings (s : Store) (op : Operation) :
    (s.perform op).1.settings = op.settingsAfter s.settings := by
  cases op with
  | change uri version text =>
    simp only [perform, change]
    split <;> rfl
  | edit uri version edits =>
    simp only [perform, edit?, change]
    cases s.get? uri <;> simp [put, Operation.settingsAfter]
  | _ => rfl

/-- One operation leaves coherent documents coherent; those it analyzes come under its flags. -/
theorem perform_holds {flags : String → Diagnostic.Flags} {s : Store} (h : s.Holds flags)
    (op : Operation) : (s.perform op).1.Holds
      fun k => if op.analyzes k then s.settings.flags else flags k := by
  cases op with
  | openText uri version text =>
    simpa [perform, Operation.analyzes] using openText_holds h uri version text
  | change uri version text =>
    simpa [perform, Operation.analyzes, change_eq_openText h] using
      openText_holds h uri version text
  | edit uri version edits =>
    simp only [perform, edit?_eq_openText h, Operation.analyzes, beq_iff_eq]
    cases stored : s.get? uri with
    | none =>
      intro k d there
      have other : uri ≠ k := fun same => by simp [← same, stored] at there
      simpa [other] using h k d there
    | some d => exact openText_holds h uri version _
  | close uri => simpa [perform, Operation.analyzes] using close_holds h uri
  | setSettings settings => simpa [perform, Operation.analyzes] using withSettings_holds h settings
  | setDocumentation documentation =>
    simpa [perform, Operation.analyzes] using withDocumentation_holds h documentation
  | reanalyze => simpa [perform, Operation.analyzes] using reanalyze_holds h

/-- What a history stores is coherent, under the flags of each document's last analysis. -/
theorem ofHistory_holds (settings : Settings) (history : List Operation) :
    (ofHistory settings history).settings = Operation.settingsOf settings history ∧
      (ofHistory settings history).Holds fun uri => Operation.flagsOf settings uri history := by
  induction history using List.reverseRecOn with
  | nil =>
    refine ⟨rfl, fun uri d stored => ?_⟩
    simp [ofHistory, empty, get?, Dictionary.get?_empty] at stored
  | append_singleton history op ih =>
    obtain ⟨inForce, holds⟩ := ih
    rw [ofHistory_concat]
    refine ⟨by rw [perform_settings, inForce, Operation.settingsOf_concat], ?_⟩
    intro uri d stored
    have coherent := perform_holds holds op uri d stored
    dsimp only at coherent ⊢
    by_cases analyzed : op.analyzes uri
    · rw [Operation.flagsOf_concat_of_analyzes analyzed, ← inForce]
      simpa [analyzed] using coherent
    · rw [Operation.flagsOf_concat_of_not analyzed]
      simpa [analyzed] using coherent

/-- A result is right in a store: the stored diagnostics, or nothing where they are turned off. -/
def Publishes (s : Store) (result : String × List Diagnostic) : Prop :=
  ∃ d, s.get? result.1 = some d ∧
    result.2 = if s.settings.diagnosticsEnabled then d.diagnostics else []

theorem openText_publishes (s : Store) (uri : String) (version : Int) (text : List Char) :
    (s.openText uri version text).1.Publishes (uri, (s.openText uri version text).2) :=
  ⟨_, (get?_put ..).trans (if_pos rfl), rfl⟩

theorem reanalyze_publishes {flags : String → Diagnostic.Flags} {s : Store} (h : s.Holds flags)
    {d : Document} {found : List Diagnostic} (hd : (d, found) ∈ s.reanalyze.2) :
    s.reanalyze.1.Publishes (d.uri, found) := by
  simp only [reanalyze, Dictionary.values, List.map_map, List.mem_map] at hd
  obtain ⟨⟨uri, stored⟩, there, eq⟩ := hd
  cases eq
  have found := Dictionary.get?_of_mem there
  have named := ((reanalyze_holds h) uri stored found).uri
  exact ⟨stored, by rw [named]; exact found, rfl⟩

theorem perform_publishes {flags : String → Diagnostic.Flags} {s : Store} (h : s.Holds flags)
    (op : Operation) : ∀ result ∈ (s.perform op).2, (s.perform op).1.Publishes result := by
  cases op with
  | openText uri version text => simpa [perform] using openText_publishes s uri version text
  | change uri version text =>
    simpa [perform, change_eq_openText h] using openText_publishes s uri version text
  | edit uri version edits =>
    simp only [perform, edit?_eq_openText h]
    cases s.get? uri with
    | none => simp
    | some d => simpa using openText_publishes s uri version _
  | reanalyze =>
    intro result there
    obtain ⟨⟨d, found⟩, member, rfl⟩ := List.mem_map.1 there
    exact reanalyze_publishes h member
  | _ => simp [perform]

/-- Analyzing all documents once more changes nothing of them but the diagnostics. -/
theorem get?_reanalyze_of_holds {flags : String → Diagnostic.Flags} {s : Store}
    (h : s.Holds flags) (uri : String) : s.reanalyze.1.get? uri = (s.get? uri).map fun d =>
      { d with diagnostics := Diagnostic.analyze Diagnostic.rules s.settings.flags d.tree } := by
  rw [get?_reanalyze]
  cases stored : s.get? uri with
  | none => rfl
  | some d =>
    have coherent := h uri d stored
    simp [reanalyzed, Document.analyze, ← coherent.userVariables, ← coherent.routes]

/-- The addresses for which an operation returns diagnostics. -/
def reports (s : Store) : Operation → List String
  | .openText uri _ _ | .change uri _ _ => [uri]
  | .edit uri _ _ => if (s.get? uri).isSome then [uri] else []
  | .reanalyze => s.uris
  | _ => []

theorem perform_reports {flags : String → Diagnostic.Flags} {s : Store} (h : s.Holds flags)
    (op : Operation) : (s.perform op).2.map Prod.fst = s.reports op := by
  cases op with
  | edit uri version edits =>
    simp only [perform, edit?, reports]
    cases s.get? uri <;> rfl
  | reanalyze =>
    have named : ∀ e ∈ s.documents.entries, e.2.uri = e.1 := fun e there =>
      (h e.1 e.2 (Dictionary.get?_of_mem there)).uri
    simp only [perform, reanalyze, Dictionary.values, Dictionary.map, List.map_map, reports, uris,
      Dictionary.keys]
    exact List.map_congr_left fun e there => named e there
  | _ => rfl

/--
Behind every history all stored documents are coherent under the flags of their last analysis. The
next operation returns what it then stores, or nothing where diagnostics are off; and analyzing all
documents once more loses none and changes only their diagnostics, to those of the present flags.
-/
theorem documents_history_free (settings : Settings) (history : List Operation) :
    let s := ofHistory settings history
    (∀ uri d, s.get? uri = some d → d.Coherent (Operation.flagsOf settings uri history) uri) ∧
    (∀ op, (s.perform op).2.map Prod.fst = s.reports op ∧
      ∀ result ∈ (s.perform op).2, ∃ d, (s.perform op).1.get? result.1 = some d ∧
        result.2 = if (Operation.settingsOf settings (history ++ [op])).diagnosticsEnabled
          then d.diagnostics else []) ∧
    (∀ uri, (s.perform .reanalyze).1.get? uri = (s.get? uri).map fun d =>
      { d with diagnostics := Diagnostic.analyze Diagnostic.rules
                (Operation.settingsOf settings history).flags d.tree }) := by
  intro s
  obtain ⟨inForce, holds⟩ := ofHistory_holds settings history
  refine ⟨holds, fun op => ⟨perform_reports holds op, ?_⟩, ?_⟩
  · rw [Operation.settingsOf_concat, ← inForce, ← perform_settings]
    exact perform_publishes holds op
  · rw [← inForce]
    exact get?_reanalyze_of_holds holds

/-- A text that was opened. -/
theorem get?_openText (settings : Settings) (uri : String) (version : Int) (text : List Char) :
    ∃ d, (ofHistory settings [.openText uri version text]).get? uri = some d ∧
      d.text = text ∧ d.tree = Tree.ofScript text :=
  ⟨_, (get?_put ..).trans (if_pos rfl), rfl, rfl⟩

end Store

end RouteScript
