import RouteScript.Proofs.History
import RouteScript.Session.Notice
/-!
# Texts behind a change

A change of an open document applies its edits one after the other. A document that is not open
takes the last text that was given as a whole, and the edits behind that text are lost. So the two
agree just where those edits leave the text as it is.
-/
namespace RouteScript

namespace Edit

/-- The last text that is given as a whole, and the edits behind it. -/
def lastWhole? : List Edit → Option (List Char × List Edit)
  | [] => none
  | e :: behind => (lastWhole? behind).or (if e.span.isNone then some (e.text, behind) else none)

theorem isSome_lastWhole? {edits : List Edit} :
    (lastWhole? edits).isSome ↔ ∃ e ∈ edits, e.span = none := by
  induction edits with
  | nil => simp [lastWhole?]
  | cons e behind ih =>
    simp only [lastWhole?, Option.isSome_or, Bool.or_eq_true, ih, List.mem_cons,
      exists_eq_or_imp]
    by_cases whole : e.span = none <;> simp [whole]

/-- What was there before a whole text does not matter. -/
theorem applyAll_lastWhole {edits behind : List Edit} {text : List Char}
    (h : lastWhole? edits = some (text, behind)) (earlier : List Char) :
    applyAll earlier edits = applyAll text behind := by
  induction edits generalizing earlier with
  | nil => simp [lastWhole?] at h
  | cons e rest ih =>
    have step : applyAll earlier (e :: rest) = applyAll (e.apply earlier) rest := rfl
    rw [step]
    cases later : lastWhole? rest with
    | some found =>
      rw [lastWhole?, later, Option.some_or] at h
      exact ih (later.trans h) _
    | none =>
      simp only [lastWhole?, later, Option.none_or, Option.ite_none_right_eq_some,
        Option.isNone_iff_eq_none, Option.some.injEq, Prod.mk.injEq] at h
      obtain ⟨whole, rfl, rfl⟩ := h
      simp [apply, whole]

theorem find?_reverse_eq_lastWhole? (edits : List Edit) :
    (edits.reverse.find? (·.span.isNone)).map Edit.text = (lastWhole? edits).map Prod.fst := by
  induction edits with
  | nil => rfl
  | cons e behind ih =>
    rw [List.reverse_cons, List.find?_append, Option.map_or, ih, lastWhole?, Option.map_or]
    by_cases whole : e.span = none <;> simp [whole]

end Edit

namespace Session

/-- The text that a session keeps of a document. -/
def text? (s : Session) (uri : String) : Option (List Char) := (s.store.get? uri).map Document.text

theorem text?_publish (s : Session) (uri : String) (changed : Store × List Diagnostic) :
    (s.publish uri changed).1.text? uri = (changed.1.get? uri).map Document.text := rfl

end Session

theorem Store.text_openText (s : Store) (uri : String) (version : Int) (text : List Char) :
    ((s.openText uri version text).1.get? uri).map Document.text = some text := by
  rw [openText, get?_put, if_pos rfl]
  rfl

theorem Store.text_change (s : Store) (uri : String) (version : Int) (text : List Char) :
    ((s.change uri version text).1.get? uri).map Document.text = some text := by
  unfold change
  split
  · rw [get?_put, if_pos rfl]
    rfl
  · exact s.text_openText uri version text

namespace Session

variable {s : Session} {uri : String} {version : Int} {edits behind : List Edit}
  {text : List Char}

/-- An open document applies all edits. -/
theorem text?_change_open {d : Document} (stored : s.store.get? uri = some d) :
    (s.change uri version edits).1.text? uri = some (Edit.applyAll d.text edits) := by
  simp only [change, Store.edit?, stored, Option.map_some, text?_publish, Store.text_change]

/-- A document that is not open takes the last whole text. -/
theorem text?_change_closed (unopened : s.store.get? uri = none)
    (given : Edit.lastWhole? edits = some (text, behind)) :
    (s.change uri version edits).1.text? uri = some text := by
  have found := Edit.find?_reverse_eq_lastWhole? edits
  rw [given, Option.map_some] at found
  obtain ⟨e, last, rfl⟩ := Option.map_eq_some_iff.1 found
  simp only [change, Store.edit?, unopened, Option.map_none, last, text?_publish,
    Store.text_change]

/-- A change with a whole text among its edits gives the document the text that the edits lead to,
whatever was there before, if the document is open or if the edits behind the last whole text leave
that text as it is; and only then. -/
theorem change_applies (s : Session) (uri : String) (version : Int) (edits : List Edit)
    (given : ∃ e ∈ edits, e.span = none) (earlier : List Char) :
    (s.change uri version edits).1.text? uri = some (Edit.applyAll earlier edits) ↔
      (s.store.get? uri).isSome ∨
        ∀ text behind, Edit.lastWhole? edits = some (text, behind) →
          Edit.applyAll text behind = text := by
  obtain ⟨⟨text, behind⟩, last⟩ := Option.isSome_iff_exists.1 (Edit.isSome_lastWhole?.2 given)
  have whole := Edit.applyAll_lastWhole last
  cases stored : s.store.get? uri with
  | some d =>
    rw [text?_change_open stored, whole d.text, whole earlier]
    simp
  | none =>
    rw [text?_change_closed stored last, whole earlier]
    simp [last, eq_comm]

/-- An edit behind a whole text that puts a letter in its own place is not missed. -/
theorem change_applies_same :
    ((start .default).change "a" 2
      [⟨some ⟨⟨0, 0⟩, ⟨0, 1⟩⟩, ['x']⟩, ⟨none, ['a', 'b']⟩,
        ⟨some ⟨⟨0, 1⟩, ⟨0, 2⟩⟩, ['b']⟩]).1.text? "a" = some ['a', 'b'] := by
  have applied := (change_applies (start .default) "a" 2
    [⟨some ⟨⟨0, 0⟩, ⟨0, 1⟩⟩, ['x']⟩, ⟨none, ['a', 'b']⟩, ⟨some ⟨⟨0, 1⟩, ⟨0, 2⟩⟩, ['b']⟩]
    ⟨⟨none, ['a', 'b']⟩, by simp, rfl⟩ []).2 (.inr fun text behind last => ?_)
  · exact applied.trans (by decide)
  · cases last
    decide

/-- Behind a whole text, a letter put in front of it is missed where the document is not open. -/
theorem change_misses :
    ¬ ∀ (s : Session) (uri : String) (version : Int) (edits : List Edit),
      (∃ e ∈ edits, e.span = none) → ∀ earlier : List Char,
        (s.change uri version edits).1.text? uri = some (Edit.applyAll earlier edits) := by
  intro applies
  have applied := applies (start .default) "a" 2
    [⟨none, ['a']⟩, ⟨some ⟨⟨0, 0⟩, ⟨0, 0⟩⟩, ['b']⟩] ⟨⟨none, ['a']⟩, by simp, rfl⟩ []
  have missed : ((start .default).change "a" 2
      [⟨none, ['a']⟩, ⟨some ⟨⟨0, 0⟩, ⟨0, 0⟩⟩, ['b']⟩]).1.text? "a" = some ['a'] :=
    text?_change_closed rfl rfl
  exact absurd (missed.symm.trans applied) (by decide)

end Session

end RouteScript
