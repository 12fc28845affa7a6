import RouteScript.Document.Hover
import RouteScript.Script.Items
import Mathlib.Data.List.Basic
/-!
# Words that hovering finds

A word is looked up by its key, which leaves out all but ASCII letters, digits, spaces and
underscores, while cookbooks and headers are kept under their names as they are written. So a name
is found exactly if it is its own key.
-/
namespace RouteScript

namespace SipHeader

theorem sameIgnoringCase_iff {a b : String} :
    sameIgnoringCase a b ↔ a.toList.map Char.toLower = b.toList.map Char.toLower := by
  simp [sameIgnoringCase]

/-- The case of the letters makes no difference. -/
theorem documentation?_congr {a b : String} (same : sameIgnoringCase a b) :
    documentation? a = documentation? b := by
  simp only [documentation?, sameIgnoringCase, sameIgnoringCase_iff.1 same]

/-- No two headers differ in the case of their letters only. -/
theorem documentation?_of_mem : ∀ header ∈ all,
    documentation? header.1 = some ("## " ++ header.1 ++ "\n" ++ header.2) := by
  decide

end SipHeader

namespace Hover

theorem isWordKey_toLower (c : Char) : isWordKey c.toLower = isWordKey c := by
  have letters : ∀ k < 26,
      isWordKey (Char.ofNat (65 + k)).toLower = isWordKey (.ofNat (65 + k)) := by
    decide
  by_cases upper : c.val ≥ 'A'.val ∧ c.val ≤ 'Z'.val
  · have low : 65 ≤ c.toNat := UInt32.le_iff_toNat_le.1 upper.1
    have high : c.toNat ≤ 90 := UInt32.le_iff_toNat_le.1 upper.2
    have same := letters (c.toNat - 65) (by omega)
    rwa [Nat.add_sub_cancel' low, Char.ofNat_toNat] at same
  · have same : c.toLower = c := dif_neg upper
    rw [same]

/-- A name is its own key if the key leaves nothing out. -/
theorem wordKey_eq_iff {name : String} :
    wordKey name.toList = name ↔ name.toList.all isWordKey := by
  rw [wordKey, ← String.toList_inj, String.toList_ofList, List.filter_eq_self, List.all_eq_true]

section Case

variable {a b : String} (same : SipHeader.sameIgnoringCase a b)
include same

/-- Names that differ in case have keys that differ in case. -/
theorem sameIgnoringCase_wordKey :
    SipHeader.sameIgnoringCase (wordKey a.toList) (wordKey b.toList) := by
  have lower (text : List Char) : (text.filter isWordKey).map Char.toLower =
      (text.map Char.toLower).filter isWordKey := by
    rw [List.filter_map]
    simp only [Function.comp_def, isWordKey_toLower]
  rw [SipHeader.sameIgnoringCase_iff, wordKey, wordKey, String.toList_ofList, String.toList_ofList,
    lower, lower, SipHeader.sameIgnoringCase_iff.1 same]

theorem all_isWordKey_congr : a.toList.all isWordKey = b.toList.all isWordKey := by
  have lower (text : List Char) : (text.map Char.toLower).all isWordKey = text.all isWordKey := by
    rw [List.all_map]
    simp only [Function.comp_def, isWordKey_toLower]
  rw [← lower, SipHeader.sameIgnoringCase_iff.1 same, lower]

end Case

/-- What the key leaves of the name of a header is not the name of another header. -/
theorem documentation?_wordKey : ∀ header ∈ SipHeader.all, header.1.toList.all isWordKey = false →
    SipHeader.documentation? (wordKey header.1.toList) = none := by
  decide

variable {t : Tree} {vs : Variables} {c : Cursor} {name : String}

/-- What is neither a callee nor part of a user variable is looked up as a word. -/
theorem documentation?_apart (apart : isCallee c = false ∧ marker? c = none) (d : Documentation) :
    documentation? t vs d c = d.word? (wordKey (c.wordIn t).toList) := by
  simp [documentation?, variableOf?, apart.1, apart.2, Cursor.wordIn]

/--
Where a name stands that is neither that of a called function nor part of a user variable, every
entry that a cookbook has under this name is shown, and every header with this name, exactly if the
name has no other characters than a key has. Otherwise no entry of the name has any effect.
-/
theorem documentation?_name (text : c.wordIn t = name) (some_name : name ≠ "")
    (apart : isCallee c = false ∧ marker? c = none) :
    ((∀ (d : Documentation) entry, d.cookbook.get? name = some entry →
        documentation? t vs d c = some entry) ↔ name.toList.all isWordKey) ∧
      (∀ header ∈ SipHeader.all, SipHeader.sameIgnoringCase header.1 name →
        ((∀ d : Documentation, d.cookbook.get? name = none →
          documentation? t vs d c = some ("## " ++ header.1 ++ "\n" ++ header.2)) ↔
            name.toList.all isWordKey)) ∧
      (name.toList.all isWordKey = false → ∀ (d : Documentation) entry,
        documentation? t vs { d with cookbook := d.cookbook.insert name entry } c =
          documentation? t vs d c) := by
  have shown (d : Documentation) : documentation? t vs d c = d.word? (wordKey name.toList) := by
    rw [documentation?_apart apart, text]
  have found (key : name.toList.all isWordKey) (d : Documentation) :
      documentation? t vs d c = (d.cookbook.get? name).or (SipHeader.documentation? name) := by
    rw [shown, wordKey_eq_iff.2 key, Documentation.word?, if_neg (by simpa using some_name)]
  have missed (noKey : name.toList.all isWordKey = false) (d : Documentation) (entry : String) :
      documentation? t vs { d with cookbook := d.cookbook.insert name entry } c =
        documentation? t vs d c := by
    have other : name ≠ wordKey name.toList := fun same => by
      rw [wordKey_eq_iff.1 same.symm] at noKey
      contradiction
    rw [shown, shown, Documentation.word?, Documentation.word?, Dictionary.get?_insert,
      if_neg other]
  refine ⟨⟨fun claim => ?_, fun key d entry stored => ?_⟩, fun header known same =>
    ⟨fun claim => ?_, fun key d unknown => ?_⟩, missed⟩
  · by_contra noKey
    -- The entry has no effect, so two different ones cannot both be shown.
    have shows (entry : String) : documentation? t vs .empty c = some entry := by
      rw [← missed (by simpa using noKey) .empty entry]
      exact claim _ _ (by rw [Dictionary.get?_insert, if_pos rfl])
    exact absurd ((shows "").symm.trans (shows "a")) (by decide)
  · rw [found key, stored, Option.some_or]
  · by_contra noKey
    have noKey : header.1.toList.all isWordKey = false := by
      rw [all_isWordKey_congr same]
      simpa using noKey
    have nothing : SipHeader.documentation? (wordKey name.toList) = none := by
      rw [← SipHeader.documentation?_congr (sameIgnoringCase_wordKey same)]
      exact documentation?_wordKey header known noKey
    have shows := claim .empty rfl
    rw [shown, Documentation.word?, nothing] at shows
    split at shows <;> cases shows
  · rw [found key, unknown, Option.none_or, ← SipHeader.documentation?_congr same,
      SipHeader.documentation?_of_mem header known]

/-- The name of a header in lower case, which a cookbook may describe too. -/
theorem documentation?_name_via :
    let t := Tree.ofScript "$hdr(via) = 1;\n".toList
    ∃ c, t.nodeAt? ⟨0, 6⟩ = some c ∧
      (∀ (d : Documentation) entry, d.cookbook.get? "via" = some entry →
        documentation? t (.ofTree t) d c = some entry) ∧
      ∀ d : Documentation, d.cookbook.get? "via" = none → documentation? t (.ofTree t) d c =
        some "## Via\nPath taken by the request so far and where responses go." := by
  intro t
  have node : (t.nodeAt? ⟨0, 6⟩).map (fun c => (c.wordIn t, isCallee c, marker? c)) =
      some ("via", false, none) := by
    decide +kernel
  obtain ⟨c, found, facts⟩ := Option.map_eq_some_iff.1 node
  simp only [Prod.mk.injEq] at facts
  obtain ⟨text, apart⟩ := facts
  obtain ⟨entries, headers, _⟩ :=
    @documentation?_name t (.ofTree t) c "via" text (by decide) apart
  have via := headers ("Via", "Path taken by the request so far and where responses go.")
    (by decide) (by decide)
  exact ⟨c, found, entries.2 (by decide), via.2 (by decide)⟩

/-- A header and an entry of a cookbook that have a hyphen in their names are not found. -/
theorem documentation?_hyphen :
    let t := Tree.ofScript "$hdr(Call-ID) = 1;\n$hdr(sl-reply) = 2;\n".toList
    let d : Documentation := ⟨.empty, .ofList [("sl-reply", "Replies.")]⟩
    let at? (p : Point) := (t.nodeAt? p).map fun c =>
      (c.wordIn t, isCallee c, marker? c, documentation? t (.ofTree t) d c)
    at? ⟨0, 9⟩ = some ("Call-ID", false, none, none) ∧
      (SipHeader.documentation? "Call-ID").isSome ∧ d.cookbook.get? "Call-ID" = none ∧
      at? ⟨1, 7⟩ = some ("sl-reply", false, none, none) ∧
      d.cookbook.get? "sl-reply" = some "Replies." := by
  decide +kernel

end Hover

end RouteScript
