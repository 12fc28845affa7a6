import RouteScript.Documentation.Basic
import RouteScript.Proofs.Bytes
import RouteScript.Proofs.Variables
/-!
# Which module describes a function

Module descriptions are kept by name, with a second table that gives every function the first
module describing it. The table is made afresh whenever a module is added, so that it agrees with
the modules whatever was added before, in whatever order.
-/
namespace RouteScript

namespace Dictionary

variable {α : Type u} {d d' : Dictionary α}

theorem mem_entries_iff {key : String} {value : α} :
    (key, value) ∈ d.entries ↔ d.get? key = some value := by
  refine ⟨fun h => get?_of_mem h, fun h => ?_⟩
  obtain ⟨⟨key', value'⟩, found, rfl⟩ := Option.map_eq_some_iff.1 h
  have same : key' = key := by simpa using List.find?_some found
  exact same ▸ List.mem_of_find?_eq_some found

/-- Dictionaries in which the same is found are the same. -/
theorem ext_get? (h : ∀ key, d.get? key = d'.get? key) : d = d' := by
  have nodup (d : Dictionary α) : d.entries.Nodup := List.Nodup.of_map _ d.nodup_keys
  have same : d.entries.Perm d'.entries := by
    refine (List.perm_ext_iff_of_nodup (nodup d) (nodup d')).2 fun ⟨key, value⟩ => ?_
    rw [mem_entries_iff, mem_entries_iff, h]
  have entries : d.entries = d'.entries :=
    same.eq_of_pairwise (fun _ _ _ _ less more => absurd (String.lt_trans less more)
      (String.lt_irrefl _)) d.sorted d'.sorted
  cases d
  cases d'
  congr

/-- The first entry with some property has the least name of all that have it. -/
theorem find?_entries_eq_some_iff {p : String × α → Bool} {e : String × α} :
    d.entries.find? p = some e ↔
      e ∈ d.entries ∧ p e ∧ ∀ e' ∈ d.entries, p e' → e.1 ≤ e'.1 := by
  constructor
  · intro found
    obtain ⟨holds, front, behind, entries, none⟩ := List.find?_eq_some_iff_append.1 found
    refine ⟨List.mem_of_find?_eq_some found, holds, fun e' member holds' => ?_⟩
    have sorted := d.sorted
    rw [entries] at member sorted
    rcases List.mem_append.1 member with before | later
    · exact absurd holds' (by simpa using none e' before)
    · rcases List.mem_cons.1 later with rfl | later
      · exact String.le_refl _
      · have less := List.rel_of_pairwise_cons (List.pairwise_append.1 sorted).2.1 later
        exact String.not_lt.1 fun greater => String.lt_irrefl _ (String.lt_trans less greater)
  · rintro ⟨member, holds, least⟩
    cases found : d.entries.find? p with
    | none => exact absurd holds (List.find?_eq_none.1 found e member)
    | some e' =>
      obtain ⟨holds', front, behind, entries, none⟩ := List.find?_eq_some_iff_append.1 found
      have sorted := d.sorted
      rw [entries] at member sorted
      rcases List.mem_append.1 member with before | later
      · exact absurd holds (by simpa using none e before)
      · rcases List.mem_cons.1 later with rfl | later
        · rfl
        · have less := List.rel_of_pairwise_cons (List.pairwise_append.1 sorted).2.1 later
          have le := least e' (List.mem_of_find?_eq_some found) holds'
          exact absurd less (String.not_lt.2 le)

end Dictionary

namespace ModuleDocs

theorem get?_claim (module : String) (owners : Dictionary String) (function f : String) :
    (claim module owners function).get? f =
      (owners.get? f).or (if function = f then some module else none) := by
  unfold claim Dictionary.contains
  split
  · rename_i owned
    split
    · rename_i same
      subst same
      obtain ⟨owner, eq⟩ := Option.isSome_iff_exists.1 owned
      simp [eq]
    · simp
  · rename_i free
    rw [Dictionary.get?_insert]
    split
    · rename_i same
      subst same
      simp [Option.not_isSome_iff_eq_none.1 free]
    · simp

theorem get?_foldl_claim (module : String) (owners : Dictionary String) (functions : List String)
    (f : String) : (functions.foldl (claim module) owners).get? f =
      (owners.get? f).or (if f ∈ functions then some module else none) := by
  induction functions generalizing owners with
  | nil => simp
  | cons function functions ih =>
    rw [List.foldl_cons, ih, get?_claim, Option.or_assoc]
    congr 1
    by_cases same : function = f
    · simp [same]
    · simp [same, Ne.symm same]

/-- The owner of a function is the first module that describes it. -/
theorem get?_ownersOf (modules : Dictionary ModuleDoc) (f : String) :
    (ownersOf modules).get? f =
      (modules.entries.find? fun e => e.2.functions.contains f).map Prod.fst := by
  have each (entries : List (String × ModuleDoc)) (owners : Dictionary String) :
      (entries.foldl (fun owners e => e.2.functions.keys.foldl (claim e.1) owners)
        owners).get? f = (owners.get? f).or
          ((entries.find? fun e => e.2.functions.contains f).map Prod.fst) := by
    induction entries generalizing owners with
    | nil => simp
    | cons e entries ih =>
      rw [List.foldl_cons, ih, get?_foldl_claim, Option.or_assoc, List.find?_cons]
      simp only [Dictionary.mem_keys_iff, Dictionary.contains]
      cases e.2.functions.get? f <;> simp
  have all := each modules.entries .empty
  rwa [Dictionary.get?_empty, Option.none_or] at all

/-- The second table is the one of the modules. -/
def Indexed (ms : ModuleDocs) : Prop := ms.owners = ownersOf ms.modules

theorem indexed_empty : empty.Indexed := rfl

theorem indexed_add (ms : ModuleDocs) (m : ModuleDoc) : (ms.add m).Indexed := rfl

theorem get?_add (ms : ModuleDocs) (m : ModuleDoc) (name : String) :
    (ms.add m).get? name = if m.name = name then some m else ms.get? name :=
  Dictionary.get?_insert ..

theorem Indexed.function?_eq {ms : ModuleDocs} (h : ms.Indexed) (f : String) : ms.function? f =
    (ms.modules.entries.find? fun e => e.2.functions.contains f).bind
      fun e => e.2.functions.get? f := by
  change (ms.owners.get? f).bind (fun name => (ms.get? name).bind (·.functions.get? f)) = _
  rw [show ms.owners = ownersOf ms.modules from h, get?_ownersOf]
  cases found : ms.modules.entries.find? fun e => e.2.functions.contains f with
  | none => rfl
  | some e =>
    have here : ms.get? e.1 = some e.2 :=
      Dictionary.get?_of_mem (List.mem_of_find?_eq_some found)
    simp [here]

/-- A function is found in the module of the least name that describes it. -/
theorem Indexed.function?_eq_some_iff {ms : ModuleDocs} (h : ms.Indexed) {f : String}
    {doc : FunctionDoc} : ms.function? f = some doc ↔ ∃ name m, ms.get? name = some m ∧
      m.functions.get? f = some doc ∧
      ∀ name' m', ms.get? name' = some m' → m'.functions.contains f → name ≤ name' := by
  rw [h.function?_eq, Option.bind_eq_some_iff]
  constructor
  · rintro ⟨⟨name, m⟩, found, documented⟩
    obtain ⟨member, _, least⟩ := Dictionary.find?_entries_eq_some_iff.1 found
    exact ⟨name, m, Dictionary.mem_entries_iff.1 member, documented, fun name' m' there describes =>
      least (name', m') (Dictionary.mem_entries_iff.2 there) describes⟩
  · rintro ⟨name, m, there, documented, least⟩
    refine ⟨(name, m), Dictionary.find?_entries_eq_some_iff.2 ⟨Dictionary.mem_entries_iff.2 there,
      ?_, fun e member describes => ?_⟩, documented⟩
    · simp [Dictionary.contains, documented]
    · exact least e.1 e.2 (Dictionary.mem_entries_iff.1 member) describes

theorem Indexed.function?_eq_none_iff {ms : ModuleDocs} (h : ms.Indexed) {f : String} :
    ms.function? f = none ↔ ∀ name m, ms.get? name = some m → m.functions.get? f = none := by
  rw [h.function?_eq, Option.bind_eq_none_iff]
  constructor
  · intro none name m there
    by_contra documented
    have describes : m.functions.contains f := Option.isSome_iff_ne_none.2 documented
    have member : (name, m) ∈ ms.modules.entries := Dictionary.mem_entries_iff.2 there
    cases found : ms.modules.entries.find? fun e => e.2.functions.contains f with
    | none => exact List.find?_eq_none.1 found _ member describes
    | some e =>
      have there' := List.find?_some found
      simp [Dictionary.contains, none e found] at there'
  · intro none e found
    exact none e.1 e.2 (Dictionary.mem_entries_iff.1 (List.mem_of_find?_eq_some found))

/-- The modules after each of a list has been added. -/
def ofList (added : List ModuleDoc) : ModuleDocs := added.foldl add empty

/-- The version of a module that counts: the last one under its name. -/
def current? (added : List ModuleDoc) (name : String) : Option ModuleDoc :=
  added.reverse.find? (·.name == name)

theorem ofList_concat (added : List ModuleDoc) (m : ModuleDoc) :
    ofList (added ++ [m]) = (ofList added).add m := by
  simp [ofList]

theorem indexed_ofList (added : List ModuleDoc) : (ofList added).Indexed := by
  cases added using List.reverseRecOn with
  | nil => exact indexed_empty
  | append_singleton added m =>
    rw [ofList_concat]
    exact indexed_add _ m

theorem get?_ofList (added : List ModuleDoc) (name : String) :
    (ofList added).get? name = current? added name := by
  induction added using List.reverseRecOn with
  | nil => rfl
  | append_singleton added m ih =>
    rw [ofList_concat, get?_add, ih, current?, current?, List.reverse_concat, List.find?_cons]
    by_cases same : m.name = name
    · simp [same]
    · simp [same, beq_eq_false_iff_ne.2 same]

theorem name_current? {added : List ModuleDoc} {name : String} {m : ModuleDoc}
    (h : current? added name = some m) : m.name = name := by
  simpa using List.find?_some h

/-- Where names are distinct every module is current, in whatever order they were added. -/
theorem current?_eq_some_iff {added : List ModuleDoc} (distinct : (added.map ModuleDoc.name).Nodup)
    {name : String} {m : ModuleDoc} :
    current? added name = some m ↔ m ∈ added ∧ m.name = name := by
  constructor
  · intro h
    exact ⟨by simpa using List.mem_of_find?_eq_some h, name_current? h⟩
  · rintro ⟨member, rfl⟩
    cases found : current? added m.name with
    | none =>
      have other := List.find?_eq_none.1 found m (by simpa using member)
      simp at other
    | some m' =>
      have member' : m' ∈ added := by simpa using List.mem_of_find?_eq_some found
      rw [List.inj_on_of_nodup_map distinct member' member (name_current? found)]

theorem ofList_perm {added added' : List ModuleDoc} (same : added.Perm added')
    (distinct : (added.map ModuleDoc.name).Nodup) : ofList added = ofList added' := by
  have distinct' : (added'.map ModuleDoc.name).Nodup := (same.map _).nodup_iff.1 distinct
  have modules : (ofList added).modules = (ofList added').modules := by
    refine Dictionary.ext_get? fun name => Option.ext fun m => ?_
    change (ofList added).get? name = some m ↔ (ofList added').get? name = some m
    rw [get?_ofList, get?_ofList, current?_eq_some_iff distinct, current?_eq_some_iff distinct',
      same.mem_iff]
  have owners : (ofList added).owners = (ofList added').owners := by
    rw [indexed_ofList added, indexed_ofList added', modules]
  calc ofList added
      = ⟨(ofList added).modules, (ofList added).owners⟩ := rfl
    _ = ⟨(ofList added').modules, (ofList added').owners⟩ := by rw [modules, owners]
    _ = ofList added' := rfl

/--
A function is looked up in the current version of the module that describes it and whose name
comes first in the order of bytes. Modules of distinct names may be added in any order.
-/
theorem function?_ofList (added : List ModuleDoc) :
    (∀ f doc, (ofList added).function? f = some doc ↔ ∃ m, current? added m.name = some m ∧
      m.functions.get? f = some doc ∧ ∀ other, current? added other.name = some other →
        other.functions.contains f → Text.bytes m.name ≤ Text.bytes other.name) ∧
    (∀ f, (ofList added).function? f = none ↔
      ∀ m, current? added m.name = some m → m.functions.get? f = none) ∧
    ∀ added', added.Perm added' → (added.map ModuleDoc.name).Nodup →
      (∀ f, (ofList added').function? f = (ofList added).function? f) ∧
      (ofList added').functions = (ofList added).functions ∧
      (ofList added').values = (ofList added).values := by
  have indexed := indexed_ofList added
  refine ⟨fun f doc => ?_, fun f => ?_, fun added' same distinct => ?_⟩
  · rw [indexed.function?_eq_some_iff]
    simp only [get?_ofList, Text.bytes_le_iff]
    constructor
    · rintro ⟨name, m, here, documented, least⟩
      obtain rfl := name_current? here
      exact ⟨m, here, documented, fun other there => least other.name other there⟩
    · rintro ⟨m, here, documented, least⟩
      refine ⟨m.name, m, here, documented, fun name other there => ?_⟩
      obtain rfl := name_current? there
      exact least other there
  · rw [indexed.function?_eq_none_iff]
    simp only [get?_ofList]
    constructor
    · exact fun none m => none m.name m
    · intro none name m there
      obtain rfl := name_current? there
      exact none m there
  · rw [ofList_perm same distinct]
    exact ⟨fun _ => rfl, rfl, rfl⟩

/-- Two modules with a function of one name, added in either order. -/
theorem function?_ofList_shared :
    let zeta := Readme.parse "zeta" "1.1. shared()\n".toList
    let alpha := Readme.parse "alpha" "1.1. shared()\n1.2. own()\n".toList
    (∀ f, (ofList [alpha, zeta]).function? f = (ofList [zeta, alpha]).function? f) ∧
      ((ofList [zeta, alpha]).function? "shared").map FunctionDoc.module = some "alpha" := by
  intro zeta alpha
  have swapped : [zeta, alpha].Perm [alpha, zeta] := .swap ..
  exact ⟨((function?_ofList [zeta, alpha]).2.2 _ swapped (by decide)).1, by decide⟩

end ModuleDocs

end RouteScript
