/-!
# Dictionaries

Entries under names, in the order of the names. Code point order is also the order of the bytes.
-/
namespace RouteScript

/-- Puts an entry in its place and drops the earlier one of the same name. -/
def putEntry {α : Type u} (key : String) (value : α) : List (String × α) → List (String × α)
  | [] => [(key, value)]
  | (k, v) :: rest =>
    if key < k then (key, value) :: (k, v) :: rest
    else if key = k then (key, value) :: rest
    else (k, v) :: putEntry key value rest

theorem mem_putEntry {α : Type u} {key : String} {value : α} {entries : List (String × α)}
    {e : String × α} (h : e ∈ putEntry key value entries) : e.1 = key ∨ e ∈ entries := by
  induction entries with
  | nil => simp_all [putEntry]
  | cons f rest ih =>
    obtain ⟨k, v⟩ := f
    simp only [putEntry] at h
    split at h
    · exact (List.mem_cons.1 h).imp (congrArg Prod.fst) id
    · split at h
      · exact (List.mem_cons.1 h).imp (congrArg Prod.fst) (List.mem_cons_of_mem _)
      · simp only [List.mem_cons] at h ⊢
        rcases h with h | h
        · exact .inr (.inl h)
        · exact (ih h).imp id .inr

theorem pairwise_putEntry {α : Type u} (key : String) (value : α) {entries : List (String × α)}
    (h : entries.Pairwise (·.1 < ·.1)) : (putEntry key value entries).Pairwise (·.1 < ·.1) := by
  induction entries with
  | nil => simp [putEntry]
  | cons f rest ih =>
    obtain ⟨k, v⟩ := f
    obtain ⟨first, others⟩ := List.pairwise_cons.1 h
    simp only [putEntry]
    split
    · rename_i lt
      refine List.pairwise_cons.2 ⟨fun e he => ?_, h⟩
      rcases List.mem_cons.1 he with rfl | he
      · exact lt
      · exact String.lt_trans lt (first e he)
    · split
      · rename_i eq
        subst eq
        exact List.pairwise_cons.2 ⟨first, others⟩
      · rename_i nlt ne
        refine List.pairwise_cons.2 ⟨fun e he => ?_, ih others⟩
        rcases mem_putEntry he with rfl | he
        · rcases String.le_total k e.1 with le | le
          · exact Decidable.byContradiction fun h =>
              ne (String.le_antisymm (String.not_lt.1 h) le)
          · exact absurd (String.le_antisymm le (String.not_lt.1 nlt)) ne
        · exact first e he

theorem find?_putEntry {α : Type u} (key : String) (value : α) (entries : List (String × α))
    (k : String) :
    ((putEntry key value entries).find? (·.1 == k)).map (·.2)
      = if key = k then some value else (entries.find? (·.1 == k)).map (·.2) := by
  induction entries with
  | nil => by_cases h : key = k <;> simp [putEntry, h]
  | cons f rest ih =>
    obtain ⟨k', v⟩ := f
    simp only [putEntry]
    split
    · by_cases h : key = k <;> simp [h]
    · split
      · rename_i eq
        subst eq
        by_cases h : key = k <;> simp [h]
      · rename_i ne
        by_cases h : k' = k
        · subst h
          simp [ne]
        · simpa [h] using ih

structure Dictionary (α : Type u) where
  entries : List (String × α)
  sorted : entries.Pairwise (·.1 < ·.1)

namespace Dictionary

variable {α : Type u}

def empty : Dictionary α := ⟨[], .nil⟩

instance : Inhabited (Dictionary α) := ⟨empty⟩

/-- Adds an entry, in the place of an earlier one of the same name. -/
def insert (d : Dictionary α) (key : String) (value : α) : Dictionary α :=
  ⟨putEntry key value d.entries, pairwise_putEntry key value d.sorted⟩

def erase (d : Dictionary α) (key : String) : Dictionary α :=
  ⟨d.entries.filter (·.1 != key), d.sorted.filter _⟩

def get? (d : Dictionary α) (key : String) : Option α :=
  (d.entries.find? (·.1 == key)).map (·.2)

theorem get?_insert (d : Dictionary α) (key : String) (value : α) (k : String) :
    (d.insert key value).get? k = if key = k then some value else d.get? k :=
  find?_putEntry key value d.entries k

theorem get?_empty (k : String) : (empty : Dictionary α).get? k = none := rfl

theorem get?_erase (d : Dictionary α) (key k : String) :
    (d.erase key).get? k = if key = k then none else d.get? k := by
  unfold get? erase
  rw [List.find?_filter]
  split
  · rename_i eq
    subst eq
    rw [List.find?_eq_none.2 fun e _ => by simp]
    rfl
  · rename_i ne
    congr 2
    funext e
    by_cases h : e.1 = k
    · simp [h, Ne.symm ne]
    · simp [h]

def contains (d : Dictionary α) (key : String) : Bool := (d.get? key).isSome

def keys (d : Dictionary α) : List String := d.entries.map (·.1)

def values (d : Dictionary α) : List α := d.entries.map (·.2)

def size (d : Dictionary α) : Nat := d.entries.length

/-- The dictionary of a list of entries, of which later ones count. -/
def ofList (entries : List (String × α)) : Dictionary α :=
  entries.foldl (fun d e => d.insert e.1 e.2) empty

/-- Changes every value and keeps the names. -/
def map {β : Type v} (f : α → β) (d : Dictionary α) : Dictionary β :=
  ⟨d.entries.map fun e => (e.1, f e.2), List.pairwise_map.2 d.sorted⟩

theorem get?_map {β : Type v} (f : α → β) (d : Dictionary α) (k : String) :
    (d.map f).get? k = (d.get? k).map f := by
  simp [get?, map, List.find?_map, Function.comp_def]

/-- Every entry is found under its name. -/
theorem get?_of_mem {d : Dictionary α} {e : String × α} (h : e ∈ d.entries) :
    d.get? e.1 = some e.2 := by
  obtain ⟨entries, sorted⟩ := d
  change e ∈ entries at h
  unfold get?
  dsimp only
  induction entries with
  | nil => simp at h
  | cons f rest ih =>
    obtain ⟨first, others⟩ := List.pairwise_cons.1 sorted
    rcases List.mem_cons.1 h with rfl | h
    · simp
    · have ne : f.1 ≠ e.1 := fun eq => String.lt_irrefl _ (eq ▸ first e h)
      rw [List.find?_cons_of_neg (by simpa using ne)]
      exact ih others h

end Dictionary

end RouteScript
