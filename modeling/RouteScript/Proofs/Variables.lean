import RouteScript.Variable.Basic
import Mathlib.Data.List.Dedup
import Mathlib.Data.List.Induction
/-!
# Tables of variables

Recording variables one after the other keeps the last one of every name in its scope, and there
are as many of them as places.
-/
namespace RouteScript

namespace Dictionary

variable {α : Type u} {d : Dictionary α}

theorem nodup_keys (d : Dictionary α) : d.keys.Nodup := by
  refine List.pairwise_map.2 (d.sorted.imp ?_)
  intro e f less same
  exact String.lt_irrefl _ (same ▸ less)

theorem mem_keys_iff {key : String} : key ∈ d.keys ↔ (d.get? key).isSome := by
  rw [get?, Option.isSome_map, List.find?_isSome, keys, List.mem_map]
  simp only [beq_iff_eq]

end Dictionary

/-- Functions that tell the same elements apart have as many values. -/
theorem length_dedup_map {α : Type u} {β : Type v} {γ : Type w} [DecidableEq β] [DecidableEq γ]
    {f : α → β} {g : α → γ} (same : ∀ a b, f a = f b ↔ g a = g b) (l : List α) :
    (l.map f).dedup.length = (l.map g).dedup.length := by
  induction l with
  | nil => rfl
  | cons a l ih =>
    have seen : f a ∈ l.map f ↔ g a ∈ l.map g := by simp only [List.mem_map, same]
    rw [List.map_cons, List.map_cons]
    by_cases old : g a ∈ l.map g
    · rw [List.dedup_cons_of_mem (seen.2 old), List.dedup_cons_of_mem old, ih]
    · rw [List.dedup_cons_of_notMem (mt seen.1 old), List.dedup_cons_of_notMem old,
        List.length_cons, List.length_cons, ih]

/-- Where a variable is kept: its table, and its name in there. -/
def Variable.place (v : Variable) : Scope × String := (v.scope, v.name)

namespace Variables

theorem get?_insert (vs : Variables) (v : Variable) (s : Scope) (name : String) :
    (vs.insert v).get? s name = if v.place = (s, name) then some v else vs.get? s name := by
  rw [get?, get?, table_insert]
  by_cases same : s = v.scope
  · subst same
    simp [Variable.place, Dictionary.get?_insert]
  · have other : v.place ≠ (s, name) := fun here => same (congrArg Prod.fst here).symm
    rw [if_neg same, if_neg other]

/-- The last variable of a place is found there. -/
theorem get?_foldl_insert (found : List Variable) (s : Scope) (name : String) :
    (found.foldl insert empty).get? s name =
      (found.filter fun v => v.place = (s, name)).getLast? := by
  induction found using List.reverseRecOn with
  | nil => cases s <;> rfl
  | append_singleton found v ih =>
    rw [List.foldl_concat, get?_insert, List.filter_append, ih]
    by_cases here : v.place = (s, name)
    · simp [here]
    · simp [here]

theorem mem_keys_foldl_insert {found : List Variable} {s : Scope} {name : String} :
    name ∈ ((found.foldl insert empty).table s).keys ↔ (s, name) ∈ found.map Variable.place := by
  have last := get?_foldl_insert found s name
  rw [Dictionary.mem_keys_iff, ← get?, last, List.getLast?_isSome, List.mem_map]
  simp [List.filter_eq_nil_iff]

/-- All places that are taken, scope by scope. -/
def places (vs : Variables) : List (Scope × String) :=
  Scope.all.flatMap fun s => (vs.table s).keys.map (s, ·)

theorem length_places (vs : Variables) : vs.places.length = vs.size := by
  simp [places, Scope.all, size, Dictionary.size, Dictionary.keys, table, Nat.add_assoc]

theorem nodup_places (vs : Variables) : vs.places.Nodup := by
  refine List.nodup_flatMap.2 ⟨fun s _ => ?_, ?_⟩
  · exact (vs.table s).nodup_keys.map fun _ _ equal => congrArg Prod.snd equal
  · have distinct : Scope.all.Nodup := by decide
    refine distinct.imp fun other => List.disjoint_left.2 fun place here there => other ?_
    obtain ⟨_, _, rfl⟩ := List.mem_map.1 here
    obtain ⟨_, _, same⟩ := List.mem_map.1 there
    exact (congrArg Prod.fst same).symm

theorem mem_places {vs : Variables} {s : Scope} {name : String} :
    (s, name) ∈ vs.places ↔ name ∈ (vs.table s).keys := by
  cases s <;> simp [places, Scope.all]

/-- There are as many variables as places. -/
theorem size_foldl_insert (found : List Variable) :
    (found.foldl insert empty).size = (found.map Variable.place).dedup.length := by
  rw [← length_places]
  refine ((List.perm_ext_iff_of_nodup (nodup_places _) (List.nodup_dedup _)).2 ?_).length_eq
  intro place
  rw [List.mem_dedup, ← mem_keys_foldl_insert, ← mem_places]

end Variables

end RouteScript
