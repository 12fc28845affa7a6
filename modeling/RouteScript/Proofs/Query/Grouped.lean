import Mathlib.Data.List.Destutter
import Mathlib.Data.List.Flatten
import Mathlib.Data.List.Nodup
/-!
# Lists in which equal elements stand together

Dropping the elements that repeat the one just before leaves every element once exactly if equal
elements stand together. Lists that go on in several ways keep their elements together as far as
one can tell from them where they came from.
-/
namespace RouteScript.Query

/-- Equal elements follow one another without a gap. -/
def Grouped {α : Type u} : List α → Prop
  | [] => True
  | a :: rest => (a ∈ rest → rest.head? = some a) ∧ Grouped rest

section Grouped

variable {α : Type u} {l l' : List α}

theorem Grouped.of_nodup (h : l.Nodup) : Grouped l := by
  induction l with
  | nil => trivial
  | cons a l ih => exact ⟨fun again => absurd again (List.nodup_cons.1 h).1,
      ih (List.nodup_cons.1 h).2⟩

theorem Grouped.append (h : Grouped l) (h' : Grouped l') (disjoint : l.Disjoint l') :
    Grouped (l ++ l') := by
  induction l with
  | nil => exact h'
  | cons a l ih =>
    obtain ⟨apart, disjoint⟩ := List.disjoint_cons_left.1 disjoint
    refine ⟨fun again => ?_, ih h.2 disjoint⟩
    have inside := (List.mem_append.1 again).resolve_right apart
    change (l ++ l').head? = some a
    rw [List.head?_append, h.1 inside, Option.some_or]

theorem grouped_map {β : Type v} {f : α → β} (injective : ∀ a ∈ l, ∀ b ∈ l, f a = f b → a = b)
    (h : Grouped l) : Grouped (l.map f) := by
  induction l with
  | nil => trivial
  | cons a l ih =>
    refine ⟨fun again => ?_, ih (fun b hb c hc => injective b (by simp [hb]) c (by simp [hc])) h.2⟩
    obtain ⟨b, hb, same⟩ := List.mem_map.1 again
    obtain rfl := injective b (by simp [hb]) a (by simp) same
    rw [List.head?_map, h.1 hb, Option.map_some]

/-- Between two equal elements there is no other. -/
theorem Grouped.eq_of_sublist (h : Grouped l) {x y : α} (sub : [x, y, x].Sublist l) : x = y := by
  induction l with
  | nil => exact absurd sub.length_le (by simp)
  | cons a l ih =>
    cases sub with
    | cons _ sub => exact ih h.2 sub
    | cons_cons _ sub =>
      cases l with
      | nil => exact absurd sub.length_le (by simp)
      | cons b l =>
        obtain rfl : b = x := by simpa using h.1 (sub.subset (by simp))
        cases sub with
        | cons _ sub => exact ih h.2 (sub.cons_cons b)
        | cons_cons _ sub => rfl

theorem grouped_replicate_append {a : α} (n : Nat) (h : Grouped (a :: l)) :
    Grouped (List.replicate n a ++ l) := by
  induction n with
  | zero => exact h.2
  | succ n ih =>
    refine ⟨fun again => ?_, ih⟩
    cases n with
    | zero => exact h.1 again
    | succ n => rfl

variable [DecidableEq α]

theorem mem_destutter'_iff (a : α) (l : List α) {b : α} :
    b ∈ l.destutter' (· ≠ ·) a ↔ b ∈ a :: l := by
  induction l generalizing a with
  | nil => simp
  | cons c l ih =>
    rw [List.destutter'_cons]
    by_cases same : a = c
    · subst same
      simp [ih]
    · simp [same, ih]

theorem nodup_destutter'_iff (a : α) (l : List α) :
    (l.destutter' (· ≠ ·) a).Nodup ↔ Grouped (a :: l) := by
  induction l generalizing a with
  | nil => simp [Grouped]
  | cons b l ih =>
    rw [List.destutter'_cons]
    by_cases same : a = b
    · subst same
      rw [if_neg (not_not_intro rfl)]
      refine (ih a).trans ?_
      exact ⟨fun h => ⟨fun _ => rfl, h⟩, fun h => h.2⟩
    · rw [if_pos same, List.nodup_cons, mem_destutter'_iff]
      refine (and_congr_right' (ih b)).trans ?_
      have first : (b :: l).head? ≠ some a := by simp [Ne.symm same]
      exact ⟨fun h => ⟨fun again => absurd again h.1, h.2⟩,
        fun h => ⟨fun again => first (h.1 again), h.2⟩⟩

/-- Dropping elements that repeat the one before leaves every element once. -/
theorem nodup_destutter_iff : (l.destutter (· ≠ ·)).Nodup ↔ Grouped l := by
  cases l with
  | nil => simp [Grouped]
  | cons a l => exact nodup_destutter'_iff a l

end Grouped

/-- Every one of the first lists, continued by every one of the later. -/
def joined {α : Type u} (firsts laters : List (List α)) : List (List α) :=
  firsts.flatMap fun first => laters.map (first ++ ·)

section Joined

variable {α : Type u} {firsts firsts' laters laters' : List (List α)}

theorem mem_joined {l : List α} :
    l ∈ joined firsts laters ↔ ∃ first ∈ firsts, ∃ later ∈ laters, first ++ later = l := by
  simp [joined]

theorem joined_sublist (firsts_sub : firsts.Sublist firsts') (laters_sub : laters.Sublist laters') :
    (joined firsts laters).Sublist (joined firsts' laters') :=
  (firsts_sub.flatMap _).trans (.flatMap_right _ fun _ _ => laters_sub.map _)

/-- Lists that go on with nothing, as often as it may be, stand together as they did. -/
theorem grouped_joined_nil (h : Grouped firsts) (silent : ∀ l ∈ laters, l = []) :
    Grouped (joined firsts laters) := by
  obtain ⟨n, rfl⟩ : ∃ n, laters = List.replicate n [] :=
    ⟨_, List.eq_replicate_iff.2 ⟨rfl, silent⟩⟩
  have joined_cons (first : List α) (firsts : List (List α)) :
      joined (first :: firsts) (List.replicate n []) =
        List.replicate n first ++ joined firsts (List.replicate n []) := by
    simp [joined]
  have head?_joined (some_later : 0 < n) (firsts : List (List α)) :
      (joined firsts (List.replicate n [])).head? = firsts.head? := by
    cases firsts with
    | nil => rfl
    | cons first firsts => rw [joined_cons, ← Nat.succ_pred_eq_of_pos some_later]; rfl
  rcases Nat.eq_zero_or_pos n with rfl | some_later
  · have nothing : joined firsts [] = [] := List.flatMap_eq_nil_iff.2 fun _ _ => rfl
    exact nothing ▸ trivial
  · induction firsts with
    | nil => trivial
    | cons first firsts ih =>
      rw [joined_cons]
      refine grouped_replicate_append n ⟨fun again => ?_, ih h.2⟩
      obtain ⟨first', mem, later, nothing, same⟩ := mem_joined.1 again
      rw [silent later nothing, List.append_nil] at same
      rw [head?_joined some_later, h.1 (same ▸ mem)]

variable {n : Nat} (length : ∀ l ∈ firsts, l.length = n)
include length

theorem nodup_joined (h : firsts.Nodup) (h' : laters.Nodup) : (joined firsts laters).Nodup := by
  refine List.nodup_flatMap.2 ⟨fun first _ => h'.map fun _ _ => List.append_cancel_left, ?_⟩
  refine h.imp_of_mem fun {a b} ha hb other l la lb => ?_
  obtain ⟨_, _, rfl⟩ := List.mem_map.1 la
  obtain ⟨_, _, same⟩ := List.mem_map.1 lb
  have same_length : b.length = a.length := by rw [length a ha, length b hb]
  exact other (List.append_inj same same_length).1.symm

theorem grouped_joined (h : firsts.Nodup) (h' : Grouped laters) :
    Grouped (joined firsts laters) := by
  induction firsts with
  | nil => trivial
  | cons first firsts ih =>
    obtain ⟨new, h⟩ := List.nodup_cons.1 h
    refine .append (grouped_map (fun _ _ _ _ => List.append_cancel_left) h')
      (ih (fun l hl => length l (by simp [hl])) h) fun l here behind => ?_
    obtain ⟨_, _, rfl⟩ := List.mem_map.1 here
    obtain ⟨first', mem, _, _, same⟩ := mem_joined.1 behind
    have same_length : first'.length = first.length := by
      rw [length first (by simp), length first' (by simp [mem])]
    exact new ((List.append_inj same same_length).1 ▸ mem)

end Joined

end RouteScript.Query
