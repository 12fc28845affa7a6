import Mathlib.Data.List.Basic
/-!
# Operands joined by binary operators

Operators of a higher rank bind tighter, and those of the same rank associate to the left. So each
sequence of operands and operators has exactly one tree: the one that takes the operators from left
to right and puts each above those that bind as tightly as it does.
-/
namespace RouteScript

inductive OperatorTree (α β : Type) where
  | operand (a : α)
  | join (left : OperatorTree α β) (operator : β) (right : OperatorTree α β)

namespace OperatorTree

variable {α β : Type}

/-- Operands and operators from left to right. -/
def flat : OperatorTree α β → List (α ⊕ β)
  | operand a => [.inl a]
  | join left operator right => left.flat ++ .inr operator :: right.flat

/-- The operator that joins all others. -/
def top? : OperatorTree α β → Option β
  | operand _ => none
  | join _ operator _ => some operator

/-- An operand and more behind it, each with the operator in front of it. -/
def sequence (first : α) (more : List (β × α)) : List (α ⊕ β) :=
  .inl first :: more.flatMap fun next => [.inr next.1, .inl next.2]

theorem sequence_append (first : α) (more more' : List (β × α)) :
    sequence first (more ++ more')
      = sequence first more ++ more'.flatMap fun next => [.inr next.1, .inl next.2] := by
  rw [sequence, sequence, List.flatMap_append, List.cons_append]

theorem flat_eq_sequence (t : OperatorTree α β) : ∃ first more, t.flat = sequence first more := by
  induction t with
  | operand a => exact ⟨a, [], rfl⟩
  | join left operator right ihl ihr =>
    obtain ⟨first, more, hl⟩ := ihl
    obtain ⟨first', more', hr⟩ := ihr
    refine ⟨first, more ++ (operator, first') :: more', ?_⟩
    rw [flat, hl, hr, sequence_append]
    rfl

section Ranks

variable (rank : β → Nat)

/-- No operator on the left of one binds looser than it, and those on the right bind tighter. -/
def Ordered : OperatorTree α β → Prop
  | operand _ => True
  | join left operator right =>
    (∀ o ∈ left.top?, rank operator ≤ rank o) ∧ (∀ o ∈ right.top?, rank operator < rank o) ∧
      left.Ordered ∧ right.Ordered

/-- Goes on with an operator and an operand. -/
def extend : OperatorTree α β → β → α → OperatorTree α β
  | operand a, operator, b => join (operand a) operator (operand b)
  | join left above right, operator, b =>
    if rank above < rank operator then join left above (right.extend operator b)
    else join (join left above right) operator (operand b)

/-- The tree of a sequence, taken from left to right. -/
def ofSequence (first : α) (more : List (β × α)) : OperatorTree α β :=
  more.foldl (fun t next => t.extend rank next.1 next.2) (operand first)

variable {rank}

/-- The operator at the top of an ordered tree is a loosest one. -/
theorem Ordered.le_of_mem {t : OperatorTree α β} (h : t.Ordered rank) {above : β}
    (top : t.top? = some above) : ∀ o, .inr o ∈ t.flat → rank above ≤ rank o := by
  induction t generalizing above with
  | operand a => contradiction
  | join left operator right ihl ihr =>
    obtain rfl : operator = above := Option.some.inj top
    obtain ⟨onLeft, onRight, hl, hr⟩ := h
    intro o ho
    rcases List.mem_append.1 ho with before | ho
    · cases left with
      | operand a => simp [flat] at before
      | join l p r => exact Nat.le_trans (onLeft p rfl) (ihl hl rfl o before)
    · rcases List.mem_cons.1 ho with same | behind
      · exact Nat.le_of_eq (congrArg rank (Sum.inr.inj same).symm)
      · cases right with
        | operand a => simp [flat] at behind
        | join l p r => exact Nat.le_trans (Nat.le_of_lt (onRight p rfl)) (ihr hr rfl o behind)

/-- All operators left of the one at the top bind at least as tightly, those right of it tighter. -/
theorem Ordered.around {left right : OperatorTree α β} {operator : β}
    (h : (join left operator right).Ordered rank) :
    (∀ o, .inr o ∈ left.flat → rank operator ≤ rank o) ∧
      ∀ o, .inr o ∈ right.flat → rank operator < rank o := by
  obtain ⟨onLeft, onRight, hl, hr⟩ := h
  refine ⟨fun o ho => ?_, fun o ho => ?_⟩
  · cases left with
    | operand a => simp [flat] at ho
    | join l p r => exact Nat.le_trans (onLeft p rfl) (hl.le_of_mem rfl o ho)
  · cases right with
    | operand a => simp [flat] at ho
    | join l p r => exact Nat.lt_of_lt_of_le (onRight p rfl) (hr.le_of_mem rfl o ho)

theorem length_flat_pos (t : OperatorTree α β) : 0 < t.flat.length := by
  cases t with
  | operand a => exact Nat.one_pos
  | join left operator right =>
    rw [flat, List.length_append, List.length_cons]
    omega

/-- Two lists are cut at the same place if what stands behind the cut of one is tighter than it, and
what stands before the cut of the other is not looser. -/
theorem cut_eq {before before' behind behind' : List (α ⊕ β)} {o o' : β}
    (eq : before ++ .inr o :: behind = before' ++ .inr o' :: behind')
    (tighter : ∀ p, .inr p ∈ behind → rank o < rank p)
    (le : ∀ p, .inr p ∈ before' → rank o' ≤ rank p)
    (shorter : before.length ≤ before'.length) : before = before' ∧ o = o' ∧ behind = behind' := by
  obtain ⟨between, rfl⟩ : before <+: before' :=
    List.prefix_of_prefix_length_le ⟨_, eq⟩ (List.prefix_append _ _) shorter
  rw [List.append_assoc, List.append_cancel_left_eq] at eq
  cases between with
  | nil => simpa using eq
  | cons p between =>
    obtain ⟨rfl, rfl⟩ := List.cons.inj eq
    have later := tighter o' (by simp)
    have earlier := le o (by simp)
    omega

/-- An ordered tree is determined by its operands and operators from left to right. -/
theorem Ordered.eq_of_flat {t u : OperatorTree α β} (ht : t.Ordered rank) (hu : u.Ordered rank)
    (eq : t.flat = u.flat) : t = u := by
  induction t generalizing u with
  | operand a =>
    cases u with
    | operand b => simpa [flat] using eq
    | join left operator right =>
      have length := congrArg List.length eq
      have some_left := left.length_flat_pos
      simp only [flat, List.length_append, List.length_cons, List.length_nil] at length
      omega
  | join left operator right ihl ihr =>
    cases u with
    | operand b =>
      have length := congrArg List.length eq
      have some_left := left.length_flat_pos
      simp only [flat, List.length_append, List.length_cons, List.length_nil] at length
      omega
    | join left' operator' right' =>
      obtain ⟨before, behind⟩ := ht.around
      obtain ⟨before', behind'⟩ := hu.around
      obtain ⟨hl, rfl, hr⟩ : left.flat = left'.flat ∧ operator = operator' ∧
          right.flat = right'.flat := by
        rcases Nat.le_total left.flat.length left'.flat.length with shorter | longer
        · exact cut_eq eq behind before' shorter
        · obtain ⟨hl, ho, hr⟩ := cut_eq eq.symm behind' before longer
          exact ⟨hl.symm, ho.symm, hr.symm⟩
      rw [ihl ht.2.2.1 hu.2.2.1 hl, ihr ht.2.2.2 hu.2.2.2 hr]

theorem flat_extend (t : OperatorTree α β) (operator : β) (b : α) :
    (t.extend rank operator b).flat = t.flat ++ [.inr operator, .inl b] := by
  induction t with
  | operand a => rfl
  | join left above right _ ih =>
    rw [extend]
    split
    · rw [flat, ih, flat, List.append_assoc, List.cons_append]
    · rfl

theorem top?_extend (t : OperatorTree α β) (operator : β) (b : α) :
    (t.extend rank operator b).top? = some operator ∨
      ∃ above, t.top? = some above ∧ rank above < rank operator ∧
        (t.extend rank operator b).top? = some above := by
  cases t with
  | operand a => exact .inl rfl
  | join left above right =>
    rw [extend]
    split
    · exact .inr ⟨above, rfl, by assumption, rfl⟩
    · exact .inl rfl

theorem Ordered.extend {t : OperatorTree α β} (h : t.Ordered rank) (operator : β) (b : α) :
    (t.extend rank operator b).Ordered rank := by
  induction t with
  | operand a => simp [OperatorTree.extend, Ordered, top?]
  | join left above right _ ih =>
    obtain ⟨onLeft, onRight, hl, hr⟩ := h
    rw [OperatorTree.extend]
    split
    · rename_i tighter
      refine ⟨onLeft, fun o ho => ?_, hl, ih hr⟩
      rcases right.top?_extend operator b with top | ⟨p, top, _, same⟩
      · rw [top] at ho
        exact Option.some.inj ho ▸ tighter
      · rw [same] at ho
        exact Option.some.inj ho ▸ onRight p top
    · rename_i looser
      refine ⟨fun o ho => ?_, by simp [top?], ⟨onLeft, onRight, hl, hr⟩, trivial⟩
      exact Option.some.inj ho ▸ Nat.le_of_not_lt looser

theorem extend_all {t : OperatorTree α β} (h : t.Ordered rank) (more : List (β × α)) :
    (more.foldl (fun t next => t.extend rank next.1 next.2) t).Ordered rank ∧
      (more.foldl (fun t next => t.extend rank next.1 next.2) t).flat
        = t.flat ++ more.flatMap fun next => [.inr next.1, .inl next.2] := by
  induction more generalizing t with
  | nil => exact ⟨h, (List.append_nil _).symm⟩
  | cons next more ih =>
    obtain ⟨ordered, flat⟩ := ih (h.extend next.1 next.2)
    refine ⟨ordered, flat.trans ?_⟩
    rw [flat_extend, List.append_assoc]
    rfl

theorem ordered_ofSequence (first : α) (more : List (β × α)) :
    (ofSequence rank first more).Ordered rank := (extend_all (t := operand first) trivial more).1

theorem flat_ofSequence (first : α) (more : List (β × α)) :
    (ofSequence rank first more).flat = sequence first more :=
  (extend_all (t := operand first) trivial more).2

/-- An ordered tree is the one of its sequence. -/
theorem Ordered.eq_ofSequence {t : OperatorTree α β} (h : t.Ordered rank) {first : α}
    {more : List (β × α)} (flat : t.flat = sequence first more) : t = ofSequence rank first more :=
  h.eq_of_flat (ordered_ofSequence first more) (flat.trans (flat_ofSequence first more).symm)

end Ranks

end OperatorTree

end RouteScript
