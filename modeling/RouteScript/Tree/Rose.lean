/-!
# Labelled trees

A tree with a label and any number of children at every node. `Rose.fold` is the one recursion;
`fold_node` is its equation.
-/
namespace RouteScript

inductive Rose (α : Type u) where
  | node (label : α) (children : List (Rose α))
  deriving Repr, Inhabited

namespace Rose

variable {α : Type u} {β : Type v}

def label : Rose α → α
  | node a _ => a

def children : Rose α → List (Rose α)
  | node _ cs => cs

/-- What holds of every node whose children all have it holds of every tree. -/
@[elab_as_elim]
theorem induction {motive : Rose α → Prop}
    (node : ∀ a cs, (∀ c ∈ cs, motive c) → motive (.node a cs)) : ∀ t, motive t
  | .node a cs => node a cs fun c _ => induction node c

mutual

/-- Combines the label of every node with the results of its children. -/
def fold (f : α → List β → β) : Rose α → β
  | node a cs => f a (foldAll f cs)

def foldAll (f : α → List β → β) : List (Rose α) → List β
  | [] => []
  | c :: cs => fold f c :: foldAll f cs

end

theorem foldAll_eq_map (f : α → List β → β) (cs : List (Rose α)) :
    foldAll f cs = cs.map (fold f) := by
  induction cs with
  | nil => rfl
  | cons c cs ih => simp [foldAll, ih]

@[simp] theorem fold_node (f : α → List β → β) (a : α) (cs : List (Rose α)) :
    fold f (node a cs) = f a (cs.map (fold f)) := by
  rw [fold, foldAll_eq_map]

/-- Number of nodes. -/
def size (t : Rose α) : Nat := t.fold fun _ sizes => 1 + sizes.foldr (· + ·) 0

/-- Labels of all nodes, every node before its children. -/
def labels (t : Rose α) : List α := t.fold fun a below => a :: below.flatten

def map (f : α → β) (t : Rose α) : Rose β := t.fold fun a cs => node (f a) cs

section Decidable

variable [DecidableEq α]

mutual

/-- Two trees are equal when their labels are equal and their children one by one. -/
def decEq : (s t : Rose α) → Decidable (s = t)
  | node a cs, node b ds =>
    match inferInstanceAs (Decidable (a = b)), decEqAll cs ds with
    | isTrue same, isTrue below => isTrue (by rw [same, below])
    | isFalse other, _ => isFalse fun eq => other (node.inj eq).1
    | _, isFalse other => isFalse fun eq => other (node.inj eq).2

def decEqAll : (cs ds : List (Rose α)) → Decidable (cs = ds)
  | [], [] => isTrue rfl
  | [], _ :: _ => isFalse (by simp)
  | _ :: _, [] => isFalse (by simp)
  | c :: cs, d :: ds =>
    match decEq c d, decEqAll cs ds with
    | isTrue first, isTrue later => isTrue (by rw [first, later])
    | isFalse other, _ => isFalse fun eq => other (List.cons.inj eq).1
    | _, isFalse other => isFalse fun eq => other (List.cons.inj eq).2

end

instance : DecidableEq (Rose α) := decEq

end Decidable

end Rose

end RouteScript
