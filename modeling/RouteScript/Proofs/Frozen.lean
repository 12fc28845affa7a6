import RouteScript.Script.Items
import RouteScript.Tree.Cursor
import RouteScript.Proofs.Mark
import RouteScript.Proofs.Nesting.Tight
import Mathlib.Data.List.TakeWhile
/-!
# Frozen drafts

Freezing a draft adds numbers and points and nothing else: thawing gives the draft back. So a
cursor tells of the draft at its node.

Points stand in the order of their offsets, wherever the rows start, as long as one starts at zero.
Every node of a frozen tree carries the points of its ends.
-/
namespace RouteScript

theorem Rose.map_node {α : Type u} {β : Type v} (f : α → β) (a : α) (cs : List (Rose α)) :
    map f (.node a cs) = .node (f a) (cs.map (map f)) := by
  rw [map, fold_node]
  rfl

theorem Rose.leaves_map {α : Type u} {β : Type v} (f : α → β) (t : Rose α) :
    (t.map f).leaves = t.leaves.map f := by
  induction t using Rose.induction with
  | node a cs ih =>
    rw [map_node, leaves_node, leaves_node, List.isEmpty_map]
    split
    · rfl
    · rw [List.flatMap_map, List.map_flatMap]
      exact congrArg List.flatten (List.map_congr_left ih)

theorem Rose.labels_node {α : Type u} (a : α) (cs : List (Rose α)) :
    labels (.node a cs) = a :: cs.flatMap labels := by
  rw [labels, fold_node]
  rfl

theorem Rose.labels_map {α : Type u} {β : Type v} (f : α → β) (t : Rose α) :
    (t.map f).labels = t.labels.map f := by
  induction t using Rose.induction with
  | node a cs ih =>
    rw [map_node, labels_node, labels_node, List.map_cons, List.flatMap_map, List.map_flatMap]
    exact congrArg (f a :: List.flatten ·) (List.map_congr_left ih)

namespace Node

theorem map_thaw_freezeAllFrom {rows : List Nat} {ds : List Draft}
    (h : ∀ d ∈ ds, ∀ id, (freezeFrom rows id d).1.thaw = d) (id : Nat) :
    (freezeAllFrom rows id ds).1.map thaw = ds := by
  induction ds generalizing id with
  | nil => simp [freezeAllFrom]
  | cons d ds ih =>
    simp only [freezeAllFrom, List.map_cons]
    rw [h d (by simp), ih fun c hc => h c (by simp [hc])]

theorem thaw_freezeFrom (rows : List Nat) (d : Draft) (id : Nat) :
    (freezeFrom rows id d).1.thaw = d := by
  induction d using Rose.induction generalizing id with
  | node t cs ih =>
    simp only [freezeFrom]
    rw [thaw, Rose.map_node]
    exact congrArg _ (map_thaw_freezeAllFrom ih (id + 1))

theorem label_thaw (n : Node) : n.thaw.label = n.tag := by
  cases n
  rw [thaw, Rose.map_node]
  rfl

theorem children_thaw (n : Node) : n.thaw.children = n.children.map thaw := by
  cases n
  rw [thaw, Rose.map_node]
  rfl

end Node

theorem Cursor.map_node_children (c : Cursor) : c.children.map node = c.node.children := by
  rw [children, List.map_map]
  exact List.zipIdx_map_fst 0 c.node.children

theorem Tree.thaw_ofDraft (language : String) (source : List Char) (d : Draft) :
    (ofDraft language source d).root.thaw = d :=
  Node.thaw_freezeFrom _ d 0

theorem Tree.thaw_ofScript (text : List Char) : (ofScript text).root.thaw = Script.draft text :=
  thaw_ofDraft _ _ _

theorem Tree.labels_ofScript (text : List Char) :
    (ofScript text).root.labels.map Entry.tag = (Script.draft text).labels := by
  rw [← Rose.labels_map, ← Node.thaw, thaw_ofScript]

namespace Cursor

/-- The draft of the node. -/
def draft (c : Cursor) : Draft := c.node.thaw

variable (c : Cursor)

theorem label_draft : c.draft.label = c.node.tag := c.node.label_thaw

theorem map_draft_children : c.children.map draft = c.draft.children := by
  rw [draft, Node.children_thaw, ← map_node_children, List.map_map]
  rfl

/-- What is said about the labels of children holds in the draft as well. -/
theorem map_draft_filter (test : Tag → Bool) :
    (c.children.filter fun d => test d.node.tag).map draft =
      c.draft.children.filter fun d => test d.label := by
  rw [← map_draft_children, List.filter_map]
  simp only [Function.comp_def, label_draft]

theorem map_draft_significantChildren : c.significantChildren.map draft =
    c.draft.children.filter fun d => d.label.named && !d.label.extra :=
  c.map_draft_filter fun t => t.named && !t.extra

theorem map_draft_child? (field : String) : (c.child? field).map draft =
    c.draft.children.find? fun d => d.label.field == some field := by
  rw [← map_draft_children, List.find?_map]
  simp only [Function.comp_def, label_draft]
  rfl

theorem kind_eq : c.kind = c.draft.label.kind := by rw [label_draft]; rfl

theorem start_eq : c.node.start = c.draft.start := by rw [Draft.start, label_draft]; rfl

theorem stop_eq : c.node.stop = c.draft.stop := by rw [Draft.stop, label_draft]; rfl

theorem wordIn_eq {t : Tree} :
    c.wordIn t = String.ofList (Text.slice t.source c.draft.start c.draft.stop) := by
  rw [wordIn, textIn, Tree.textOf, start_eq, stop_eq]

end Cursor

namespace Point

variable {rows : List Nat} {a b : Nat} {p q : Point}

theorem le_iff : p.le q ↔ p.row < q.row ∨ p.row = q.row ∧ p.column ≤ q.column := by
  simp [le]

theorem lt_iff : p.lt q ↔ p.row < q.row ∨ p.row = q.row ∧ p.column < q.column := by
  simp [lt]

theorem lt_iff_not_le : p.lt q ↔ ¬ q.le p := by
  rw [lt_iff, le_iff]
  omega

theorem le_of_lt (h : p.lt q) : p.le q := by
  rw [lt_iff] at h
  rw [le_iff]
  omega

/-- A smaller offset has fewer rows before it. -/
theorem takeWhile_prefix_of_le (rows : List Nat) (h : a ≤ b) :
    rows.takeWhile (· ≤ a) <+: rows.takeWhile (· ≤ b) := by
  have both (row : Nat) : (row ≤ a ∧ row ≤ b) ↔ row ≤ a := by omega
  have again := List.takeWhile_takeWhile (· ≤ a) (· ≤ b) rows
  simp only [decide_eq_true_eq, both] at again
  rw [← again]
  exact List.takeWhile_prefix _

/-- The last row before an offset starts at it or before it. -/
theorem getLast?_takeWhile_le (rows : List Nat) (a : Nat) :
    (rows.takeWhile (· ≤ a)).getLast?.getD 0 ≤ a := by
  cases last : (rows.takeWhile (· ≤ a)).getLast? with
  | none => exact Nat.zero_le a
  | some row =>
    have := List.mem_takeWhile_imp (List.mem_of_getLast? last)
    simpa using this

theorem ofOffset_lt (h : a < b) : (ofOffset (0 :: rows) a).lt (ofOffset (0 :: rows) b) := by
  have before := takeWhile_prefix_of_le (0 :: rows) (Nat.le_of_lt h)
  have some_row : 0 < ((0 :: rows).takeWhile (· ≤ a)).length := by simp
  have column := getLast?_takeWhile_le (0 :: rows) a
  rw [lt_iff]
  by_cases same : (0 :: rows).takeWhile (· ≤ a) = (0 :: rows).takeWhile (· ≤ b)
  · right
    simp only [ofOffset, ← same, true_and]
    omega
  · left
    have fewer : ((0 :: rows).takeWhile (· ≤ a)).length ≠ ((0 :: rows).takeWhile (· ≤ b)).length :=
      fun eq => same (before.eq_of_length eq)
    have := before.length_le
    simp only [ofOffset]
    omega

theorem ofOffset_le_iff : (ofOffset (0 :: rows) a).le (ofOffset (0 :: rows) b) ↔ a ≤ b := by
  constructor
  · intro h
    by_contra later
    exact lt_iff_not_le.1 (ofOffset_lt (Nat.lt_of_not_le later)) h
  · intro h
    rcases Nat.lt_or_eq_of_le h with before | rfl
    · exact le_of_lt (ofOffset_lt before)
    · simp [le_iff]

theorem ofOffset_lt_iff : (ofOffset (0 :: rows) a).lt (ofOffset (0 :: rows) b) ↔ a < b := by
  rw [lt_iff_not_le, ofOffset_le_iff, Nat.not_le]

end Point

theorem Rose.nodes_map {α : Type u} {β : Type v} (f : α → β) (t : Rose α) :
    (t.map f).nodes = t.nodes.map (map f) := by
  induction t using Rose.induction with
  | node a cs ih =>
    rw [map_node, nodes_node, nodes_node, List.map_cons, List.flatMap_map, List.map_flatMap,
      map_node]
    exact congrArg (_ :: List.flatten ·) (List.map_congr_left ih)

theorem Rose.labels_nodes {α : Type u} (t : Rose α) : t.labels = t.nodes.map label := by
  induction t using Rose.induction with
  | node a cs ih =>
    rw [labels_node, nodes_node, List.map_cons, List.map_flatMap]
    exact congrArg (a :: List.flatten ·) (List.map_congr_left ih)

namespace Node

/-- The ends of a node have their points. -/
structure Placed (rows : List Nat) (n : Node) : Prop where
  start : n.startPoint = .ofOffset rows n.start
  stop : n.stopPoint = .ofOffset rows n.stop

theorem placed_freezeAllFrom {rows : List Nat} {ds : List Draft}
    (h : ∀ d ∈ ds, ∀ id, ∀ n ∈ (freezeFrom rows id d).1.nodes, Placed rows n) (id : Nat) :
    ∀ c ∈ (freezeAllFrom rows id ds).1, ∀ n ∈ c.nodes, Placed rows n := by
  induction ds generalizing id with
  | nil => simp [freezeAllFrom]
  | cons d ds ih =>
    simp only [freezeAllFrom, List.forall_mem_cons] at h ⊢
    exact ⟨h.1 id, ih h.2 _⟩

theorem placed_freezeFrom (rows : List Nat) (d : Draft) (id : Nat) :
    ∀ n ∈ (freezeFrom rows id d).1.nodes, Placed rows n := by
  induction d using Rose.induction generalizing id with
  | node t cs ih =>
    simp only [freezeFrom]
    exact Rose.forall_nodes_node.2 ⟨⟨rfl, rfl⟩, placed_freezeAllFrom ih (id + 1)⟩

end Node

namespace Tree

/-- The point of a byte offset. -/
def pointAt (t : Tree) (offset : Nat) : Point := .ofOffset (Text.rowStarts t.source) offset

theorem pointAt_le_iff (t : Tree) {a b : Nat} : (t.pointAt a).le (t.pointAt b) ↔ a ≤ b :=
  Point.ofOffset_le_iff

theorem pointAt_lt_iff (t : Tree) {a b : Nat} : (t.pointAt a).lt (t.pointAt b) ↔ a < b :=
  Point.ofOffset_lt_iff

/-- The nodes of a tree carry the points of their ends. -/
theorem placed_ofScript (text : List Char) : ∀ n ∈ (ofScript text).root.nodes,
    Node.startPoint n = (ofScript text).pointAt (Node.start n) ∧
      Node.stopPoint n = (ofScript text).pointAt (Node.stop n) := by
  intro n hn
  have placed := Node.placed_freezeFrom (Text.rowStarts text) (Script.draft text) 0 n hn
  exact ⟨placed.start, placed.stop⟩

end Tree

end RouteScript
