import RouteScript.Proofs.Frozen
import RouteScript.Proofs.Lossless.Tree
import RouteScript.Proofs.Nesting.Tree
/-!
# Spans of the structure

In a tight draft no node of which ends in a comment, a node reaches from the first leaf of the
structure below it to the last. The leaves of a script stand in order, so nodes that share none of
them do not overlap.
-/
namespace RouteScript

theorem Rose.mem_nodes_of_child {α : Type u} {t n c : Rose α} (hn : n ∈ t.nodes)
    (hc : c ∈ n.children) : c ∈ t.nodes := by
  induction t using Rose.induction with
  | node a cs ih =>
    rw [nodes_node, List.mem_cons] at hn ⊢
    right
    rcases hn with rfl | below
    · exact List.mem_flatMap.2 ⟨c, hc, c.mem_nodes_self⟩
    · obtain ⟨d, hd, hn⟩ := List.mem_flatMap.1 below
      exact List.mem_flatMap.2 ⟨d, hd, ih d hd hn⟩

namespace Draft

/-- The leaves of the structure, in preorder. -/
def solidLeaves (d : Draft) : List Tag := d.leaves.filter fun t => !t.extra

/-- A tight draft no node of which ends in a comment. -/
structure Ended (d : Draft) : Prop where
  tight : d.Tight
  last : ∀ n ∈ d.nodes, ∀ c, n.children.getLast? = some c → c.label.extra = false

/-- Leaves that are not empty and stand in order. -/
structure Spread (leaves : List Tag) : Prop where
  long : ∀ l ∈ leaves, l.start < l.stop
  ordered : leaves.Pairwise fun a b => a.stop ≤ b.start

theorem solidLeaves_node (t : Tag) {children : List Draft} (nonempty : children ≠ []) :
    solidLeaves (.node t children) = children.flatMap solidLeaves := by
  have some_child : children.isEmpty = false := by simpa using nonempty
  rw [solidLeaves, Rose.leaves_node, some_child, if_neg Bool.false_ne_true, List.filter_flatMap]
  rfl

theorem ended_node {t : Tag} {children : List Draft} : Ended (.node t children) ↔
    Framed (.node t children) ∧
      (∀ c, children.getLast? = some c → c.label.extra = false) ∧ ∀ c ∈ children, c.Ended := by
  constructor
  · rintro ⟨tight, last⟩
    obtain ⟨framed, below⟩ := tight_node.1 tight
    obtain ⟨here, later⟩ := Rose.forall_nodes_node.1 last
    exact ⟨framed, here, fun c hc => ⟨below c hc, later c hc⟩⟩
  · rintro ⟨framed, here, below⟩
    exact ⟨tight_node.2 ⟨framed, fun c hc => (below c hc).tight⟩,
      Rose.forall_nodes_node.2 ⟨here, fun c hc => (below c hc).last⟩⟩

namespace Spread

variable {leaves : List Tag} {first last l : Tag}

theorem sublist {some_leaves : List Tag} (h : Spread leaves) (sub : some_leaves.Sublist leaves) :
    Spread some_leaves :=
  ⟨fun l hl => h.long l (sub.subset hl), h.ordered.sublist sub⟩

theorem head_le (h : Spread leaves) (head : leaves.head? = some first) (hl : l ∈ leaves) :
    first.start ≤ l.start := by
  obtain ⟨more, rfl⟩ := List.head?_eq_some_iff.1 head
  rcases List.mem_cons.1 hl with rfl | later
  · exact Nat.le.refl
  · have long := h.long first (by simp)
    have before := (List.pairwise_cons.1 h.ordered).1 l later
    omega

theorem le_last (h : Spread leaves) (tail : leaves.getLast? = some last) (hl : l ∈ leaves) :
    l.stop ≤ last.stop := by
  obtain ⟨more, rfl⟩ := List.getLast?_eq_some_iff.1 tail
  rcases List.mem_append.1 hl with earlier | same
  · have long := h.long last (by simp)
    have before := (List.pairwise_append.1 h.ordered).2.2 l earlier last (by simp)
    omega
  · rw [List.mem_singleton.1 same]

end Spread

/-- A draft reaches from the first leaf of the structure below it to the last. -/
structure Hull (d : Draft) : Prop where
  first : ∃ l, d.solidLeaves.head? = some l ∧ l.start = d.start
  last : ∃ l, d.solidLeaves.getLast? = some l ∧ l.stop = d.stop

/-- A tight draft starts where the first leaf of the structure below it does. -/
theorem Tight.first {d : Draft} (h : d.Tight) (notExtra : d.label.extra = false) :
    ∃ l, d.solidLeaves.head? = some l ∧ l.start = d.start := by
  induction d using Rose.induction with
  | node t children ih =>
    obtain ⟨framed, below⟩ := tight_node.1 h
    by_cases childless : children = []
    · subst childless
      exact ⟨t, by simp [solidLeaves, Rose.leaves_node, show t.extra = false from notExtra], rfl⟩
    obtain ⟨c, rest, rfl⟩ := List.exists_cons_of_ne_nil childless
    obtain ⟨notExtra, here⟩ := framed.first c rfl
    obtain ⟨l, some_leaf, same⟩ := ih c (by simp) (below c (by simp)) notExtra
    refine ⟨l, ?_, same.trans here⟩
    rw [solidLeaves_node t childless, List.flatMap_cons, List.head?_append, some_leaf]
    rfl

/-- Tight nodes the leaves of which stand in order start in order. -/
theorem Tight.starts {ds : List Draft} (tight : ∀ d ∈ ds, d.Tight)
    (spread : Spread (ds.flatMap solidLeaves)) :
    (ds.filter fun d => !d.label.extra).Pairwise fun a b => a.start < b.start := by
  have apart := (List.pairwise_flatMap.1 spread.ordered).2
  rw [List.pairwise_filter]
  refine apart.imp_of_mem fun {a b} ha hb before notExtra notExtra' => ?_
  obtain ⟨l, head, start⟩ := (tight a ha).first (by simpa using notExtra)
  obtain ⟨m, head', start'⟩ := (tight b hb).first (by simpa using notExtra')
  have hl := List.mem_of_head? head
  have long := spread.long l (List.mem_flatMap.2 ⟨a, ha, hl⟩)
  rw [← start, ← start']
  exact Nat.lt_of_lt_of_le long (before l hl m (List.mem_of_head? head'))

theorem Ended.hull {d : Draft} (h : d.Ended) (notExtra : d.label.extra = false) : d.Hull := by
  refine ⟨h.tight.first notExtra, ?_⟩
  induction d using Rose.induction with
  | node t children ih =>
    obtain ⟨framed, ends, below⟩ := ended_node.1 h
    by_cases childless : children = []
    · subst childless
      exact ⟨t, by simp [solidLeaves, Rose.leaves_node, show t.extra = false from notExtra], rfl⟩
    have tail := List.getLast?_eq_some_getLast childless
    have leaves := solidLeaves_node t childless
    generalize children.getLast childless = c at tail
    obtain ⟨front, rfl⟩ := List.getLast?_eq_some_iff.1 tail
    obtain ⟨l, some_leaf, same⟩ := ih c (by simp) (below c (by simp)) (ends c tail)
    refine ⟨l, ?_, same.trans (framed.last c tail).1⟩
    rw [leaves, List.flatMap_append, List.flatMap_singleton, List.getLast?_append, some_leaf]
    rfl

/-- A node is not empty if the leaves of the structure below it are not. -/
theorem Hull.long {d : Draft} (h : d.Hull) (spread : Spread d.solidLeaves) : d.start < d.stop := by
  obtain ⟨⟨first, head, start⟩, last, tail, stop⟩ := h
  have long := spread.long first (List.mem_of_head? head)
  have reach := spread.le_last tail (List.mem_of_head? head)
  omega

/-- Nodes the leaves of which stand in order stand in order. -/
theorem Hull.ordered {ds : List Draft} (hulls : ∀ d ∈ ds, d.label.extra = false → d.Hull)
    (spread : Spread (ds.flatMap solidLeaves)) :
    (ds.filter fun d => !d.label.extra).Pairwise fun a b => a.stop ≤ b.start := by
  have apart := (List.pairwise_flatMap.1 spread.ordered).2
  rw [List.pairwise_filter]
  refine apart.imp_of_mem fun {a b} ha hb before notExtra notExtra' => ?_
  obtain ⟨last, tail, stop⟩ := (hulls a ha (by simpa using notExtra)).last
  obtain ⟨first, head, start⟩ := (hulls b hb (by simpa using notExtra')).first
  rw [← stop, ← start]
  exact before last (List.mem_of_getLast? tail) first (List.mem_of_head? head)

/-- A node is around all nodes of which it has the leaves. -/
theorem Hull.inside {c d : Draft} (h : d.Hull) (spread : Spread d.solidLeaves) (inner : c.Hull)
    (sub : c.solidLeaves.Sublist d.solidLeaves) : d.start ≤ c.start ∧ c.stop ≤ d.stop := by
  obtain ⟨⟨first, head, start⟩, last, tail, stop⟩ := h
  obtain ⟨⟨first', head', start'⟩, last', tail', stop'⟩ := inner
  have low := spread.head_le head (sub.subset (List.mem_of_head? head'))
  have high := spread.le_last tail (sub.subset (List.mem_of_getLast? tail'))
  omega

/-- The structure among the children of a node is not empty and stands in order inside the node. -/
structure Spaced (d : Draft) : Prop where
  long : ∀ c ∈ d.children, c.label.extra = false → start c < stop c
  inside : ∀ c ∈ d.children, c.label.extra = false → d.start ≤ start c ∧ stop c ≤ d.stop
  ordered : (d.children.filter fun c => !c.label.extra).Pairwise fun a b => stop a ≤ start b

theorem Ended.spaced {d : Draft} (h : d.Ended) (spread : Spread d.solidLeaves) :
    ∀ n ∈ d.nodes, n.label.extra = false → start n < stop n ∧ Spaced n := by
  induction d using Rose.induction with
  | node t children ih =>
    have ⟨framed, _, below⟩ := ended_node.1 h
    have leaf_of_child (c : Draft) (hc : c ∈ children) :
        c.solidLeaves.Sublist (solidLeaves (.node t children)) := by
      rw [solidLeaves_node t (List.ne_nil_of_mem hc)]
      exact List.sublist_flatten_of_mem (List.mem_map_of_mem hc)
    refine Rose.forall_nodes_node.2 ⟨fun notExtra => ?_, fun c hc =>
      ih c hc (below c hc) (spread.sublist (leaf_of_child c hc))⟩
    have hull := h.hull notExtra
    have hulls (c : Draft) (hc : c ∈ children) (notExtra : c.label.extra = false) : c.Hull :=
      (below c hc).hull notExtra
    refine ⟨hull.long spread, ⟨fun c hc notExtra => ?_, fun c hc notExtra => ?_, ?_⟩⟩
    · exact (hulls c hc notExtra).long (spread.sublist (leaf_of_child c hc))
    · exact hull.inside spread (hulls c hc notExtra) (leaf_of_child c hc)
    · by_cases childless : children = []
      · simp [Rose.children, childless]
      · rw [solidLeaves_node t childless] at spread
        exact Hull.ordered hulls spread

end Draft

open Draft Script

namespace Tree

/-- The spans of the structure are consistent, in bytes and in points. -/
structure Spanned (t : Tree) : Prop where
  whole : t.root.start = 0 ∧ t.root.stop = Text.size t.source
  /-- No node but the root is empty. -/
  long : ∀ d ∈ t.root.thaw.children, ∀ n ∈ d.nodes, n.label.extra = false → start n < stop n
  spaced : ∀ n ∈ t.nodes, n.label.extra = false → Spaced n
  points : ∀ a b,
    ((t.pointAt a).le (t.pointAt b) ↔ a ≤ b) ∧ ((t.pointAt a).lt (t.pointAt b) ↔ a < b)
  /-- A node reaches around a stretch of bytes just when it reaches around their points. -/
  reaches : ∀ n : Node, n ∈ t.root.nodes → ∀ a b,
    n.startPoint.le (t.pointAt a) ∧ (t.pointAt b).le n.stopPoint ↔ n.start ≤ a ∧ b ≤ n.stop
  covers : ∀ m n : Node, m ∈ t.root.nodes → n ∈ t.root.nodes →
    (m.startPoint.le n.startPoint ∧ n.stopPoint.le m.stopPoint ↔ m.range.covers n.range)

theorem nodes_thaw (t : Tree) : t.nodes = t.root.nodes.map Node.thaw := Rose.nodes_map _ _

theorem isError_of_hasError {t : Tree} (h : t.hasError = false) :
    ∀ n ∈ t.nodes, Draft.isError n = false := by
  rw [nodes_thaw]
  refine List.forall_mem_map.2 fun n hn => ?_
  have noError := List.any_eq_false.1 h (Rose.label n) (by
    rw [Rose.labels_nodes]
    exact List.mem_map_of_mem hn)
  rw [Draft.isError, Node.label_thaw]
  exact Bool.eq_false_iff.2 noError

/-- The root of a script spans the text and holds the items. -/
theorem thaw_root (text : List Char) : ∃ t : Tag, t.start = 0 ∧ t.stop = Text.size text ∧
    (ofScript text).root.thaw = .node t (items (.ofText text)).1 :=
  ⟨_, rfl, rfl, thaw_ofScript text⟩

theorem mem_nodes_of_item {text : List Char} {d n : Draft} (hd : d ∈ (items (.ofText text)).1)
    (hn : n ∈ d.nodes) : n ∈ (ofScript text).nodes := by
  obtain ⟨t, _, _, root⟩ := thaw_root text
  rw [nodes, root, Rose.nodes_node]
  exact List.mem_cons_of_mem _ (List.mem_flatMap.2 ⟨d, hd, hn⟩)

/-- Without error nodes, or without comments, no node ends in a comment. -/
theorem ended_ofScript (text : List Char) (h : (ofScript text).hasError = false ∨
    ∀ n ∈ (ofScript text).nodes, n.label.extra = false) :
    ∀ d ∈ (items (.ofText text)).1, d.Ended := by
  intro d hd
  have tight := (items_tight text d hd).1
  refine ⟨tight, fun n hn c hc => ?_⟩
  have below (c : Draft) (hc : c ∈ n.children) : c ∈ (ofScript text).nodes :=
    mem_nodes_of_item hd (Rose.mem_nodes_of_child hn hc)
  rcases h with noError | noExtra
  · have closed : isUnclosed n = false := by
      rw [isUnclosed, Bool.and_eq_false_iff]
      right
      cases head : n.children.head? with
      | none => rfl
      | some brace => exact isError_of_hasError noError _ (below _ (List.mem_of_head? head))
    have unclosed := ((tight n hn).last c hc).2
    exact Bool.eq_false_iff.2 fun extra => Bool.false_ne_true (closed.symm.trans (unclosed extra))
  · exact noExtra c (below c (List.mem_of_getLast? hc))

theorem spread_ofScript (text : List Char) :
    Spread ((items (.ofText text)).1.flatMap solidLeaves) := by
  have same : (items (.ofText text)).1.flatMap solidLeaves
      = (ofScript text).leaves.filter fun t => !t.extra := by
    rw [leaves_ofScript, List.filter_flatMap]
    rfl
  obtain ⟨ts, cut, solids, extras, _⟩ := leaves_cut text
  rw [same]
  refine ⟨fun leaf hl => ?_, leaves_ordered text⟩
  obtain ⟨t, ht, start, stop⟩ := leaves_spans solids extras leaf (List.mem_filter.1 hl).1
  rw [← start, ← stop]
  exact (cut.bounds t ht).2.1

/-- The tree of a text has consistent spans if it has no error node, or no comment. -/
theorem ofScript_spanned (text : List Char) (h : (ofScript text).hasError = false ∨
    ∀ n ∈ (ofScript text).nodes, n.label.extra = false) : (ofScript text).Spanned := by
  have ended := ended_ofScript text h
  have spread := spread_ofScript text
  have order {a b : Nat} := (ofScript text).pointAt_le_iff (a := a) (b := b)
  have spaced : ∀ d ∈ (items (.ofText text)).1, ∀ n ∈ d.nodes,
      n.label.extra = false → start n < stop n ∧ Spaced n := fun d hd =>
    (ended d hd).spaced (spread.sublist (List.sublist_flatten_of_mem (List.mem_map_of_mem hd)))
  obtain ⟨t, low, high, root⟩ := thaw_root text
  refine ⟨⟨rfl, rfl⟩, ?_, ?_, ?_, ?_, ?_⟩
  · rw [root]
    exact fun d hd n hn notExtra => (spaced d hd n hn notExtra).1
  · rw [nodes, root]
    refine Rose.forall_nodes_node.2 ⟨fun _ => ⟨fun c hc notExtra => ?_, fun c hc _ => ?_, ?_⟩,
      fun d hd n hn notExtra => (spaced d hd n hn notExtra).2⟩
    · exact (spaced c hc c c.mem_nodes_self notExtra).1
    · have inside := (items_tight text c hc).2
      exact ⟨Nat.le_trans (Nat.le_of_eq low) (Nat.zero_le _),
        Nat.le_trans inside (Nat.le_of_eq high.symm)⟩
    · exact Hull.ordered (fun d hd => (ended d hd).hull) spread
  · exact fun a b => ⟨order, (ofScript text).pointAt_lt_iff⟩
  · intro n hn a b
    obtain ⟨start, stop⟩ := placed_ofScript text n hn
    rw [start, stop, order, order]
  · intro m n hm hn
    obtain ⟨start, stop⟩ := placed_ofScript text m hm
    obtain ⟨start', stop'⟩ := placed_ofScript text n hn
    rw [start, stop, start', stop', order, order]
    rw [Range.covers, Bool.and_eq_true, decide_eq_true_eq, decide_eq_true_eq]
    exact Iff.rfl

/-- A comment before a route, which the block of the route holds. -/
theorem ofScript_spanned_comment :
    (ofScript "/* c */ request_route { drop; }".toList).hasError = false ∧
      (ofScript "/* c */ request_route { drop; }".toList).Spanned := by
  have noError : (ofScript "/* c */ request_route { drop; }".toList).hasError = false := by
    decide +kernel
  exact ⟨noError, ofScript_spanned _ (.inl noError)⟩

end Tree

end RouteScript
