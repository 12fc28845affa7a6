import RouteScript.Proofs.Nesting.Spans
import RouteScript.Proofs.Siblings
import RouteScript.Tree.Cursor
/-!
# The way down to a node

In a tree without error nodes the descent to a point inside a node of the structure passes through
that node, whatever comments its ancestors hold, as long as none overlaps the node itself.
-/
namespace RouteScript

theorem Point.le_trans {p q r : Point} (h : p.le q) (h' : q.le r) : p.le r := by
  rw [le_iff] at *
  omega

theorem Point.lt_of_lt_of_le {p q r : Point} (h : p.lt q) (h' : q.le r) : p.lt r := by
  rw [le_iff] at h'
  rw [lt_iff] at *
  omega

namespace Cursor

variable {c d : Cursor} {p q : Point}

/-- The point lies inside the node. -/
def covers (c : Cursor) (p : Point) : Bool := c.node.startPoint.le p && p.lt c.node.stopPoint

theorem covers_iff : c.covers p ↔ c.node.startPoint.le p ∧ p.lt c.node.stopPoint := by
  simp [covers]

theorem getElem?_children (c : Cursor) (i : Nat) :
    c.children[i]? = c.node.children[i]?.map fun n => ⟨n, (c.node, i) :: c.above⟩ := by
  rw [children, List.getElem?_map, List.getElem?_zipIdx, Option.map_map, Nat.zero_add]
  rfl

theorem descentInto_eq (p q : Point) (above : List (Node × Nat)) (i : Nat) (ns : List Node) :
    descentInto p q above i ns = (ns[i]?.map (descentFrom p q above)).getD [] := by
  induction ns generalizing i with
  | nil => cases i <;> rfl
  | cons n ns ih =>
    cases i with
    | zero => rfl
    | succ i => exact ih i

theorem descent_eq (c : Cursor) (p q : Point) : c.descent p q = c ::
    (((Node.covering c.node.children p q).bind (c.children[·]?)).map (·.descent p q)).getD [] := by
  obtain ⟨⟨e, children⟩, above⟩ := c
  rw [descent, descentFrom]
  refine congrArg (_ :: ·) ?_
  change _ = (((Node.covering children p q).bind _).map _).getD []
  cases Node.covering children p q with
  | none => rfl
  | some i =>
    change descentInto p q _ i children = _
    rw [descentInto_eq, Option.bind_some, getElem?_children, Option.map_map]
    rfl

/-- The descent goes on through the first child around the point. -/
theorem descent_of_covers {front back : List Cursor} (split : c.children = front ++ d :: back)
    (here : d.covers p) (before : ∀ e ∈ front, e.covers p = false) :
    c.descent p p = c :: d.descent p p := by
  have first : c.children.findIdx? (·.covers p) = some front.length := by
    rw [split, List.findIdx?_append, List.findIdx?_eq_none_iff.2 before, Option.none_or,
      List.findIdx?_cons, if_pos here]
    simp
  have chosen : Node.covering c.node.children p p = some front.length := by
    have nodes : c.node.children.findIdx?
        (fun n => (Node.startPoint n).le p && p.lt (Node.stopPoint n)) = some front.length := by
      rw [← map_node_children, List.findIdx?_map]
      exact first
    rw [Node.covering, nodes]
  rw [descent_eq, chosen, Option.bind_some, split, List.getElem?_append_right (Nat.le_refl _)]
  simp

theorem mem_preorder_of_mem_descent (hd : d ∈ c.descent p q) : d ∈ c.preorder := by
  induction c using Cursor.induction with
  | step c ih =>
    rw [descent_eq] at hd
    rw [preorder_eq]
    rcases List.mem_cons.1 hd with rfl | later
    · exact List.mem_cons_self
    · cases next : (Node.covering c.node.children p q).bind (c.children[·]?) with
      | none => simp [next] at later
      | some e =>
        obtain ⟨i, _, there⟩ := Option.bind_eq_some_iff.1 next
        have child : e ∈ c.children := List.mem_of_getElem? there
        rw [next] at later
        exact List.mem_cons_of_mem _ (List.mem_flatMap.2 ⟨e, child, ih e child later⟩)

end Cursor

theorem Rose.label_mem_leaves {α : Type u} {t n : Rose α} (hn : n ∈ t.nodes)
    (childless : n.children = []) : n.label ∈ t.leaves := by
  induction t using Rose.induction with
  | node a cs ih =>
    rw [leaves_node]
    rcases List.mem_cons.1 (nodes_node a cs ▸ hn) with rfl | below
    · rw [show cs = [] from childless]
      exact List.mem_singleton_self a
    · obtain ⟨c, hc, hn⟩ := List.mem_flatMap.1 below
      have some_child : cs.isEmpty = false := List.isEmpty_eq_false_iff.2 (List.ne_nil_of_mem hc)
      rw [some_child, if_neg Bool.false_ne_true]
      exact List.mem_flatMap.2 ⟨c, hc, ih c hc hn⟩

namespace Tree

open Draft Script

variable {text : List Char} {r c d : Cursor} {p : Point}

/-- No comment overlaps the node. -/
def Bare (t : Tree) (c : Cursor) : Prop :=
  ∀ e ∈ t.cursors, e.notExtra = false → e.node.stop ≤ c.node.start ∨ c.node.stop ≤ e.node.start

instance (t : Tree) (c : Cursor) : Decidable (t.Bare c) :=
  inferInstanceAs (Decidable (∀ e ∈ t.cursors, _))

theorem spaced_of_hasError (noError : (ofScript text).hasError = false) :
    ∀ n ∈ (draft text).nodes, n.label.extra = false → Spaced n := by
  have ended := ended_ofScript text (.inl noError)
  have spread := spread_ofScript text
  have spaced (d : Draft) (hd : d ∈ (items (.ofText text)).1) :
      ∀ n ∈ d.nodes, n.label.extra = false → start n < stop n ∧ Spaced n :=
    (ended d hd).spaced (spread.sublist (List.sublist_flatten_of_mem (List.mem_map_of_mem hd)))
  refine Rose.forall_nodes_node.2 ⟨fun _ => ⟨fun c hc notExtra => ?_, fun c hc _ => ?_, ?_⟩,
    fun d hd n hn notExtra => (spaced d hd n hn notExtra).2⟩
  · exact (spaced c hc c c.mem_nodes_self notExtra).1
  · exact ⟨Nat.zero_le _, (items_tight text c hc).2⟩
  · exact Hull.ordered (fun d hd => (ended d hd).hull) spread

theorem start_thaw (n : Node) : start n.thaw = n.start := congrArg Tag.start n.label_thaw

theorem stop_thaw (n : Node) : stop n.thaw = n.stop := congrArg Tag.stop n.label_thaw

theorem extra_thaw (c : Cursor) : c.node.thaw.label.extra = !c.notExtra := by
  rw [Node.label_thaw, Cursor.notExtra, Node.notExtra, Bool.not_not]
  rfl

theorem thaw_mem_children (hc : c ∈ r.children) : c.node.thaw ∈ r.node.thaw.children := by
  rw [Node.children_thaw, ← Cursor.map_node_children]
  exact List.mem_map_of_mem (List.mem_map_of_mem hc)

/-- What has a child is no comment. -/
theorem notExtra_of_mem_children (hr : r ∈ (ofScript text).cursors) (hc : c ∈ r.children) :
    r.notExtra := by
  by_contra extra
  rw [children_of_extra hr (by simpa using extra)] at hc
  contradiction

theorem notExtra_of_mem_preorder (hr : r ∈ (ofScript text).cursors) (hd : d ∈ r.preorder)
    (notExtra : d.notExtra) : r.notExtra := by
  rw [Cursor.preorder_eq] at hd
  rcases List.mem_cons.1 hd with rfl | below
  · exact notExtra
  · obtain ⟨c, hc, _⟩ := List.mem_flatMap.1 below
    exact notExtra_of_mem_children hr hc

theorem points_of_mem (hc : c ∈ (ofScript text).cursors) :
    c.node.startPoint = (ofScript text).pointAt c.node.start ∧
      c.node.stopPoint = (ofScript text).pointAt c.node.stop := by
  have nodes : (ofScript text).cursors.map Cursor.node = (ofScript text).root.nodes :=
    Cursor.map_node_preorder _
  exact placed_ofScript text c.node (nodes ▸ List.mem_map_of_mem hc)

theorem covers_of_inside (hc : c ∈ (ofScript text).cursors) (hd : d ∈ (ofScript text).cursors)
    (inside : c.node.start ≤ d.node.start ∧ d.node.stop ≤ c.node.stop) (here : d.covers p) :
    c.covers p := by
  obtain ⟨start, stop⟩ := points_of_mem hc
  obtain ⟨start', stop'⟩ := points_of_mem hd
  rw [Cursor.covers_iff] at here ⊢
  have low : c.node.startPoint.le d.node.startPoint := by
    rw [start, start', pointAt_le_iff]
    exact inside.1
  have high : d.node.stopPoint.le c.node.stopPoint := by
    rw [stop, stop', pointAt_le_iff]
    exact inside.2
  exact ⟨Point.le_trans low here.1, Point.lt_of_lt_of_le here.2 high⟩

/-- No point lies in two nodes that do not overlap. -/
theorem covers_of_apart (hc : c ∈ (ofScript text).cursors) (hd : d ∈ (ofScript text).cursors)
    (apart : c.node.stop ≤ d.node.start ∨ d.node.stop ≤ c.node.start) (here : d.covers p) :
    c.covers p = false := by
  obtain ⟨start, stop⟩ := points_of_mem hc
  obtain ⟨start', stop'⟩ := points_of_mem hd
  rw [Cursor.covers_iff] at here
  rw [← Bool.not_eq_true, Cursor.covers_iff]
  rintro ⟨low, high⟩
  rcases apart with before | behind
  · have order : c.node.stopPoint.le d.node.startPoint := by
      rw [stop, start', pointAt_le_iff]
      exact before
    exact Point.lt_iff_not_le.1 high (Point.le_trans order here.1)
  · have order : d.node.stopPoint.le c.node.startPoint := by
      rw [stop', start, pointAt_le_iff]
      exact behind
    exact Point.lt_iff_not_le.1 here.2 (Point.le_trans order low)

theorem tag_mem_leaves (hc : c ∈ (ofScript text).cursors) (inner : c.kind ≠ Kind.sourceFile)
    (childless : c.children = []) : c.node.tag ∈ (ofScript text).leaves := by
  have hn : c.node.thaw ∈ (draft text).nodes := Draft.thaw_mem_nodes hc
  have leaf : c.node.thaw.children = [] := by
    rw [Node.children_thaw, ← Cursor.map_node_children, childless]
    rfl
  rw [leaves_ofScript, ← c.node.label_thaw]
  rcases List.mem_cons.1 ((Rose.nodes_node _ _) ▸ hn) with root | below
  · have kind := congrArg (fun n => (Rose.label n).kind) root
    rw [Node.label_thaw] at kind
    exact absurd kind inner
  · obtain ⟨e, he, hn⟩ := List.mem_flatMap.1 below
    exact List.mem_flatMap.2 ⟨e, he, Rose.label_mem_leaves hn leaf⟩

/-- Comments do not overlap the leaves of the structure. -/
theorem bare_of_leaf (hd : d ∈ (ofScript text).cursors) (inner : d.kind ≠ Kind.sourceFile)
    (notExtra : d.notExtra) (childless : d.children = []) : (ofScript text).Bare d := by
  intro e he extra
  have comment : e.kind ≠ Kind.sourceFile := fun same =>
    absurd (same ▸ kind_of_extra he extra) (by decide)
  have leaf := tag_mem_leaves he comment (children_of_extra he extra)
  have leaf' := tag_mem_leaves hd inner childless
  have apart : Std.Symm fun a b : Tag => a.stop ≤ b.start ∨ b.stop ≤ a.start := ⟨fun _ _ => Or.symm⟩
  refine (ofScript_lossless text).2.disjoint.forall leaf leaf' fun same => ?_
  have marked := congrArg Tag.extra same
  simp [Cursor.notExtra, Node.notExtra, Node.isExtra] at extra notExtra
  simp [extra, notExtra] at marked

section NoError

variable (noError : (ofScript text).hasError = false)
include noError

theorem spaced_cursor (hr : r ∈ (ofScript text).cursors) (notExtra : r.notExtra) :
    Spaced r.node.thaw :=
  spaced_of_hasError noError _ (Draft.thaw_mem_nodes hr) (by rw [extra_thaw, notExtra]; rfl)

/-- Nodes of the structure below another lie inside it. -/
theorem inside_of_mem_preorder (hr : r ∈ (ofScript text).cursors) (hd : d ∈ r.preorder)
    (notExtra : d.notExtra) : r.node.start ≤ d.node.start ∧ d.node.stop ≤ r.node.stop := by
  induction r using Cursor.induction with
  | step r ih =>
    rw [Cursor.preorder_eq] at hd
    rcases List.mem_cons.1 hd with rfl | below
    · exact ⟨Nat.le_refl _, Nat.le_refl _⟩
    · obtain ⟨c, hc, hd⟩ := List.mem_flatMap.1 below
      have hc' := Cursor.mem_preorder_of_child hr hc
      obtain ⟨low, high⟩ := ih c hc hc' hd
      have notExtra' := notExtra_of_mem_preorder hc' hd notExtra
      obtain ⟨low', high'⟩ := (spaced_cursor noError hr (notExtra_of_mem_children hr hc)).inside
        _ (thaw_mem_children hc) (by rw [extra_thaw, notExtra']; rfl)
      rw [start_thaw, start_thaw] at low'
      rw [stop_thaw, stop_thaw] at high'
      omega

/-- Of two children that belong to the structure, the first ends before the other starts. -/
theorem stop_le_start {front back : List Cursor} (hr : r ∈ (ofScript text).cursors)
    (split : r.children = front ++ d :: back) (notExtra : d.notExtra) :
    ∀ e ∈ front, e.notExtra → e.node.stop ≤ d.node.start := by
  intro e he notExtra'
  have hd : d ∈ r.children := by simp [split]
  have ordered := (spaced_cursor noError hr (notExtra_of_mem_children hr hd)).ordered
  rw [Node.children_thaw, ← Cursor.map_node_children, split, List.pairwise_filter, List.map_map,
    List.pairwise_map, List.pairwise_append] at ordered
  have before := ordered.2.2 e he d (by simp)
  simp only [Function.comp_apply, extra_thaw, start_thaw, stop_thaw, notExtra, notExtra',
    Bool.not_true,
    Bool.not_false, forall_const] at before
  exact before

/-- The descent to a point inside a node of the structure passes through the node. -/
theorem exists_descent (hr : r ∈ (ofScript text).cursors) (hd : d ∈ r.preorder)
    (notExtra : d.notExtra)
    (bare : (ofScript text).Bare d) (here : d.covers p) :
    ∃ before, r.descent p p = before ++ d.descent p p ∧ (before = [] → r = d) := by
  induction r using Cursor.induction with
  | step r ih =>
    rw [Cursor.preorder_eq] at hd
    rcases List.mem_cons.1 hd with rfl | below
    · exact ⟨[], rfl, fun _ => rfl⟩
    · obtain ⟨c, hc, hd⟩ := List.mem_flatMap.1 below
      have hc' := Cursor.mem_preorder_of_child hr hc
      obtain ⟨before, later, _⟩ := ih c hc hc' hd
      have next : r.descent p p = r :: c.descent p p := by
        obtain ⟨front, back, split⟩ := List.append_of_mem hc
        have hd' := Cursor.mem_preorder_trans hc' hd
        have inside := inside_of_mem_preorder noError hc' hd notExtra
        have order := stop_le_start noError hr split (notExtra_of_mem_preorder hc' hd notExtra)
        refine Cursor.descent_of_covers split (covers_of_inside hc' hd' inside here) fun e he => ?_
        have he' := Cursor.mem_preorder_of_child hr (split ▸ List.mem_append_left _ he)
        refine covers_of_apart he' hd' ?_ here
        cases notExtra' : e.notExtra with
        | true => exact .inl ((order e he notExtra').trans inside.1)
        | false => exact bare e he' notExtra'
      exact ⟨r :: before, by rw [next, later, List.cons_append], by simp⟩

/-- The node found at a point inside a node of the structure is that node or lies below it. -/
theorem nodeAt?_of_covers (hd : d ∈ (ofScript text).cursors) (inner : d ≠ .root (ofScript text))
    (notExtra : d.notExtra) (named : d.isNamed) (bare : (ofScript text).Bare d)
    (here : d.covers p) :
    ∃ c, (ofScript text).nodeAt? p = some c ∧ c ∈ d.preorder ∧ c.isNamed := by
  have root : Cursor.root (ofScript text) ∈ (ofScript text).cursors := Cursor.mem_preorder_self _
  obtain ⟨before, way, some_before⟩ := exists_descent noError root hd notExtra bare here
  obtain ⟨first, before, rfl⟩ :=
    List.exists_cons_of_ne_nil fun none => inner (some_before none).symm
  obtain ⟨low, high⟩ := Cursor.covers_iff.1
    (covers_of_inside root hd (inside_of_mem_preorder noError root hd notExtra) here)
  have reaches : (Cursor.root (ofScript text)).reaches p p := by
    rw [Cursor.reaches, low, Point.le_of_lt high, Bool.and_self]
  have found : (d.descent p p).filter Cursor.isNamed ≠ [] := by
    rw [Cursor.descent_eq, List.filter_cons_of_pos named]
    exact List.cons_ne_nil _ _
  refine ⟨((d.descent p p).filter Cursor.isNamed).getLast found, ?_, ?_⟩
  · rw [nodeAt?, Cursor.smallestNamed?, if_pos reaches, way, List.cons_append, List.tail_cons,
      List.filter_append, List.getLast?_append, List.getLast?_eq_some_getLast found]
    rfl
  · have last := List.mem_filter.1 (List.getLast_mem found)
    exact ⟨Cursor.mem_preorder_of_mem_descent last.1, last.2⟩

end NoError

end Tree

end RouteScript
