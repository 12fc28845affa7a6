import RouteScript.Proofs.Frozen
import RouteScript.Proofs.Braces.Tree
/-!
# Trees without their extra nodes

Extra nodes may stand between any two others. `Cursor.stripped` is the place of a cursor in the tree
without them, and every step from one node that is not extra to another leads to the same place in
both trees.
-/
namespace RouteScript

namespace Rose

variable {α : Type u}

/-- A tree without the nodes below the root whose labels are not kept. -/
def prune (keep : α → Bool) (t : Rose α) : Rose α :=
  t.fold fun a cs => node a (cs.filter fun c => keep c.label)

theorem label_prune (keep : α → Bool) (t : Rose α) : (t.prune keep).label = t.label := by
  cases t
  rw [prune, fold_node]
  rfl

theorem prune_node (keep : α → Bool) (a : α) (cs : List (Rose α)) :
    prune keep (node a cs) = node a ((cs.filter fun c => keep c.label).map (prune keep)) := by
  rw [prune, fold_node, List.filter_map]
  refine congrArg (node a) (congrArg (List.map _) (List.filter_congr fun c _ => ?_))
  exact congrArg keep (label_prune keep c)

end Rose

theorem filter_eq_append_of_take {α : Type u} (p : α → Bool) (l : List α) (k : Nat) :
    l.filter p = (l.take k).filter p ++ (l.drop k).filter p := by
  rw [← List.filter_append, List.take_append_drop]

theorem drop_filter {α : Type u} (p : α → Bool) (l : List α) (k : Nat) :
    (l.filter p).drop ((l.take k).countP p) = (l.drop k).filter p := by
  rw [filter_eq_append_of_take p l k, List.countP_eq_length_filter, List.drop_left]

theorem take_filter {α : Type u} (p : α → Bool) (l : List α) (k : Nat) :
    (l.filter p).take ((l.take k).countP p) = (l.take k).filter p := by
  rw [filter_eq_append_of_take p l k, List.countP_eq_length_filter, List.take_left]

/-- What is kept has as its index the number of those kept before it. -/
theorem zipIdx_filter {α : Type u} (p : α → Bool) (l : List α) (k : Nat) :
    (l.filter p).zipIdx k =
      (l.zipIdx.filter fun e => p e.1).map fun e => (e.1, k + (l.take e.2).countP p) := by
  induction l generalizing k with
  | nil => rfl
  | cons a l ih =>
    have later : ((l.zipIdx 1).filter fun e => p e.1).map
          (fun e => (e.1, k + ((a :: l).take e.2).countP p)) =
        (l.zipIdx.filter fun e => p e.1).map fun e =>
          (e.1, k + (if p a then 1 else 0) + (l.take e.2).countP p) := by
      rw [List.zipIdx_succ, List.filter_map, List.map_map]
      refine List.map_congr_left fun e _ => ?_
      simp only [Function.comp_apply, List.take_succ_cons, List.countP_cons]
      split
      · simp; omega
      · simp
    rw [List.zipIdx_cons, List.filter_cons, List.filter_cons]
    by_cases kept : p a
    · simp only [kept, if_true, List.zipIdx_cons, ih, List.map_cons, List.take_zero,
        List.countP_nil, Nat.add_zero, later]
    · simp only [kept, if_false, ih, later, Bool.false_eq_true, Nat.add_zero]

theorem flatMap_filter {α : Type u} {β : Type v} {p : α → Bool} {f : α → List β} {l : List α}
    (nothing : ∀ a ∈ l, p a = false → f a = []) : (l.filter p).flatMap f = l.flatMap f := by
  induction l with
  | nil => rfl
  | cons a l ih =>
    have later := ih fun b hb => nothing b (List.mem_cons_of_mem a hb)
    rw [List.filter_cons, List.flatMap_cons]
    cases kept : p a with
    | true => rw [if_pos rfl, List.flatMap_cons, later]
    | false =>
      rw [if_neg Bool.false_ne_true, later, nothing a List.mem_cons_self kept, List.nil_append]

namespace Node

/-- Whether a node is part of the structure. -/
def notExtra (n : Node) : Bool := !n.isExtra

/-- A node without the extra nodes below it, all others under new numbers. -/
def stripped (number : Nat → Nat) (n : Node) : Node :=
  (n.prune fun e => !e.tag.extra).map fun e => { e with id := number e.id }

variable {number : Nat → Nat}

theorem stripped_node (e : Entry) (cs : List Node) : stripped number (.node e cs) =
    .node { e with id := number e.id } ((cs.filter notExtra).map (stripped number)) := by
  rw [stripped, Rose.prune_node, Rose.map_node, List.map_map]
  rfl

theorem children_stripped (n : Node) :
    (n.stripped number).children = (n.children.filter notExtra).map (stripped number) := by
  cases n
  rw [stripped_node]
  rfl

theorem label_stripped (n : Node) :
    (n.stripped number).label = { n.label with id := number n.id } := by
  cases n
  rw [stripped_node]
  rfl

theorem tag_stripped (n : Node) : (n.stripped number).tag = n.tag := by
  rw [tag, label_stripped]
  rfl

end Node

namespace Cursor

def notExtra (c : Cursor) : Bool := c.node.notExtra

/-- The place of a cursor in the tree without extra nodes. -/
def stripped (number : Nat → Nat) (c : Cursor) : Cursor :=
  ⟨c.node.stripped number, c.above.map fun (p, i) =>
    (p.stripped number, (p.children.take i).countP Node.notExtra)⟩

variable {number : Nat → Nat}

theorem id_stripped (c : Cursor) : (c.stripped number).id = number c.id :=
  congrArg Entry.id c.node.label_stripped

theorem kind_stripped (c : Cursor) : (c.stripped number).kind = c.kind :=
  congrArg Tag.kind c.node.tag_stripped

theorem field?_stripped (c : Cursor) : (c.stripped number).node.field? = c.node.field? :=
  congrArg Tag.field c.node.tag_stripped

theorem isSignificant_stripped (c : Cursor) : (c.stripped number).isSignificant = c.isSignificant :=
  congrArg (fun t : Tag => t.named && !t.extra) c.node.tag_stripped

theorem range_stripped (c : Cursor) : (c.stripped number).range = c.range := by
  simp only [range, stripped, Node.range, Node.start, Node.stop, Node.startPoint, Node.stopPoint,
    Node.tag_stripped, Node.label_stripped]

theorem notExtra_of_isSignificant {c : Cursor} (h : c.isSignificant) : c.notExtra :=
  (Bool.and_eq_true_iff.1 h).2

theorem children_stripped (c : Cursor) :
    (c.stripped number).children = (c.children.filter notExtra).map (stripped number) := by
  have below : (c.stripped number).node.children = _ := Node.children_stripped c.node
  rw [children, below, List.zipIdx_map, List.map_map, zipIdx_filter, List.map_map, children,
    List.filter_map, List.map_map]
  refine List.map_congr_left fun e _ => ?_
  simp only [Function.comp_apply, Prod.map_apply, id_eq, Nat.zero_add]
  rfl

theorem significantChildren_stripped (c : Cursor) :
    (c.stripped number).significantChildren = c.significantChildren.map (stripped number) := by
  have same : isSignificant ∘ stripped number = isSignificant := funext isSignificant_stripped
  rw [significantChildren, children_stripped, List.filter_map, same, List.filter_filter]
  refine congrArg (List.map _) (List.filter_congr fun d _ => ?_)
  by_cases significant : d.isSignificant
  · rw [significant, notExtra_of_isSignificant significant]; rfl
  · simp [significant]

theorem parent?_stripped (c : Cursor) :
    (c.stripped number).parent? = c.parent?.map (stripped number) := by
  obtain ⟨n, _ | ⟨p, rest⟩⟩ := c <;> rfl

/-- Extra nodes play no role. -/
theorem child?_stripped {c : Cursor}
    (plain : ∀ d ∈ c.children, d.notExtra = false → d.node.field? = none)
    (field : String) :
    (c.stripped number).child? field = (c.child? field).map (stripped number) := by
  rw [child?, child?, children_stripped, List.find?_map, List.find?_filter, ← List.head?_filter,
    ← List.head?_filter]
  refine congrArg (fun l => (List.head? l).map _) (List.filter_congr fun d hd => ?_)
  cases kept : d.notExtra with
  | true => simp only [Function.comp_apply, field?_stripped, true_and, Bool.decide_eq_true]
  | false => simp [plain d hd kept]

/-- The index over a cursor is that of its node. -/
def Stands (c : Cursor) : Prop :=
  ∀ p i rest, c.above = (p, i) :: rest → p.children[i]? = some c.node

theorem stands_of_mem_children {c d : Cursor} (hd : d ∈ c.children) : d.Stands := by
  obtain ⟨⟨n, i⟩, mem, rfl⟩ := List.mem_map.1 hd
  intro p k rest above
  cases above
  exact List.mk_mem_zipIdx_iff_getElem?.1 mem

theorem countP_take (p : Cursor) (k : Nat) :
    (p.node.children.take k).countP Node.notExtra = (p.children.take k).countP notExtra := by
  rw [← map_node_children, ← List.map_take, List.countP_map]
  rfl

theorem following_stripped {c : Cursor} (stands : c.Stands) (kept : c.notExtra) :
    (c.stripped number).following = (c.following.filter notExtra).map (stripped number) := by
  obtain ⟨n, _ | ⟨⟨p, i⟩, rest⟩⟩ := c
  · rfl
  · have here : p.children[i]? = some n := stands p i rest rfl
    have later : (p.children.take (i + 1)).countP Node.notExtra =
        (p.children.take i).countP Node.notExtra + 1 := by
      have kept : Node.notExtra n := kept
      simp [List.take_add_one, here, kept]
    have moved : (stripped number ⟨n, (p, i) :: rest⟩).following =
        (children (stripped number ⟨p, rest⟩)).drop
          ((p.children.take i).countP Node.notExtra + 1) := rfl
    have there : p.children = (⟨p, rest⟩ : Cursor).node.children := rfl
    rw [moved, ← later, there, countP_take, children_stripped, ← List.map_drop, drop_filter]
    rfl

theorem preceding_stripped (c : Cursor) :
    (c.stripped number).preceding = (c.preceding.filter notExtra).map (stripped number) := by
  obtain ⟨n, _ | ⟨⟨p, i⟩, rest⟩⟩ := c
  · rfl
  · have moved : (stripped number ⟨n, (p, i) :: rest⟩).preceding =
        ((children (stripped number ⟨p, rest⟩)).take
          ((p.children.take i).countP Node.notExtra)).reverse := rfl
    have there : p.children = (⟨p, rest⟩ : Cursor).node.children := rfl
    rw [moved, there, countP_take, children_stripped, ← List.map_take, take_filter,
      ← List.map_reverse,
      ← List.filter_reverse]
    rfl

/-- The next significant one among nodes that are not extra is the next one among all. -/
theorem find?_isSignificant_stripped (nodes : List Cursor) :
    ((nodes.filter notExtra).map (stripped number)).find? isSignificant =
      (nodes.find? isSignificant).map (stripped number) := by
  have same : isSignificant ∘ stripped number = isSignificant := funext isSignificant_stripped
  rw [List.find?_map, same, List.find?_filter, ← List.head?_filter, ← List.head?_filter]
  refine congrArg (fun l => (List.head? l).map _) (List.filter_congr fun d _ => ?_)
  by_cases significant : d.isSignificant
  · simp [significant, notExtra_of_isSignificant significant]
  · simp [significant]

theorem induction {motive : Cursor → Prop}
    (step : ∀ c : Cursor, (∀ d ∈ c.children, motive d) → motive c) (c : Cursor) : motive c := by
  obtain ⟨n, above⟩ := c
  induction n using Rose.induction generalizing above with
  | node e children ih =>
    refine step _ fun d hd => ?_
    obtain ⟨⟨n, i⟩, mem, rfl⟩ := List.mem_map.1 hd
    exact ih n (List.fst_mem_of_mem_zipIdx mem) _

theorem mem_preorder_self (c : Cursor) : c ∈ c.preorder := by
  rw [preorder_eq]
  exact List.mem_cons_self

theorem mem_preorder_of_child {r c d : Cursor} (hc : c ∈ r.preorder) (hd : d ∈ c.children) :
    d ∈ r.preorder := by
  induction r using Cursor.induction with
  | step r ih =>
    rw [preorder_eq] at hc ⊢
    rcases List.mem_cons.1 hc with rfl | hc
    · exact List.mem_cons_of_mem _ (List.mem_flatMap.2 ⟨d, hd, d.mem_preorder_self⟩)
    · obtain ⟨e, he, hc⟩ := List.mem_flatMap.1 hc
      exact List.mem_cons_of_mem _ (List.mem_flatMap.2 ⟨e, he, ih e he hc⟩)

theorem mem_preorder_trans {r c d : Cursor} (hc : c ∈ r.preorder) (hd : d ∈ c.preorder) :
    d ∈ r.preorder := by
  induction c using Cursor.induction with
  | step c ih =>
    rw [preorder_eq] at hd
    rcases List.mem_cons.1 hd with rfl | hd
    · exact hc
    · obtain ⟨e, he, hd⟩ := List.mem_flatMap.1 hd
      exact ih e he (mem_preorder_of_child hc he) hd

theorem stands_of_mem_preorder {r c : Cursor} (stands : r.Stands) (hc : c ∈ r.preorder) :
    c.Stands := by
  induction r using Cursor.induction with
  | step r ih =>
    rw [preorder_eq] at hc
    rcases List.mem_cons.1 hc with rfl | hc
    · exact stands
    · obtain ⟨d, hd, hc⟩ := List.mem_flatMap.1 hc
      exact ih d hd (stands_of_mem_children hd) hc

/-- What is not extra below a node is what stands below its place, in the same order, where extra
nodes have no children. -/
theorem preorder_stripped (c : Cursor) (kept : c.notExtra)
    (leafy : ∀ d ∈ c.preorder, d.notExtra = false → d.children = []) :
    (c.stripped number).preorder = (c.preorder.filter notExtra).map (stripped number) := by
  induction c using Cursor.induction with
  | step c ih =>
    have inside {d e : Cursor} (hd : d ∈ c.children) (he : e ∈ d.preorder) : e ∈ c.preorder := by
      rw [preorder_eq]
      exact List.mem_cons_of_mem _ (List.mem_flatMap.2 ⟨d, hd, he⟩)
    have alone (d : Cursor) (hd : d ∈ c.children) (extra : d.notExtra = false) :
        (d.preorder.filter notExtra).map (stripped number) = [] := by
      rw [preorder_eq, leafy d (inside hd d.mem_preorder_self) extra]
      simp [extra]
    rw [preorder_eq, children_stripped, List.flatMap_map, c.preorder_eq, List.filter_cons,
      if_pos kept,
      List.map_cons, List.filter_flatMap, List.map_flatMap, ← flatMap_filter alone]
    refine congrArg (_ :: ·) (congrArg List.flatten (List.map_congr_left fun d hd => ?_))
    obtain ⟨hd, kept⟩ := List.mem_filter.1 hd
    exact ih d hd kept fun e he => leafy e (inside hd he)

end Cursor

end RouteScript
