import RouteScript.Proofs.Extras.Draft
import RouteScript.Proofs.Nesting.Tree
/-!
# Parents and siblings

In the places of a tree, those below one node are its children, in their order, and what stands
before and behind one of them is what the node has there. Comments and directives have no children.
-/
namespace RouteScript

namespace Cursor

/-- Every place but the first is a child of another. -/
theorem exists_parent {r c : Cursor} (hc : c ∈ r.preorder) :
    c = r ∨ ∃ p ∈ r.preorder, c ∈ p.children := by
  induction r using Cursor.induction with
  | step r ih =>
    rw [preorder_eq] at hc ⊢
    rcases List.mem_cons.1 hc with rfl | below
    · exact .inl rfl
    · obtain ⟨d, hd, hc⟩ := List.mem_flatMap.1 below
      rcases ih d hd hc with rfl | ⟨p, hp, hc⟩
      · exact .inr ⟨r, List.mem_cons_self, hd⟩
      · exact .inr ⟨p, List.mem_cons_of_mem _ (List.mem_flatMap.2 ⟨d, hd, hp⟩), hc⟩

theorem parent?_of_mem_children {p c : Cursor} (hc : c ∈ p.children) : c.parent? = some p := by
  obtain ⟨e, _, rfl⟩ := List.mem_map.1 hc
  rfl

theorem ancestors_of_mem_children {p c : Cursor} (hc : c ∈ p.children) :
    c.ancestors = p :: p.ancestors := by
  obtain ⟨e, _, rfl⟩ := List.mem_map.1 hc
  rfl

theorem preorder_sublist {r c : Cursor} (hc : c ∈ r.preorder) :
    c.preorder.Sublist r.preorder := by
  induction r using Cursor.induction with
  | step r ih =>
    rw [preorder_eq] at hc
    rcases List.mem_cons.1 hc with rfl | below
    · exact List.Sublist.refl _
    · obtain ⟨d, hd, hc⟩ := List.mem_flatMap.1 below
      rw [preorder_eq r]
      exact ((ih d hd hc).trans (List.sublist_flatten_of_mem (List.mem_map_of_mem hd))).cons _

theorem children_sublist (c : Cursor) : c.children.Sublist c.preorder := by
  have heads (ds : List Cursor) : ds.Sublist (ds.flatMap preorder) := by
    induction ds with
    | nil => exact .slnil
    | cons d ds ih =>
      have head : [d].Sublist d.preorder := List.singleton_sublist.2 d.mem_preorder_self
      exact head.append ih
  rw [preorder_eq]
  exact (heads c.children).cons c

/-- A child stands between those before it and those behind it. -/
theorem exists_siblings {p c : Cursor} (hc : c ∈ p.children) :
    p.children = c.preceding.reverse ++ c :: c.following := by
  obtain ⟨⟨n, i⟩, mem, rfl⟩ := List.mem_map.1 hc
  have there : p.node.children.zipIdx[i]? = some (n, i) := by
    have here := List.mk_mem_zipIdx_iff_getElem?.1 mem
    simp [List.getElem?_zipIdx, here]
  have child : p.children[i]? = some ⟨n, (p.node, i) :: p.above⟩ := by
    rw [children, List.getElem?_map, there]
    rfl
  obtain ⟨inside, here⟩ := List.getElem?_eq_some_iff.1 child
  change p.children = (p.children.take i).reverse.reverse ++
    ⟨n, (p.node, i) :: p.above⟩ :: p.children.drop (i + 1)
  rw [List.reverse_reverse, ← here, ← List.drop_eq_getElem_cons inside, List.take_append_drop]

theorem ancestorsOf_trans {d : Cursor} {above : List (Node × Nat)} (hd : d ∈ ancestorsOf above) :
    ∀ e ∈ d.ancestors, e ∈ ancestorsOf above := by
  induction above with
  | nil => contradiction
  | cons step rest ih =>
    rcases List.mem_cons.1 hd with rfl | later
    · exact fun e he => List.mem_cons_of_mem _ he
    · exact fun e he => List.mem_cons_of_mem _ (ih later e he)

/-- What is below a node has it above. -/
theorem mem_ancestors_of_mem_preorder {r c : Cursor} (hc : c ∈ r.preorder) :
    c = r ∨ r ∈ c.ancestors := by
  induction r using Cursor.induction with
  | step r ih =>
    rw [preorder_eq] at hc
    rcases List.mem_cons.1 hc with rfl | below
    · exact .inl rfl
    · obtain ⟨d, hd, hc⟩ := List.mem_flatMap.1 below
      have above : r ∈ d.ancestors := by simp [ancestors_of_mem_children hd]
      rcases ih d hd hc with rfl | inner
      · exact .inr above
      · exact .inr (ancestorsOf_trans inner r above)

/-- What is above a node has it below. -/
theorem mem_preorder_of_mem_ancestors {r c d : Cursor} (hc : c ∈ r.preorder)
    (hd : d ∈ c.ancestors) :
    d ∈ r.ancestors ∨ d ∈ r.preorder ∧ c ∈ d.preorder := by
  induction r using Cursor.induction with
  | step r ih =>
    have whole := hc
    rw [preorder_eq] at hc
    rcases List.mem_cons.1 hc with rfl | below
    · exact .inl hd
    · obtain ⟨e, he, hc⟩ := List.mem_flatMap.1 below
      rcases ih e he hc with outer | ⟨inner, under⟩
      · rw [ancestors_of_mem_children he] at outer
        rcases List.mem_cons.1 outer with rfl | outer
        · exact .inr ⟨mem_preorder_self _, whole⟩
        · exact .inl outer
      · exact .inr ⟨mem_preorder_trans (mem_preorder_of_child (mem_preorder_self r) he) inner,
          under⟩

end Cursor

section Tree

variable {language : String} {source : List Char} {d : Draft} {block : Cursor}

theorem Tree.cursors_pairwise (language : String) (source : List Char) (d : Draft) :
    (Tree.ofDraft language source d).cursors.Pairwise fun c c' => c.id < c'.id := by
  obtain ⟨n, _, ids⟩ := Cursor.ids_walk (Text.rowStarts source) d 0 []
  have ordered : ((Tree.ofDraft language source d).cursors.map Cursor.id).Pairwise (· < ·) :=
    ids ▸ List.pairwise_lt_range' ..
  exact List.pairwise_map.1 ordered

/-- Whether a place is right below another. -/
def Cursor.isBelow (block c : Cursor) : Bool := c.parent?.any (·.id == block.id)

/-- Of all places in a tree, those right below a node are its children. -/
theorem Tree.filter_isBelow (hblock : block ∈ (Tree.ofDraft language source d).cursors) :
    (Tree.ofDraft language source d).cursors.filter block.isBelow = block.children := by
  have ordered := Tree.cursors_pairwise language source d
  have sub : block.children.Sublist (Tree.ofDraft language source d).cursors :=
    block.children_sublist.trans (Cursor.preorder_sublist hblock)
  refine Query.eq_of_sorted (fun _ _ less => Nat.lt_asymm less)
    (ordered.sublist List.filter_sublist)
    (ordered.sublist sub) fun c => ?_
  rw [List.mem_filter]
  constructor
  · rintro ⟨hc, below⟩
    rcases Cursor.exists_parent hc with rfl | ⟨p, hp, child⟩
    · exact absurd below Bool.false_ne_true
    · rw [Cursor.isBelow, Cursor.parent?_of_mem_children child, Option.any_some,
        beq_iff_eq] at below
      obtain rfl : p = block := Cursor.id_injOn language source d hp hblock below
      exact child
  · intro child
    refine ⟨sub.subset child, ?_⟩
    rw [Cursor.isBelow, Cursor.parent?_of_mem_children child, Option.any_some, beq_iff_eq]

theorem Tree.nodup_children (hblock : block ∈ (Tree.ofDraft language source d).cursors) :
    block.children.Nodup := by
  have ordered := (Tree.cursors_pairwise language source d).sublist
    (block.children_sublist.trans (Cursor.preorder_sublist hblock))
  exact ordered.imp fun {c c'} less (same : c = c') => Nat.lt_irrefl _ (same ▸ less)

/-- What stands before and behind a significant child, of those that are significant. -/
theorem Tree.significant_siblings (hblock : block ∈ (Tree.ofDraft language source d).cursors)
    {front back : List Cursor} {c : Cursor}
    (split : block.significantChildren = front ++ c :: back) :
    c.following.find? Cursor.isSignificant = back.head? ∧
      c.preceding.find? Cursor.isSignificant = front.getLast? := by
  have here : c ∈ block.significantChildren := split ▸ by simp
  obtain ⟨child, significant⟩ := List.mem_filter.1 here
  have nodup : block.significantChildren.Nodup := (Tree.nodup_children hblock).filter _
  have parts : block.significantChildren = c.preceding.reverse.filter Cursor.isSignificant ++
      c :: c.following.filter Cursor.isSignificant := by
    rw [Cursor.significantChildren, Cursor.exists_siblings child, List.filter_append,
      List.filter_cons_of_pos significant]
  have once : c ∉ front ∧ c ∉ back := by
    rw [split, List.nodup_append, List.nodup_cons] at nodup
    exact ⟨fun inside => nodup.2.2 c inside c (by simp) rfl, nodup.2.1.1⟩
  obtain ⟨before, _, behind⟩ :=
    (List.append_cons_inj_of_notMem once.1 once.2).1 (split.symm.trans parts)
  rw [← List.head?_filter, ← List.head?_filter, before, behind, List.filter_reverse,
    List.getLast?_reverse]
  exact ⟨rfl, rfl⟩

end Tree

namespace Tree

variable {text : List Char} {c : Cursor}

/-- Every node but the root reaches from its first child to its last. -/
theorem root_or_framed (hc : c ∈ (ofScript text).cursors) :
    c.node.thaw = Script.draft text ∨ Draft.Framed c.node.thaw := by
  have hn : c.node.thaw ∈ (Script.draft text).nodes := Draft.thaw_mem_nodes hc
  refine (List.mem_cons.1 ((Rose.nodes_node _ _) ▸ hn)).imp_right fun below => ?_
  obtain ⟨d, hd, hn⟩ := List.mem_flatMap.1 below
  exact (Script.items_tight text d hd).1 _ hn

theorem isExtraLeaf_of_extra (hc : c ∈ (ofScript text).cursors) (extra : c.notExtra = false) :
    Draft.IsExtraLeaf c.node.thaw := by
  have extra : c.node.thaw.label.extra := by
    simpa [Node.label_thaw, Cursor.notExtra, Node.notExtra, Node.isExtra] using extra
  rcases root_or_framed hc with root | framed
  · rw [root] at extra
    exact absurd extra Bool.false_ne_true
  · exact framed.bare extra

theorem kind_of_extra (hc : c ∈ (ofScript text).cursors) (extra : c.notExtra = false) :
    c.kind ∈ extraKinds := by
  obtain ⟨t, eq⟩ := isExtraLeaf_of_extra hc extra
  have kind : (Script.extraLeaf t).label.kind ∈ extraKinds := by
    simp only [Script.extraLeaf, Draft.leaf, Draft.asExtra, Draft.relabel, Rose.label]
    split <;> decide
  rwa [← eq, Node.label_thaw] at kind

theorem children_of_extra (hc : c ∈ (ofScript text).cursors) (extra : c.notExtra = false) :
    c.children = [] := by
  have childless := (isExtraLeaf_of_extra hc extra).childless
  rw [Node.children_thaw, ← Cursor.map_node_children] at childless
  simpa using childless

theorem framed_cursor (hc : c ∈ (ofScript text).cursors)
    (inner : c.kind ≠ Kind.sourceFile) : Draft.Framed c.draft := by
  refine (root_or_framed hc).resolve_left fun root => inner ?_
  rw [c.kind_eq, Cursor.draft, root]
  rfl

end Tree

end RouteScript
