import RouteScript.Proofs.Extras.Rules
/-!
# Drafts without extra nodes

A draft without its extra nodes gives a tree of its own, whose nodes have new numbers. It has the
same diagnostics as the whole draft, less the hints about comments.
-/
namespace RouteScript

/-- A draft without the extra nodes below its root. -/
def Draft.stripped (d : Draft) : Draft := d.prune fun t => !t.extra

theorem Draft.stripped_node (t : Tag) (ds : List Draft) :
    stripped (.node t ds) = .node t ((ds.filter fun d => !d.label.extra).map stripped) :=
  Rose.prune_node _ t ds

namespace Node

variable {rows : List Nat} {number : Nat → Nat}

theorem next_freezeAllFrom {ds : List Draft}
    (h : ∀ d ∈ ds, ∀ id, (freezeFrom rows id d).2 = id + d.labels.length) (id : Nat) :
    (freezeAllFrom rows id ds).2 = id + (ds.flatMap Rose.labels).length := by
  induction ds generalizing id with
  | nil => rfl
  | cons d ds ih =>
    obtain ⟨here, later⟩ := List.forall_mem_cons.1 h
    rw [freezeAllFrom, ih later, here, List.flatMap_cons, List.length_append, Nat.add_assoc]

/-- A draft takes as many numbers as it has nodes. -/
theorem next_freezeFrom (d : Draft) (id : Nat) :
    (freezeFrom rows id d).2 = id + d.labels.length := by
  induction d using Rose.induction generalizing id with
  | node t ds ih =>
    rw [freezeFrom, Rose.labels_node, List.length_cons]
    exact (next_freezeAllFrom ih (id + 1)).trans (by omega)

/-- New numbers that count the nodes that are not extra among those numbered from `id` on. -/
def Counts (number : Nat → Nat) (id : Nat) (tags : List Tag) : Prop :=
  ∀ k ≤ tags.length, number (id + k) = number id + (tags.take k).countP fun t => !t.extra

theorem Counts.head {id : Nat} {tags more : List Tag} (h : Counts number id (tags ++ more)) :
    Counts number id tags := by
  intro k hk
  rw [h k (by simp; omega), List.take_append_of_le_length hk]

theorem Counts.tail {id : Nat} {tags more : List Tag} (h : Counts number id (tags ++ more)) :
    Counts number (id + tags.length) more := by
  intro k hk
  have here := h tags.length (by simp)
  have there := h (tags.length + k) (by simp; omega)
  rw [List.take_left] at here
  rw [List.take_length_add_append, List.countP_append] at there
  rw [Nat.add_assoc, there, here, Nat.add_assoc]

/-- What freezing gives is the frozen draft without its extra nodes. -/
def Freezes (rows : List Nat) (number : Nat → Nat) (d : Draft) : Prop :=
  ∀ id, Counts number id d.labels →
    freezeFrom rows (number id) d.stripped =
      ((freezeFrom rows id d).1.stripped number, number (freezeFrom rows id d).2)

theorem notExtra_freezeFrom (d : Draft) (id : Nat) :
    notExtra (freezeFrom rows id d).1 = !d.label.extra := by
  cases d
  rfl

theorem freezeAllFrom_stripped {ds : List Draft}
    (h : ∀ d ∈ ds, if d.label.extra then d.children = [] else Freezes rows number d) (id : Nat)
    (counts : Counts number id (ds.flatMap Rose.labels)) :
    freezeAllFrom rows (number id) ((ds.filter fun d => !d.label.extra).map Draft.stripped) =
      (((freezeAllFrom rows id ds).1.filter notExtra).map (stripped number),
        number (freezeAllFrom rows id ds).2) := by
  induction ds generalizing id with
  | nil => rfl
  | cons d ds ih =>
    obtain ⟨here, later⟩ := List.forall_mem_cons.1 h
    rw [List.flatMap_cons] at counts
    have rest := ih later _ counts.tail
    rw [← next_freezeFrom d] at rest
    rw [freezeAllFrom, List.filter_cons, List.filter_cons, notExtra_freezeFrom]
    cases extra : d.label.extra with
    | true =>
      have alone : d.labels = [d.label] := by
        obtain ⟨t, children⟩ := d
        rw [extra, if_pos rfl] at here
        obtain rfl : children = [] := here
        rfl
      have same : number (freezeFrom rows id d).2 = number id := by
        have one := counts.head 1 (by simp [alone])
        rw [next_freezeFrom, alone]
        simpa [alone, extra] using one
      rw [same] at rest
      simpa using rest
    | false =>
      rw [extra, if_neg Bool.false_ne_true] at here
      simp only [Bool.not_false, if_true, List.map_cons, freezeAllFrom, here id counts.head, rest]

/-- Where extra nodes have no children, freezing a draft without them gives the frozen draft without
them. -/
theorem freezeFrom_stripped {d : Draft} (root : d.label.extra = false)
    (leafy : ∀ n ∈ d.nodes, n.label.extra → n.children = []) : Freezes rows number d := by
  induction d using Rose.induction with
  | node t ds ih =>
    intro id counts
    have root : t.extra = false := root
    have below := (Rose.forall_nodes_node.1 leafy).2
    have children : ∀ d ∈ ds, if d.label.extra then d.children = [] else Freezes rows number d := by
      intro d hd
      split
      · rename_i extra
        exact below d hd d d.mem_nodes_self extra
      · rename_i kept
        exact ih d hd (Bool.eq_false_iff.2 kept) (below d hd)
    rw [Rose.labels_node, ← List.singleton_append] at counts
    have next : number (id + 1) = number id + 1 := by
      have one := counts 1 (by simp)
      simpa [root] using one
    have later := freezeAllFrom_stripped children (id + 1) counts.tail
    rw [next] at later
    rw [Draft.stripped_node, freezeFrom, freezeFrom]
    simp only [later, stripped_node]

end Node

namespace Draft

/-- The extra nodes of a draft are the comments and the directives; they have no children and no
role, and the root is none of them. -/
structure Extras (d : Draft) : Prop where
  root : d.label.extra = false
  kind : ∀ n ∈ d.nodes, n.label.extra ↔ n.label.kind ∈ extraKinds
  leaf : ∀ n ∈ d.nodes, n.label.extra → n.children = []
  free : ∀ n ∈ d.nodes, n.label.extra → n.label.field = none

theorem thaw_mem_nodes {language : String} {source : List Char} {d : Draft} {c : Cursor}
    (hc : c ∈ (Tree.ofDraft language source d).cursors) : c.node.thaw ∈ d.nodes := by
  have there := List.mem_map_of_mem (f := Cursor.node) hc
  rw [Tree.cursors, Cursor.map_node_preorder] at there
  have thawed : c.node.thaw ∈ (Tree.ofDraft language source d).nodes := by
    rw [Tree.nodes_thaw]
    exact List.mem_map_of_mem there
  rwa [Tree.nodes, Tree.thaw_ofDraft] at thawed

theorem Extras.ofDraft {d : Draft} (h : d.Extras) (language : String) (source : List Char) :
    (Tree.ofDraft language source d).Extras := by
  have extra_iff (c : Cursor) : c.notExtra = false ↔ c.node.thaw.label.extra := by
    rw [Node.label_thaw]
    simp [Cursor.notExtra, Node.notExtra, Node.isExtra]
  refine ⟨?_, fun c hc => ?_, fun c hc extra => ?_, fun c hc extra => ?_⟩
  · exact (Node.notExtra_freezeFrom d 0).trans (by rw [h.root]; rfl)
  · rw [extra_iff, h.kind _ (thaw_mem_nodes hc), Node.label_thaw]
    rfl
  · have childless := h.leaf _ (thaw_mem_nodes hc) ((extra_iff c).1 extra)
    rw [Node.children_thaw, List.map_eq_nil_iff] at childless
    exact List.map_eq_nil_iff.1 (c.map_node_children.trans childless)
  · have free := h.free _ (thaw_mem_nodes hc) ((extra_iff c).1 extra)
    rwa [Node.label_thaw] at free

end Draft

namespace Diagnostic

open Query (Apart)

/-- The tree of a draft without its extra nodes is the tree of the draft without them, under numbers
that keep its nodes apart. -/
theorem exists_number_stripped (language : String) (source : List Char) {d : Draft}
    (extras : d.Extras) : ∃ number,
      Tree.ofDraft language source d.stripped = (Tree.ofDraft language source d).stripped number ∧
        Apart number (.root (.ofDraft language source d)) := by
  let number (i : Nat) : Nat := (d.labels.take i).countP fun t => !t.extra
  have same :
      Tree.ofDraft language source d.stripped =
        (Tree.ofDraft language source d).stripped number := by
    have frozen : Node.freezeFrom (Text.rowStarts source) (number 0) d.stripped = _ :=
      Node.freezeFrom_stripped extras.root extras.leaf 0 fun k _ => by simp [number]
    exact congrArg (fun n : Node × Nat => Tree.mk language source n.1) frozen
  refine ⟨number, same, ?_⟩
  have marked := extras.ofDraft language source
  obtain ⟨n, _, ids⟩ := Cursor.ids_walk (Text.rowStarts source) d.stripped 0 []
  have nodup : ((Cursor.root (.ofDraft language source d.stripped)).preorder.map Cursor.id).Nodup :=
    ids ▸ List.nodup_range'
  have moved : (Cursor.root ((Tree.ofDraft language source d).stripped number)).preorder =
      ((Tree.ofDraft language source d).cursors.filter Cursor.notExtra).map
        (Cursor.stripped number) :=
    Cursor.preorder_stripped _ marked.root marked.leaf
  rw [same, moved, List.map_map] at nodup
  intro c hc e he keptc kepte equal
  have one : c = e := List.inj_on_of_nodup_map nodup (List.mem_filter.2 ⟨hc, keptc⟩)
    (List.mem_filter.2 ⟨he, kepte⟩) (by simpa [Cursor.id_stripped] using equal)
  rw [one]

/-- A tree has the same diagnostics in the same order as the tree without the comments and the
directives, less the hints about comments. -/
theorem analyze_stripped (language : String) (source : List Char) {d : Draft} (extras : d.Extras)
    (flags : Flags) :
    analyze rules flags (.ofDraft language source d.stripped) =
      (analyze rules flags (.ofDraft language source d)).filter (·.severity != .hint) := by
  obtain ⟨number, same, apart⟩ := exists_number_stripped language source extras
  rw [same]
  exact analyze_rules_stripped (extras.ofDraft language source) apart flags

/-- A comment between a jump and what it makes unreachable has no effect but its own hint. -/
theorem analyze_stripped_commented :
    let text := "route \x7b\ndrop; # a\nexit;\n\x7d".toList
    let severities (d : Draft) :=
      (analyze rules ⟨true, true⟩ (.ofDraft "kamailio_cfg" text d)).map severity
    severities (Script.draft text) = [.hint, .warning] ∧
      severities (Script.draft text).stripped = [.warning] := by
  intro text severities
  have extras : (Script.draft text).Extras :=
    ⟨by decide, by decide +kernel, by decide +kernel, by decide +kernel⟩
  refine ⟨by decide +kernel, ?_⟩
  dsimp only [severities]
  rw [analyze_stripped "kamailio_cfg" text extras]
  decide +kernel

end Diagnostic

end RouteScript
