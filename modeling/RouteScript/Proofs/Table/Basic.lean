import RouteScript.Proofs.Siblings
/-!
# Trees as tables

A table has the nodes of a tree one behind the other, each with the number of its parent and the
numbers of its children. `Table.ofDraft` lays a draft down with a stack of what still waits: a node
on top of the stack joins the children of its parent, whose record is filled in that way while later
children wait. The records are those of the frozen tree in preorder.
-/
namespace RouteScript

/-- What a table has of a node. -/
structure Record where
  tag : Tag
  startPoint : Point
  stopPoint : Point
  parent : Option Nat
  /-- The index among the children of the parent, zero at the root. -/
  index : Nat
  children : List Nat
  deriving DecidableEq, Repr

abbrev Table := List Record

namespace Table

/-- Adds a child to the record of its parent. -/
def adopt (table : Table) (parent : Option Nat) (child : Nat) : Table :=
  match parent with
  | none => table
  | some p => table.modify p fun r => { r with children := r.children ++ [child] }

/-- How many children a parent has so far. -/
def childCount (table : Table) (parent : Option Nat) : Nat :=
  ((parent.bind (table[·]?)).map fun r => r.children.length).getD 0

/-- The children of a node as they wait, each with the number of the node. -/
def waiting (parent : Nat) (children : List Draft) : List (Draft × Option Nat) :=
  children.map fun d => (d, some parent)

/-- The record of a node whose children all wait. -/
def opened (rows : List Nat) (tag : Tag) (parent : Option Nat) (index : Nat) : Record :=
  ⟨tag, .ofOffset rows tag.start, .ofOffset rows tag.stop, parent, index, []⟩

/-- Lays down what waits on a stack, each draft with the number of its parent. -/
def fill (rows : List Nat) (table : Table) : List (Draft × Option Nat) → Table
  | [] => table
  | (.node tag children, parent) :: rest =>
    fill rows
      (table.adopt parent table.length ++ [opened rows tag parent (table.childCount parent)])
      (waiting table.length children ++ rest)
termination_by stack => (stack.flatMap fun waits => waits.1.labels).length
decreasing_by
  rw [waiting, List.flatMap_append, List.flatMap_map, List.flatMap_cons, Rose.labels_node]
  exact Nat.lt_succ_self _

/-- The table of a draft over its text. -/
def ofDraft (source : List Char) (d : Draft) : Table := fill (Text.rowStarts source) [] [(d, none)]

/-- The draft whose root has a number in a table, read through the numbers of the children. -/
inductive Holds (table : Table) : Nat → Draft → Prop
  | node {i : Nat} {r : Record} {ds : List Draft} (here : table[i]? = some r)
      (below : List.Forall₂ (Holds table) r.children ds) : Holds table i (.node r.tag ds)

/-- The first `n` numbers that come off a stack, where the children of a node go on top of it. -/
def visit (table : Table) : Nat → List Nat → List Nat
  | 0, _ => []
  | _, [] => []
  | n + 1, i :: stack => i :: visit table n (((table[i]?).map Record.children).getD [] ++ stack)

end Table

namespace Cursor

/-- The index among the children of the parent. -/
def index? (c : Cursor) : Option Nat := c.above.head?.map Prod.snd

/-- The record of a place in a tree. -/
def record (c : Cursor) : Record :=
  ⟨c.node.tag, c.node.startPoint, c.node.stopPoint, c.parent?.map id, c.index?.getD 0,
    c.children.map id⟩

end Cursor

namespace Table

open Node (freezeFrom freezeAllFrom)
open Cursor (walk walkAll record)

variable {rows : List Nat}

theorem length_adopt (table : Table) (parent : Option Nat) (child : Nat) :
    (table.adopt parent child).length = table.length := by
  cases parent with
  | none => rfl
  | some p => exact List.length_modify ..

theorem adopt_append (front back : Table) (r : Record) (child : Nat) :
    adopt (front ++ r :: back) (some front.length) child =
      front ++ { r with children := r.children ++ [child] } :: back := by
  rw [adopt, List.modify_eq_take_drop, List.take_left, List.drop_left]
  rfl

theorem childCount_append (front back : Table) (r : Record) :
    childCount (front ++ r :: back) (some front.length) = r.children.length := by
  simp [childCount]

theorem length_walk (above : List (Node × Nat)) (rows : List Nat) (d : Draft) (id : Nat) :
    id + (walk above (freezeFrom rows id d).1).length = (freezeFrom rows id d).2 := by
  obtain ⟨n, next, ids⟩ := Cursor.ids_walk rows d id above
  have length := congrArg List.length ids
  rw [List.length_map, List.length_range'] at length
  rw [length, next]

/-- The number of the parent that a way down leads through last. -/
def holder (above : List (Node × Nat)) : Option Nat := above.head?.map fun step => step.1.id

theorem record_eq (n : Node) (above : List (Node × Nat)) : record ⟨n, above⟩ =
    ⟨n.tag, n.startPoint, n.stopPoint, holder above, (above.head?.map Prod.snd).getD 0,
      n.children.map Node.id⟩ := by
  have children : (Cursor.mk n above).children.map Cursor.id = n.children.map Node.id := by
    rw [← (Cursor.mk n above).map_node_children, List.map_map]
    rfl
  have parent : (Cursor.mk n above).parent?.map Cursor.id = holder above := by
    cases above <;> rfl
  rw [record, children, parent]
  rfl

/-- A draft on top of the stack is laid down whole before anything that waits behind it: its parent
adopts the next number, and the records of its nodes in preorder follow. -/
def LaysDown (rows : List Nat) (d : Draft) : Prop :=
  ∀ (table : Table) (above : List (Node × Nat)) (rest : List (Draft × Option Nat)),
    table.childCount (holder above) = (above.head?.map Prod.snd).getD 0 →
      fill rows table ((d, holder above) :: rest) =
        fill rows (table.adopt (holder above) table.length ++
          (walk above (freezeFrom rows table.length d).1).map record) rest

/-- The children of a node, when its record stands behind `front` and other records behind that. -/
theorem fill_children {p : Node} {front : Table} (number : front.length = p.id) {ds : List Draft}
    (h : ∀ d ∈ ds, LaysDown rows d) (above : List (Node × Nat)) (r : Record) (back : Table)
    (rest : List (Draft × Option Nat)) :
    let frozen := (freezeAllFrom rows (front ++ r :: back).length ds).1
    fill rows (front ++ r :: back) (waiting p.id ds ++ rest) =
      fill rows (front ++ { r with children := r.children ++ frozen.map Node.id } ::
        (back ++ (walkAll above p r.children.length frozen).map record)) rest := by
  induction ds generalizing r back with
  | nil => simp [waiting, freezeAllFrom, walkAll]
  | cons d ds ih =>
    obtain ⟨first, others⟩ := List.forall_mem_cons.1 h
    have top : waiting p.id (d :: ds) = (d, some p.id) :: waiting p.id ds := rfl
    have ready : childCount (front ++ r :: back) (some p.id) = r.children.length := by
      rw [← number, childCount_append]
    have laid := first _ ((p, r.children.length) :: above) (waiting p.id ds ++ rest) ready
    rw [show holder ((p, r.children.length) :: above) = some p.id from rfl, ← number, adopt_append,
      number, List.append_assoc, List.cons_append] at laid
    have id_first : Node.id (freezeFrom rows (front ++ r :: back).length d).1 =
        (front ++ r :: back).length := by
      cases d
      rfl
    -- the next child gets the number behind those of the first and all below it
    have next : (front ++ { r with children := r.children ++ [(front ++ r :: back).length] } ::
        (back ++ (walk ((p, r.children.length) :: above)
          (freezeFrom rows (front ++ r :: back).length d).1).map record)).length =
        (freezeFrom rows (front ++ r :: back).length d).2 := by
      rw [← length_walk ((p, r.children.length) :: above)]
      simp only [List.length_append, List.length_cons, List.length_map]
      omega
    have count : (r.children ++ [(front ++ r :: back).length]).length = r.children.length + 1 :=
      List.length_append
    rw [top, List.cons_append, laid, ih others, next, count]
    simp only [freezeAllFrom, walkAll, List.map_cons, List.map_append, List.append_assoc,
      List.singleton_append, id_first]

theorem laysDown (rows : List Nat) (d : Draft) : LaysDown rows d := by
  induction d using Rose.induction with
  | node tag ds ih =>
    intro table above rest ready
    have number : (table.adopt (holder above) table.length).length =
        Node.id (freezeFrom rows table.length (.node tag ds)).1 := length_adopt ..
    have below := fill_children number ih above
      (opened rows tag (holder above) (table.childCount (holder above))) [] rest
    have length : (table.adopt (holder above) table.length ++
        [opened rows tag (holder above) (table.childCount (holder above))]).length =
          table.length + 1 := by
      rw [List.length_append, length_adopt, List.length_singleton]
    rw [length] at below
    rw [fill]
    refine below.trans ?_
    rw [freezeFrom, walk, List.map_cons, ready, record_eq]
    rfl

/-- The table of a draft has the records of the places in its tree, in preorder. -/
theorem ofDraft_eq (language : String) (source : List Char) (d : Draft) :
    ofDraft source d = (Tree.ofDraft language source d).cursors.map record := by
  have laid := laysDown (Text.rowStarts source) d [] [] [] rfl
  rw [fill] at laid
  exact laid

end Table

namespace Tree

variable {language : String} {source : List Char} {d : Draft} {c : Cursor}

/-- The nodes of a frozen tree have the numbers from zero on, in preorder. -/
theorem ids_cursors (language : String) (source : List Char) (d : Draft) :
    (ofDraft language source d).cursors.map Cursor.id = List.range d.labels.length := by
  obtain ⟨n, next, ids⟩ := Cursor.ids_walk (Text.rowStarts source) d 0 []
  rw [Node.next_freezeFrom] at next
  rw [List.range_eq_range', show d.labels.length = n by omega]
  exact ids

theorem getElem?_records (hc : c ∈ (ofDraft language source d).cursors) :
    (Table.ofDraft source d)[c.id]? = some c.record := by
  obtain ⟨i, inside, rfl⟩ := List.mem_iff_getElem.1 hc
  have number : (ofDraft language source d).cursors[i].id = i := by
    have there := congrArg (·[i]?) (ids_cursors language source d)
    have length := congrArg List.length (ids_cursors language source d)
    simp only [List.length_map, List.length_range] at length
    simpa [inside, ← length] using there
  rw [Table.ofDraft_eq language, number, List.getElem?_map, List.getElem?_eq_getElem inside]
  rfl

end Tree

namespace Table

variable {table : Table} {language : String} {source : List Char} {d : Draft} {c : Cursor}

theorem eq_of_forall₂ {numbers : List Nat} {ds ds' : List Draft}
    (h : ∀ d ∈ ds, ∀ i d', Holds table i d → Holds table i d' → d = d')
    (below : List.Forall₂ (Holds table) numbers ds)
    (below' : List.Forall₂ (Holds table) numbers ds') : ds = ds' := by
  induction below generalizing ds' with
  | nil => exact (List.forall₂_nil_left_iff.1 below').symm
  | cons first _ ih =>
    obtain ⟨here, later⟩ := List.forall_mem_cons.1 h
    cases below' with
    | cons first' others' => rw [here _ _ first first', ih later others']

/-- What can be read at a number is determined. -/
theorem Holds.unique {i : Nat} {d d' : Draft} (h : Holds table i d) (h' : Holds table i d') :
    d = d' := by
  induction d using Rose.induction generalizing i d' with
  | node t ds ih =>
    cases h with
    | node here below =>
      cases h' with
      | node here' below' =>
        obtain rfl := Option.some.inj (here.symm.trans here')
        rw [eq_of_forall₂ (fun d hd i d' => ih d hd) below below']

/-- At the number of a place stands the draft of its node. -/
theorem holds_draft (hc : c ∈ (Tree.ofDraft language source d).cursors) :
    (ofDraft source d).Holds c.id c.draft := by
  induction c using Cursor.induction with
  | step c ih =>
    have eq : c.draft = .node c.record.tag (c.children.map Cursor.draft) := by
      rw [Cursor.map_draft_children, show c.record.tag = c.draft.label from c.label_draft.symm]
      cases c.draft
      rfl
    rw [eq]
    refine .node (Tree.getElem?_records hc) ?_
    rw [show c.record.children = c.children.map Cursor.id from rfl, List.forall₂_map_left_iff,
      List.forall₂_map_right_iff, List.forall₂_same]
    exact fun e he => ih e he (Cursor.mem_preorder_of_child hc he)

theorem visit_nil (table : Table) (n : Nat) : table.visit n [] = [] := by
  cases n <;> rfl

/-- The walk with a stack meets the places below a place in preorder, then what else waits. -/
theorem visit_cons (hc : c ∈ (Tree.ofDraft language source d).cursors) (n : Nat)
    (stack : List Nat) :
    (ofDraft source d).visit (c.preorder.length + n) (c.id :: stack) =
      c.preorder.map Cursor.id ++ (ofDraft source d).visit n stack := by
  induction c using Cursor.induction generalizing n stack with
  | step c ih =>
    have below (cs : List Cursor) (sub : ∀ e ∈ cs, e ∈ c.children) :
        (ofDraft source d).visit ((cs.flatMap Cursor.preorder).length + n)
            (cs.map Cursor.id ++ stack) =
          (cs.flatMap Cursor.preorder).map Cursor.id ++ (ofDraft source d).visit n stack := by
      induction cs with
      | nil => simp
      | cons e cs ih' =>
        obtain ⟨first, others⟩ := List.forall_mem_cons.1 sub
        rw [List.flatMap_cons, List.length_append, Nat.add_assoc, List.map_cons, List.cons_append,
          ih e first (Cursor.mem_preorder_of_child hc first), ih' others, List.map_append,
          List.append_assoc]
    rw [Cursor.preorder_eq, List.length_cons, Nat.add_right_comm, visit,
      Tree.getElem?_records hc, List.map_cons, List.cons_append]
    exact congrArg (c.id :: ·) (below c.children fun _ he => he)

end Table

end RouteScript
