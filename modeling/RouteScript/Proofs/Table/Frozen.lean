import RouteScript.Proofs.Table.Basic
import RouteScript.Proofs.Bytes
import RouteScript.Proofs.Editor.Nodes
import RouteScript.Proofs.Descent
/-!
# What freezing keeps

A frozen tree is its draft, numbered: the numbers are those of the preorder, so that the nodes below
a node have an interval of them, and steps to the parent, to a child and to a sibling undo each
other. The row of an offset is the number of line feeds among the bytes before it, the column is the
distance to the start of that row, also for an offset inside a character.
-/
namespace RouteScript

/-- The point of an offset among bytes: it counts the line feeds before, and the bytes since the
start of the row, which is the start of the text or stands right behind a line feed. -/
structure Point.Counted (bytes : List UInt8) (offset : Nat) (p : Point) : Prop where
  row : p.row = (bytes.take offset).count 10
  column : ∃ start ≤ offset, (start = 0 ∨ bytes[start - 1]? = some 10) ∧
    10 ∉ (bytes.take offset).drop start ∧ p.column = offset - start

namespace Text

/-- Offsets behind every line feed among bytes that start at `offset`. -/
def feedsFrom (offset : Nat) : List UInt8 → List Nat
  | [] => []
  | b :: rest =>
    if b = 10 then (offset + 1) :: feedsFrom (offset + 1) rest else feedsFrom (offset + 1) rest

theorem feedsFrom_append (offset : Nat) (s t : List UInt8) :
    feedsFrom offset (s ++ t) = feedsFrom offset s ++ feedsFrom (offset + s.length) t := by
  induction s generalizing offset with
  | nil => rfl
  | cons b s ih =>
    have onward : offset + 1 + s.length = offset + (b :: s).length := by
      rw [List.length_cons]
      omega
    rw [List.cons_append, feedsFrom, feedsFrom, ih, onward]
    split <;> rfl

theorem feedsFrom_eq_nil (offset : Nat) {s : List UInt8} (h : 10 ∉ s) :
    feedsFrom offset s = [] := by
  induction s generalizing offset with
  | nil => rfl
  | cons b s ih =>
    obtain ⟨here, later⟩ := List.ne_and_not_mem_of_not_mem_cons h
    rw [feedsFrom, if_neg (Ne.symm here), ih _ later]

theorem length_feedsFrom (offset : Nat) (s : List UInt8) :
    (feedsFrom offset s).length = s.count 10 := by
  induction s generalizing offset with
  | nil => rfl
  | cons b s ih =>
    rw [feedsFrom, List.count_cons]
    split
    · rename_i feed
      simp [feed, ih]
    · rename_i other
      simp [other, ih]

theorem feedsFrom_bounds {offset row : Nat} {s : List UInt8} (h : row ∈ feedsFrom offset s) :
    offset < row ∧ row ≤ offset + s.length := by
  induction s generalizing offset with
  | nil => contradiction
  | cons b s ih =>
    rw [feedsFrom] at h
    rw [List.length_cons]
    split at h
    · rcases List.mem_cons.1 h with rfl | h
      · omega
      · have := ih h
        omega
    · have := ih h
      omega

/-- A character but the line feed has no line feed among its bytes. -/
theorem notMem_utf8EncodeChar {c : Char} (h : c ≠ '\n') : 10 ∉ String.utf8EncodeChar c := by
  have other : c.val.toNat ≠ 10 := fun eq => h (Char.ext (UInt32.toNat_inj.1 eq))
  have byte (n : Nat) (bound : n < 256) (ne : n ≠ 10) : (10 : UInt8) ≠ UInt8.ofNat n := by
    intro eq
    have same := congrArg UInt8.toNat eq
    rw [UInt8.toNat_ofNat', Nat.mod_eq_of_lt bound] at same
    exact ne same.symm
  unfold String.utf8EncodeChar
  generalize c.val.toNat = m at other
  dsimp only
  -- all bytes of a form of more than one are at least 128
  split_ifs <;> simp only [List.mem_cons, List.not_mem_nil, or_false, not_or]
  · exact byte _ (by omega) other
  · exact ⟨byte _ (by omega) (by omega), byte _ (by omega) (by omega)⟩
  · exact ⟨byte _ (by omega) (by omega), byte _ (by omega) (by omega), byte _ (by omega) (by omega)⟩
  · exact ⟨byte _ (by omega) (by omega), byte _ (by omega) (by omega),
      byte _ (by omega) (by omega), byte _ (by omega) (by omega)⟩

/-- Rows start behind the line feeds among the bytes. -/
theorem rowStartsFrom_eq (offset : Nat) (text : List Char) :
    rowStartsFrom offset text = feedsFrom offset (text.flatMap String.utf8EncodeChar) := by
  induction text generalizing offset with
  | nil => rfl
  | cons c text ih =>
    rw [List.flatMap_cons, feedsFrom_append, String.length_utf8EncodeChar, ← ih, rowStartsFrom]
    split
    · rename_i feed
      subst feed
      rfl
    · rename_i other
      rw [feedsFrom_eq_nil _ (notMem_utf8EncodeChar other), List.nil_append]

theorem getLast?_feedsFrom {front row : List UInt8} (unbroken : 10 ∉ row)
    (ended : front = [] ∨ front.getLast? = some 10) :
    (0 :: feedsFrom 0 (front ++ row)).getLast?.getD 0 = front.length := by
  rw [feedsFrom_append, feedsFrom_eq_nil _ unbroken, List.append_nil]
  rcases ended with rfl | last
  · rfl
  · obtain ⟨inner, rfl⟩ := List.getLast?_eq_some_iff.1 last
    have last : 0 :: feedsFrom 0 (inner ++ [10]) =
        (0 :: feedsFrom 0 inner) ++ [inner.length + 1] := by
      rw [feedsFrom_append, Nat.zero_add]
      rfl
    rw [last, List.getLast?_concat, List.length_append]
    rfl

theorem length_bytes (text : List Char) :
    (text.flatMap String.utf8EncodeChar).length = size text := by
  induction text with
  | nil => rfl
  | cons c text ih =>
    rw [List.flatMap_cons, List.length_append, ih, String.length_utf8EncodeChar, size_cons]

end Text

/-- The rows that start up to an offset are those behind the line feeds before it. -/
theorem Text.takeWhile_rowStarts {text : List Char} {offset : Nat} (inside : offset ≤ size text) :
    (rowStarts text).takeWhile (· ≤ offset) =
      0 :: feedsFrom 0 ((text.flatMap String.utf8EncodeChar).take offset) := by
  have length : ((text.flatMap String.utf8EncodeChar).take offset).length = offset := by
    rw [List.length_take, length_bytes, Nat.min_eq_left inside]
  have parts := feedsFrom_append 0 ((text.flatMap String.utf8EncodeChar).take offset)
    ((text.flatMap String.utf8EncodeChar).drop offset)
  rw [List.take_append_drop, length, Nat.zero_add] at parts
  rw [rowStarts, List.takeWhile_cons_of_pos (by simp), rowStartsFrom_eq, parts,
    List.takeWhile_append_of_pos]
  · rw [List.takeWhile_eq_nil_iff.2, List.append_nil]
    intro some_row
    have := (feedsFrom_bounds (List.getElem_mem some_row)).1
    simp
    omega
  · intro row hrow
    have := (feedsFrom_bounds hrow).2
    simp
    omega

/-- The point of an offset counts over the bytes before it. -/
theorem Point.counted_ofOffset {text : List Char} {offset : Nat}
    (inside : offset ≤ Text.size text) : Counted (text.flatMap String.utf8EncodeChar) offset
      (.ofOffset (Text.rowStarts text) offset) := by
  obtain ⟨front, row, split, unbroken, ended⟩ :=
    Text.exists_lastRow 10 ((text.flatMap String.utf8EncodeChar).take offset)
  have length : front.length + row.length = offset := by
    rw [← List.length_append, ← split, List.length_take, Text.length_bytes,
      Nat.min_eq_left inside]
  refine ⟨?_, front.length, by omega, ?_, ?_, ?_⟩
  · rw [ofOffset, Text.takeWhile_rowStarts inside]
    simp [Text.length_feedsFrom]
  · refine ended.imp (by simp) fun last => ?_
    have some_byte : 0 < front.length := List.length_pos_iff.2 fun none => by simp [none] at last
    rw [← List.getElem?_take_of_lt (show front.length - 1 < offset by omega), split,
      List.getElem?_append_left (by omega), ← List.getLast?_eq_getElem?, last]
  · rw [split, List.drop_left]
    exact unbroken
  · rw [ofOffset, Text.takeWhile_rowStarts inside, split, Text.getLast?_feedsFrom unbroken ended]

theorem Rose.size_node {α : Type u} (a : α) (cs : List (Rose α)) :
    size (.node a cs) = 1 + (cs.map size).foldr (· + ·) 0 := by
  rw [size, fold_node]
  rfl

theorem Rose.length_labels {α : Type u} (t : Rose α) : t.labels.length = t.size := by
  induction t using Rose.induction with
  | node a cs ih =>
    rw [labels_node, size_node, List.length_cons, List.length_flatMap, List.map_congr_left ih,
      List.sum_eq_foldr, Nat.add_comm]

namespace Node

/-- A node that freezing its draft from its number on gives back. -/
def Frozen (rows : List Nat) (n : Node) : Prop := (freezeFrom rows n.id n.thaw).1 = n

theorem frozen_freezeAllFrom {rows : List Nat} {ds : List Draft}
    (h : ∀ d ∈ ds, ∀ id, ∀ n ∈ (freezeFrom rows id d).1.nodes, Frozen rows n) (id : Nat) :
    ∀ c ∈ (freezeAllFrom rows id ds).1, ∀ n ∈ c.nodes, Frozen rows n := by
  induction ds generalizing id with
  | nil => simp [freezeAllFrom]
  | cons d ds ih =>
    simp only [freezeAllFrom, List.forall_mem_cons] at h ⊢
    exact ⟨h.1 id, ih h.2 _⟩

theorem frozen_freezeFrom (rows : List Nat) (d : Draft) (id : Nat) :
    ∀ n ∈ (freezeFrom rows id d).1.nodes, Frozen rows n := by
  induction d using Rose.induction generalizing id with
  | node t cs ih =>
    have whole := thaw_freezeFrom rows (.node t cs) id
    simp only [freezeFrom] at whole ⊢
    refine Rose.forall_nodes_node.2 ⟨?_, frozen_freezeAllFrom ih (id + 1)⟩
    rw [Frozen, whole]
    rfl

end Node

namespace Cursor

variable {language : String} {source : List Char} {d : Draft} {p c s : Cursor} {i : Nat}

theorem node_mem_nodes {t : Tree} (hc : c ∈ t.cursors) : c.node ∈ t.root.nodes := by
  have nodes := map_node_preorder (root t)
  exact nodes ▸ List.mem_map_of_mem hc

/-- The numbers of the places below a place are an interval, in preorder. -/
theorem ids_preorder (hc : c ∈ (Tree.ofDraft language source d).cursors) :
    c.preorder.map id = List.range' c.id c.node.size := by
  have frozen : c.node.Frozen (Text.rowStarts source) :=
    Node.frozen_freezeFrom _ _ _ _ (node_mem_nodes hc)
  obtain ⟨n, next, ids⟩ := ids_walk (Text.rowStarts source) c.node.thaw c.node.id c.above
  rw [Node.next_freezeFrom, Rose.length_labels] at next
  rw [Node.Frozen] at frozen
  rw [frozen] at ids
  have size : c.node.thaw.size = c.node.size := by
    rw [← Rose.length_labels, ← Rose.length_labels, Node.thaw, Rose.labels_map, List.length_map]
  rw [← size, show c.node.thaw.size = n by omega]
  exact ids

theorem Stands.child_iff (hc : c.Stands) :
    p.children[i]? = some c ↔ c.parent? = some p ∧ c.index? = some i := by
  rw [getElem?_children]
  constructor
  · intro there
    obtain ⟨n, _, rfl⟩ := Option.map_eq_some_iff.1 there
    exact ⟨rfl, rfl⟩
  · obtain ⟨n, _ | ⟨⟨q, k⟩, rest⟩⟩ := c
    · rintro ⟨parent, _⟩
      exact absurd parent (by simp [parent?])
    · rintro ⟨parent, index⟩
      obtain rfl := Option.some.inj parent
      obtain rfl : k = i := Option.some.inj index
      rw [hc q k rest rfl]
      rfl

/-- The sibling behind a child is the child with the next index. -/
theorem nextSibling?_of_child (child : p.children[i]? = some c) :
    c.nextSibling? = p.children[i + 1]? := by
  rw [getElem?_children] at child
  obtain ⟨n, _, rfl⟩ := Option.map_eq_some_iff.1 child
  change (p.children.drop (i + 1)).head? = _
  rw [List.head?_drop]

/-- The sibling before a child is the child with the index before. -/
theorem previousSibling?_of_child (child : p.children[i + 1]? = some c) :
    c.previousSibling? = p.children[i]? := by
  have inside := (List.getElem?_eq_some_iff.1 child).1
  rw [getElem?_children] at child
  obtain ⟨n, _, rfl⟩ := Option.map_eq_some_iff.1 child
  change (p.children.take (i + 1)).reverse.head? = _
  rw [List.head?_reverse, List.getLast?_eq_getElem?, List.length_take, Nat.min_eq_left (by omega)]
  exact List.getElem?_take_of_lt (Nat.lt_succ_self i)

theorem previousSibling?_of_first (child : p.children[0]? = some c) :
    c.previousSibling? = none := by
  rw [getElem?_children] at child
  obtain ⟨n, _, rfl⟩ := Option.map_eq_some_iff.1 child
  rfl

/-- A place is the root or one of the children of its parent. -/
theorem Stands.root_or_child (hc : c.Stands) :
    c.above = [] ∨ ∃ (p : Cursor) (i : Nat), c.parent? = some p ∧ p.children[i]? = some c := by
  obtain ⟨n, _ | ⟨⟨q, k⟩, rest⟩⟩ := c
  · exact .inl rfl
  · exact .inr ⟨⟨q, rest⟩, k, rfl, hc.child_iff.2 ⟨rfl, rfl⟩⟩

/-- Steps to the next and to the previous sibling undo each other. -/
theorem nextSibling?_eq_some_iff (hc : c.Stands) (hs : s.Stands) :
    c.nextSibling? = some s ↔ s.previousSibling? = some c := by
  constructor
  · intro next
    rcases hc.root_or_child with root | ⟨p, i, _, child⟩
    · rw [nextSibling?, following, root] at next
      contradiction
    · rw [nextSibling?_of_child child] at next
      rw [previousSibling?_of_child next, child]
  · intro previous
    rcases hs.root_or_child with root | ⟨p, i, _, child⟩
    · rw [previousSibling?, preceding, root] at previous
      contradiction
    · cases i with
      | zero =>
        rw [previousSibling?_of_first child] at previous
        contradiction
      | succ i =>
        rw [previousSibling?_of_child child] at previous
        rw [nextSibling?_of_child previous, child]

end Cursor

/-- What the frozen tree of a draft is to it. -/
structure Tree.Freezes (t : Tree) (d : Draft) : Prop where
  /-- The nodes have the numbers from zero on, in preorder. -/
  numbers : t.cursors.map Cursor.id = List.range d.size
  /-- The draft can be read back through the children, at the root and below. -/
  whole : (Cursor.root t).draft = d
  below : ∀ c ∈ t.cursors, c.draft = .node c.node.tag (c.children.map Cursor.draft)
  /-- A stack lays down the same records, and from them no other draft can be read. -/
  records : Table.ofDraft t.source d = t.cursors.map Cursor.record
  readBack : ∀ d', (Table.ofDraft t.source d).Holds 0 d' ↔ d' = d
  /-- The places below a place have an interval of numbers, which both walks meet in order. -/
  interval : ∀ c ∈ t.cursors, c.preorder.map Cursor.id = List.range' c.id c.node.size
  visited : ∀ c ∈ t.cursors, ∀ n, c.node.size ≤ n →
    (Table.ofDraft t.source d).visit n [c.id] = List.range' c.id c.node.size
  /-- Steps down and up, and from sibling to sibling, undo each other. -/
  child : ∀ p ∈ t.cursors, ∀ c ∈ t.cursors, ∀ i,
    p.children[i]? = some c ↔ c.parent? = some p ∧ c.index? = some i
  parent : ∀ c ∈ t.cursors, c = .root t ∨ ∃ p ∈ t.cursors, c.parent? = some p
  sibling : ∀ p ∈ t.cursors, ∀ i c, p.children[i]? = some c → c.nextSibling? = p.children[i + 1]?
  siblings : ∀ c ∈ t.cursors, ∀ s ∈ t.cursors,
    c.nextSibling? = some s ↔ s.previousSibling? = some c
  /-- The points of the ends count over the bytes of the text. -/
  startPoint : ∀ c ∈ t.cursors, c.node.start ≤ Text.size t.source →
    Point.Counted (t.source.flatMap String.utf8EncodeChar) c.node.start c.node.startPoint
  stopPoint : ∀ c ∈ t.cursors, c.node.stop ≤ Text.size t.source →
    Point.Counted (t.source.flatMap String.utf8EncodeChar) c.node.stop c.node.stopPoint

namespace Tree

/-- Freezing a draft over a text loses nothing. -/
theorem freezes_ofDraft (language : String) (source : List Char) (d : Draft) :
    Freezes (ofDraft language source d) d := by
  have root : Cursor.root (ofDraft language source d) ∈ (ofDraft language source d).cursors :=
    Cursor.mem_preorder_self _
  have whole : (Cursor.root (ofDraft language source d)).draft = d :=
    thaw_ofDraft language source d
  have held : (Table.ofDraft source d).Holds 0 d := by
    have here := Table.holds_draft root
    rw [whole] at here
    cases d
    exact here
  have stands {c : Cursor} (hc : c ∈ (ofDraft language source d).cursors) : c.Stands :=
    stands_of_mem_cursors hc
  have placed {c : Cursor} (hc : c ∈ (ofDraft language source d).cursors) :
      c.node.Placed (Text.rowStarts source) :=
    Node.placed_freezeFrom _ _ _ _ (Cursor.node_mem_nodes hc)
  refine ⟨?_, whole, fun c _ => ?_, Table.ofDraft_eq .., fun d' => ⟨fun h => ?_, ?_⟩,
    fun c hc => Cursor.ids_preorder hc, fun c hc n enough => ?_,
    fun p _ c hc i => (stands hc).child_iff, fun c hc => ?_,
    fun p _ i c child => Cursor.nextSibling?_of_child child,
    fun c hc s hs => Cursor.nextSibling?_eq_some_iff (stands hc) (stands hs), ?_, ?_⟩
  · rw [ids_cursors, Rose.length_labels]
  · rw [Cursor.map_draft_children, ← Cursor.label_draft]
    cases c.draft
    rfl
  · exact h.unique held
  · rintro rfl
    exact held
  · have count : c.preorder.length = c.node.size := by
      rw [← List.length_map, Cursor.ids_preorder hc, List.length_range']
    have walked := Table.visit_cons hc (n - c.node.size) []
    rw [count, Nat.add_sub_cancel' enough, Cursor.ids_preorder hc, Table.visit_nil,
      List.append_nil] at walked
    exact walked
  · rcases Cursor.exists_parent hc with rfl | ⟨p, hp, child⟩
    · exact .inl rfl
    · exact .inr ⟨p, hp, Cursor.parent?_of_mem_children child⟩
  · intro c hc inside
    rw [(placed hc).start]
    exact Point.counted_ofOffset inside
  · intro c hc inside
    rw [(placed hc).stop]
    exact Point.counted_ofOffset inside

end Tree

end RouteScript
