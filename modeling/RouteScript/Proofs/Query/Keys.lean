import RouteScript.Proofs.Query.Grouped
import RouteScript.Proofs.Query.Match
/-!
# What tells bindings apart

Matches are compared by the names and the nodes of their captures, the keys. `Pattern.isTelling`
says that the keys tell how a pattern was bound, and `Pattern.isOrderly` that bindings with equal
keys come one after the other.
-/
namespace RouteScript.Query

namespace Pattern

mutual

/-- Whether there is no alternation in the pattern. -/
def isPlain : Pattern → Bool
  | node _ children _ => allPlain children
  | oneOf _ _ => false

def allPlain : List (Option String × Pattern) → Bool
  | [] => true
  | (_, p) :: rest => isPlain p && allPlain rest

end

mutual

/-- Number of the captures that a binding has, without those inside alternations. -/
def width : Pattern → Nat
  | node _ children captures => captures.length + widthAmong children
  | oneOf _ captures => captures.length

def widthAmong : List (Option String × Pattern) → Nat
  | [] => 0
  | (_, p) :: rest => width p + widthAmong rest

end

mutual

/-- Whether the captures tell how the pattern was bound: something is captured in every child. -/
def isTelling : Pattern → Bool
  | node _ children _ => allTelling children
  | oneOf _ _ => false

def allTelling : List (Option String × Pattern) → Bool
  | [] => true
  | (_, p) :: rest => p.width != 0 && isTelling p && allTelling rest

end

mutual

/-- Whether bindings with equal captures come one after the other: before the last child pattern
that captures something, the captures tell how the pattern was bound. -/
def isOrderly : Pattern → Bool
  | node _ children _ => orderlyAmong children
  | oneOf _ _ => false

def orderlyAmong : List (Option String × Pattern) → Bool
  | [] => true
  | (_, p) :: rest =>
    if widthAmong rest = 0 then isOrderly p
    else p.width != 0 && isTelling p && orderlyAmong rest

end

end Pattern

def keysAt (p : Pattern) (c : Cursor) : List (List (Nat × Nat)) :=
  (bindings p c).map (List.map Capture.key)

def keysAmong (patterns : List (Option String × Pattern)) (nodes : List Cursor) :
    List (List (Nat × Nat)) :=
  (bindingsAmong patterns nodes).map (List.map Capture.key)

section Keys

variable {m : Matcher} {children rest : List (Option String × Pattern)} {captures : List Nat}
  {field : Option String} {p : Pattern} {c child : Cursor} {nodes : List Cursor}

theorem keysAt_node (accepted : m.accepts c.node) : keysAt (.node m children captures) c =
    (keysAmong children c.children).map (captures.map (·, c.id) ++ ·) := by
  rw [keysAt, bindings, if_pos accepted, keysAmong, List.map_map, List.map_map]
  refine List.map_congr_left fun found _ => ?_
  simp [Capture.key, Cursor.id, Function.comp_def]

theorem keysAt_node_of_not (refused : ¬ m.accepts c.node) :
    keysAt (.node m children captures) c = [] := by
  rw [keysAt, bindings, if_neg refused, List.map_nil]

theorem keysAmong_nil : keysAmong [] nodes = [[]] := by rw [keysAmong, bindingsAmong]; rfl

theorem keysAmong_noNodes : keysAmong ((field, p) :: rest) [] = [] := by
  rw [keysAmong, bindingsAmong]
  rfl

theorem keysAmong_cons : keysAmong ((field, p) :: rest) (child :: nodes) =
    (if fits field p child then joined (keysAt p child) (keysAmong rest nodes) else []) ++
      keysAmong ((field, p) :: rest) nodes := by
  rw [keysAmong, bindingsAmong_cons, List.map_append, apply_ite (List.map _), joined]
  simp [keysAt, keysAmong, List.map_flatMap, List.flatMap_map, Function.comp_def]

mutual

/-- Every binding has as many captures as the pattern. -/
theorem length_keysAt (p : Pattern) (plain : p.isPlain) (c : Cursor) :
    ∀ l ∈ keysAt p c, l.length = p.width := by
  match p with
  | .oneOf _ _ => contradiction
  | .node m children captures =>
    by_cases accepted : m.accepts c.node
    · rw [keysAt_node accepted]
      intro l hl
      obtain ⟨inner, mem, rfl⟩ := List.mem_map.1 hl
      have below := length_keysAmong children plain c.children inner mem
      rw [List.length_append, List.length_map, below, Pattern.width]
    · simp [keysAt_node_of_not accepted]

theorem length_keysAmong (patterns : List (Option String × Pattern))
    (plain : Pattern.allPlain patterns) (nodes : List Cursor) :
    ∀ l ∈ keysAmong patterns nodes, l.length = Pattern.widthAmong patterns := by
  match patterns with
  | [] => simp [keysAmong_nil, Pattern.widthAmong]
  | (field, p) :: rest =>
    obtain ⟨first_plain, rest_plain⟩ := Bool.and_eq_true_iff.1 plain
    induction nodes with
    | nil => simp [keysAmong_noNodes]
    | cons child nodes ih =>
      rw [keysAmong_cons]
      intro l hl
      rcases List.mem_append.1 hl with here | behind
      · split at here
        · obtain ⟨first, hfirst, later, hlater, rfl⟩ := mem_joined.1 here
          rw [List.length_append, length_keysAt p first_plain child first hfirst,
            length_keysAmong rest rest_plain nodes later hlater, Pattern.widthAmong]
        · contradiction
      · exact ih l behind

end

/-- The numbers of all nodes at or below some. -/
def idsBelow (nodes : List Cursor) : List Nat := (nodes.flatMap Cursor.preorder).map Cursor.id

theorem idsBelow_cons :
    idsBelow (child :: nodes) = child.preorder.map Cursor.id ++ idsBelow nodes := by
  simp [idsBelow]

theorem ids_preorder (c : Cursor) : c.preorder.map Cursor.id = c.id :: idsBelow c.children := by
  rw [Cursor.preorder_eq]
  rfl

mutual

/-- What is captured stands at the node or below it. -/
theorem mem_ids_of_keysAt (p : Pattern) (plain : p.isPlain) (c : Cursor) :
    ∀ l ∈ keysAt p c, ∀ key ∈ l, key.2 ∈ c.preorder.map Cursor.id := by
  match p with
  | .oneOf _ _ => contradiction
  | .node m children captures =>
    by_cases accepted : m.accepts c.node
    · rw [keysAt_node accepted, ids_preorder]
      intro l hl key hkey
      obtain ⟨inner, mem, rfl⟩ := List.mem_map.1 hl
      rcases List.mem_append.1 hkey with own | below
      · obtain ⟨_, _, rfl⟩ := List.mem_map.1 own
        exact List.mem_cons_self
      · exact List.mem_cons_of_mem _ (mem_ids_of_keysAmong children plain _ inner mem key below)
    · simp [keysAt_node_of_not accepted]

theorem mem_ids_of_keysAmong (patterns : List (Option String × Pattern))
    (plain : Pattern.allPlain patterns) (nodes : List Cursor) :
    ∀ l ∈ keysAmong patterns nodes, ∀ key ∈ l, key.2 ∈ idsBelow nodes := by
  match patterns with
  | [] => simp [keysAmong_nil]
  | (field, p) :: rest =>
    obtain ⟨first_plain, rest_plain⟩ := Bool.and_eq_true_iff.1 plain
    induction nodes with
    | nil => simp [keysAmong_noNodes]
    | cons child nodes ih =>
      rw [keysAmong_cons, idsBelow_cons]
      intro l hl key hkey
      rw [List.mem_append]
      rcases List.mem_append.1 hl with here | behind
      · split at here
        · obtain ⟨first, hfirst, later, hlater, rfl⟩ := mem_joined.1 here
          refine (List.mem_append.1 hkey).imp (fun inside => ?_) fun inside => ?_
          · exact mem_ids_of_keysAt p first_plain child first hfirst key inside
          · exact mem_ids_of_keysAmong rest rest_plain nodes later hlater key inside
        · contradiction
      · exact .inr (ih l behind key hkey)

end

/-- Bindings differ if the first child pattern captures something in different children. -/
theorem disjoint_keysAmong (plain : Pattern.allPlain ((field, p) :: rest)) (captures : p.width ≠ 0)
    (distinct : (idsBelow (child :: nodes)).Nodup) (laters : List (List (Nat × Nat))) :
    (joined (keysAt p child) laters).Disjoint (keysAmong ((field, p) :: rest) nodes) := by
  intro l here behind
  have first_plain : p.isPlain := (Bool.and_eq_true_iff.1 plain).1
  obtain ⟨first, mem, later, _, rfl⟩ := mem_joined.1 here
  have some_key : first ≠ [] := by
    rw [← List.length_pos_iff_ne_nil, length_keysAt p first_plain child first mem]
    exact Nat.pos_of_ne_zero captures
  obtain ⟨key, first, rfl⟩ := List.exists_cons_of_ne_nil some_key
  rw [idsBelow_cons] at distinct
  exact List.disjoint_of_nodup_append distinct
    (mem_ids_of_keysAt p first_plain child _ mem key (by simp))
    (mem_ids_of_keysAmong _ plain nodes _ behind key (by simp))

mutual

/-- Where the captures tell how a pattern was bound, no two bindings have the same. -/
theorem nodup_keysAt (p : Pattern) (plain : p.isPlain) (telling : p.isTelling) (c : Cursor)
    (distinct : (c.preorder.map Cursor.id).Nodup) : (keysAt p c).Nodup := by
  match p with
  | .oneOf _ _ => contradiction
  | .node m children captures =>
    by_cases accepted : m.accepts c.node
    · rw [keysAt_node accepted]
      rw [ids_preorder] at distinct
      exact (nodup_keysAmong children plain telling _ (List.nodup_cons.1 distinct).2).map
        fun _ _ => List.append_cancel_left
    · rw [keysAt_node_of_not accepted]
      exact .nil

theorem nodup_keysAmong (patterns : List (Option String × Pattern))
    (plain : Pattern.allPlain patterns) (telling : Pattern.allTelling patterns)
    (nodes : List Cursor) (distinct : (idsBelow nodes).Nodup) :
    (keysAmong patterns nodes).Nodup := by
  match patterns with
  | [] => simp [keysAmong_nil]
  | (field, p) :: rest =>
    have plains := Bool.and_eq_true_iff.1 plain
    rw [Pattern.allTelling, Bool.and_eq_true, Bool.and_eq_true, bne_iff_ne] at telling
    obtain ⟨⟨captures, first_telling⟩, rest_telling⟩ := telling
    induction nodes with
    | nil => simp [keysAmong_noNodes]
    | cons child nodes ih =>
      have parts := distinct
      rw [idsBelow_cons, List.nodup_append'] at parts
      rw [keysAmong_cons]
      split
      · refine List.nodup_append'.2 ⟨?_, ih parts.2.1, disjoint_keysAmong plain captures distinct _⟩
        exact nodup_joined (length_keysAt p plains.1 child)
          (nodup_keysAt p plains.1 first_telling child parts.1)
          (nodup_keysAmong rest plains.2 rest_telling nodes parts.2.1)
      · exact ih parts.2.1

end

mutual

/-- Without a pattern that captures nothing or is not told from its captures before another that
captures something, bindings with equal captures stand together. -/
theorem grouped_keysAt (p : Pattern) (plain : p.isPlain) (orderly : p.isOrderly) (c : Cursor)
    (distinct : (c.preorder.map Cursor.id).Nodup) : Grouped (keysAt p c) := by
  match p with
  | .oneOf _ _ => contradiction
  | .node m children captures =>
    by_cases accepted : m.accepts c.node
    · rw [keysAt_node accepted]
      rw [ids_preorder] at distinct
      exact grouped_map (fun _ _ _ _ => List.append_cancel_left)
        (grouped_keysAmong children plain orderly _ (List.nodup_cons.1 distinct).2)
    · rw [keysAt_node_of_not accepted]
      trivial

theorem grouped_keysAmong (patterns : List (Option String × Pattern))
    (plain : Pattern.allPlain patterns) (orderly : Pattern.orderlyAmong patterns)
    (nodes : List Cursor) (distinct : (idsBelow nodes).Nodup) :
    Grouped (keysAmong patterns nodes) := by
  match patterns with
  | [] =>
    rw [keysAmong_nil]
    exact .of_nodup (List.nodup_singleton _)
  | (field, p) :: rest =>
    have plains := Bool.and_eq_true_iff.1 plain
    by_cases silent : p.width = 0 ∧ Pattern.widthAmong rest = 0
    · have nothing : ∀ l ∈ keysAmong ((field, p) :: rest) nodes, l = [] := fun l hl => by
        have length := length_keysAmong _ plain nodes l hl
        rwa [Pattern.widthAmong, silent.1, silent.2, List.length_eq_zero_iff] at length
      rw [List.eq_replicate_iff.2 ⟨rfl, nothing⟩, ← List.append_nil (List.replicate _ _)]
      exact grouped_replicate_append _ (.of_nodup (List.nodup_singleton _))
    · have first_captures : p.width ≠ 0 := by
        intro none
        rw [Pattern.orderlyAmong, if_neg fun rest_silent => silent ⟨none, rest_silent⟩] at orderly
        simp [none] at orderly
      induction nodes with
      | nil =>
        rw [keysAmong_noNodes]
        trivial
      | cons child nodes ih =>
        have parts := distinct
        rw [idsBelow_cons, List.nodup_append'] at parts
        rw [keysAmong_cons]
        split
        · refine .append ?_ (ih parts.2.1) (disjoint_keysAmong plain first_captures distinct _)
          rw [Pattern.orderlyAmong] at orderly
          split at orderly
          · next rest_silent =>
            refine grouped_joined_nil (grouped_keysAt p plains.1 orderly child parts.1)
              fun l hl => ?_
            rw [← List.length_eq_zero_iff, length_keysAmong rest plains.2 nodes l hl, rest_silent]
          · rw [Bool.and_eq_true, Bool.and_eq_true] at orderly
            exact grouped_joined (length_keysAt p plains.1 child)
              (nodup_keysAt p plains.1 orderly.1.2 child parts.1)
              (grouped_keysAmong rest plains.2 orderly.2 nodes parts.2.1)
        · exact ih parts.2.1

end

end Keys

end RouteScript.Query
