import RouteScript.Proofs.Descent
/-!
# The innermost node around a stretch

In a tree whose nodes are arranged, with children that are not empty, stand in order and lie inside
their parent, the nodes around a stretch are one below the other. The descent goes through all of
them, and behind the last node around a point through those that end there, so that it leads to the
innermost one.
-/
namespace RouteScript

namespace Point

variable {p q r : Point}

theorem le_antisymm (h : p.le q) (h' : q.le p) : p = q := by
  obtain ⟨row, column⟩ := p
  obtain ⟨row', column'⟩ := q
  simp only [le_iff, Point.mk.injEq] at *
  omega

theorem lt_irrefl (p : Point) : p.lt p = false := by simp [lt]

end Point

/-- The children of a node are not empty, lie inside it and stand apart, in their order. -/
structure Node.Arranged (n : Node) : Prop where
  nonempty : ∀ c ∈ n.children, (Node.startPoint c).lt (Node.stopPoint c)
  inside : ∀ c ∈ n.children,
    n.startPoint.le (Node.startPoint c) ∧ (Node.stopPoint c).le n.stopPoint
  ordered : n.children.Pairwise fun c d => (Node.stopPoint c).le (Node.startPoint d)

instance (n : Node) : Decidable n.Arranged :=
  decidable_of_iff (_ ∧ _ ∧ _) ⟨fun h => ⟨h.1, h.2.1, h.2.2⟩, fun h => ⟨h.1, h.2, h.3⟩⟩

namespace Cursor

variable {r c d e m : Cursor} {a b p : Point}

theorem above_length_of_mem_ancestors (h : d ∈ c.ancestors) : d.above.length < c.above.length := by
  have steps (above : List (Node × Nat)) (h : d ∈ ancestorsOf above) :
      d.above.length < above.length := by
    induction above with
    | nil => contradiction
    | cons step rest ih =>
      rcases List.mem_cons.1 h with rfl | later
      · exact Nat.lt_succ_self _
      · exact Nat.lt_succ_of_lt (ih later)
  exact steps c.above h

theorem notMem_ancestors (c : Cursor) : c ∉ c.ancestors :=
  fun h => Nat.lt_irrefl _ (above_length_of_mem_ancestors h)

theorem ancestors_asymm (h : d ∈ c.ancestors) : c ∉ d.ancestors := fun h' =>
  Nat.lt_asymm (above_length_of_mem_ancestors h) (above_length_of_mem_ancestors h')

/-- Below a child of a node, that node is above. -/
theorem mem_ancestors_of_mem_children (hd : d ∈ c.children) (he : e ∈ d.preorder) :
    c ∈ e.ancestors := by
  have above : c ∈ d.ancestors := by simp [ancestors_of_mem_children hd]
  rcases mem_ancestors_of_mem_preorder he with rfl | inner
  · exact above
  · exact ancestorsOf_trans inner c above

theorem mem_preorder_of_children (hd : d ∈ c.children) (he : e ∈ d.preorder) : e ∈ c.preorder :=
  mem_preorder_trans (mem_preorder_of_child (mem_preorder_self c) hd) he

theorem mem_preorder_iff : e ∈ c.preorder ↔ e = c ∨ ∃ d ∈ c.children, e ∈ d.preorder := by
  rw [preorder_eq, List.mem_cons, List.mem_flatMap]

/-- All nodes at and below are arranged. -/
def Arranged (c : Cursor) : Prop := ∀ d ∈ c.preorder, d.node.Arranged

instance (c : Cursor) : Decidable c.Arranged := inferInstanceAs (Decidable (∀ d ∈ c.preorder, _))

namespace Arranged

theorem below (h : c.Arranged) (hd : d ∈ c.preorder) : d.Arranged :=
  fun e he => h e (mem_preorder_trans hd he)

theorem child (h : c.Arranged) (hd : d ∈ c.children) : d.Arranged :=
  h.below (mem_preorder_of_child (mem_preorder_self c) hd)

theorem nonempty (h : c.Arranged) (hd : d ∈ c.children) :
    d.node.startPoint.lt d.node.stopPoint :=
  (h c (mem_preorder_self c)).nonempty _ (map_node_children c ▸ List.mem_map_of_mem hd)

theorem inside_child (h : c.Arranged) (hd : d ∈ c.children) :
    c.node.startPoint.le d.node.startPoint ∧ d.node.stopPoint.le c.node.stopPoint :=
  (h c (mem_preorder_self c)).inside _ (map_node_children c ▸ List.mem_map_of_mem hd)

/-- Two children of a node do not overlap. -/
theorem apart (h : c.Arranged) (hd : d ∈ c.children) (he : e ∈ c.children) (other : d ≠ e) :
    d.node.stopPoint.le e.node.startPoint ∨ e.node.stopPoint.le d.node.startPoint := by
  have ordered := (h c (mem_preorder_self c)).ordered
  rw [← map_node_children, List.pairwise_map] at ordered
  have symm : Std.Symm fun d e : Cursor => d.node.stopPoint.le e.node.startPoint ∨
      e.node.stopPoint.le d.node.startPoint := ⟨fun _ _ => Or.symm⟩
  exact (ordered.imp fun {d e} before => (Or.inl before :
    d.node.stopPoint.le e.node.startPoint ∨ e.node.stopPoint.le d.node.startPoint)).forall
      hd he other

/-- No node below another one is empty. -/
theorem nonempty_below (h : c.Arranged) (hd : d ∈ c.children) (he : e ∈ d.preorder) :
    e.node.startPoint.lt e.node.stopPoint := by
  rcases exists_parent he with rfl | ⟨f, hf, child⟩
  · exact h.nonempty hd
  · exact ((h.child hd).below hf).nonempty child

theorem inside (h : c.Arranged) (hd : d ∈ c.preorder) :
    c.node.startPoint.le d.node.startPoint ∧ d.node.stopPoint.le c.node.stopPoint := by
  induction c using Cursor.induction with
  | step c ih =>
    rcases mem_preorder_iff.1 hd with rfl | ⟨e, he, hd⟩
    · simp [Point.le_iff]
    · obtain ⟨low, high⟩ := ih e he (h.child he) hd
      obtain ⟨low', high'⟩ := h.inside_child he
      exact ⟨Point.le_trans low' low, Point.le_trans high high'⟩

end Arranged

/-- The node reaches past the end of the stretch. -/
def encloses (c : Cursor) (a b : Point) : Bool :=
  c.node.startPoint.le a && b.lt c.node.stopPoint

/-- The node is not empty and reaches to the end of the stretch. -/
def touches (c : Cursor) (a b : Point) : Bool :=
  c.node.startPoint.le a && b.le c.node.stopPoint && c.node.startPoint != c.node.stopPoint

theorem encloses_iff : c.encloses a b ↔ c.node.startPoint.le a ∧ b.lt c.node.stopPoint := by
  simp [encloses]

theorem reaches_iff : c.reaches a b ↔ c.node.startPoint.le a ∧ b.le c.node.stopPoint := by
  simp [reaches]

theorem reaches_of_encloses (h : c.encloses a b) : c.reaches a b :=
  reaches_iff.2 ⟨(encloses_iff.1 h).1, Point.le_of_lt (encloses_iff.1 h).2⟩

/-- What reaches to a point and does not go on behind it ends there. -/
theorem stop_eq_of_reaches (h : c.reaches p p) (behind : c.covers p = false) :
    c.node.stopPoint = p := by
  rw [reaches_iff] at h
  refine (Point.le_antisymm h.2 ?_).symm
  by_contra past
  exact Bool.false_ne_true (behind.symm.trans (covers_iff.2 ⟨h.1, Point.lt_iff_not_le.2 past⟩))

theorem reaches_of_touches (h : c.touches a b) : c.reaches a b := (Bool.and_eq_true_iff.1 h).1

/-- In an arranged node the children are not empty. -/
theorem touches_of_reaches (arranged : c.Arranged) (hd : d ∈ c.children) (h : d.reaches a b) :
    d.touches a b := by
  refine Bool.and_eq_true_iff.2 ⟨h, bne_iff_ne.2 fun same => ?_⟩
  have some_point := arranged.nonempty hd
  rw [same, Point.lt_irrefl] at some_point
  contradiction

/-- The child to go on with is the first one around the stretch, or the last one that touches it. -/
theorem covering_eq (c : Cursor) (a b : Point) :
    (Node.covering c.node.children a b).bind (c.children[·]?)
      = (c.children.find? fun d => d.encloses a b).or
          (c.children.reverse.find? fun d => d.touches a b) := by
  have first : c.node.children.findIdx?
      (fun n => (Node.startPoint n).le a && b.lt (Node.stopPoint n))
        = c.children.findIdx? fun d => d.encloses a b := by
    rw [← map_node_children, List.findIdx?_map]
    rfl
  have last : c.node.children.reverse.findIdx? (fun n => (Node.startPoint n).le a &&
      b.le (Node.stopPoint n) && Node.startPoint n != Node.stopPoint n)
        = c.children.reverse.findIdx? fun d => d.touches a b := by
    rw [← map_node_children, ← List.map_reverse, List.findIdx?_map]
    rfl
  have length : c.node.children.length = c.children.length := by
    rw [← map_node_children, List.length_map]
  rw [Node.covering, first, last, length, List.find?_eq_bind_findIdx?_getElem?,
    List.find?_eq_bind_findIdx?_getElem?]
  cases found : c.children.findIdx? fun d => d.encloses a b with
  | some i =>
    have inside := (List.findIdx?_eq_some_iff_findIdx_eq.1 found).1
    rw [Option.bind_some, List.getElem?_eq_getElem inside, Option.some_or]
  | none =>
    rw [Option.bind_none, Option.none_or]
    cases found' : c.children.reverse.findIdx? fun d => d.touches a b with
    | some i =>
      have inside := (List.findIdx?_eq_some_iff_findIdx_eq.1 found').1
      rw [List.length_reverse] at inside
      exact (List.getElem?_reverse inside).symm
    | none => rfl

/-- The descent goes through a child that it finds first. -/
theorem descent_of_child (hd : d ∈ c.children) (here : d.touches a b)
    (first : ∀ e ∈ c.children, e.encloses a b → e = d)
    (only : d.encloses a b ∨ ∀ e ∈ c.children, e.touches a b → e = d) :
    c.descent a b = c :: d.descent a b := by
  have next : (Node.covering c.node.children a b).bind (c.children[·]?) = some d := by
    rw [covering_eq]
    cases found : c.children.find? fun d => d.encloses a b with
    | some e =>
      rw [first e (List.mem_of_find?_eq_some found) (by simpa using List.find?_some found)]
      rfl
    | none =>
      have none_here := List.find?_eq_none.1 found d hd
      have same := only.resolve_left none_here
      rw [Option.none_or]
      cases last : c.children.reverse.find? fun d => d.touches a b with
      | none => exact absurd here (List.find?_eq_none.1 last d (List.mem_reverse.2 hd))
      | some e =>
        have he := List.mem_reverse.1 (List.mem_of_find?_eq_some last)
        rw [same e he (by simpa using List.find?_some last)]
  rw [descent_eq, next]
  rfl

/-- What comes next in the descent is a child that reaches over the stretch. -/
theorem descent_cases (c : Cursor) (a b : Point) : c.descent a b = [c] ∨
    ∃ d ∈ c.children, d.reaches a b ∧ c.descent a b = c :: d.descent a b := by
  rw [descent_eq, covering_eq]
  cases found : c.children.find? fun d => d.encloses a b with
  | some d =>
    have here : d.encloses a b := by simpa using List.find?_some found
    exact .inr ⟨d, List.mem_of_find?_eq_some found, reaches_of_encloses here, rfl⟩
  | none =>
    rw [Option.none_or]
    cases last : c.children.reverse.find? fun d => d.touches a b with
    | none => exact .inl rfl
    | some d =>
      have here : d.touches a b := by simpa using List.find?_some last
      exact .inr ⟨d, List.mem_reverse.1 (List.mem_of_find?_eq_some last),
        reaches_of_touches here, rfl⟩

theorem reaches_of_mem_descent (h : r.reaches a b) (hd : d ∈ r.descent a b) : d.reaches a b := by
  induction r using Cursor.induction with
  | step r ih =>
    rcases descent_cases r a b with alone | ⟨e, he, here, way⟩
    · rw [alone, List.mem_singleton] at hd
      exact hd ▸ h
    · rw [way, List.mem_cons] at hd
      rcases hd with rfl | later
      · exact h
      · exact ih e he here later

/-- On the way down every node is below those before it. -/
theorem descent_pairwise (r : Cursor) (a b : Point) :
    (r.descent a b).Pairwise fun d e => d ∈ e.ancestors ∧ e ∈ d.preorder := by
  induction r using Cursor.induction with
  | step r ih =>
    rcases descent_cases r a b with alone | ⟨d, hd, _, way⟩
    · rw [alone]
      exact List.pairwise_singleton _ _
    · rw [way]
      refine List.pairwise_cons.2 ⟨fun e he => ?_, ih d hd⟩
      have below := mem_preorder_of_mem_descent he
      exact ⟨mem_ancestors_of_mem_children hd below, mem_preorder_of_children hd below⟩

theorem descent_suffix (hm : m ∈ r.descent a b) : m.descent a b <:+ r.descent a b := by
  induction r using Cursor.induction with
  | step r ih =>
    rcases descent_cases r a b with alone | ⟨d, hd, _, way⟩
    · rw [alone, List.mem_singleton] at hm
      exact hm ▸ List.suffix_refl _
    · rw [way, List.mem_cons] at hm
      rcases hm with rfl | later
      · exact List.suffix_refl _
      · rw [way]
        exact (ih d hd later).trans (List.suffix_cons _ _)

/-- A node is on the way down if the descent turns to it at every node above. -/
theorem mem_descent (he : e ∈ r.preorder) (turns : ∀ c ∈ r.preorder, ∀ d ∈ c.children,
    e ∈ d.preorder → c.descent a b = c :: d.descent a b) : e ∈ r.descent a b := by
  induction r using Cursor.induction with
  | step r ih =>
    rcases mem_preorder_iff.1 he with rfl | ⟨d, hd, he⟩
    · rw [descent_eq]
      exact List.mem_cons_self
    · rw [turns r (mem_preorder_self r) d hd he]
      exact List.mem_cons_of_mem _ (ih d hd he fun c hc =>
        turns c (mem_preorder_of_children hd hc))

section Arranged

variable (arranged : r.Arranged)
include arranged

/-- All nodes around a stretch are on the way down to it. -/
theorem mem_descent_of_reaches (some_stretch : a.lt b) (he : e ∈ r.preorder)
    (here : e.reaches a b) : e ∈ r.descent a b := by
  refine mem_descent he fun c hc d hd he => ?_
  have arranged' := arranged.below hc
  have inside := (arranged'.child hd).inside he
  have around : d.reaches a b := by
    rw [reaches_iff] at *
    exact ⟨Point.le_trans inside.1 here.1, Point.le_trans here.2 inside.2⟩
  -- two children around the stretch would overlap in it
  have only (f : Cursor) (hf : f ∈ c.children) (around' : f.reaches a b) : f = d := by
    by_contra other
    rw [reaches_iff] at around around'
    have some_stretch := Point.lt_iff_not_le.1 some_stretch
    rcases arranged'.apart hf hd other with before | behind
    · exact some_stretch (Point.le_trans around'.2 (Point.le_trans before around.1))
    · exact some_stretch (Point.le_trans around.2 (Point.le_trans behind around'.1))
  exact descent_of_child hd (touches_of_reaches arranged' hd around)
    (fun f hf enclosing => only f hf (reaches_of_encloses enclosing))
    (.inr fun f hf touching => only f hf (reaches_of_touches touching))

/-- All nodes around a character are on the way down to it. -/
theorem mem_descent_of_covers (he : e ∈ r.preorder) (here : e.covers p) : e ∈ r.descent p p := by
  refine mem_descent he fun c hc d hd he => ?_
  have arranged' := arranged.below hc
  have inside := (arranged'.child hd).inside he
  have around : d.covers p := by
    rw [covers_iff] at *
    exact ⟨Point.le_trans inside.1 here.1, Point.lt_of_lt_of_le here.2 inside.2⟩
  have only (f : Cursor) (hf : f ∈ c.children) (around' : f.covers p) : f = d := by
    by_contra other
    rw [covers_iff] at around around'
    rcases arranged'.apart hf hd other with before | behind
    · exact Point.lt_iff_not_le.1 around'.2 (Point.le_trans before around.1)
    · exact Point.lt_iff_not_le.1 around.2 (Point.le_trans behind around'.1)
  exact descent_of_child hd (touches_of_reaches arranged' hd (reaches_of_encloses around))
    only (.inl around)

/-- Where no node below goes on behind a point, all that end there are on the way down to it. -/
theorem mem_descent_of_stop (none_behind : ∀ c ∈ r.preorder, ∀ d ∈ c.children, d.covers p = false)
    (he : e ∈ r.preorder) (stop : e.node.stopPoint = p) : e ∈ r.descent p p := by
  refine mem_descent he fun c hc d hd he => ?_
  have arranged' := arranged.below hc
  have inside := (arranged'.child hd).inside he
  have some_point := arranged'.nonempty_below hd he
  rw [stop] at inside some_point
  have around : d.reaches p p :=
    reaches_iff.2 ⟨Point.le_trans inside.1 (Point.le_of_lt some_point), inside.2⟩
  have ends {f : Cursor} (hf : f ∈ c.children) (around : f.reaches p p) :
      f.node.stopPoint = p ∧ f.node.startPoint.lt p := by
    have last := stop_eq_of_reaches around (none_behind c hc f hf)
    exact ⟨last, last ▸ arranged'.nonempty hf⟩
  refine descent_of_child hd (touches_of_reaches arranged' hd around)
    (fun f hf enclosing => ?_) (.inr fun f hf touching => ?_)
  · have covers : f.covers p := enclosing
    rw [none_behind c hc f hf] at covers
    contradiction
  · by_contra other
    obtain ⟨stop', start'⟩ := ends hf (reaches_of_touches touching)
    obtain ⟨stop, start⟩ := ends hd around
    rcases arranged'.apart hf hd other with before | behind
    · exact Point.lt_iff_not_le.1 start (stop' ▸ before)
    · exact Point.lt_iff_not_le.1 start' (stop ▸ behind)

end Arranged

/-- A node at or below `r` has the property, and all others that have it are above that node. -/
structure Innermost (r : Cursor) (P : Cursor → Prop) (d : Cursor) : Prop where
  mem : d ∈ r.preorder
  here : P d
  deepest : ∀ e ∈ r.preorder, P e → e = d ∨ e ∈ d.ancestors

/-- The innermost node with the property, or `r` itself if no node has it. -/
def InnermostOr (r : Cursor) (P : Cursor → Prop) (d : Cursor) : Prop :=
  Innermost r P d ∨ d = r ∧ ∀ e ∈ r.preorder, ¬ P e

/-- Where all nodes with a property are on the way down, the last of them is the innermost. -/
theorem innermostOr_descent {P : Cursor → Prop} {test : Cursor → Bool}
    (all : ∀ e ∈ r.preorder, P e → e ∈ r.descent a b)
    (same : ∀ e ∈ (r.descent a b).tail, test e ↔ P e) :
    InnermostOr r P (((r.descent a b).tail.filter test).getLast?.getD r) := by
  have way : r.descent a b = r :: (r.descent a b).tail := by
    rw [descent_eq]
    rfl
  have ordered := way ▸ descent_pairwise r a b
  obtain ⟨above, ordered⟩ := List.pairwise_cons.1 ordered
  have found (e : Cursor) (he : e ∈ r.preorder) (here : P e) :
      e = r ∨ e ∈ (r.descent a b).tail.filter test := by
    rcases List.mem_cons.1 (way ▸ all e he here) with rfl | later
    · exact .inl rfl
    · exact .inr (List.mem_filter.2 ⟨later, (same e later).2 here⟩)
  rcases List.eq_nil_or_concat ((r.descent a b).tail.filter test) with none | ⟨front, d, split⟩
  · rw [none] at found ⊢
    have only (e : Cursor) (he : e ∈ r.preorder) (here : P e) : e = r :=
      (found e he here).resolve_right (by simp)
    by_cases here : P r
    · exact .inl ⟨mem_preorder_self r, here, fun e he here => .inl (only e he here)⟩
    · exact .inr ⟨rfl, fun e he there => here (only e he there ▸ there)⟩
  · rw [List.concat_eq_append] at split
    rw [split] at found ⊢
    have hd := List.mem_filter.1 (split ▸ List.mem_append_right front (List.mem_singleton_self d))
    have chosen := List.pairwise_append.1 (split ▸ ordered.sublist List.filter_sublist)
    rw [List.getLast?_concat, Option.getD_some]
    refine .inl ⟨(above d hd.1).2, (same d hd.1).1 hd.2, fun e he here => ?_⟩
    rcases found e he here with rfl | there
    · exact .inr (above d hd.1).1
    · rcases List.mem_append.1 there with before | last
      · exact .inr (chosen.2.2 e before d (List.mem_singleton_self d)).1
      · exact .inl (List.mem_singleton.1 last)

/-- The node lies around the point, or below `m` and ends there. -/
def Meets (p : Point) (m e : Cursor) : Prop :=
  e.covers p ∨ m ∈ e.ancestors ∧ e.node.stopPoint = p

section Meets

variable (arranged : r.Arranged) (inner : InnermostOr r (fun e => e.covers p) m)
  (way : m ∈ r.descent p p)
include arranged inner way

theorem mem_descent_of_meets (he : e ∈ r.preorder) (here : Meets p m e) : e ∈ r.descent p p := by
  rcases here with covers | ⟨below, stop⟩
  · exact mem_descent_of_covers arranged he covers
  have hm := mem_preorder_of_mem_descent way
  rcases mem_preorder_of_mem_ancestors he below with outer | ⟨-, he⟩
  · rcases mem_ancestors_of_mem_preorder hm with rfl | under
    · exact absurd outer (notMem_ancestors m)
    · exact absurd outer (ancestors_asymm under)
  refine (descent_suffix way).subset (mem_descent_of_stop (arranged.below hm) ?_ he stop)
  intro c hc d hd
  rw [← Bool.not_eq_true]
  intro covers
  have above : m ∈ d.ancestors := by
    rw [ancestors_of_mem_children hd]
    exact (mem_ancestors_of_mem_preorder hc).elim (fun same => same ▸ List.mem_cons_self)
      (List.mem_cons_of_mem _)
  have hd' := mem_preorder_trans hm (mem_preorder_of_child hc hd)
  rcases inner with inner | ⟨-, none⟩
  · rcases inner.deepest d hd' covers with rfl | under
    · exact notMem_ancestors d above
    · exact ancestors_asymm above under
  · exact none d hd' covers

theorem meets_of_mem_descent (around : r.reaches p p) (he : e ∈ (r.descent p p).tail) :
    Meets p m e := by
  have start : r.descent p p = r :: (r.descent p p).tail := by
    rw [descent_eq]
    rfl
  have ordered := descent_pairwise r p p
  have he' := List.mem_of_mem_tail he
  cases covers : e.covers p with
  | true => exact .inl covers
  | false =>
    have stop := stop_eq_of_reaches (reaches_of_mem_descent around he') covers
    refine .inr ⟨?_, stop⟩
    rcases inner with inner | ⟨rfl, -⟩
    · have other : m ≠ e := by
        rintro rfl
        exact Bool.false_ne_true (covers.symm.trans inner.here)
      have symm : Std.Symm fun d e : Cursor => (d ∈ e.ancestors ∧ e ∈ d.preorder) ∨
          (e ∈ d.ancestors ∧ d ∈ e.preorder) := ⟨fun _ _ => Or.symm⟩
      rcases (ordered.imp fun {d e} below => (Or.inl below :
        (d ∈ e.ancestors ∧ e ∈ d.preorder) ∨ (e ∈ d.ancestors ∧ d ∈ e.preorder))).forall
          way he' other with above | ⟨-, below⟩
      · exact above.1
      · -- what ends at the point holds nothing that goes on behind it
        have inside := ((arranged.below (mem_preorder_of_mem_descent he')).inside below).2
        exact absurd (stop ▸ inside) (Point.lt_iff_not_le.1 (covers_iff.1 inner.here).2)
    · rw [start] at ordered
      exact ((List.pairwise_cons.1 ordered).1 e he).1

end Meets

/-- The node at a stretch is the innermost named one around it. At a point between two characters it
is the innermost named one of those around the character behind the point and of those that end at
the point, below the innermost node around that character. -/
theorem smallestNamed?_innermost (arranged : r.Arranged) :
    (r.reaches a b = false → r.smallestNamed? a b = none) ∧
      (r.reaches a b → ∃ d, r.smallestNamed? a b = some d ∧
        (a.lt b → d.reaches a b ∧ InnermostOr r (fun e => e.isNamed ∧ e.reaches a b) d) ∧
        (a = b → ∃ m, InnermostOr r (fun e => e.covers a) m ∧
          InnermostOr r (fun e => e.isNamed ∧ Meets a m e) d)) := by
  refine ⟨fun outside => by rw [smallestNamed?, if_neg (by simp [outside])], fun around => ?_⟩
  refine ⟨_, if_pos around, fun some_stretch => ?_, ?_⟩
  · have inner : InnermostOr r (fun e => e.isNamed ∧ e.reaches a b)
        (((r.descent a b).tail.filter isNamed).getLast?.getD r) :=
      innermostOr_descent
        (fun e he here => mem_descent_of_reaches arranged some_stretch he here.2)
        fun e he => (and_iff_left (reaches_of_mem_descent around (List.mem_of_mem_tail he))).symm
    refine ⟨?_, inner⟩
    rcases inner with inner | ⟨same, -⟩
    · exact inner.here.2
    · rw [same]
      exact around
  · rintro rfl
    let m := ((r.descent a a).tail.filter fun e => e.covers a).getLast?.getD r
    have inner : InnermostOr r (fun e => e.covers a) m :=
      innermostOr_descent (fun e he here => mem_descent_of_covers arranged he here)
        fun _ _ => Iff.rfl
    have way : m ∈ r.descent a a := by
      cases last : ((r.descent a a).tail.filter fun e => e.covers a).getLast? with
      | none =>
        simp only [m, last, Option.getD_none]
        rw [descent_eq]
        exact List.mem_cons_self
      | some d =>
        simp only [m, last, Option.getD_some]
        exact List.mem_of_mem_tail (List.mem_filter.1 (List.mem_of_getLast? last)).1
    refine ⟨m, inner, innermostOr_descent (fun e he here => ?_) fun e he => ?_⟩
    · exact mem_descent_of_meets arranged inner way he here.2
    · exact (and_iff_left (meets_of_mem_descent arranged inner way around he)).symm

/-- Right behind an action that a blank follows. -/
theorem smallestNamed?_innermost_behind :
    let root := Cursor.root (Tree.ofScript "request_route \x7b\n\tdrop ;\n\x7d\n".toList)
    let p : Point := ⟨1, 5⟩
    root.Arranged ∧ root.reaches p p ∧
      (root.smallestNamed? p p).map kind = some Kind.coreFunction ∧
      ∃ d m, root.smallestNamed? p p = some d ∧ InnermostOr root (fun e => e.covers p) m ∧
        InnermostOr root (fun e => e.isNamed ∧ Meets p m e) d := by
  intro root p
  have arranged : root.Arranged := by decide +kernel
  have around : root.reaches p p := by decide +kernel
  obtain ⟨d, found, -, point⟩ := (smallestNamed?_innermost arranged).2 around
  obtain ⟨m, inner, named⟩ := point rfl
  exact ⟨arranged, around, by decide +kernel, d, m, found, inner, named⟩

end Cursor

end RouteScript
