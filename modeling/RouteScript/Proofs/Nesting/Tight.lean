import RouteScript.Script.Expression
/-!
# Tight drafts

A draft is tight when every node reaches from the start of its first child to the end of its last
and no comment is one of these two. Only a block that does not close may end in a comment.
-/
namespace RouteScript

namespace Rose

variable {α : Type u}

mutual

/-- All nodes of a tree, every node before its children. -/
def nodes : Rose α → List (Rose α)
  | node a cs => node a cs :: nodesAll cs

def nodesAll : List (Rose α) → List (Rose α)
  | [] => []
  | c :: cs => nodes c ++ nodesAll cs

end

theorem nodes_node (a : α) (cs : List (Rose α)) :
    nodes (node a cs) = node a cs :: cs.flatMap nodes := by
  have all : nodesAll cs = cs.flatMap nodes := by
    induction cs with
    | nil => rfl
    | cons c cs ih => rw [nodesAll, ih, List.flatMap_cons]
  rw [nodes, all]

theorem mem_nodes_self (t : Rose α) : t ∈ t.nodes := by
  obtain ⟨a, cs⟩ := t
  simp [nodes_node]

/-- What holds of all nodes of a tree holds of its root and of all nodes of its children. -/
theorem forall_nodes_node {p : Rose α → Prop} {a : α} {cs : List (Rose α)} :
    (∀ n ∈ (node a cs).nodes, p n) ↔ p (.node a cs) ∧ ∀ c ∈ cs, ∀ n ∈ c.nodes, p n := by
  simp only [nodes_node, List.forall_mem_cons, List.mem_flatMap, forall_exists_index, and_imp]
  exact and_congr_right fun _ =>
    ⟨fun h c hc n hn => h n c hc hn, fun h n c hc hn => h c hc n hn⟩

end Rose

namespace Draft

/-- A block whose brace is an error. -/
def isUnclosed (d : Draft) : Bool :=
  d.label.kind == Kind.compoundStatement && d.children.head?.any isError

/-- The leaf of a comment or directive. -/
def IsExtraLeaf (d : Draft) : Prop := ∃ t, d = Script.extraLeaf t

theorem IsExtraLeaf.childless {d : Draft} (h : d.IsExtraLeaf) : d.children = [] := by
  obtain ⟨t, rfl⟩ := h
  rfl

theorem IsExtraLeaf.field {d : Draft} (h : d.IsExtraLeaf) : d.label.field = none := by
  obtain ⟨t, rfl⟩ := h
  rfl

theorem IsExtraLeaf.not_isError {d : Draft} (h : d.IsExtraLeaf) : ¬ d.isError := by
  obtain ⟨t, rfl⟩ := h
  unfold Script.extraLeaf
  cases t.kind <;> exact Bool.false_ne_true

/-- A node reaches from its first child to its last. Comments are leaves, and stand between these
two except at the end of a block that does not close. -/
structure Framed (d : Draft) : Prop where
  bare : d.label.extra → d.IsExtraLeaf
  first : ∀ c, d.children.head? = some c → c.label.extra = false ∧ start c = d.start
  last : ∀ c, d.children.getLast? = some c →
    stop c = d.stop ∧ (c.label.extra → d.isUnclosed)

def Tight (d : Draft) : Prop := ∀ n ∈ d.nodes, Framed n

theorem tight_node {t : Tag} {children : List Draft} :
    Tight (.node t children) ↔ Framed (.node t children) ∧ ∀ c ∈ children, c.Tight :=
  Rose.forall_nodes_node

theorem tight_of_childless {d : Draft} (h : d.children = []) (bare : d.label.extra → d.IsExtraLeaf) :
    d.Tight := by
  obtain ⟨t, children⟩ := d
  obtain rfl : children = [] := h
  exact tight_node.2 ⟨⟨bare, by simp [Rose.children], by simp [Rose.children]⟩, by simp⟩

theorem tight_leaf {d : Draft} (h : d.children = []) (notExtra : d.label.extra = false) : d.Tight :=
  tight_of_childless h fun extra => absurd (notExtra.symm.trans extra) Bool.false_ne_true

theorem IsExtraLeaf.tight {d : Draft} (h : d.IsExtraLeaf) : d.Tight :=
  tight_of_childless h.childless fun _ => h

/-- Tight drafts, of which the first starts at an offset, the last ends at one, and both are no
comments. -/
structure Reach (low : Nat) (ds : List Draft) (high : Nat) : Prop where
  tight : ∀ d ∈ ds, d.Tight
  first : ∃ d, ds.head? = some d ∧ d.label.extra = false ∧ d.start = low
  last : ∃ d, ds.getLast? = some d ∧ d.label.extra = false ∧ d.stop = high

theorem reach_singleton {low high : Nat} {d : Draft} : Reach low [d] high ↔
    d.Tight ∧ d.label.extra = false ∧ d.start = low ∧ d.stop = high := by
  constructor
  · rintro ⟨tight, ⟨first, head, notExtra, start⟩, last, tail, _, stop⟩
    obtain rfl : d = first := by simpa using head
    obtain rfl : d = last := by simpa using tail
    exact ⟨tight d (by simp), notExtra, start, stop⟩
  · rintro ⟨tight, notExtra, start, stop⟩
    exact ⟨by simpa using tight, ⟨d, rfl, notExtra, start⟩, d, rfl, notExtra, stop⟩

namespace Reach

variable {low high : Nat} {ds : List Draft}

theorem single {d : Draft} (tight : d.Tight) (notExtra : d.label.extra = false) :
    Reach d.start [d] d.stop := reach_singleton.2 ⟨tight, notExtra, rfl, rfl⟩

/-- A node over some drafts reaches as far as they do. -/
theorem branch (h : Reach low ds high) (kind : String) : Reach low [Draft.branch kind ds] high := by
  obtain ⟨first, head, notExtra, start⟩ := h.first
  obtain ⟨last, tail, notExtra', stop⟩ := h.last
  simp only [reach_singleton, Draft.branch, head, tail, Option.map_some, Option.getD_some]
  refine ⟨tight_node.2 ⟨⟨fun extra => absurd extra Bool.false_ne_true, ?_, ?_⟩, h.tight⟩, rfl, start,
    stop⟩
  · intro c hc
    obtain rfl : first = c := by simpa [head, Rose.children] using hc
    exact ⟨notExtra, rfl⟩
  · intro c hc
    obtain rfl : last = c := by simpa [tail, Rose.children] using hc
    exact ⟨rfl, by simp [notExtra']⟩

end Reach

/-- A new label with the same span keeps a draft of the structure tight. -/
theorem Tight.relabel {f : Tag → Tag} {t : Tag} {children : List Draft}
    (h : Tight (.node t children)) (notExtra : t.extra = false) (start : (f t).start = t.start)
    (stop : (f t).stop = t.stop) (kind : (f t).kind = t.kind) (extra : (f t).extra = t.extra) :
    Tight (Draft.relabel f (.node t children)) := by
  obtain ⟨framed, below⟩ := tight_node.1 h
  have notExtra' : (f t).extra = false := extra.trans notExtra
  refine tight_node.2 ⟨⟨fun marked => absurd (notExtra'.symm.trans marked) Bool.false_ne_true,
    fun c hc => ?_, fun c hc => ?_⟩, below⟩
  · obtain ⟨notExtra, here⟩ := framed.first c hc
    exact ⟨notExtra, here.trans start.symm⟩
  · obtain ⟨here, open'⟩ := framed.last c hc
    refine ⟨here.trans stop.symm, fun marked => ?_⟩
    have unclosed := open' marked
    simp only [isUnclosed, Rose.label, Rose.children] at unclosed ⊢
    rwa [kind]

/-- An error node that is taken apart leaves tight drafts that reach as far. -/
theorem Tight.salvage {d : Draft} (h : d.Tight) (notExtra : d.label.extra = false) :
    Reach d.start d.salvage d.stop := by
  obtain ⟨t, children⟩ := d
  unfold Draft.salvage
  split
  · rename_i malformed
    split
    · exact reach_singleton.2 ⟨h.relabel notExtra rfl rfl rfl rfl, notExtra, rfl, rfl⟩
    · rename_i some_child
      obtain ⟨framed, below⟩ := tight_node.1 h
      have nonempty : children ≠ [] := by simpa [Rose.children] using some_child
      have head := List.head?_eq_some_head nonempty
      have tail := List.getLast?_eq_some_getLast nonempty
      obtain ⟨here, unclosed⟩ := framed.last _ tail
      have closed : isUnclosed (.node t children) = false := by
        have kind : t.kind = errorKind := by
          simp only [isError, Rose.label, Tag.isError, Bool.and_eq_true, beq_iff_eq] at malformed
          exact malformed.2
        simp [isUnclosed, Rose.label, kind, errorKind, Kind.compoundStatement]
      refine ⟨below, ⟨_, head, framed.first _ head⟩, _, tail, ?_, here⟩
      exact Bool.eq_false_iff.2 fun extra => Bool.false_ne_true (closed.symm.trans (unclosed extra))
  · exact reach_singleton.2 ⟨h.relabel notExtra rfl rfl rfl rfl, notExtra, rfl, rfl⟩

/-- The leaf of a comment is as it was in an error node. -/
theorem IsExtraLeaf.salvage {d : Draft} (h : d.IsExtraLeaf) : d.salvage = [d] := by
  rw [Draft.salvage, if_neg h.not_isError]
  obtain ⟨t, rfl⟩ := h
  rfl

/-- What an error node takes over from a tight child is tight. -/
theorem Tight.of_salvage {d c : Draft} (h : d.Tight) (hc : c ∈ d.salvage) : c.Tight := by
  obtain ⟨t, children⟩ := d
  cases notExtra : t.extra with
  | true =>
    rw [((tight_node.1 h).1.bare notExtra).salvage] at hc
    exact List.mem_singleton.1 hc ▸ h
  | false => exact (h.salvage notExtra).tight c hc

namespace Reach

variable {low high : Nat} {ds : List Draft}

theorem salvage (h : Reach low ds high) : Reach low (ds.flatMap Draft.salvage) high := by
  refine ⟨fun c hc => ?_, ?_, ?_⟩
  · obtain ⟨d, hd, hc⟩ := List.mem_flatMap.1 hc
    exact (h.tight d hd).of_salvage hc
  · obtain ⟨first, head, notExtra, start⟩ := h.first
    obtain ⟨more, rfl⟩ := List.head?_eq_some_iff.1 head
    obtain ⟨c, head', notExtra', start'⟩ := ((h.tight first (by simp)).salvage notExtra).first
    refine ⟨c, ?_, notExtra', start'.trans start⟩
    rw [List.flatMap_cons, List.head?_append, head']
    rfl
  · obtain ⟨last, tail, notExtra, stop⟩ := h.last
    obtain ⟨more, rfl⟩ := List.getLast?_eq_some_iff.1 tail
    obtain ⟨c, tail', notExtra', stop'⟩ := ((h.tight last (by simp)).salvage notExtra).last
    refine ⟨c, ?_, notExtra', stop'.trans stop⟩
    rw [List.flatMap_append, List.flatMap_singleton, List.getLast?_append, tail']
    rfl

theorem error (h : Reach low ds high) : Reach low [Draft.error ds] high := h.salvage.branch errorKind

end Reach

end Draft

end RouteScript
