import RouteScript.Proofs.Nesting.Tight
import Mathlib.Data.List.Forall2
import Mathlib.Data.List.Pairwise
/-!
# Nested drafts

A draft is nested when every node encloses its children and these stand apart in their order. Nodes
over nested drafts that stand in order are nested, and a draft may give way to one that reaches no
further.
-/
namespace RouteScript

theorem exists_of_forall₂ {α : Type u} {β : Type v} {R : α → β → Prop} {xs : List α} {ys : List β}
    (h : List.Forall₂ R xs ys) {y : β} (hy : y ∈ ys) : ∃ x ∈ xs, R x y := by
  induction h with
  | nil => simp at hy
  | @cons x z xs ys first _ ih =>
    rcases List.mem_cons.1 hy with rfl | later
    · exact ⟨x, by simp, first⟩
    · obtain ⟨x', hx, related⟩ := ih later
      exact ⟨x', by simp [hx], related⟩

namespace Draft

/-- A node encloses its children, which stand apart in their order. No other child reaches around
an extra one. -/
structure Proper (d : Draft) : Prop where
  forward : d.start ≤ d.stop
  inside : ∀ c ∈ d.children, d.start ≤ start c ∧ stop c ≤ d.stop
  ordered : d.children.Pairwise fun a b => stop a ≤ start b
  innermost : ∀ e ∈ d.children, e.label.extra → ∀ c ∈ d.children,
    start c ≤ start e → stop e ≤ stop c → c = e

/-- No comment in a block stands before the brace that opens the block. -/
def BraceFirst (d : Draft) : Prop :=
  d.label.kind = Kind.compoundStatement → ∀ c ∈ d.children, c.label.extra → d.start ≤ start c

/-- Every node is proper, and none is empty. -/
def Nested (d : Draft) : Prop := ∀ n ∈ d.nodes, start n < stop n ∧ Proper n

def Braced (d : Draft) : Prop := ∀ n ∈ d.nodes, BraceFirst n

theorem Nested.long {d : Draft} (h : d.Nested) : d.start < d.stop := (h d d.mem_nodes_self).1

/-- Two drafts do not overlap. -/
def Apart (a b : Draft) : Prop := a.stop ≤ b.start ∨ b.stop ≤ a.start

instance : Std.Symm Apart := ⟨fun _ _ apart => apart.symm⟩

/-- Nested drafts that stand in order between two offsets. -/
structure Fits (low : Nat) (ds : List Draft) (high : Nat) : Prop where
  nested : ∀ d ∈ ds, d.Nested
  inside : ∀ d ∈ ds, low ≤ d.start ∧ d.stop ≤ high
  ordered : ds.Pairwise fun a b => a.stop ≤ b.start

theorem fits_nil (low high : Nat) : Fits low [] high := ⟨by simp, by simp, .nil⟩

theorem fits_append {low high : Nat} {xs ys : List Draft} : Fits low (xs ++ ys) high ↔
    Fits low xs high ∧ Fits low ys high ∧ ∀ x ∈ xs, ∀ y ∈ ys, x.stop ≤ y.start := by
  constructor
  · rintro ⟨nested, inside, ordered⟩
    rw [List.forall_mem_append] at nested inside
    rw [List.pairwise_append] at ordered
    exact ⟨⟨nested.1, inside.1, ordered.1⟩, ⟨nested.2, inside.2, ordered.2.1⟩, ordered.2.2⟩
  · rintro ⟨left, right, between⟩
    exact ⟨List.forall_mem_append.2 ⟨left.nested, right.nested⟩,
      List.forall_mem_append.2 ⟨left.inside, right.inside⟩,
      List.pairwise_append.2 ⟨left.ordered, right.ordered, between⟩⟩

theorem fits_singleton {low high : Nat} {d : Draft} :
    Fits low [d] high ↔ d.Nested ∧ low ≤ d.start ∧ d.stop ≤ high :=
  ⟨fun h => ⟨h.nested d (by simp), h.inside d (by simp)⟩,
    fun h => ⟨by simpa using h.1, by simpa using h.2, List.pairwise_singleton _ _⟩⟩

theorem fits_cons {low high : Nat} {d : Draft} {ds : List Draft} : Fits low (d :: ds) high ↔
    (d.Nested ∧ low ≤ d.start ∧ d.stop ≤ high) ∧ Fits low ds high ∧ ∀ c ∈ ds, d.stop ≤ c.start := by
  rw [← List.singleton_append, fits_append, fits_singleton]
  simp only [List.mem_singleton, forall_eq]

namespace Fits

variable {low mid high : Nat} {ds xs ys : List Draft}

theorem mono {low' high' : Nat} (h : Fits low ds high) (lower : low' ≤ low)
    (higher : high ≤ high') : Fits low' ds high' :=
  ⟨h.nested, fun d hd => ⟨Nat.le_trans lower (h.inside d hd).1,
    Nat.le_trans (h.inside d hd).2 higher⟩, h.ordered⟩

theorem join (left : Fits low xs mid) (right : Fits mid ys high) (lower : low ≤ mid)
    (higher : mid ≤ high) : Fits low (xs ++ ys) high :=
  fits_append.2 ⟨left.mono Nat.le.refl higher, right.mono lower Nat.le.refl, fun x hx y hy =>
    Nat.le_trans (left.inside x hx).2 (right.inside y hy).1⟩

/-- Between two runs of drafts there is an offset. -/
theorem cut (h : Fits low (xs ++ ys) high) (forward : low ≤ high) :
    ∃ mid, low ≤ mid ∧ mid ≤ high ∧ Fits low xs mid ∧ Fits mid ys high := by
  induction xs generalizing low with
  | nil => exact ⟨low, Nat.le.refl, forward, fits_nil _ _, h⟩
  | cons x xs ih =>
    obtain ⟨⟨nested, lower, higher⟩, rest, first⟩ := fits_cons.1 h
    have rest : Fits x.stop (xs ++ ys) high :=
      ⟨rest.nested, fun d hd => ⟨first d hd, (rest.inside d hd).2⟩, rest.ordered⟩
    obtain ⟨mid, above, below, left, right⟩ := ih rest higher
    have long := nested.long
    refine ⟨mid, by omega, below, fits_cons.2 ⟨⟨nested, lower, above⟩, ?_, ?_⟩, right⟩
    · exact left.mono (by omega) Nat.le.refl
    · exact fun c hc => (left.inside c hc).1

/-- Drafts reach from the start of the first to the end of the last. -/
theorem ends (h : Fits low ds high) {first last : Draft} (head : ds.head? = some first)
    (tail : ds.getLast? = some last) : Fits first.start ds last.stop := by
  refine ⟨h.nested, fun d hd => ⟨?_, ?_⟩, h.ordered⟩
  · obtain ⟨more, rfl⟩ := List.head?_eq_some_iff.1 head
    rcases List.mem_cons.1 hd with rfl | later
    · exact Nat.le.refl
    · have := (h.nested first (by simp)).long
      have := (fits_cons.1 h).2.2 d later
      omega
  · obtain ⟨more, rfl⟩ := List.getLast?_eq_some_iff.1 tail
    rcases List.mem_append.1 hd with earlier | same
    · have := (h.nested last (by simp)).long
      have := (fits_append.1 h).2.2 d earlier last (by simp)
      omega
    · exact Nat.le_of_eq (congrArg (fun d : Draft => d.stop) (List.mem_singleton.1 same))

theorem disjoint (h : Fits low ds high) {c d : Draft} (hc : c ∈ ds) (hd : d ∈ ds) (other : c ≠ d) :
    Apart c d :=
  have apart : ds.Pairwise Apart := h.ordered.imp fun before => .inl before
  apart.forall hc hd other

theorem sublist (h : Fits low ds high) (sub : xs.Sublist ds) : Fits low xs high :=
  ⟨fun d hd => h.nested d (sub.subset hd), fun d hd => h.inside d (sub.subset hd),
    h.ordered.sublist sub⟩

end Fits

/-- A node over drafts that stand in order inside its span is proper. -/
theorem Fits.proper {t : Tag} {children : List Draft} (h : Fits t.start children t.stop)
    (forward : t.start ≤ t.stop) : Proper (.node t children) := by
  refine ⟨forward, h.inside, h.ordered, fun e he _ c hc front back => ?_⟩
  by_contra other
  have := (h.nested e he).long
  have := (h.nested c hc).long
  rcases h.disjoint hc he other with before | behind <;> omega

theorem nested_node {t : Tag} {children : List Draft} :
    Nested (.node t children) ↔ t.start < t.stop ∧ Fits t.start children t.stop := by
  rw [Nested, Rose.forall_nodes_node]
  constructor
  · rintro ⟨⟨long, proper⟩, below⟩
    exact ⟨long, below, proper.inside, proper.ordered⟩
  · rintro ⟨long, fits⟩
    exact ⟨⟨long, fits.proper (Nat.le_of_lt long)⟩, fits.nested⟩

theorem braced_node {t : Tag} {children : List Draft} :
    Braced (.node t children) ↔ BraceFirst (.node t children) ∧ ∀ c ∈ children, c.Braced :=
  Rose.forall_nodes_node

/-- A node over drafts in order is nested and reaches no further than they do. -/
theorem Fits.branch {low high : Nat} {children : List Draft} (h : Fits low children high)
    (nonempty : children ≠ []) (kind : String) : Fits low [Draft.branch kind children] high := by
  have head := List.head?_eq_some_head nonempty
  have tail := List.getLast?_eq_some_getLast nonempty
  have ends := h.ends head tail
  have long := (h.nested _ (List.head_mem nonempty)).long
  have reach := (ends.inside _ (List.head_mem nonempty)).2
  have first := h.inside _ (List.head_mem nonempty)
  have last := h.inside _ (List.getLast_mem nonempty)
  simp only [fits_singleton, Draft.branch, head, tail, Option.map_some, Option.getD_some,
    nested_node]
  exact ⟨⟨Nat.lt_of_lt_of_le long reach, ends⟩, first.1, last.2⟩

theorem braced_of_branch {kind : String} {children : List Draft}
    (h : (branch kind children).Braced) : ∀ c ∈ children, c.Braced := (braced_node.1 h).2

theorem Nested.fits {d : Draft} (h : d.Nested) : Fits d.start [d] d.stop :=
  fits_singleton.2 ⟨h, Nat.le.refl, Nat.le.refl⟩

/-- A draft that may stand for another reaches no further, and has the same blocks. -/
structure ReplaceableBy (d d' : Draft) : Prop where
  fits : d.Nested → Fits d.start [d'] d.stop
  braced : d'.Braced → d.Braced
  reach : d.Tight → d.label.extra = false → Reach d.start [d'] d.stop

namespace ReplaceableBy

@[simp] theorem refl (d : Draft) : ReplaceableBy d d := ⟨Nested.fits, id, Reach.single⟩

/-- A new label with the same span, for a node that is no block or stays one. -/
theorem relabel {f : Tag → Tag} {t : Tag} (start : (f t).start = t.start)
    (stop : (f t).stop = t.stop) (kind : (f t).kind = t.kind) (extra : (f t).extra = t.extra)
    (children : List Draft) :
    ReplaceableBy (.node t children) (Draft.relabel f (.node t children)) := by
  refine ⟨fun h => fits_singleton.2 ⟨?_, Nat.le_of_eq start.symm, Nat.le_of_eq stop⟩, fun h => ?_,
    fun tight notExtra => reach_singleton.2
      ⟨tight.relabel notExtra start stop kind extra, extra.trans notExtra, start, stop⟩⟩
  · rw [nested_node] at h
    rwa [Draft.relabel, nested_node, start, stop]
  · rw [Draft.relabel, braced_node] at h
    refine braced_node.2 ⟨fun block c hc extra => ?_, h.2⟩
    exact Nat.le_trans (Nat.le_of_eq start.symm) (h.1 (kind.trans block) c hc extra)

theorem trans {d d' d'' : Draft} (h : ReplaceableBy d d') (h' : ReplaceableBy d' d'') :
    ReplaceableBy d d'' := by
  refine ⟨fun nested => ?_, fun braced => h.braced (h'.braced braced), fun tight notExtra => ?_⟩
  · obtain ⟨nested', lower, higher⟩ := fits_singleton.1 (h.fits nested)
    exact (h'.fits nested').mono lower higher
  · obtain ⟨tight', notExtra', start, stop⟩ := reach_singleton.1 (h.reach tight notExtra)
    rw [← start, ← stop]
    exact h'.reach tight' notExtra'

@[simp] theorem withField {d d' : Draft} (h : ReplaceableBy d d') (field : String) :
    ReplaceableBy d (d'.withField field) := by
  obtain ⟨t, children⟩ := d'
  exact h.trans (relabel rfl rfl rfl rfl children)

@[simp] theorem wrap (d : Draft) : ReplaceableBy d (Script.wrap d) :=
  ⟨fun h => h.fits.branch (by simp) Kind.expression, fun h => braced_of_branch h d (by simp),
    fun tight notExtra => (Reach.single tight notExtra).branch Kind.expression⟩

@[simp] theorem unwrap (d : Draft) : ReplaceableBy d (Script.unwrap d) := by
  obtain ⟨t, children⟩ := d
  unfold Script.unwrap
  split
  · rename_i only isExpression single
    obtain rfl : children = [only] := single
    have kind : t.kind ≠ Kind.compoundStatement := by
      intro same
      simp [Rose.label, same, Kind.compoundStatement, Kind.expression] at isExpression
    refine ⟨fun h => (nested_node.1 h).2,
      fun h => braced_node.2 ⟨fun block => absurd block kind, by simpa using h⟩, fun tight _ => ?_⟩
    obtain ⟨framed, below⟩ := tight_node.1 tight
    obtain ⟨notExtra, start⟩ := framed.first only rfl
    exact reach_singleton.2 ⟨below only (by simp), notExtra, start, (framed.last only rfl).1⟩
  · exact refl _

end ReplaceableBy

theorem Fits.replaceable {low high : Nat} {ds ds' : List Draft} (h : Fits low ds high)
    (replaceables : List.Forall₂ ReplaceableBy ds ds') : Fits low ds' high := by
  induction replaceables with
  | nil => exact h
  | @cons d d' ds ds' first later ih =>
    obtain ⟨⟨nested, lower, higher⟩, rest, front⟩ := fits_cons.1 h
    refine fits_append.2 ⟨(first.fits nested).mono lower higher, ih rest, fun b hb c hc => ?_⟩
    obtain ⟨e, he, replaceable⟩ := exists_of_forall₂ later hc
    have := ((first.fits nested).inside b hb).2
    have := front e he
    have := ((replaceable.fits (rest.nested e he)).inside c (by simp)).1
    omega

/-- What an error node takes over from a child stands where the child stood. -/
theorem Nested.salvage {d : Draft} (h : d.Nested) : Fits d.start d.salvage d.stop := by
  obtain ⟨t, children⟩ := d
  unfold Draft.salvage
  split
  · split
    · exact (ReplaceableBy.relabel rfl rfl rfl rfl children).fits h
    · exact (nested_node.1 h).2
  · exact (ReplaceableBy.relabel rfl rfl rfl rfl children).fits h

theorem Fits.salvage {low high : Nat} {ds : List Draft} (h : Fits low ds high) :
    Fits low (ds.flatMap Draft.salvage) high := by
  induction ds with
  | nil => exact h
  | cons d ds ih =>
    obtain ⟨⟨nested, lower, higher⟩, rest, front⟩ := fits_cons.1 h
    refine fits_append.2 ⟨nested.salvage.mono lower higher, ih rest, fun c hc e he => ?_⟩
    obtain ⟨b, hb, he⟩ := List.mem_flatMap.1 he
    have := nested.salvage.inside c hc
    have := front b hb
    have := (rest.nested b hb).salvage.inside e he
    omega

theorem Fits.error {low high : Nat} {children : List Draft} (h : Fits low children high)
    (nonempty : children ≠ []) : Fits low [Draft.error children] high := by
  refine h.salvage.branch ?_ errorKind
  obtain ⟨d, rest, rfl⟩ := List.exists_cons_of_ne_nil nonempty
  have some_child : d.salvage ≠ [] := by
    unfold Draft.salvage
    split
    · split
      · simp
      · rename_i below
        simpa using below
    · simp
  simp [some_child]

theorem braced_of_salvage {d : Draft} (h : ∀ c ∈ d.salvage, c.Braced) : d.Braced := by
  obtain ⟨t, children⟩ := d
  unfold salvage at h
  split at h
  · rename_i malformed
    have kind : t.kind ≠ Kind.compoundStatement := by
      intro same
      have : isError (.node t children) = false := by
        simp [isError, Rose.label, Tag.isError, same, Kind.compoundStatement, errorKind]
      simp [this] at malformed
    split at h
    · rename_i childless
      obtain rfl : children = [] := by simpa [Rose.children] using childless
      exact braced_node.2 ⟨fun block => absurd block kind, by simp⟩
    · exact braced_node.2 ⟨fun block => absurd block kind, h⟩
  · have := h _ (List.mem_singleton_self _)
    exact (ReplaceableBy.relabel (f := fun t => { t with field := none })
      rfl rfl rfl rfl children).braced
      this

theorem braced_of_error {children : List Draft} (h : (error children).Braced) :
    ∀ c ∈ children, c.Braced := fun c hc =>
  braced_of_salvage fun e he => braced_of_branch h e (List.mem_flatMap.2 ⟨c, hc, he⟩)

theorem ReplaceableBy.error (d : Draft) : ReplaceableBy d (Draft.error [d]) :=
  ⟨fun h => h.fits.error (by simp), fun h => braced_of_error h d (by simp),
    fun tight notExtra => (Reach.single tight notExtra).error⟩

end Draft

end RouteScript
