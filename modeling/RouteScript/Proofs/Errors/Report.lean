import RouteScript.Proofs.Errors.Statement
import RouteScript.Proofs.Descent
/-!
# Errors below errors and in reports

An error node takes over the errors among its children, but not those below them. These stay where
an argument list, an assignment, a group of a variable or the name of a route holds them, and no
other node does.

An error node lies in the range of a markup node just when it lies below it. For two nodes are one
below the other, or all leaves of one stand before those of the other, and both kinds of regions
reach from their first leaf to their last.
-/
namespace RouteScript

open Draft Script

namespace Draft

/-- An error node stands below. -/
def ErrorBelow (d : Draft) : Prop := ∃ c ∈ d.children, ∃ n ∈ c.nodes, isError n

instance (d : Draft) : Decidable d.ErrorBelow :=
  inferInstanceAs (Decidable (∃ c ∈ d.children, _))

/-- A node that may have an error among its children also below an error node, and has one. -/
def HoldsError (d : Draft) : Prop := d.label.kind ∈ errorHolders ∧ ∃ c ∈ d.children, isError c

instance (d : Draft) : Decidable d.HoldsError := inferInstanceAs (Decidable (_ ∧ _))

theorem exists_parent_of_below {d n : Draft} (h : ∃ c ∈ d.children, n ∈ c.nodes) :
    ∃ p ∈ d.nodes, n ∈ p.children := by
  induction d using Rose.induction with
  | node t children ih =>
    obtain ⟨c, hc, hn⟩ := h
    obtain ⟨u, below⟩ := c
    rcases List.mem_cons.1 (Rose.nodes_node u below ▸ hn) with rfl | deeper
    · exact ⟨_, Rose.mem_nodes_self _, hc⟩
    · obtain ⟨p, hp, child⟩ := ih _ hc (List.mem_flatMap.1 deeper)
      exact ⟨p, by
        rw [Rose.nodes_node]
        exact List.mem_cons_of_mem _ (List.mem_flatMap.2 ⟨_, hc, hp⟩), child⟩

/-- Errors below a mild error node stand in nodes that hold them. -/
theorem Mild.errorBelow_iff {d : Draft} (h : d.Mild) (error : d.isError) :
    d.ErrorBelow ↔ ∃ c ∈ d.children, ∃ n ∈ c.nodes, HoldsError n := by
  constructor
  · rintro ⟨c, hc, n, hn, malformed⟩
    obtain ⟨p, hp, child⟩ := exists_parent_of_below ⟨c, hc, hn⟩
    have holder := (h p hp).holds n child malformed
    obtain ⟨t, children⟩ := d
    rcases List.mem_cons.1 (Rose.nodes_node t children ▸ hp) with rfl | below
    · rw [(Tag.isError_iff.1 error).2] at holder
      exact absurd holder (by decide)
    · obtain ⟨c, hc, hp⟩ := List.mem_flatMap.1 below
      exact ⟨c, hc, p, hp, holder, n, child, malformed⟩
  · rintro ⟨c, hc, n, hn, _, e, he, malformed⟩
    exact ⟨c, hc, e, Rose.mem_nodes_of_child hn he, malformed⟩

end Draft

namespace Tree

/-- No error node stands below another. -/
def ErrorsApart (t : Tree) : Prop := ∀ n ∈ t.nodes, isError n → ¬ n.ErrorBelow

instance (t : Tree) : Decidable t.ErrorsApart :=
  inferInstanceAs (Decidable (∀ n ∈ t.nodes, _))

/-- How far error nodes take over what is below them. -/
structure Flattened (t : Tree) : Prop where
  /-- An error node has no error among its children. -/
  children : ∀ n ∈ t.nodes, isError n → ∀ c ∈ n.children, isError c = false
  /-- No block and no markup is below an error node. -/
  regions : ∀ n ∈ t.nodes, isError n → ∀ m ∈ n.nodes, m.label.kind ∉ regionKinds
  /-- An error node stands below another just when a node that holds errors does. -/
  below : ∀ n ∈ t.nodes, isError n →
    (n.ErrorBelow ↔ ∃ c ∈ n.children, ∃ m ∈ Rose.nodes c, HoldsError m)

theorem confined_ofScript (text : List Char) : ∀ n ∈ (ofScript text).nodes, Confined n := by
  rw [nodes, thaw_ofScript]
  have noError : Kind.sourceFile ≠ errorKind := by decide
  have noMarkup : Kind.sourceFile ≠ Kind.xml := by decide
  have noBlock : Kind.sourceFile ≠ Kind.compoundStatement := by decide
  refine Rose.forall_nodes_node.2 ⟨⟨fun error => ?_, fun markup => absurd markup noMarkup,
    fun block => absurd block noBlock⟩, items_regular text⟩
  exact absurd (Tag.isError_iff.1 error).2 noError

/-- An error node takes over the errors among its children and nothing deeper, for every text. -/
theorem ofScript_flattened (text : List Char) : (ofScript text).Flattened := by
  have mild (n : Draft) (hn : n ∈ (ofScript text).nodes) (error : n.isError) : n.Mild :=
    (confined_ofScript text n hn).error error
  refine ⟨fun n hn error => ?_, fun n hn error m hm => ?_, fun n hn error => ?_⟩
  · exact (mild n hn error n n.mem_nodes_self).noError error
  · exact (mild n hn error m hm).plain
  · exact (mild n hn error).errorBelow_iff error

/-- A call that was read is an operand of what fails behind it, and keeps the error among its
arguments. -/
theorem ofScript_flattened_call : ¬ (ofScript "f(+) + ;".toList).ErrorsApart := by
  decide +kernel

/-- Errors stand below errors in nodes of seven kinds, and of each of these in some script. -/
theorem exists_holdsError_iff (kind : String) :
    (∃ text, ∃ n ∈ (ofScript text).nodes, isError n ∧ ∃ m ∈ n.nodes, m.label.kind = kind ∧
      ∃ c ∈ m.children, isError c) ↔ kind ∈ errorHolders := by
  constructor
  · rintro ⟨text, n, hn, error, m, hm, rfl, c, hc, malformed⟩
    exact (((confined_ofScript text n hn).error error) m hm).holds c hc malformed
  · have somewhere (source : String) (found : ∃ n ∈ (ofScript source.toList).nodes, isError n ∧
        ∃ m ∈ n.nodes, m.label.kind = kind ∧ ∃ c ∈ m.children, isError c) :
        ∃ text, ∃ n ∈ (ofScript text).nodes, isError n ∧ ∃ m ∈ n.nodes, m.label.kind = kind ∧
          ∃ c ∈ m.children, isError c := ⟨_, found⟩
    intro holds
    simp only [errorHolders, List.mem_cons, List.not_mem_nil, or_false] at holds
    rcases holds with rfl | rfl | rfl | rfl | rfl | rfl | rfl
    · exact somewhere "f(+) + ;" (by decide +kernel)
    · exact somewhere "(x = 1 +) + ;" (by decide +kernel)
    · exact somewhere "$var(?) + ;" (by decide +kernel)
    · exact somewhere "$x(?) + ;" (by decide +kernel)
    · exact somewhere "$var(a)[?] + ;" (by decide +kernel)
    · exact somewhere "$(a\x7b?\x7d) + ;" (by decide +kernel)
    · exact somewhere "route[?](" (by decide +kernel)

end Tree

end RouteScript

namespace RouteScript

open Draft Script

namespace Cursor

variable {r c d : Cursor}

/-- The leaves of the structure at and below a node. -/
def solidLeaves (c : Cursor) : List Tag := c.draft.solidLeaves

/-- All leaves of one node stand before those of another. -/
def Precedes (c d : Cursor) : Prop :=
  ∀ l ∈ c.solidLeaves, ∀ m ∈ d.solidLeaves, l.stop ≤ m.start

theorem solidLeaves_of_children (some_child : c.children ≠ []) :
    c.solidLeaves = c.children.flatMap solidLeaves := by
  have nonempty : c.draft.children ≠ [] := by
    rwa [← map_draft_children, ne_eq, List.map_eq_nil_iff]
  have whole : c.solidLeaves = c.draft.children.flatMap Draft.solidLeaves := by
    rw [solidLeaves]
    generalize c.draft = d at nonempty
    obtain ⟨t, children⟩ := d
    exact solidLeaves_node t nonempty
  rw [whole, ← map_draft_children, List.flatMap_map]
  rfl

theorem solidLeaves_sublist (hc : c ∈ r.preorder) : c.solidLeaves.Sublist r.solidLeaves := by
  induction r using Cursor.induction with
  | step r ih =>
    rw [preorder_eq] at hc
    rcases List.mem_cons.1 hc with rfl | below
    · exact List.Sublist.refl _
    · obtain ⟨d, hd, hc⟩ := List.mem_flatMap.1 below
      rw [solidLeaves_of_children (List.ne_nil_of_mem hd)]
      exact (ih d hd hc).trans (List.sublist_flatten_of_mem (List.mem_map_of_mem hd))

/-- Where leaves stand in order, a node is below another or beside it. -/
theorem below_or_precedes
    (ordered : (r.children.flatMap solidLeaves).Pairwise fun a b => a.stop ≤ b.start)
    (hc : c ∈ r.preorder) (hd : d ∈ r.preorder) :
    c ∈ d.preorder ∨ d ∈ c.preorder ∨ c.Precedes d ∨ d.Precedes c := by
  induction r using Cursor.induction with
  | step r ih =>
    rcases List.mem_cons.1 (preorder_eq r ▸ hc) with rfl | below
    · exact .inr (.inl hd)
    rcases List.mem_cons.1 (preorder_eq r ▸ hd) with rfl | below'
    · exact .inl hc
    obtain ⟨a, ha, hc⟩ := List.mem_flatMap.1 below
    obtain ⟨b, hb, hd⟩ := List.mem_flatMap.1 below'
    obtain ⟨inside, across⟩ := List.pairwise_flatMap.1 ordered
    by_cases same : a = b
    · subst same
      refine ih a ha ?_ hc hd
      by_cases childless : a.children = []
      · simp [childless]
      · exact solidLeaves_of_children childless ▸ inside a ha
    · have symm : Std.Symm fun a b : Cursor => a.Precedes b ∨ b.Precedes a :=
        ⟨fun _ _ => Or.symm⟩
      have apart := (across.imp fun {a b} before =>
        (Or.inl before : a.Precedes b ∨ b.Precedes a)).forall ha hb same
      have low := (solidLeaves_sublist hc).subset
      have high := (solidLeaves_sublist hd).subset
      right; right
      exact apart.imp (fun before l hl m hm => before l (low hl) m (high hm))
        fun before l hl m hm => before l (high hl) m (low hm)

end Cursor

/-- In a tight draft without blocks no node ends in a comment. -/
theorem Draft.Tight.ended_of_plain {d : Draft} (h : d.Tight)
    (plain : ∀ n ∈ d.nodes, n.children ≠ [] → n.label.kind ≠ Kind.compoundStatement) :
    d.Ended := by
  refine ⟨h, fun n hn c hc => Bool.eq_false_iff.2 fun extra => ?_⟩
  refine plain n hn (List.ne_nil_of_mem (List.mem_of_getLast? hc)) ?_
  have unclosed := ((h n hn).last c hc).2 extra
  exact eq_of_beq (Bool.and_eq_true_iff.1 unclosed).1

namespace Tree

open Diagnostic

variable {text : List Char} {c d : Cursor}

theorem spread_children (text : List Char) :
    Spread ((Cursor.root (ofScript text)).children.flatMap Cursor.solidLeaves) := by
  have items : (Cursor.root (ofScript text)).children.map Cursor.draft
      = (items (.ofText text)).1 :=
    (Cursor.map_draft_children _).trans (congrArg Rose.children (thaw_ofScript text))
  have spread := spread_ofScript text
  rwa [← items, List.flatMap_map] at spread

/-- The leaves below a node stand in order. -/
theorem spread_below (hc : c ∈ (ofScript text).cursors) :
    Spread (c.children.flatMap Cursor.solidLeaves) := by
  rw [cursors, Cursor.preorder_eq] at hc
  rcases List.mem_cons.1 hc with rfl | below
  · exact spread_children text
  by_cases childless : c.children = []
  · rw [childless]
    exact ⟨by simp, .nil⟩
  · obtain ⟨a, ha, hc⟩ := List.mem_flatMap.1 below
    rw [← Cursor.solidLeaves_of_children childless]
    exact (spread_children text).sublist ((Cursor.solidLeaves_sublist hc).trans
      (List.sublist_flatten_of_mem (List.mem_map_of_mem ha)))

/-- The children of a node are tight. -/
theorem tight_of_mem_children (hc : c ∈ (ofScript text).cursors) (hd : d ∈ c.children) :
    d.draft.Tight := by
  have child : d.draft ∈ c.draft.children := thaw_mem_children hd
  have hn : c.draft ∈ (draft text).nodes := Draft.thaw_mem_nodes hc
  rcases List.mem_cons.1 ((Rose.nodes_node _ _) ▸ hn) with root | below
  · rw [root] at child
    exact (items_tight text _ child).1
  · obtain ⟨e, he, hn⟩ := List.mem_flatMap.1 below
    have inner := Rose.mem_nodes_of_child hn child
    exact fun m hm => (items_tight text e he).1 m (Rose.nodes_subset inner m hm)

/-- A node that reaches from its first leaf to its last, which stand in order. -/
structure Stretched (c : Cursor) : Prop where
  hull : c.draft.Hull
  spread : Spread c.solidLeaves

/-- A node below the root with no block at or below it. -/
theorem stretched_of_plain (hc : c ∈ (ofScript text).cursors) (inner : c.kind ≠ Kind.sourceFile)
    (notExtra : c.notExtra) (plain : ∀ n ∈ c.draft.nodes,
      n.children ≠ [] → n.label.kind ≠ Kind.compoundStatement) : Stretched c := by
  obtain rfl | ⟨p, hp, child⟩ := Cursor.exists_parent hc
  · exact absurd rfl inner
  have tight := tight_of_mem_children hp child
  refine ⟨(tight.ended_of_plain plain).hull ((extra_thaw c).trans (by rw [notExtra]; rfl)), ?_⟩
  exact (spread_below hp).sublist (List.sublist_flatten_of_mem (List.mem_map_of_mem child))

theorem covers_iff : c.range.covers d.range ↔
    c.node.start ≤ d.node.start ∧ d.node.stop ≤ c.node.stop := by
  rw [Range.covers, Bool.and_eq_true, decide_eq_true_eq, decide_eq_true_eq]
  exact Iff.rfl

/-- A node below another of this sort lies in its range. -/
theorem Stretched.covers_of_below (hc : Stretched c) (hd : Stretched d) (below : d ∈ c.preorder) :
    c.range.covers d.range := by
  have inside := hc.hull.inside hc.spread hd.hull (Cursor.solidLeaves_sublist below)
  rw [← c.start_eq, ← d.start_eq, ← c.stop_eq, ← d.stop_eq] at inside
  exact covers_iff.2 inside

/-- A node in the range of another does not stand beside it. -/
theorem Stretched.not_precedes (hc : Stretched c) (hd : Stretched d)
    (covers : c.range.covers d.range) : ¬ c.Precedes d ∧ ¬ d.Precedes c := by
  have long := hd.hull.long hd.spread
  obtain ⟨⟨first, head, start⟩, last, tail, stop⟩ := hc.hull
  obtain ⟨⟨first', head', start'⟩, last', tail', stop'⟩ := hd.hull
  obtain ⟨low, high⟩ := covers_iff.1 covers
  rw [← Cursor.start_eq] at start start' long
  rw [← Cursor.stop_eq] at stop stop' long
  constructor
  · intro before
    have order := before last (List.mem_of_getLast? tail) first' (List.mem_of_head? head')
    omega
  · intro before
    have order := before last' (List.mem_of_getLast? tail') first (List.mem_of_head? head)
    omega

theorem draft_mem_nodes_of_preorder (hd : d ∈ c.preorder) : d.draft ∈ c.draft.nodes := by
  have there := List.mem_map_of_mem (f := Cursor.node) hd
  rw [Cursor.map_node_preorder] at there
  rw [Cursor.draft, Node.thaw, Rose.nodes_map]
  exact List.mem_map_of_mem there

theorem confined_cursor (hc : c ∈ (ofScript text).cursors) : Confined c.draft := by
  have hn : c.draft ∈ (draft text).nodes := Draft.thaw_mem_nodes hc
  rw [← thaw_ofScript] at hn
  exact confined_ofScript text _ hn

theorem isError_draft (c : Cursor) : isError c.draft = c.node.isError :=
  congrArg Tag.isError c.label_draft

theorem mild_of_error (hc : c ∈ (ofScript text).cursors) (error : c.node.isError) :
    c.draft.Mild := (confined_cursor hc).error ((isError_draft c).trans error)

theorem kind_of_error (error : c.node.isError) : c.kind = errorKind := (Tag.isError_iff.1 error).2

theorem stretched_of_error (hc : c ∈ (ofScript text).cursors) (error : c.node.isError) :
    Stretched c := by
  refine stretched_of_plain hc ?_ ?_ fun n hn _ block => ?_
  · rw [kind_of_error error]
    decide
  · by_contra extra
    refine (isExtraLeaf_of_extra hc (by simpa using extra)).not_isError ?_
    exact (isError_draft c).trans error
  · have plain := (mild_of_error hc error n hn).plain
    rw [block] at plain
    exact absurd plain (by decide)

theorem markup_cursor (hc : c ∈ (ofScript text).cursors) (markup : c.kind = Kind.xml) :
    c.isNamed ∧ ∀ n ∈ c.draft.children, Rose.children n = [] := by
  have there := (confined_cursor hc).markup
  rw [Cursor.label_draft] at there
  exact there markup

theorem stretched_of_markup (hc : c ∈ (ofScript text).cursors) (markup : c.kind = Kind.xml) :
    Stretched c := by
  refine stretched_of_plain hc ?_ ?_ fun n hn some_child block => ?_
  · rw [markup]
    decide
  · by_contra extra
    have kind := kind_of_extra hc (by simpa using extra)
    rw [markup] at kind
    exact absurd kind (by decide)
  · obtain ⟨_, leaves⟩ := markup_cursor hc markup
    have kind : c.draft.label.kind = Kind.xml := by rwa [Cursor.label_draft]
    generalize c.draft = d at hn kind leaves
    obtain ⟨t, children⟩ := d
    rw [Rose.nodes_node] at hn
    rcases List.mem_cons.1 hn with rfl | below
    · rw [kind] at block
      exact absurd block (by decide)
    · obtain ⟨e, he, hn⟩ := List.mem_flatMap.1 below
      obtain ⟨u, grandchildren⟩ := e
      obtain rfl : grandchildren = [] := leaves _ he
      rw [Rose.nodes_node] at hn
      obtain rfl : n = _ := by simpa using hn
      exact some_child rfl

/-- Markup is around an error node just when its range is. -/
theorem covered_by_markup (hc : c ∈ (ofScript text).cursors) (error : c.node.isError) :
    (((ofScript text).cursors.filter (isOfKind Kind.xml)).map Cursor.range).any
      (·.covers c.range) = c.ancestors.any (·.kind == Kind.xml) := by
  rw [Bool.eq_iff_iff, List.any_eq_true, List.any_eq_true]
  constructor
  · rintro ⟨_, among, covers⟩
    obtain ⟨x, hx, rfl⟩ := List.mem_map.1 among
    obtain ⟨hx, ofKind⟩ := List.mem_filter.1 hx
    have markup : x.kind = Kind.xml := by
      simp only [isOfKind, Bool.and_eq_true, beq_iff_eq] at ofKind
      exact ofKind.2
    have stretched := stretched_of_markup hx markup
    have stretched' := stretched_of_error hc error
    obtain ⟨noneBefore, noneBehind⟩ := stretched.not_precedes stretched' covers
    rcases Cursor.below_or_precedes (spread_children text).ordered hx hc with
      inner | outer | before | behind
    · -- No markup is below an error node.
      have plain := (mild_of_error hc error _ (draft_mem_nodes_of_preorder inner)).plain
      rw [Cursor.label_draft, show x.node.tag.kind = Kind.xml from markup] at plain
      exact absurd plain (by decide)
    · rcases Cursor.mem_ancestors_of_mem_preorder outer with rfl | above
      · rw [kind_of_error error] at markup
        exact absurd markup (by decide)
      · exact ⟨x, above, beq_iff_eq.2 markup⟩
    · exact absurd before noneBefore
    · exact absurd behind noneBehind
  · rintro ⟨x, above, markup⟩
    have markup := eq_of_beq markup
    obtain outside | ⟨hx, below⟩ := Cursor.mem_preorder_of_mem_ancestors hc above
    · contradiction
    have covers := (stretched_of_markup hx markup).covers_of_below (stretched_of_error hc error) below
    refine ⟨x.range, List.mem_map_of_mem (List.mem_filter.2 ⟨hx, ?_⟩), covers⟩
    exact Bool.and_eq_true_iff.2 ⟨(markup_cursor hx markup).1, beq_iff_eq.2 markup⟩

/-- What reports an error node. -/
def syntaxError (c : Cursor) : Diagnostic := ⟨c.range, .error, "Syntax error"⟩

/-- The error nodes outside markup, in preorder. -/
def plainErrors (t : Tree) : List Cursor :=
  t.cursors.filter fun c => c.node.isError && !c.ancestors.any (·.kind == Kind.xml)

theorem findings_plainErrors (text : List Char) :
    syntaxErrors.findings (ofScript text) = (ofScript text).plainErrors.map syntaxError := by
  obtain ⟨errors, markup⟩ :=
    nodes_run Kind.error Kind.xml ["error", "xml"] (Cursor.root (ofScript text))
  have named : isOfKind Kind.error = fun c : Cursor => c.node.isError := rfl
  simp only [Rule.findings, syntaxErrors]
  rw [errors, markup, List.filter_map, List.map_map, plainErrors, named, List.filter_filter]
  refine congrArg (List.map syntaxError) (List.filter_congr fun c hc => ?_)
  cases error : c.node.isError with
  | false => simp
  | true =>
    have covered := covered_by_markup hc error
    rw [cursors] at covered
    rw [Bool.and_true, Bool.true_and, ← covered]
    rfl

/-- What an assignment lacks is no syntax error. -/
theorem message_checkAssignment {statement : Cursor} {d : Diagnostic}
    (found : checkAssignment statement = some d) :
    d.message = invalidAssignment ∨ d.message = invalidValue := by
  unfold checkAssignment at found
  split at found
  · cases found
    exact .inl rfl
  · dsimp only at found
    repeat' split at found
    all_goals cases found
    · exact .inl rfl
    · exact .inr rfl

/-- No other rule has the message of a syntax error. -/
theorem message_of_other {r : Rule} (other : r ∈ rules.tail) (t : Tree) :
    ∀ d ∈ r.findings t, d.message ≠ "Syntax error" := by
  simp only [rules, List.tail_cons, List.mem_cons, List.not_mem_nil, or_false] at other
  intro d hd
  rcases other with rfl | rfl | rfl | rfl
  · obtain ⟨_, _, rfl⟩ := List.mem_map.1 hd
    simp
  · obtain ⟨_, _, rfl⟩ := List.mem_map.1 hd
    simp
  · obtain ⟨m, _, found⟩ := List.mem_filterMap.1 hd
    obtain ⟨statement, _, found⟩ := Option.bind_eq_some_iff.1 found
    obtain ⟨expression, _, found⟩ := Option.bind_eq_some_iff.1 found
    split at found
    · cases found
      simp
    · contradiction
  · obtain ⟨statement, _, found⟩ := List.mem_filterMap.1 hd
    rcases message_checkAssignment found with message | message <;>
      simp [message, invalidAssignment, invalidValue]

/-- How the error nodes of a tree are reported. -/
structure ErrorsReported (t : Tree) (hints : Bool) : Prop where
  /-- Every error node outside markup is reported, and nothing else is reported as one. -/
  exact : (analyze rules ⟨hints, true⟩ t).filter (·.message == "Syntax error")
    = t.plainErrors.map syntaxError
  /-- The nodes are reported in preorder and once. -/
  ordered : t.plainErrors.Pairwise fun c d => c.id < d.id
  none_left : t.hasError = false →
    (analyze rules ⟨hints, true⟩ t).filter (·.message == "Syntax error") = []

/-- Syntax errors are the error nodes that are not in markup, whatever the text. -/
theorem ofScript_errorsReported (text : List Char) (hints : Bool) :
    (ofScript text).ErrorsReported hints := by
  have exact : (analyze rules ⟨hints, true⟩ (ofScript text)).filter (·.message == "Syntax error")
      = (ofScript text).plainErrors.map syntaxError := by
    have enabled : rules.filter (·.enabled ⟨hints, true⟩)
        = syntaxErrors :: rules.tail.filter (·.enabled ⟨hints, true⟩) := rfl
    have others : ((rules.tail.filter (·.enabled ⟨hints, true⟩)).flatMap fun r =>
        (r.findings (ofScript text)).filter (·.message == "Syntax error")) = [] := by
      refine List.flatMap_eq_nil_iff.2 fun r hr => List.filter_eq_nil_iff.2 fun d hd => ?_
      simp [message_of_other (List.mem_filter.1 hr).1 _ d hd]
    rw [analyze, enabled, List.flatMap_cons, List.filter_append, List.filter_flatMap, others,
      List.append_nil, findings_plainErrors, List.filter_eq_self]
    exact List.forall_mem_map.2 fun c _ => rfl
  refine ⟨exact, (cursors_pairwise _ _ _).filter _, fun noError => ?_⟩
  rw [exact, List.map_eq_nil_iff]
  refine List.filter_eq_nil_iff.2 fun c hc error => ?_
  have hn : c.draft ∈ (draft text).nodes := Draft.thaw_mem_nodes hc
  rw [← thaw_ofScript] at hn
  have malformed := (Bool.and_eq_true_iff.1 error).1
  rw [← isError_draft, isError_of_hasError noError _ hn] at malformed
  exact Bool.false_ne_true malformed

end Tree

end RouteScript
