import RouteScript.Proofs.Braces.Rules
import RouteScript.Proofs.Nesting.Spans
/-!
# What stands below error nodes

An error node takes over the children of the errors among its own children, and no block and no
markup ever gets into one. Errors deeper in it stand where an error node was complete before the
reading failed: among arguments, right of an equals sign, and among the words of a group in
brackets or braces or of the name of a route.
-/
namespace RouteScript

open Script

theorem Rose.nodes_subset {α : Type u} {t n : Rose α} (hn : n ∈ t.nodes) :
    ∀ m ∈ n.nodes, m ∈ t.nodes := by
  induction t using Rose.induction with
  | node a cs ih =>
    rw [nodes_node, List.mem_cons] at hn
    rcases hn with rfl | below
    · exact fun m hm => hm
    · obtain ⟨c, hc, hn⟩ := List.mem_flatMap.1 below
      intro m hm
      rw [nodes_node]
      exact List.mem_cons_of_mem _ (List.mem_flatMap.2 ⟨c, hc, ih c hc hn m hm⟩)

/-- A token that is no error wherever it stands. -/
def Token.IsKnown (t : Token) : Prop := t.kind ≠ .unterminatedString ∧ t.kind ≠ .unknown

namespace Draft

/-- The kinds of nodes that may stand below an error node and have an error among their children. -/
def errorHolders : List String :=
  [Kind.argumentList, Kind.assignment, Kind.variableName, Kind.pvarArgument, Kind.pvarIndex,
    Kind.transformation, Kind.routeName]

/-- The kinds of nodes that no error node is around. -/
def regionKinds : List String := [Kind.compoundStatement, Kind.xml]

/-- A node that may stand below an error node, or be one. -/
structure Tame (d : Draft) : Prop where
  plain : d.label.kind ∉ regionKinds
  holds : ∀ c ∈ d.children, isError c → d.label.kind ∈ errorHolders

/-- A draft all nodes of which are tame. -/
def Mild (d : Draft) : Prop := ∀ n ∈ d.nodes, Tame n

/-- A mild draft that is no error node itself. -/
structure Whole (d : Draft) : Prop where
  mild : d.Mild
  noError : d.isError = false

variable {t : Tag} {kind : String} {children : List Draft} {d : Draft}

theorem mild_node : Mild (.node t children) ↔ Tame (.node t children) ∧ ∀ c ∈ children, c.Mild :=
  Rose.forall_nodes_node

theorem Mild.of_mem_nodes {n : Draft} (h : d.Mild) (hn : n ∈ d.nodes) : n.Mild := fun m hm =>
  h m (Rose.nodes_subset hn m hm)

theorem Tag.isError_iff : t.isError ↔ t.named ∧ t.kind = errorKind := by
  simp [Tag.isError]

theorem mild_leaf (plain : t.kind ∉ regionKinds) : Mild (.node t []) :=
  mild_node.2 ⟨⟨plain, by simp [Rose.children]⟩, by simp⟩

theorem Mild.relabel (h : d.Mild) {f : Tag → Tag} (same : ∀ t, (f t).kind = t.kind) :
    (d.relabel f).Mild := by
  obtain ⟨t, children⟩ := d
  obtain ⟨⟨plain, holds⟩, below⟩ := mild_node.1 h
  refine mild_node.2 ⟨⟨?_, ?_⟩, below⟩
  · simpa only [Rose.label, same] using plain
  · simpa only [Rose.label, Rose.children, same] using holds

theorem Mild.withField (h : d.Mild) (field : String) : (d.withField field).Mild :=
  h.relabel fun _ => rfl

/-- An error node that is tame has no error among its children. -/
theorem Tame.noError (h : d.Tame) (error : d.isError) :
    ∀ c ∈ d.children, isError c = false := by
  intro c hc
  refine Bool.eq_false_iff.2 fun error' => ?_
  have holder := h.holds c hc error'
  rw [(Tag.isError_iff.1 error).2] at holder
  exact absurd holder (by decide)

theorem isError_branch : isError (branch kind children) = (kind == errorKind) := by
  simp [isError, branch, Rose.label, Tag.isError]

namespace Whole

theorem withField (h : d.Whole) (field : String) : (d.withField field).Whole := by
  refine ⟨h.mild.withField field, ?_⟩
  obtain ⟨t, children⟩ := d
  exact h.noError

/-- A node that takes any mild drafts. -/
theorem holder (holds : kind ∈ errorHolders) (h : ∀ c ∈ children, c.Mild) :
    (branch kind children).Whole := by
  have apart : ∀ kind ∈ errorHolders, kind ∉ regionKinds ∧ (kind == errorKind) = false := by decide
  obtain ⟨plain, noError⟩ := apart kind holds
  exact ⟨mild_node.2 ⟨⟨plain, fun _ _ _ => holds⟩, h⟩, isError_branch.trans noError⟩

/-- A node over drafts none of which is an error. -/
theorem branch (plain : kind ∉ errorKind :: regionKinds) (h : ∀ c ∈ children, c.Whole) :
    (branch kind children).Whole := by
  obtain ⟨noError, plain⟩ := not_or.1 (mt List.mem_cons.2 plain)
  refine ⟨mild_node.2 ⟨⟨plain, fun c hc error => ?_⟩, fun c hc => (h c hc).mild⟩, ?_⟩
  · exact absurd ((h c hc).noError.symm.trans error) Bool.false_ne_true
  · exact isError_branch.trans (beq_eq_false_iff_ne.2 noError)

theorem leaf (plain : kind ∉ errorKind :: regionKinds) (named : Bool) (start stop : Nat) :
    (leaf kind named start stop).Whole := by
  obtain ⟨noError, plain⟩ := not_or.1 (mt List.mem_cons.2 plain)
  exact ⟨mild_leaf plain, Bool.eq_false_iff.2 fun error => noError (Tag.isError_iff.1 error).2⟩

theorem wrap (h : d.Whole) : (wrap d).Whole := branch (by decide) (List.forall_mem_singleton.2 h)

theorem unwrap (h : d.Whole) : (unwrap d).Whole := by
  obtain ⟨t, children⟩ := d
  unfold Script.unwrap
  split
  · rename_i only isExpression single
    obtain rfl : children = [only] := single
    obtain ⟨⟨_, holds⟩, below⟩ := mild_node.1 h.mild
    refine ⟨below only (by simp), Bool.eq_false_iff.2 fun error => ?_⟩
    have holder := holds only (by simp [Rose.children]) error
    rw [eq_of_beq isExpression] at holder
    exact absurd holder (by decide)
  · exact h

end Whole

/-- What an error node takes over from its children. -/
theorem Mild.salvage (h : d.Mild) : ∀ c ∈ d.salvage, c.Whole := by
  obtain ⟨t, children⟩ := d
  unfold Draft.salvage
  split
  · rename_i error
    split
    · rw [List.forall_mem_singleton]
      exact ⟨h.relabel fun _ => rfl, rfl⟩
    · obtain ⟨tame, below⟩ := mild_node.1 h
      exact fun c hc => ⟨below c hc, tame.noError error c hc⟩
  · rename_i noError
    rw [List.forall_mem_singleton]
    exact ⟨h.relabel fun _ => rfl, Bool.eq_false_iff.2 noError⟩

theorem Mild.error (h : ∀ c ∈ children, c.Mild) : (error children).Mild := by
  have whole : ∀ c ∈ children.flatMap Draft.salvage, c.Whole := fun c hc => by
    obtain ⟨d, hd, hc⟩ := List.mem_flatMap.1 hc
    exact (h d hd).salvage c hc
  have plain : errorKind ∉ regionKinds := by decide
  refine mild_node.2 ⟨⟨plain, fun c hc error => ?_⟩, fun c hc => (whole c hc).mild⟩
  exact absurd ((whole c hc).noError.symm.trans error) Bool.false_ne_true

theorem mild_tokenLeaf (t : Token) : (tokenLeaf t).Mild := by
  have leaf {kind : String} (plain : kind ∉ regionKinds) (named : Bool) :
      (Draft.leaf kind named t.start t.stop).Mild := mild_leaf plain
  unfold tokenLeaf
  split
  case h_6 =>
    refine leaf ?_ _
    cases t.kind <;> decide
  all_goals exact leaf (by decide) _

theorem whole_tokenLeaf {t : Token} (known : t.IsKnown) : (tokenLeaf t).Whole := by
  refine ⟨mild_tokenLeaf t, ?_⟩
  unfold tokenLeaf
  split
  case h_4 same => exact absurd same known.1
  case h_5 same => exact absurd same known.2
  all_goals rfl

theorem whole_keywordLeaf (t : Token) : (keywordLeaf t).Whole := by
  unfold keywordLeaf
  split
  · rename_i kind known
    have word : kind ∈ Vocabulary.keywords ++ Vocabulary.punctuation :=
      List.mem_of_find?_eq_some known
    have apart : ∀ kind ∈ Vocabulary.keywords ++ Vocabulary.punctuation,
        kind ∉ errorKind :: regionKinds := by decide
    exact .leaf (apart kind word) _ _ _
  · exact .leaf (by decide) _ _ _

theorem whole_extraLeaf (t : Token) : (extraLeaf t).Whole := by
  have extra (kind : String) (plain : kind ∉ errorKind :: regionKinds) :
      (Draft.leaf kind true t.start t.stop).asExtra.Whole :=
    ⟨(Whole.leaf plain true t.start t.stop).mild.relabel fun _ => rfl,
      (Whole.leaf plain true t.start t.stop).noError⟩
  unfold extraLeaf
  split <;> exact extra _ (by decide)

end Draft

end RouteScript
