import RouteScript.Proofs.Unreachable
import RouteScript.Proofs.Program.Routes
/-!
# Faults of assignments

The rule for assignments looks at the statements right below blocks. What it has to say about them
is seen from the outline of the tree, whatever the text is.
-/
namespace RouteScript

namespace Diagnostic

open Query (Pattern Capture Match bindings bindingsAmong matchesAt dropRepeats)

/-- A statement that consists of an assignment. -/
def isAssignment (c : Cursor) : Bool :=
  isOfKind Kind.statement c && c.children.any fun e =>
    isOfKind Kind.expression e && e.children.any (isOfKind Kind.assignment)

/-- What is wrong with a node as a statement of a block. -/
def ownFault (c : Cursor) : List Diagnostic :=
  if isAssignment c then (checkAssignment c).toList else []

/-- What the rule for assignments reports in one block. -/
def faultsIn (block : Cursor) : List Diagnostic :=
  if isOfKind Kind.compoundStatement block then block.children.flatMap ownFault else []

/-- An expression that is an assignment, as a query asks for it. -/
def assignmentPattern : Pattern := ofKind Kind.expression [ofKind Kind.assignment [] []] []

/-- The query of the rule. -/
def assignmentStatements : Query :=
  ⟨[ofKind Kind.compoundStatement [ofKind Kind.statement [assignmentPattern] [0]] []],
    ["statement"]⟩

theorem bindings_ofKind_children (kind : String) (children : List Pattern) (captures : List Nat)
    (c : Cursor) : bindings (ofKind kind children captures) c = if isOfKind kind c then
      (bindingsAmong (children.map (none, ·)) c.children).map (captures.map (Capture.mk · c) ++ ·)
    else [] := by
  simp [ofKind, bindings, Query.Matcher.accepts, isOfKind]

theorem bindingsAmong_ofKind (kind : String) (children : List Pattern) (captures : List Nat)
    (nodes : List Cursor) : bindingsAmong [(none, ofKind kind children captures)] nodes =
      nodes.flatMap (bindings (ofKind kind children captures)) := by
  induction nodes with
  | nil => rfl
  | cons c nodes ih =>
    rw [Query.bindingsAmong_cons, ih, List.flatMap_cons]
    refine congrArg (· ++ _) ?_
    cases named : c.isNamed with
    | true => simp [Query.fits, named, bindingsAmong]
    | false =>
      have other : isOfKind kind c = false := Bool.and_eq_false_imp.2 fun h => by
        rw [← Cursor.isNamed, named] at h
        contradiction
      simp [bindings_ofKind_children, other]

/-- A node with a child that a pattern asks for binds what the child binds. -/
theorem bindings_ofKind_child (kind kind' : String) (children : List Pattern)
    (captures captures' : List Nat) (c : Cursor) :
    bindings (ofKind kind [ofKind kind' children captures'] captures) c = if isOfKind kind c then
      (c.children.flatMap (bindings (ofKind kind' children captures'))).map
        (captures.map (Capture.mk · c) ++ ·) else [] := by
  rw [bindings_ofKind_children, List.map_singleton, bindingsAmong_ofKind]

/-- Of nodes that differ, what each binds is left once. -/
theorem dropRepeats_flatMap {found : Cursor → List (List Capture)} {nodes : List Cursor}
    (apart : nodes.Pairwise fun c d => c.id ≠ d.id)
    (same : ∀ c, ∀ captures ∈ found c, captures = [⟨0, c⟩]) (previous : Option Cursor)
    (new : ∀ c ∈ previous, ∀ d ∈ nodes, c.id ≠ d.id) :
    dropRepeats (previous.map fun c => [⟨0, c⟩]) (nodes.flatMap found) =
      (nodes.filter fun c => !(found c).isEmpty).map fun c => [⟨0, c⟩] := by
  have repeated (c : Cursor) (copies : List (List Capture)) (later : List (List Capture))
      (all : ∀ captures ∈ copies, captures = [⟨0, c⟩]) :
      dropRepeats (some [⟨0, c⟩]) (copies ++ later) = dropRepeats (some [⟨0, c⟩]) later := by
    induction copies with
    | nil => rfl
    | cons captures copies ih =>
      obtain rfl := all captures (by simp)
      have twice : Query.sameCaptures [⟨0, c⟩] [⟨0, c⟩] := Query.sameCaptures_iff.2 rfl
      simp only [List.cons_append, dropRepeats, Option.any_some, twice, if_true]
      exact ih fun captures there => all captures (by simp [there])
  induction nodes generalizing previous with
  | nil => rfl
  | cons c nodes ih =>
    obtain ⟨first, apart⟩ := List.pairwise_cons.1 apart
    rw [List.flatMap_cons, List.filter_cons]
    cases here : found c with
    | nil => exact ih apart previous fun d hd e he => new d hd e (by simp [he])
    | cons captures copies =>
      obtain rfl := same c captures (by simp [here])
      have fresh : (previous.map fun c => [(⟨0, c⟩ : Capture)]).any
          (Query.sameCaptures · [⟨0, c⟩]) = false := by
        cases previous with
        | none => rfl
        | some d =>
          refine Bool.eq_false_iff.2 fun h => new d rfl c (by simp) ?_
          simpa [Capture.key] using Query.sameCaptures_iff.1 h
      have left : dropRepeats (some [⟨0, c⟩]) (copies ++ nodes.flatMap found) = _ :=
        (repeated c copies _ fun captures there => same c captures (by simp [here, there])).trans
          (ih apart (some c) (by simpa using first))
      simp only [List.cons_append, dropRepeats, fresh, Bool.false_eq_true, if_false, left]
      simp

/-- The statement that consists of an assignment, as a query asks for it. -/
def statementPattern : Pattern := ofKind Kind.statement [assignmentPattern] [0]

theorem bindings_assignmentPattern (e : Cursor) : bindings assignmentPattern e =
    if isOfKind Kind.expression e then
      e.children.flatMap fun a => if isOfKind Kind.assignment a then [[]] else [] else [] := by
  have below : bindings (ofKind Kind.assignment [] []) =
      fun a => if isOfKind Kind.assignment a then [[]] else [] := by
    funext a
    rw [bindings_ofKind_children]
    simp [bindingsAmong]
  rw [assignmentPattern, bindings_ofKind_child, below]
  simp

theorem bindings_statementPattern (c : Cursor) : bindings statementPattern c =
    if isOfKind Kind.statement c then
      (c.children.flatMap (bindings assignmentPattern)).map ([⟨0, c⟩] ++ ·) else [] :=
  bindings_ofKind_child ..

theorem same_bindings (c : Cursor) : ∀ captures ∈ bindings statementPattern c,
    captures = [⟨0, c⟩] := by
  intro captures there
  rw [bindings_statementPattern] at there
  split at there
  · obtain ⟨rest, below, rfl⟩ := List.mem_map.1 there
    obtain ⟨e, _, below⟩ := List.mem_flatMap.1 below
    rw [bindings_assignmentPattern] at below
    have nothing : rest = [] := by
      split at below
      · obtain ⟨a, _, below⟩ := List.mem_flatMap.1 below
        split at below
        · exact List.mem_singleton.1 below
        · contradiction
      · contradiction
    rw [nothing, List.append_nil]
  · contradiction

theorem isEmpty_bindings (c : Cursor) :
    (bindings statementPattern c).isEmpty = !isAssignment c := by
  have below (e : Cursor) : bindings assignmentPattern e = [] ↔
      ¬ (isOfKind Kind.expression e && e.children.any (isOfKind Kind.assignment)) := by
    rw [bindings_assignmentPattern]
    split <;> simp_all
  rw [bindings_statementPattern, isAssignment]
  split
  · rename_i statement
    rw [statement, Bool.true_and, Bool.eq_iff_iff, List.isEmpty_iff, List.map_eq_nil_iff,
      List.flatMap_eq_nil_iff]
    simp [below]
  · simp_all

/-- The matches at a block are at its assignments. -/
theorem matchesAt_assignmentStatements {language : String} {source : List Char} {d : Draft}
    {block : Cursor} (hblock : block ∈ (Tree.ofDraft language source d).cursors) :
    (matchesAt assignmentStatements block).filterMap (·.node? 0) =
      if isOfKind Kind.compoundStatement block then block.children.filter isAssignment else [] := by
  have apart : block.children.Pairwise fun c d => c.id ≠ d.id :=
    ((Tree.cursors_pairwise language source d).sublist
      (block.children_sublist.trans (Cursor.preorder_sublist hblock))).imp Nat.ne_of_lt
  have patterns : assignmentStatements.patterns =
    [ofKind Kind.compoundStatement [statementPattern] []] := rfl
  simp only [matchesAt, patterns, List.zipIdx_cons, List.zipIdx_nil, List.flatMap_cons,
    List.flatMap_nil, List.append_nil, statementPattern, bindings_ofKind_child]
  split
  · have once := dropRepeats_flatMap apart same_bindings none (by simp)
    simp only [isEmpty_bindings, Bool.not_not, Option.map_none] at once
    rw [← statementPattern, List.map_nil]
    simp only [List.nil_append, List.map_id_fun', id_eq, once, List.map_map, List.filterMap_map]
    exact List.filterMap_some
  · rfl

/-- The rule checks every assignment right below a block, block by block in preorder. -/
theorem findings_assignments (language : String) (source : List Char) (d : Draft) :
    assignments.findings (.ofDraft language source d) =
      (Tree.ofDraft language source d).cursors.flatMap faultsIn := by
  change (((Query.run assignmentStatements _).filterMap (·.node? 0)).filterMap checkAssignment) = _
  rw [Query.run, List.filterMap_flatMap, List.filterMap_flatMap]
  refine congrArg List.flatten (List.map_congr_left fun block hblock => ?_)
  rw [matchesAt_assignmentStatements hblock, faultsIn]
  split
  · rw [List.filterMap_filter, List.filterMap_eq_flatMap_toList]
    refine congrArg List.flatten (List.map_congr_left fun c _ => ?_)
    rw [ownFault]
    split <;> rfl
  · rfl

end Diagnostic

namespace Outline

open Diagnostic (invalidAssignment invalidValue)

/-- Whether an outline is one of a named node of a kind. -/
def isNode (kind : String) (o : Outline) : Bool := o.label.named && o.label.kind == kind

/-- The named nodes right below a node. -/
def parts (o : Outline) : List Outline := o.children.filter (·.label.named)

/-- The first child in a role. -/
def child? (o : Outline) (field : String) : Option Outline :=
  o.children.find? fun c => c.label.field == some field

/-- A statement that consists of an assignment. -/
def isAssignment (o : Outline) : Bool :=
  isNode Kind.statement o && o.children.any fun e =>
    isNode Kind.expression e && e.children.any (isNode Kind.assignment)

def isValue (right : Outline) : Bool :=
  right.label.kind == Kind.expression
    && match right.parts.map (·.label.kind) with
      | [kind] => kind != Kind.identifier
      | _ => false

/-- The message for the first thing that is wrong with an assignment statement. -/
def fault? (statement : Outline) : Option String :=
  match statement.parts.head?.bind (·.parts.head?) with
  | none => some invalidAssignment
  | some assignment =>
    let toVariable := (assignment.child? Field.left).any fun left =>
      left.label.kind == Kind.pseudoVariable || left.label.kind == Kind.pvarExpression
    if assignment.parts.length != 2 || !toVariable then some invalidAssignment
    else
      match assignment.child? Field.right with
      | none => none
      | some right => if right.isValue then none else some invalidValue

/-- What is wrong with an outline as a statement of a block. -/
def ownFault (o : Outline) : List String := if o.isAssignment then o.fault?.toList else []

/-- The messages for all assignments right below blocks. -/
def faults (o : Outline) : List String :=
  o.nodes.flatMap fun n =>
    if isNode Kind.compoundStatement n then n.children.flatMap ownFault else []

theorem faults_node (form : Form) (below : List Outline) : faults (.node form below) =
    (if isNode Kind.compoundStatement (.node form below) then below.flatMap ownFault else [])
      ++ below.flatMap faults := by
  rw [faults, Rose.nodes_node, List.flatMap_cons, List.flatMap_assoc]
  rfl

end Outline

namespace Cursor

/-- The outline of a node. -/
def outline (source : List Char) (c : Cursor) : Outline :=
  .node (c.node.tag.form source c.draft.children.isEmpty)
    (Draft.outlinesOf source c.draft.children)

variable {source : List Char} {c : Cursor}

theorem outlines_draft (c : Cursor) :
    Draft.outlines source c.draft = if c.notExtra then [c.outline source] else [] := by
  have label := c.label_draft
  have extra : c.node.tag.extra = !c.notExtra := (Bool.not_not _).symm
  rw [outline]
  generalize c.draft = d at label
  obtain ⟨t, children⟩ := d
  obtain rfl : t = c.node.tag := label
  rw [Draft.outlines_node, extra]
  cases c.notExtra <;> rfl

/-- The children that belong to the structure are those of the outline. -/
theorem map_outline_children (c : Cursor) :
    (c.children.filter notExtra).map (outline source) = (c.outline source).children := by
  change _ = Draft.outlinesOf source c.draft.children
  rw [← map_draft_children, Draft.outlinesOf, List.flatMap_map]
  induction c.children with
  | nil => rfl
  | cons d rest ih =>
    rw [List.flatMap_cons, List.filter_cons, outlines_draft, ← ih]
    split <;> rfl

theorem kind_outline (c : Cursor) : (c.outline source).label.kind = c.kind := rfl

theorem isNode_outline (kind : String) (c : Cursor) :
    Outline.isNode kind (c.outline source) = Diagnostic.isOfKind kind c := rfl

theorem map_outline_parts (c : Cursor) :
    c.significantChildren.map (outline source) = (c.outline source).parts := by
  rw [Outline.parts, ← map_outline_children, List.filter_map, List.filter_filter]
  rfl

end Cursor

namespace Tree

open Diagnostic

variable {text : List Char} {c : Cursor}

theorem map_outline_child? (hc : c ∈ (ofScript text).cursors) (field : String) :
    (c.child? field).map (Cursor.outline text) = (c.outline text).child? field := by
  rw [Outline.child?, ← Cursor.map_outline_children, List.find?_map, child?_eq hc]
  rfl

/-- A comment is of no kind of the structure. -/
theorem isOfKind_of_extra {kind : String} (structural : kind ∉ extraKinds)
    (hc : c ∈ (ofScript text).cursors) (extra : c.notExtra = false) : isOfKind kind c = false :=
  isOfKind_eq_false structural hc (Bool.and_eq_false_imp.2 fun _ => extra)

/-- A test of children that no comment passes. -/
theorem any_outline {f : Cursor → Bool} {g : Outline → Bool}
    (same : ∀ d ∈ c.children, d.notExtra → g (d.outline text) = f d)
    (extra : ∀ d ∈ c.children, d.notExtra = false → f d = false) :
    (c.outline text).children.any g = c.children.any f := by
  rw [← Cursor.map_outline_children, List.any_map, List.any_filter, Bool.eq_iff_iff]
  simp only [List.any_eq_true, Bool.and_eq_true, Function.comp_apply]
  refine exists_congr fun d => and_congr_right fun hd => ?_
  cases notExtra : d.notExtra with
  | true => simp [same d hd notExtra]
  | false => simp [extra d hd notExtra]

theorem isAssignment_outline (hc : c ∈ (ofScript text).cursors) :
    (c.outline text).isAssignment = Diagnostic.isAssignment c := by
  have inner {d e : Cursor} (hd : d ∈ (ofScript text).cursors) (he : e ∈ d.children) :
      e ∈ (ofScript text).cursors := Cursor.mem_preorder_of_child hd he
  refine congrArg (isOfKind Kind.statement c && ·) (any_outline (fun e he _ => ?_)
    fun e he extra => by rw [isOfKind_of_extra (by decide) (inner hc he) extra, Bool.false_and])
  refine congrArg (isOfKind Kind.expression e && ·) (any_outline (fun _ _ _ => rfl) fun a ha => ?_)
  exact isOfKind_of_extra (by decide) (inner (inner hc he) ha)

theorem isValue_outline (c : Cursor) : (c.outline text).isValue = Diagnostic.isValue c := by
  rw [Outline.isValue, Diagnostic.isValue, ← Cursor.map_outline_parts, List.map_map]
  rfl

theorem fault?_outline (hc : c ∈ (ofScript text).cursors) :
    (c.outline text).fault? = (checkAssignment c).map Diagnostic.message := by
  have second : ((c.outline text).parts.head?.bind fun e => Outline.parts e |>.head?) =
      (c.significantChildren.head?.bind (·.significantChildren.head?)).map
        (Cursor.outline text) := by
    rw [← Cursor.map_outline_parts, List.head?_map]
    cases c.significantChildren.head? with
    | none => rfl
    | some e => exact (congrArg List.head? e.map_outline_parts).symm.trans List.head?_map
  rw [Outline.fault?, checkAssignment, second]
  cases found : c.significantChildren.head?.bind (·.significantChildren.head?) with
  | none => rfl
  | some a =>
    have ha : a ∈ (ofScript text).cursors := by
      obtain ⟨e, he, ha⟩ := Option.bind_eq_some_iff.1 found
      have he := (List.mem_filter.1 (List.mem_of_head? he)).1
      have ha := (List.mem_filter.1 (List.mem_of_head? ha)).1
      exact Cursor.mem_preorder_of_child (Cursor.mem_preorder_of_child hc he) ha
    simp only [Option.map_some, ← map_outline_child? ha, Option.any_map, Cursor.kind_outline,
      ← Cursor.map_outline_parts, List.length_map]
    split
    · rfl
    · cases a.child? Field.right with
      | none => rfl
      | some right =>
        simp only [Option.map_some, isValue_outline]
        cases isValue right <;> rfl

theorem ownFault_outline (hc : c ∈ (ofScript text).cursors) :
    (c.outline text).ownFault = (ownFault c).map Diagnostic.message := by
  rw [Outline.ownFault, ownFault, isAssignment_outline hc, fault?_outline hc]
  split
  · cases checkAssignment c <;> rfl
  · rfl

/-- What the rule reports below a node is known from the outline of the node. -/
theorem messages_preorder (hc : c ∈ (ofScript text).cursors) :
    (c.preorder.flatMap faultsIn).map Diagnostic.message = (c.outline text).faults := by
  induction c using Cursor.induction with
  | step c ih =>
    have inner (d : Cursor) (hd : d ∈ c.children) : d ∈ (ofScript text).cursors :=
      Cursor.mem_preorder_of_child hc hd
    have notExtra {f : Cursor → List Diagnostic} {g : Outline → List String}
        (same : ∀ d ∈ c.children, (f d).map Diagnostic.message = g (d.outline text))
        (extra : ∀ d ∈ c.children, d.notExtra = false → f d = []) :
        (c.children.flatMap f).map Diagnostic.message = (c.outline text).children.flatMap g := by
      rw [← Cursor.map_outline_children, List.flatMap_map, ← flatMap_filter extra, List.map_flatMap]
      exact congrArg List.flatten (List.map_congr_left fun d hd => same d (List.mem_filter.1 hd).1)
    have here : (faultsIn c).map Diagnostic.message =
        if Outline.isNode Kind.compoundStatement (c.outline text) then
          (c.outline text).children.flatMap Outline.ownFault else [] := by
      rw [faultsIn, Cursor.isNode_outline]
      split
      · refine notExtra (fun d hd => (ownFault_outline (inner d hd)).symm) fun d hd extra => ?_
        have other := isOfKind_of_extra (by decide : Kind.statement ∉ extraKinds) (inner d hd) extra
        rw [ownFault, isAssignment, other, Bool.false_and, if_neg Bool.false_ne_true]
      · rfl
    have below : ((c.children.flatMap Cursor.preorder).flatMap faultsIn).map Diagnostic.message =
        (c.outline text).children.flatMap Outline.faults := by
      rw [List.flatMap_assoc]
      refine notExtra (fun d hd => ih d hd (inner d hd)) fun d hd extra => ?_
      have other :=
        isOfKind_of_extra (by decide : Kind.compoundStatement ∉ extraKinds) (inner d hd) extra
      rw [Cursor.preorder_eq, children_of_extra (inner d hd) extra, List.flatMap_nil,
        List.flatMap_singleton, faultsIn, other, if_neg Bool.false_ne_true]
    rw [Cursor.preorder_eq, List.flatMap_cons, List.map_append, here, below]
    exact (Outline.faults_node _ _).symm

/-- The messages of the rule are known from the outline of a script. -/
theorem messages_ofScript (text : List Char) :
    (assignments.findings (ofScript text)).map Diagnostic.message =
      (ofScript text).outline.faults := by
  have whole : assignments.findings (ofScript text) = (ofScript text).cursors.flatMap faultsIn :=
    findings_assignments _ _ _
  rw [whole]
  exact messages_preorder (Cursor.mem_preorder_self _)

end Tree

end RouteScript
