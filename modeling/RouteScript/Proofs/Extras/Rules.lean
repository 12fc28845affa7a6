import RouteScript.Proofs.Extras.Query
import RouteScript.Variable.Basic
/-!
# Rules without extra nodes

Comments and directives may stand anywhere, and no rule but the one about them takes notice. So a
tree without its extra nodes has the same diagnostics in the same order, less the hints.

Comments and directives around the parts of an assignment do not matter: a tree without its extra
nodes has the same variables.
-/
namespace RouteScript

namespace Tree

/-- A tree without its extra nodes, all others under new numbers. -/
def stripped (number : Nat → Nat) (t : Tree) : Tree := { t with root := t.root.stripped number }

/-- All places in a tree. -/
def cursors (t : Tree) : List Cursor := (Cursor.root t).preorder

/-- The extra nodes of a tree are the comments and the directives; they have no children and no
role, and the root is none of them. -/
structure Extras (t : Tree) : Prop where
  root : (Cursor.root t).notExtra
  kind : ∀ c ∈ t.cursors, c.notExtra = false ↔ c.kind ∈ extraKinds
  leaf : ∀ c ∈ t.cursors, c.notExtra = false → c.children = []
  free : ∀ c ∈ t.cursors, c.notExtra = false → c.node.field? = none

theorem stands_of_mem_cursors {t : Tree} {c : Cursor} (hc : c ∈ t.cursors) : c.Stands :=
  Cursor.stands_of_mem_preorder (fun _ _ _ above => absurd above.symm (List.cons_ne_nil _ _)) hc

end Tree

namespace Diagnostic

open Query (Apart Inside Commented Match)
open Cursor (isSignificant)

variable {number : Nat → Nat} {t : Tree} {c : Cursor}

theorem significantKinds_stripped (c : Cursor) :
    significantKinds (c.stripped number) = significantKinds c := by
  rw [significantKinds, Cursor.significantChildren_stripped, List.map_map]
  exact List.map_congr_left fun d _ => d.kind_stripped

theorem nextSignificant_stripped (stands : c.Stands) (kept : c.notExtra) :
    (c.stripped number).following.find? isSignificant =
      (c.following.find? isSignificant).map (Cursor.stripped number) := by
  rw [Cursor.following_stripped stands kept, Cursor.find?_isSignificant_stripped]

theorem lastStatement?_stripped (block : Cursor) :
    lastStatement? (block.stripped number) =
      (lastStatement? block).map (Cursor.stripped number) := by
  rw [lastStatement?, lastStatement?, Cursor.significantChildren_stripped, List.getLast?_map]
  cases block.significantChildren.getLast? with
  | none => rfl
  | some last =>
    simp only [Option.map_some, Cursor.kind_stripped, Cursor.preceding_stripped,
      Cursor.find?_isSignificant_stripped]
    split <;> rfl

theorem isLabel_stripped (c : Cursor) : isLabel (c.stripped number) = isLabel c := by
  rw [isLabel, isLabel, significantKinds_stripped]

theorem unreachableRange?_stripped (stands : c.Stands) (kept : c.notExtra) :
    unreachableRange? (c.stripped number) = unreachableRange? c := by
  have next : (c.stripped number).following.find? isSignificant =
      (c.following.find? isSignificant).map (Cursor.stripped number) :=
    nextSignificant_stripped stands kept
  simp only [unreachableRange?, next, Cursor.significantChildren_stripped, List.length_map,
    Cursor.parent?_stripped]
  split
  · rfl
  · cases c.parent? with
    | none => rfl
    | some block =>
      simp only [Option.map_some, Option.bind_eq_bind, Option.bind_some, Cursor.kind_stripped]
      split
      · rfl
      · cases c.following.find? isSignificant with
        | none => rfl
        | some next =>
          simp only [Option.map_some, Option.bind_some, Cursor.kind_stripped, isLabel_stripped,
            lastStatement?_stripped, Cursor.range_stripped]
          split
          · rfl
          · cases lastStatement? block with
            | none => rfl
            | some last => simp only [Option.map_some, Option.bind_some, Cursor.range_stripped]

theorem isBareValue_stripped (statement : Cursor) (stands : c.Stands) (kept : c.notExtra) :
    isBareValue (statement.stripped number) (c.stripped number) = isBareValue statement c := by
  simp only [isBareValue, Cursor.significantChildren_stripped, List.length_map,
    nextSignificant_stripped stands kept, Option.isNone_map, significantKinds_stripped]

theorem isValue_stripped (c : Cursor) : isValue (c.stripped number) = isValue c := by
  simp only [isValue, Cursor.kind_stripped, significantKinds_stripped]

theorem mem_preorder_of_significant {d : Cursor} (hc : c ∈ t.cursors)
    (hd : d ∈ c.significantChildren) : d ∈ t.cursors :=
  Cursor.mem_preorder_of_child hc (List.mem_filter.1 hd).1

theorem checkAssignment_stripped (extras : t.Extras) (hc : c ∈ t.cursors) :
    checkAssignment (c.stripped number) = checkAssignment c := by
  have first (d : Cursor) : (d.stripped number).significantChildren.head? =
      d.significantChildren.head?.map (Cursor.stripped number) := by
    rw [Cursor.significantChildren_stripped, List.head?_map]
  have second : ((c.stripped number).significantChildren.head?.bind (·.significantChildren.head?)) =
      (c.significantChildren.head?.bind (·.significantChildren.head?)).map
        (Cursor.stripped number) := by
    rw [first]
    cases c.significantChildren.head? with
    | none => rfl
    | some e => exact first e
  rw [checkAssignment, checkAssignment, second]
  cases found : c.significantChildren.head?.bind (·.significantChildren.head?) with
  | none => simp only [Option.map_none, Cursor.range_stripped]
  | some assignment =>
    have there : assignment ∈ t.cursors := by
      obtain ⟨e, he, ha⟩ := Option.bind_eq_some_iff.1 found
      exact mem_preorder_of_significant
        (mem_preorder_of_significant hc (List.mem_of_head? he)) (List.mem_of_head? ha)
    have role (field : String) : (assignment.stripped number).child? field =
        (assignment.child? field).map (Cursor.stripped number) :=
      Cursor.child?_stripped
        (fun d hd extra => extras.free d (Cursor.mem_preorder_of_child there hd) extra) field
    simp only [Option.map_some, role, Option.any_map, Cursor.kind_stripped,
      Cursor.significantChildren_stripped, List.length_map, Cursor.range_stripped]
    split
    · rfl
    · cases assignment.child? Field.right with
      | none => rfl
      | some right => simp only [Option.map_some, isValue_stripped, Cursor.range_stripped]

theorem nodes_stripped (m : Match) (i : Nat) :
    (m.stripped number).nodes i = (m.nodes i).map (Cursor.stripped number) := by
  simp only [Match.nodes, Match.stripped, List.filter_map, List.map_map]
  rfl

theorem node?_stripped (m : Match) (i : Nat) :
    (m.stripped number).node? i = (m.node? i).map (Cursor.stripped number) := by
  rw [Match.node?, nodes_stripped, List.head?_map, Match.node?]

theorem mem_of_node? {m : Match} (inside : Inside (.root t) m.captures) {i : Nat}
    (found : m.node? i = some c) : c ∈ t.cursors ∧ c.notExtra := by
  obtain ⟨a, ha, rfl⟩ := List.mem_map.1 (List.mem_of_head? found)
  exact inside a (List.mem_filter.1 ha).1

/-- The rules that look at the script itself. -/
def scriptRules : List Rule := [syntaxErrors, unreachableCode, bareValues, assignments]

/-- A rule about the script reports the same at the places of the nodes that it looks at. -/
theorem diagnose_stripped {r : Rule} (hr : r ∈ scriptRules) (extras : t.Extras) {found : List Match}
    (inside : ∀ m ∈ found, Inside (.root t) m.captures) :
    r.diagnose (found.map (Match.stripped number)) = r.diagnose found := by
  simp only [scriptRules, List.mem_cons, List.not_mem_nil, or_false] at hr
  rcases hr with rfl | rfl | rfl | rfl
  · have ranges (i : Nat) :
        ((found.map (Match.stripped number)).flatMap (·.nodes i)).map Cursor.range =
          (found.flatMap (·.nodes i)).map Cursor.range := by
      simp only [List.flatMap_map, List.map_flatMap, nodes_stripped, List.map_map]
      exact congrArg List.flatten (List.map_congr_left fun m _ =>
        List.map_congr_left fun c _ => c.range_stripped)
    simp only [syntaxErrors, ranges]
  · simp only [unreachableCode, List.filterMap_map, List.filterMap_filterMap]
    refine congrArg (List.map _) (List.filterMap_congr fun m hm => ?_)
    rw [Function.comp_apply, node?_stripped]
    cases node : m.node? 1 with
    | none => rfl
    | some c =>
      obtain ⟨hc, kept⟩ := mem_of_node? (inside m hm) node
      exact unreachableRange?_stripped (Tree.stands_of_mem_cursors hc) kept
  · simp only [bareValues, List.filterMap_map]
    refine List.filterMap_congr fun m hm => ?_
    rw [Function.comp_apply, node?_stripped, node?_stripped]
    cases m.node? 1 with
    | none => rfl
    | some statement =>
      cases node : m.node? 0 with
      | none => rfl
      | some expression =>
        obtain ⟨he, kept⟩ := mem_of_node? (inside m hm) node
        have same : isBareValue (statement.stripped number) (expression.stripped number) =
            isBareValue statement expression :=
          isBareValue_stripped statement (Tree.stands_of_mem_cursors he) kept
        simp [same, Cursor.range_stripped]
  · simp only [assignments, List.filterMap_map, List.filterMap_filterMap]
    refine List.filterMap_congr fun m hm => ?_
    rw [Function.comp_apply, node?_stripped]
    cases node : m.node? 0 with
    | none => rfl
    | some c => exact checkAssignment_stripped extras (mem_of_node? (inside m hm) node).1

theorem query_asksNoExtra {r : Rule} (hr : r ∈ scriptRules) {q : Query} (hq : r.query = some q) :
    ∀ p ∈ q.patterns, p.asksNoExtra := by
  simp only [scriptRules, List.mem_cons, List.not_mem_nil, or_false] at hr
  rcases hr with rfl | rfl | rfl | rfl <;> cases hq <;> decide

theorem findings_stripped {r : Rule} (hr : r ∈ scriptRules) (extras : t.Extras)
    (apart : Apart number (.root t)) : r.findings (t.stripped number) = r.findings t := by
  have commented : Commented (.root t) := fun c hc extra => (extras.kind c hc).1 extra
  rw [Rule.findings, Rule.findings]
  cases hq : r.query with
  | none => rfl
  | some q =>
    have solid := query_asksNoExtra hr hq
    have moved : Query.run q (Cursor.root (t.stripped number)) =
        (Query.run q (.root t)).map (Match.stripped number) :=
      Query.run_stripped solid extras.root commented extras.leaf apart
    dsimp only
    rw [moved, diagnose_stripped hr extras (Query.run_inside solid commented)]

/-- Nothing is left that the rule about comments could report. -/
theorem findings_deprecatedComments_stripped (extras : t.Extras) :
    deprecatedComments.findings (t.stripped number) = [] := by
  have nothing : Query.run ⟨[ofKind Kind.deprecatedComment [] [0]], ["deprecated"]⟩
      (Cursor.root (t.stripped number)) = [] := by
    have moved : (Cursor.root (t.stripped number)).preorder =
        (t.cursors.filter Cursor.notExtra).map (Cursor.stripped number) :=
      Cursor.preorder_stripped (.root t) extras.root extras.leaf
    rw [Query.run, moved, List.flatMap_map]
    refine List.flatMap_eq_nil_iff.2 fun c hc => ?_
    obtain ⟨hc, kept⟩ := List.mem_filter.1 hc
    have other : isOfKind Kind.deprecatedComment (c.stripped number) = false := by
      refine Bool.and_eq_false_imp.2 fun _ => beq_eq_false_iff_ne.2 fun same => ?_
      have deprecated : c.kind = Kind.deprecatedComment := c.kind_stripped.symm.trans same
      have extra := (extras.kind c hc).2 (by rw [deprecated]; decide)
      exact Bool.false_ne_true (extra.symm.trans kept)
    simp [Query.matchesAt, bindings_ofKind, other, Query.dropRepeats]
  simp [deprecatedComments, Rule.findings, nothing]

theorem severity_deprecatedComments {found : Diagnostic}
    (h : found ∈ deprecatedComments.findings t) : found.severity = .hint := by
  obtain ⟨_, _, rfl⟩ := List.mem_map.1 h
  rfl

theorem severity_checkAssignment {found : Diagnostic} (h : checkAssignment c = some found) :
    found.severity = .error := by
  revert h
  unfold checkAssignment
  split
  · rintro ⟨⟩
    rfl
  · dsimp only
    split
    · rintro ⟨⟩
      rfl
    · split
      · rintro ⟨⟩
      · split
        · rintro ⟨⟩
        · rintro ⟨⟩
          rfl

theorem severity_scriptRules {r : Rule} (hr : r ∈ scriptRules) {found : Diagnostic}
    (h : found ∈ r.findings t) : found.severity ≠ .hint := by
  simp only [scriptRules, List.mem_cons, List.not_mem_nil, or_false] at hr
  rcases hr with rfl | rfl | rfl | rfl
  · obtain ⟨_, _, rfl⟩ := List.mem_map.1 h
    simp
  · obtain ⟨_, _, rfl⟩ := List.mem_map.1 h
    simp
  · obtain ⟨m, _, found⟩ := List.mem_filterMap.1 h
    obtain ⟨statement, _, found⟩ := Option.bind_eq_some_iff.1 found
    obtain ⟨expression, _, found⟩ := Option.bind_eq_some_iff.1 found
    split at found
    · cases found
      simp
    · cases found
  · obtain ⟨c, _, found⟩ := List.mem_filterMap.1 h
    rw [severity_checkAssignment found]
    decide

theorem findings_rules_stripped {r : Rule} (hr : r ∈ rules) (extras : t.Extras)
    (apart : Apart number (.root t)) :
    r.findings (t.stripped number) = (r.findings t).filter (·.severity != .hint) := by
  have split : r = deprecatedComments ∨ r ∈ scriptRules := by
    simp only [rules, List.mem_cons, List.not_mem_nil, or_false] at hr
    rcases hr with rfl | rfl | rfl | rfl | rfl <;> simp [scriptRules]
  rcases split with rfl | script
  · rw [findings_deprecatedComments_stripped extras]
    refine (List.filter_eq_nil_iff.2 fun found h => ?_).symm
    simp [severity_deprecatedComments h]
  · rw [findings_stripped script extras apart]
    refine (List.filter_eq_self.2 fun found h => ?_).symm
    exact bne_iff_ne.2 (severity_scriptRules script h)

/-- A tree without its extra nodes has the same diagnostics, less the hints about comments. -/
theorem analyze_rules_stripped (extras : t.Extras) (apart : Apart number (.root t))
    (flags : Flags) :
    analyze rules flags (t.stripped number) =
      (analyze rules flags t).filter (·.severity != .hint) := by
  rw [analyze, analyze, List.filter_flatMap]
  refine congrArg List.flatten (List.map_congr_left fun r hr => ?_)
  exact findings_rules_stripped (List.mem_filter.1 hr).1 extras apart

end Diagnostic

variable {number : Nat → Nat} {t : Tree} {c : Cursor}

theorem Cursor.wordIn_stripped (c : Cursor) :
    (c.stripped number).wordIn (t.stripped number) = c.wordIn t := by
  have same : (c.stripped number).node.tag = c.node.tag := c.node.tag_stripped
  simp only [wordIn, textIn, Tree.textOf, Node.start, Node.stop, same]
  rfl

theorem Cursor.isNamed_stripped (c : Cursor) : (c.stripped number).isNamed = c.isNamed :=
  congrArg Tag.named c.node.tag_stripped

namespace Tree.Extras

theorem child?_stripped (extras : t.Extras) (hc : c ∈ t.cursors) (field : String) :
    (c.stripped number).child? field = (c.child? field).map (Cursor.stripped number) :=
  Cursor.child?_stripped
    (fun d hd extra => extras.free d (Cursor.mem_preorder_of_child hc hd) extra) field

/-- No node of another kind than the extra ones is left out. -/
theorem filter_stripped (extras : t.Extras) {nodes : List Cursor}
    (inside : ∀ d ∈ nodes, d ∈ t.cursors)
    {kind : String} (other : kind ∉ extraKinds) :
    ((nodes.filter Cursor.notExtra).map (Cursor.stripped number)).filter
        (fun d => d.isNamed && d.kind == kind) =
      (nodes.filter fun d => d.isNamed && d.kind == kind).map (Cursor.stripped number) := by
  rw [List.filter_map, List.filter_filter]
  refine congrArg (List.map _) (List.filter_congr fun d hd => ?_)
  simp only [Function.comp_apply, Cursor.isNamed_stripped, Cursor.kind_stripped]
  cases notExtra : d.notExtra with
  | true => simp
  | false =>
    have comment := (extras.kind d (inside d hd)).1 notExtra
    have unequal : d.kind ≠ kind := fun same => other (same ▸ comment)
    simp [unequal]

end Tree.Extras

theorem mem_cursors_of_child? {d : Cursor} {field : String} (hc : c ∈ t.cursors)
    (found : c.child? field = some d) : d ∈ t.cursors :=
  Cursor.mem_preorder_of_child hc (List.mem_of_find?_eq_some found)

namespace Variable

theorem identifiers_stripped (extras : t.Extras) (hc : c ∈ t.cursors) :
    (c.stripped number).namedChildren.filter (fun d => d.kind == Kind.identifier) =
      (c.namedChildren.filter fun d => d.kind == Kind.identifier).map (Cursor.stripped number) := by
  have both (d : Cursor) : d.namedChildren.filter (fun e => e.kind == Kind.identifier) =
      d.children.filter fun e => e.isNamed && e.kind == Kind.identifier := by
    rw [Cursor.namedChildren, List.filter_filter]
    exact List.filter_congr fun e _ => Bool.and_comm _ _
  rw [both, both, Cursor.children_stripped]
  exact extras.filter_stripped (fun d hd => Cursor.mem_preorder_of_child hc hd) (by decide)

theorem identifierOf?_stripped (extras : t.Extras) (hc : c ∈ t.cursors) :
    identifierOf? (t.stripped number) (c.stripped number) = identifierOf? t c := by
  rw [identifierOf?, identifierOf?, extras.child?_stripped hc]
  cases found : c.child? Field.name with
  | none => rfl
  | some name =>
    simp only [Option.map_some, Option.bind_eq_bind, Option.bind_some,
      identifiers_stripped extras (mem_cursors_of_child? hc found), List.getLast?_map]
    cases (name.namedChildren.filter fun d => d.kind == Kind.identifier).getLast? with
    | none => rfl
    | some last => simp only [Option.map_some, Option.bind_some, Cursor.wordIn_stripped]

theorem ofAssignment?_stripped (extras : t.Extras) (hc : c ∈ t.cursors) :
    ofAssignment? (t.stripped number) (c.stripped number) = ofAssignment? t c := by
  rw [ofAssignment?, ofAssignment?, extras.child?_stripped hc, extras.child?_stripped hc,
    Cursor.range_stripped]
  cases left : c.child? Field.left with
  | none => rfl
  | some target =>
    have kinds : (fun d : Cursor => d.kind == Kind.pseudoContent) ∘ Cursor.stripped number =
        fun d => d.kind == Kind.pseudoContent := funext fun d => by
      rw [Function.comp_apply, Cursor.kind_stripped]
    simp only [Option.map_some, Option.bind_eq_bind, Option.bind_some, Cursor.kind_stripped,
      Cursor.significantChildren_stripped, List.find?_map, kinds]
    cases inner : target.significantChildren.find? fun d => d.kind == Kind.pseudoContent with
    | none => rfl
    | some content =>
      simp only [Option.map_some, Option.bind_some, Cursor.significantChildren_stripped,
        List.head?_map]
      cases first : content.significantChildren.head? with
      | none => rfl
      | some marker =>
        have there : marker ∈ t.cursors := by
          refine Diagnostic.mem_preorder_of_significant
            (Diagnostic.mem_preorder_of_significant (mem_cursors_of_child? hc left)
              (List.mem_of_find?_eq_some inner)) (List.mem_of_head? first)
        simp only [Option.map_some, Option.bind_some, Cursor.kind_stripped,
          identifierOf?_stripped extras there]
        cases c.child? Field.right with
        | none => rfl
        | some value => simp only [Option.map_some, Option.bind_some, Cursor.wordIn_stripped]

end Variable

/-- A tree without its extra nodes has the same variables. -/
theorem Tree.assigned_stripped (extras : t.Extras) : (t.stripped number).assigned = t.assigned := by
  have moved : (Cursor.root (t.stripped number)).preorder =
      (t.cursors.filter Cursor.notExtra).map (Cursor.stripped number) :=
    Cursor.preorder_stripped _ extras.root extras.leaf
  rw [assigned, moved, extras.filter_stripped (fun d hd => hd) (by decide), List.filterMap_map]
  exact List.filterMap_congr fun d hd =>
    Variable.ofAssignment?_stripped extras (List.mem_filter.1 hd).1

end RouteScript
