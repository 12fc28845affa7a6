import RouteScript.Proofs.Descent
import RouteScript.Proofs.History
import RouteScript.Proofs.Variables
/-!
# Hovering over assigned variables

Recording an assignment goes down from it to its variable, and hovering goes from the node at a
point up or down to the same one. So the last value of a variable is shown wherever a point is on
the target of an assignment that sets it.
-/
namespace RouteScript

namespace Hover

/-- A user variable that is written as `$class(word)`: the variable, what follows its sign, its
class, what stands in the parentheses, and the word there. No other node in it is named. -/
structure Plain (target content marker name word : Cursor) : Prop where
  nodes : target.preorder.filter Cursor.isNamed = [target, content, marker, name, word]
  nested : content.parent? = some target ∧ marker.parent? = some content ∧
    name.parent? = some marker ∧ word.parent? = some name
  kinds : content.kind = Kind.pseudoContent ∧ isMarker marker ∧ name.kind = Kind.variableName ∧
    word.kind = Kind.identifier

variable {t : Tree} {assignment target content marker name word c : Cursor} {v : Variable}

theorem plain_iff : Plain target content marker name word ↔
    target.preorder.filter Cursor.isNamed = [target, content, marker, name, word] ∧
      (content.parent? = some target ∧ marker.parent? = some content ∧ name.parent? = some marker ∧
        word.parent? = some name) ∧
      content.kind = Kind.pseudoContent ∧ isMarker marker ∧ name.kind = Kind.variableName ∧
        word.kind = Kind.identifier :=
  ⟨fun h => ⟨h.nodes, h.nested, h.kinds⟩, fun ⟨nodes, nested, kinds⟩ => ⟨nodes, nested, kinds⟩⟩

instance : Decidable (Plain target content marker name word) := decidable_of_iff _ plain_iff.symm

theorem kind_of_isMarker (h : isMarker c) : c.kind ≠ Kind.pseudoVariable ∧
    c.kind ≠ Kind.pseudoContent ∧ c.kind ≠ Kind.variableName ∧ c.kind ≠ Kind.identifier := by
  refine ⟨?_, ?_, ?_, ?_⟩ <;> intro same <;> rw [isMarker, same] at h <;> exact absurd h (by decide)

/-- The variable that an assignment sets belongs to the class below its target. -/
theorem exists_of_ofAssignment? (recorded : Variable.ofAssignment? t assignment = some v)
    (left : assignment.child? Field.left = some target) :
    target.kind = Kind.pseudoVariable ∧ ∃ content marker,
      target.significantChildren.find? (fun c => c.kind == Kind.pseudoContent) = some content ∧
      content.significantChildren.head? = some marker ∧
      Scope.ofKind? marker.kind = some v.scope ∧
      Variable.identifierOf? t marker = some v.identifier ∧
      v.name = v.scope.qualify v.identifier := by
  simp only [Variable.ofAssignment?, left, Option.bind_eq_bind, Option.bind_some] at recorded
  split at recorded
  · cases recorded
  · rename_i kind
    obtain ⟨content, hcontent, recorded⟩ := Option.bind_eq_some_iff.1 recorded
    obtain ⟨marker, hmarker, recorded⟩ := Option.bind_eq_some_iff.1 recorded
    obtain ⟨scope, hscope, recorded⟩ := Option.bind_eq_some_iff.1 recorded
    obtain ⟨identifier, hidentifier, recorded⟩ := Option.bind_eq_some_iff.1 recorded
    obtain ⟨value, _, recorded⟩ := Option.bind_eq_some_iff.1 recorded
    cases recorded
    exact ⟨by simpa using kind, content, marker, hcontent, hmarker, hscope, hidentifier, rfl⟩

namespace Plain

theorem mem_iff (plain : Plain target content marker name word) : c ∈ target.preorder ∧ c.isNamed ↔
    c = target ∨ c = content ∨ c = marker ∨ c = name ∨ c = word := by
  rw [← List.mem_filter, plain.nodes]
  simp

section Kinds

variable (plain : Plain target content marker name word)
  (kind : target.kind = Kind.pseudoVariable) (hc : c ∈ target.preorder ∧ c.isNamed)
include plain kind hc

theorem eq_content (h : c.kind = Kind.pseudoContent) : c = content := by
  obtain ⟨_, marked, named, isWord⟩ := plain.kinds
  rcases plain.mem_iff.1 hc with rfl | rfl | rfl | rfl | rfl
  · exact absurd (kind.symm.trans h) (by decide)
  · rfl
  · exact absurd h (kind_of_isMarker marked).2.1
  · exact absurd (named.symm.trans h) (by decide)
  · exact absurd (isWord.symm.trans h) (by decide)

theorem eq_marker (h : isMarker c) : c = marker := by
  obtain ⟨inner, _, named, isWord⟩ := plain.kinds
  obtain ⟨noVariable, noContent, noName, noWord⟩ := kind_of_isMarker h
  rcases plain.mem_iff.1 hc with rfl | rfl | rfl | rfl | rfl
  · exact absurd kind noVariable
  · exact absurd inner noContent
  · rfl
  · exact absurd named noName
  · exact absurd isWord noWord

theorem eq_word (h : c.kind = Kind.identifier) : c = word := by
  obtain ⟨inner, marked, named, _⟩ := plain.kinds
  rcases plain.mem_iff.1 hc with rfl | rfl | rfl | rfl | rfl
  · exact absurd (kind.symm.trans h) (by decide)
  · exact absurd (inner.symm.trans h) (by decide)
  · exact absurd h (kind_of_isMarker marked).2.2.2
  · exact absurd (named.symm.trans h) (by decide)
  · rfl

end Kinds

/-- The nodes that recording an assignment goes through are those of the variable. -/
theorem recorded (plain : Plain target content marker name word)
    (recorded : Variable.ofAssignment? t assignment = some v)
    (left : assignment.child? Field.left = some target) :
    target.kind = Kind.pseudoVariable ∧
      target.significantChildren.find? (fun c => c.kind == Kind.pseudoContent) = some content ∧
      content.significantChildren.head? = some marker ∧
      Scope.ofKind? marker.kind = some v.scope ∧
      Variable.identifierOf? t marker = some v.identifier ∧
      v.name = v.scope.qualify (word.wordIn t) := by
  obtain ⟨kind, content', marker', hcontent, hmarker, scope, identifier, qualified⟩ :=
    exists_of_ofAssignment? recorded left
  have below {c d : Cursor} (hc : c ∈ target.preorder) (hd : d ∈ c.significantChildren) :
      d ∈ target.preorder ∧ d.isNamed := by
    obtain ⟨child, significant⟩ := List.mem_filter.1 hd
    exact ⟨Cursor.mem_preorder_of_child hc child, (Bool.and_eq_true_iff.1 significant).1⟩
  have hcontent' := below (Cursor.mem_preorder_self _) (List.mem_of_find?_eq_some hcontent)
  have hmarker' := below hcontent'.1 (List.mem_of_head? hmarker)
  have kind' : content'.kind = Kind.pseudoContent := by simpa using List.find?_some hcontent
  have marked : isMarker marker' := by rw [isMarker, scope]; rfl
  obtain rfl := plain.eq_content kind hcontent' kind'
  obtain rfl := plain.eq_marker kind hmarker' marked
  have same : v.identifier = word.wordIn t := by
    obtain ⟨name', hname, identifier⟩ := Option.bind_eq_some_iff.1 identifier
    obtain ⟨last, hlast, identifier⟩ := Option.bind_eq_some_iff.1 identifier
    obtain ⟨children, ofKind⟩ := List.mem_filter.1 (List.mem_of_getLast? hlast)
    obtain ⟨child, named⟩ := List.mem_filter.1 children
    have inside := Cursor.mem_preorder_of_child
      (Cursor.mem_preorder_of_child hmarker'.1 (List.mem_of_find?_eq_some hname)) child
    obtain rfl := plain.eq_word kind ⟨inside, named⟩ (by simpa using ofKind)
    exact (Option.some.inj identifier).symm
  exact ⟨kind, hcontent, hmarker, scope, identifier, same ▸ qualified⟩

/-- Every named node of the variable leads to its class. -/
theorem marker?_eq (plain : Plain target content marker name word)
    (recorded : Variable.ofAssignment? t assignment = some v)
    (left : assignment.child? Field.left = some target) (hc : c ∈ target.preorder ∧ c.isNamed) :
    marker? c = some marker := by
  obtain ⟨kind, find, head, _⟩ := plain.recorded recorded left
  obtain ⟨inner, marked, named, isWord⟩ := plain.kinds
  obtain ⟨_, _, ofName, ofWord⟩ := plain.nested
  obtain ⟨noVariable, noContent, noName, noWord⟩ := kind_of_isMarker marked
  have found : marker? c = (some marker).filter isMarker := by
    rcases plain.mem_iff.1 hc with rfl | rfl | rfl | rfl | rfl
    · simp [marker?, kind, find, head]
    · simp [marker?, inner, head, show Kind.pseudoContent ≠ Kind.pseudoVariable by decide]
    · simp [marker?, noVariable, noContent, noName, noWord]
    · have others : Kind.variableName ≠ Kind.pseudoVariable ∧
          Kind.variableName ≠ Kind.pseudoContent := by decide
      simp [marker?, named, others, ofName]
    · have others : Kind.identifier ≠ Kind.pseudoVariable ∧ Kind.identifier ≠ Kind.pseudoContent ∧
          Kind.identifier ≠ Kind.variableName := by decide
      simp [marker?, isWord, named, others, ofWord, ofName]
  rw [found]
  simp [marked]

theorem not_isCallee (plain : Plain target content marker name word)
    (kind : target.kind = Kind.pseudoVariable) (hc : c ∈ target.preorder ∧ c.isNamed) :
    isCallee c = false := by
  refine Bool.and_eq_false_imp.2 fun isWord => ?_
  obtain ⟨_, _, named, _⟩ := plain.kinds
  obtain ⟨_, _, _, ofWord⟩ := plain.nested
  obtain rfl := plain.eq_word kind hc (eq_of_beq isWord)
  have other : Kind.variableName ≠ Kind.expression := by decide
  simp [ofWord, named, other]

end Plain

/-- What is shown for a node of the target of an assignment is the last value of the variable. -/
theorem documentation?_of_recorded (plain : Plain target content marker name word)
    (recorded : Variable.ofAssignment? t assignment = some v)
    (left : assignment.child? Field.left = some target) (hc : c ∈ target.preorder ∧ c.isNamed)
    (documentation : Documentation) {w : Variable}
    (stored : (Variables.ofTree t).get? v.scope v.name = some w) :
    documentation? t (.ofTree t) documentation c = some w.documentation := by
  obtain ⟨kind, _, _, scope, identifier, _⟩ := plain.recorded recorded left
  obtain ⟨_, _, _, _, _, _, _, qualified⟩ := exists_of_ofAssignment? recorded left
  have ofVariable : variableOf? t (.ofTree t) c = some w := by
    rw [variableOf?, plain.marker?_eq recorded left hc]
    simp only [Option.bind_eq_bind, Option.bind_some, scope, identifier, ← qualified, stored]
  simp [documentation?, plain.not_isCallee kind hc, ofVariable]

end Hover

/-- The value of an assigned variable is stored under its name. -/
theorem Variables.get?_ofTree {t : Tree} {v : Variable} (hv : v ∈ t.assigned) : ∃ w,
    (ofTree t).get? v.scope v.name = some w ∧
      (t.assigned.filter fun u => u.place = v.place).getLast? = some w := by
  have last : (ofTree t).get? v.scope v.name =
      (t.assigned.filter fun u => u.place = v.place).getLast? :=
    get?_foldl_insert t.assigned v.scope v.name
  have some_value : t.assigned.filter (fun u => u.place = v.place) ≠ [] :=
    List.ne_nil_of_mem (List.mem_filter.2 ⟨hv, by simp⟩)
  exact ⟨_, last.trans (List.getLast?_eq_some_getLast some_value),
    List.getLast?_eq_some_getLast some_value⟩

namespace Store

variable {settings : Settings} {history : List Operation} {uri : String} {d : Document}
  {assignment target content marker name word : Cursor} {v : Variable} {p : Point}

/--
In a document without error nodes, a point anywhere on the target `$class(word)` of an assignment
that was recorded shows the entry that is stored under this name: the last assignment to it.
-/
theorem hover?_of_recorded (opened : (ofHistory settings history).get? uri = some d)
    (noError : d.tree.hasError = false) (recorded : assignment ∈ d.tree.cursors ∧
      assignment.isNamed ∧ assignment.kind = Kind.assignment ∧
        Variable.ofAssignment? d.tree assignment = some v)
    (left : assignment.child? Field.left = some target)
    (plain : Hover.Plain target content marker name word) (bare : d.tree.Bare target)
    (here : target.covers p) : ∃ w,
      d.userVariables.get? v.scope (v.scope.qualify (word.wordIn d.tree)) = some w ∧
      (d.tree.assigned.filter fun u => u.place = v.place).getLast? = some w ∧
      ((ofHistory settings history).hover? uri p).map Prod.fst = some w.documentation := by
  have coherent := (ofHistory_holds settings history).2 uri d opened
  obtain ⟨hassignment, named, isAssignment, recorded⟩ := recorded
  have hv : v ∈ d.tree.assigned :=
    List.mem_filterMap.2 ⟨assignment,
      List.mem_filter.2 ⟨hassignment, by simp [named, isAssignment]⟩, recorded⟩
  obtain ⟨w, stored, last⟩ := Variables.get?_ofTree hv
  have qualified := (plain.recorded recorded left).2.2.2.2.2
  refine ⟨w, by rw [coherent.userVariables, ← qualified, stored], last, ?_⟩
  have tree : d.tree = Tree.ofScript d.text := coherent.tree
  obtain ⟨c, found, hc⟩ : ∃ c, d.tree.nodeAt? p = some c ∧ c ∈ target.preorder ∧ c.isNamed := by
    have child : target ∈ assignment.children := List.mem_of_find?_eq_some left
    have inner : target ≠ .root d.tree := fun root => by
      simpa [root, Cursor.root, Cursor.ofNode, Cursor.parent?] using
        Cursor.parent?_of_mem_children child
    have named := (plain.mem_iff.2 (.inl rfl)).2
    have htarget := Cursor.mem_preorder_of_child hassignment child
    have kind := (plain.recorded recorded left).1
    rw [tree] at noError htarget inner bare ⊢
    have notExtra : target.notExtra := by
      by_contra extra
      have comment := Tree.kind_of_extra htarget (by simpa using extra)
      rw [kind] at comment
      exact absurd comment (by decide)
    exact Tree.nodeAt?_of_covers noError htarget inner notExtra named bare here
  have shown := Hover.documentation?_of_recorded plain recorded left hc
    (ofHistory settings history).documentation stored
  rw [← coherent.userVariables] at shown
  simp [hover?, nodeAt?, opened, found, shown]

/-- A point on the blank in the parentheses of the first of two assignments to a variable. -/
theorem hover?_of_recorded_blank :
    let text := "/* a */ route \x7b\n$var( x ) = 1; # b\n$var(x) = 2;\n\x7d\n".toList
    ((ofHistory default [.openText "a" 1 text]).hover? "a" ⟨1, 5⟩).map Prod.fst =
      some "## Local variable\n\tx\n### Value\n\t```\n\t2\n```\n### Scope\n\tLocal\n" := by
  intro text
  have facts : (Tree.ofScript text).hasError = false ∧
      ∃ assignment ∈ (Tree.ofScript text).cursors, assignment.isNamed ∧
        assignment.kind = Kind.assignment ∧ ∃ v ∈ (Tree.ofScript text).assigned,
        Variable.ofAssignment? (Tree.ofScript text) assignment = some v ∧
        (((Tree.ofScript text).assigned.filter fun u => u.place = v.place).getLast?).map
          Variable.documentation = some
            "## Local variable\n\tx\n### Value\n\t```\n\t2\n```\n### Scope\n\tLocal\n" ∧
      ∃ target ∈ assignment.children, assignment.child? Field.left = some target ∧
        target.covers ⟨1, 5⟩ ∧ (Tree.ofScript text).Bare target ∧
      ∃ content ∈ target.children, ∃ marker ∈ content.children, ∃ name ∈ marker.children,
      ∃ word ∈ name.children, Hover.Plain target content marker name word := by
    decide +kernel
  obtain ⟨d, opened, _, tree⟩ := get?_openText default "a" 1 text
  rw [← tree] at facts
  obtain ⟨noError, assignment, hassignment, named, kind, v, _, recorded, value, target, _, left,
    here, bare, content, _, marker, _, name, _, word, _, plain⟩ := facts
  obtain ⟨w, _, last, shown⟩ := hover?_of_recorded opened noError
    ⟨hassignment, named, kind, recorded⟩ left plain bare here
  rw [last] at value
  exact shown.trans value

end Store

end RouteScript
