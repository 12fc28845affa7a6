import RouteScript.Proofs.Bodies.Reading
import Mathlib.Algebra.Order.Group.Multiset
import Mathlib.Tactic.Abel
/-!
# Assignments in bodies

The rule for assignments checks the statements of blocks. A body without braces is no block, so an
assignment in its place goes unchecked, and braces around it bring its fault to light.
-/
namespace RouteScript

open Diagnostic (assignments)

namespace Outline

variable {kind field : String} {o : Outline} {below : List Outline}

theorem faults_leaf (form : Form) : faults (.node form []) = [] := by
  rw [faults_node]
  simp

theorem faults_nodeOf (other : kind ≠ Kind.compoundStatement) :
    faults (nodeOf kind below) = below.flatMap faults := by
  have noBlock : isNode Kind.compoundStatement (nodeOf kind below) = false :=
    beq_eq_false_iff_ne.2 other
  rw [nodeOf] at noBlock ⊢
  rw [faults_node, noBlock, if_neg Bool.false_ne_true, List.nil_append]

theorem faults_labelled (field : String) (o : Outline) : faults (labelled field o) = o.faults := by
  obtain ⟨form, below⟩ := o
  rw [labelled, reform, faults_node, faults_node]
  rfl

theorem ownFault_of_kind (other : isNode Kind.statement o = false) : o.ownFault = [] := by
  rw [ownFault, isAssignment, other, Bool.false_and, if_neg Bool.false_ne_true]

/-- A block checks the statement in it. -/
theorem faults_block (o : Outline) : faults (Program.block [o]) = o.ownFault ++ o.faults := by
  have opening : (leaf Kind.blockStart ['\x7b']).ownFault = [] := ownFault_of_kind rfl
  have closing : (leaf Kind.blockEnd ['\x7d']).ownFault = [] := ownFault_of_kind rfl
  have opening' : (leaf Kind.blockStart ['\x7b']).faults = [] := faults_leaf _
  have closing' : (leaf Kind.blockEnd ['\x7d']).faults = [] := faults_leaf _
  have block : isNode Kind.compoundStatement (Program.block [o]) := rfl
  rw [Program.block, nodeOf] at block ⊢
  rw [faults_node, if_pos block]
  simp [opening, closing, opening', closing']

/-- A control statement is no assignment, and what is wrong in it is wrong in its parts. -/
theorem control_faults (other : kind ≠ Kind.expression ∧ kind ≠ Kind.compoundStatement) :
    (nodeOf Kind.statement [nodeOf kind below]).ownFault = [] ∧
      (nodeOf Kind.statement [nodeOf kind below]).faults = below.flatMap faults := by
  refine ⟨?_, ?_⟩
  · have noExpression : isNode Kind.expression (nodeOf kind below) = false :=
      beq_eq_false_iff_ne.2 other.1
    have noAssignment : (nodeOf Kind.statement [nodeOf kind below]).isAssignment = false := by
      rw [isAssignment, nodeOf, Rose.children, List.any_cons, noExpression]
      rfl
    rw [ownFault, noAssignment, if_neg Bool.false_ne_true]
  · rw [faults_nodeOf (by decide), List.flatMap_singleton, faults_nodeOf other.2]

theorem faults_condition (test : Outline) : (Program.condition test).faults = test.faults := by
  rw [Program.condition, faults_labelled, faults_nodeOf (by decide)]
  simp [sign, keyword, faults_leaf, wrapped, faults_nodeOf (by decide : Kind.expression ≠ _)]

end Outline

namespace Body

open Outline

/-- The statement with braces around every body. -/
def braced : Body → Body
  | plain statement => plain statement
  | branch test _ body => branch test true body.braced
  | choice test _ body _ otherwise => choice test true body.braced true otherwise.braced
  | loop test _ body => loop test true body.braced

/-- What is wrong with a statement that only braces around it bring to light. -/
def hidden (fenced : Bool) (o : Outline) : List String := if fenced then [] else o.ownFault

/-- What is wrong with the assignments that stand as bodies without braces. -/
def unchecked : Body → List String
  | plain _ => []
  | branch _ fenced body => hidden fenced body.outline ++ body.unchecked
  | choice _ fenced body fenced' otherwise =>
    (hidden fenced body.outline ++ body.unchecked)
      ++ (hidden fenced' otherwise.outline ++ otherwise.unchecked)
  | loop _ fenced body => hidden fenced body.outline ++ body.unchecked

variable {b body : Body} {fenced : Bool} {text text' : List Char}

theorem faults_enclose (fenced : Bool) (o : Outline) :
    (enclose fenced o).faults = (if fenced then o.ownFault else []) ++ o.faults := by
  cases fenced with
  | false => rfl
  | true => exact faults_block o

theorem faults_branch (test : Outline) (fenced : Bool) (body : Body) :
    (branch test fenced body).outline.faults =
      test.faults ++ (enclose fenced body.outline).faults := by
  rw [outline, (control_faults (by decide)).2]
  simp [keyword, faults_leaf, faults_condition, faults_labelled]

theorem faults_choice (test : Outline) (fenced : Bool) (body : Body) (fenced' : Bool)
    (otherwise : Body) : (choice test fenced body fenced' otherwise).outline.faults =
      test.faults ++ ((enclose fenced body.outline).faults
        ++ (enclose fenced' otherwise.outline).faults) := by
  rw [outline, (control_faults (by decide)).2]
  simp [keyword, faults_leaf, faults_condition, faults_labelled]

theorem faults_loop (test : Outline) (fenced : Bool) (body : Body) :
    (loop test fenced body).outline.faults =
      test.faults ++ (enclose fenced body.outline).faults := by
  rw [outline, (control_faults (by decide)).2]
  simp [keyword, faults_leaf, faults_condition, faults_labelled]

/-- Braces inside a statement do not change what is wrong with the statement itself. -/
theorem ownFault_braced (b : Body) : b.braced.outline.ownFault = b.outline.ownFault := by
  cases b with
  | plain statement => rfl
  | branch test fenced body =>
    exact (control_faults (by decide)).1.trans (control_faults (by decide)).1.symm
  | choice test fenced body fenced' otherwise =>
    exact (control_faults (by decide)).1.trans (control_faults (by decide)).1.symm
  | loop test fenced body =>
    exact (control_faults (by decide)).1.trans (control_faults (by decide)).1.symm

section Braced

variable (ih : (body.braced.outline.faults : Multiset String) =
  (body.unchecked : Multiset String) + body.outline.faults)
include ih

/-- Braces around a body bring to light what is hidden there. -/
theorem faults_enclose_braced (fenced : Bool) :
    ((enclose true body.braced.outline).faults : Multiset String) =
      (hidden fenced body.outline + body.unchecked : Multiset String)
        + (enclose fenced body.outline).faults := by
  rw [faults_enclose, faults_enclose, if_pos rfl, ownFault_braced, ← Multiset.coe_add, ih]
  cases fenced with
  | false =>
    simp only [hidden, Bool.false_eq_true, if_false, List.nil_append]
    abel
  | true =>
    simp only [hidden, if_true, ← Multiset.coe_add, Multiset.coe_nil]
    abel

end Braced

/-- With all braces there is found what was found without them, and what was unchecked. -/
theorem faults_braced (b : Body) : (b.braced.outline.faults : Multiset String) =
    (b.unchecked : Multiset String) + b.outline.faults := by
  induction b with
  | plain statement => simp [braced, unchecked]
  | branch test fenced body ih =>
    rw [braced, faults_branch, faults_branch, unchecked]
    simp only [← Multiset.coe_add, faults_enclose_braced ih fenced]
    abel
  | choice test fenced body fenced' otherwise ih ih' =>
    rw [braced, faults_choice, faults_choice, unchecked]
    simp only [← Multiset.coe_add, faults_enclose_braced ih fenced,
      faults_enclose_braced ih' fenced']
    abel
  | loop test fenced body ih =>
    rw [braced, faults_loop, faults_loop, unchecked]
    simp only [← Multiset.coe_add, faults_enclose_braced ih fenced]
    abel

theorem enclose_sublist (fenced : Bool)
    (ih : body.outline.faults.Sublist body.braced.outline.faults) :
    (enclose fenced body.outline).faults.Sublist (enclose true body.braced.outline).faults := by
  rw [faults_enclose, faults_enclose, if_pos rfl, ownFault_braced]
  cases fenced with
  | false => exact ih.trans (List.sublist_append_right _ _)
  | true => exact ih.append_left _

/-- What is found without braces is found with them in the same order. -/
theorem faults_sublist (b : Body) : b.outline.faults.Sublist b.braced.outline.faults := by
  induction b with
  | plain statement => exact .refl _
  | branch test fenced body ih =>
    rw [braced, faults_branch, faults_branch]
    exact (enclose_sublist fenced ih).append_left _
  | choice test fenced body fenced' otherwise ih ih' =>
    rw [braced, faults_choice, faults_choice]
    exact ((enclose_sublist fenced ih).append (enclose_sublist fenced' ih')).append_left _
  | loop test fenced body ih =>
    rw [braced, faults_loop, faults_loop]
    exact (enclose_sublist fenced ih).append_left _

end Body

namespace Tree

open Script Body

/-- The messages about assignments. -/
def assignmentMessages (t : Tree) : List String := (assignments.findings t).map (·.message)

variable {b : Body} {text text' : List Char}

theorem messages_written (h : b.Written text) :
    (ofScript text).assignmentMessages = b.outline.ownFault ++ b.outline.faults := by
  obtain ⟨_, type, outline⟩ := h.outline
  rw [assignmentMessages, messages_ofScript, outline, Outline.faults_nodeOf (by decide),
    List.flatMap_singleton, Body.routeOutline, Outline.faults_nodeOf (by decide)]
  simp [Outline.faults_labelled, Outline.leaf, Outline.faults_leaf, Outline.faults_block]

/-- Braces around all bodies of a statement bring the faults of the assignments to light that stand
as bodies without braces. So the messages are the same just when no such assignment has one. -/
theorem messages_braced (written : b.Written text) (written' : b.braced.Written text') :
    (ofScript text').assignmentMessages.Perm
        (b.unchecked ++ (ofScript text).assignmentMessages) ∧
      ((ofScript text').assignmentMessages = (ofScript text).assignmentMessages ↔
        b.unchecked = []) := by
  have perm : (ofScript text').assignmentMessages.Perm
      (b.unchecked ++ (ofScript text).assignmentMessages) := by
    rw [messages_written written, messages_written written', b.ownFault_braced,
      ← Multiset.coe_eq_coe]
    simp only [← Multiset.coe_add, b.faults_braced]
    abel
  have sub : (ofScript text).assignmentMessages.Sublist (ofScript text').assignmentMessages := by
    rw [messages_written written, messages_written written', b.ownFault_braced]
    exact b.faults_sublist.append_left _
  refine ⟨perm, fun same => ?_, fun nothing => ?_⟩
  · have length := perm.length_eq
    rw [same, List.length_append] at length
    exact List.eq_nil_of_length_eq_zero (by omega)
  · rw [nothing, List.nil_append] at perm
    exact (sub.eq_of_length perm.length_eq.symm).symm

/-- An assignment of a number to a name, which is no variable. -/
def nameAssignment (name : Program.Name) (value : String) : Body :=
  .plain (Program.finished (.wrapped (.nodeOf Kind.assignment
    [.labelled Field.left (Program.identifier name), .sign .assign,
      .labelled Field.right (.wrapped (.leaf Kind.number value.toList))])))

theorem spelled_assign (name : Program.Name) {value : String} {k : Nat} {newline adjacent newline'
    adjacent' newline'' adjacent'' newline₃ adjacent₃ : Bool} :
    (nameAssignment name value).Spelled (k + 3) [⟨.identifier, name.text, newline, adjacent⟩,
      ⟨.assign, ['='], newline', adjacent'⟩, ⟨.number, value.toList, newline'', adjacent''⟩,
      ⟨.semicolon, [';'], newline₃, adjacent₃⟩] :=
  isStatement_assign name

/-- A choice between a loop and an assignment, without braces. -/
def bareChoice : Body :=
  .choice (.leaf Kind.number ['1']) false
    (.loop (.leaf Kind.number ['2']) false (nameAssignment ⟨"foo".toList, rfl, rfl, by decide⟩ "1"))
    false (nameAssignment ⟨"bar".toList, rfl, rfl, by decide⟩ "2")

theorem messages_braced_choice :
    let text := "request_route \x7b\n if (1) while (2) foo = 1; else bar = 2;\n\x7d\n".toList
    let text' := ("request_route \x7b\n if (1) \x7b while (2) \x7b foo = 1; \x7d \x7d" ++
      " else \x7b bar = 2; \x7d\n\x7d\n").toList
    bareChoice.Written text ∧ bareChoice.braced.Written text' ∧
      (ofScript text').assignmentMessages.Perm
        (bareChoice.unchecked ++ (ofScript text).assignmentMessages) ∧
      (ofScript text').assignmentMessages ≠ (ofScript text).assignmentMessages := by
  intro text text'
  have written : bareChoice.Written text := by
    refine ⟨⟨"request_route", by decide⟩, true, false, false, false, true, false,
      [⟨.identifier, "if".toList, true, false⟩, ⟨.lParen, ['('], false, false⟩,
        ⟨.number, ['1'], false, true⟩, ⟨.rParen, [')'], false, true⟩,
        ⟨.identifier, "while".toList, false, false⟩, ⟨.lParen, ['('], false, false⟩,
        ⟨.number, ['2'], false, true⟩, ⟨.rParen, [')'], false, true⟩,
        ⟨.identifier, "foo".toList, false, false⟩, ⟨.assign, ['='], false, false⟩,
        ⟨.number, ['1'], false, false⟩, ⟨.semicolon, [';'], false, true⟩,
        ⟨.identifier, "else".toList, false, false⟩, ⟨.identifier, "bar".toList, false, false⟩,
        ⟨.assign, ['='], false, false⟩, ⟨.number, ['2'], false, false⟩,
        ⟨.semicolon, [';'], false, true⟩], ?_, by decide⟩
    exact spelled_choice (k := 63) heads_number
      (encloses_bare (spelled_loop heads_number (encloses_bare (spelled_assign _)))) id
      (encloses_bare (spelled_assign _))
  have written' : bareChoice.braced.Written text' := by
    refine ⟨⟨"request_route", by decide⟩, true, false, false, false, true, false,
      [⟨.identifier, "if".toList, true, false⟩, ⟨.lParen, ['('], false, false⟩,
        ⟨.number, ['1'], false, true⟩, ⟨.rParen, [')'], false, true⟩,
        ⟨.lBrace, ['\x7b'], false, false⟩,
        ⟨.identifier, "while".toList, false, false⟩, ⟨.lParen, ['('], false, false⟩,
        ⟨.number, ['2'], false, true⟩, ⟨.rParen, [')'], false, true⟩,
        ⟨.lBrace, ['\x7b'], false, false⟩,
        ⟨.identifier, "foo".toList, false, false⟩, ⟨.assign, ['='], false, false⟩,
        ⟨.number, ['1'], false, false⟩, ⟨.semicolon, [';'], false, true⟩,
        ⟨.rBrace, ['\x7d'], false, false⟩, ⟨.rBrace, ['\x7d'], false, false⟩,
        ⟨.identifier, "else".toList, false, false⟩, ⟨.lBrace, ['\x7b'], false, false⟩,
        ⟨.identifier, "bar".toList, false, false⟩,
        ⟨.assign, ['='], false, false⟩, ⟨.number, ['2'], false, false⟩,
        ⟨.semicolon, [';'], false, true⟩, ⟨.rBrace, ['\x7d'], false, false⟩], ?_,
      by decide⟩
    exact spelled_choice (k := 63) heads_number
      (encloses_braces (spelled_loop heads_number (encloses_braces (spelled_assign _))))
      (fun _ => rfl) (encloses_braces (spelled_assign _))
  obtain ⟨perm, same_iff⟩ := messages_braced written written'
  exact ⟨written, written', perm, same_iff.not.2 (by decide)⟩

/-- The same assignment has a fault in braces and none without them. -/
theorem messages_bare_body :
    (ofScript "request_route \x7b\n if (1) foo = 1;\n\x7d\n".toList).assignmentMessages = [] ∧
      (ofScript "request_route \x7b\n if (1) \x7b foo = 1; \x7d\n\x7d\n".toList).assignmentMessages
        = ["Invalid assignment expression"] := by
  decide +kernel

end Tree

end RouteScript
