import RouteScript.Proofs.Precedence.OperatorTree
import RouteScript.Proofs.Braces.Rules
/-!
# Operators in drafts

A binary node is graded when its operator binds no tighter than the one of its left operand and
looser than the one of its right operand. In a steady draft all nodes are graded. The operands and
operators of a draft make an operation, which is ordered then.
-/
namespace RouteScript

open Script

namespace Script

def binaryOperators : List Token.Kind :=
  [.orOr, .andAnd, .pipe, .caret, .amp, .eq, .notEq, .regexMatch, .regexNotMatch, .lt, .gt, .ltEq,
    .gtEq, .plus, .minus, .star, .slash, .percent]

/-- How tightly the operator with this spelling binds. -/
def spelledPrecedence? (spelling : String) : Option Nat :=
  (binaryOperators.find? fun kind => kind.spelling? == some spelling).bind precedence?

theorem spelledPrecedence?_tokenLeaf (t : Token) :
    spelledPrecedence? (tokenLeaf t).label.kind = precedence? t.kind := by
  obtain ⟨kind, text, start, newline⟩ := t
  cases kind <;> rfl

theorem precedence?_bounds {kind : Token.Kind} {p : Nat} (h : precedence? kind = some p) :
    1 ≤ p ∧ p ≤ tightest := by
  cases kind <;> simp only [precedence?, reduceCtorEq, Option.some.injEq] at h <;> subst h <;>
    decide

theorem spelledPrecedence?_bounds {spelling : String} {p : Nat}
    (h : spelledPrecedence? spelling = some p) : 1 ≤ p ∧ p ≤ tightest := by
  obtain ⟨kind, _, known⟩ := Option.bind_eq_some_iff.1 h
  exact precedence?_bounds known

end Script

namespace Draft

/-- The children that belong to the structure. -/
def solidChildren (d : Draft) : List Draft := d.children.filter fun c => !c.label.extra

/-- How tightly a binary node binds. -/
def rank? (d : Draft) : Option Nat :=
  match d.solidChildren with
  | [_, operator, _] => spelledPrecedence? operator.label.kind
  | _ => none

/-- An expression node, and the one node in it. -/
def IsExpressionOf (d inner : Draft) : Prop :=
  d.label.kind = Kind.expression ∧ d.children = [inner]

/-- An expression node with one node in it, which is no assignment and, if it is a binary one, binds
at least this tightly. -/
structure Binds (low : Nat) (d : Draft) : Prop where
  holds : d.IsExpressionOf (unwrap d)
  assignment : (unwrap d).label.kind ≠ Kind.assignment
  binary : (unwrap d).label.kind = Kind.binary → ∃ rank, (unwrap d).rank? = some rank ∧ low ≤ rank

/-- An expression that holds neither a binary operator nor an assignment. -/
def IsOperand (d : Draft) : Prop :=
  ∃ inner, d = wrap inner ∧ inner.label.kind ∉ [Kind.binary, Kind.assignment]

/-- An operator in its place: what it joins binds tighter, on its left perhaps as tightly. -/
structure Graded (d : Draft) : Prop where
  binary : d.label.kind = Kind.binary → ∃ left operator right rank,
    d.solidChildren = [left, operator, right] ∧ left.label.field = some Field.left ∧
      operator.label.field = some Field.operator ∧ right.label.field = some Field.right ∧
      spelledPrecedence? operator.label.kind = some rank ∧
      left.Binds rank ∧ right.Binds (rank + 1)
  unary : d.label.kind = Kind.unary → ∃ operator argument inner,
    d.solidChildren = [operator, argument] ∧ operator.label.field = some Field.operator ∧
      argument.label.field = some Field.argument ∧ argument.IsExpressionOf inner ∧
      inner.label.kind ∉ [Kind.binary, Kind.assignment]

/-- A draft all nodes of which are graded. -/
def Steady (d : Draft) : Prop := ∀ n ∈ d.nodes, Graded n

/-- The kinds of nodes that hold operators. -/
def operatorKinds : List String := [Kind.binary, Kind.unary]

variable {t : Tag} {kind : String} {children : List Draft} {d : Draft} {low : Nat}

theorem steady_node : Steady (.node t children) ↔
    Graded (.node t children) ∧ ∀ c ∈ children, c.Steady := Rose.forall_nodes_node

theorem steady_iff : d.Steady ↔ Graded d ∧ ∀ c ∈ d.children, Steady c := by
  cases d
  exact steady_node

theorem graded_of_plain (plain : t.kind ∉ operatorKinds) : Graded (.node t children) := by
  obtain ⟨noBinary, noUnary⟩ : t.kind ≠ Kind.binary ∧ t.kind ≠ Kind.unary := by
    simpa [operatorKinds] using plain
  exact ⟨fun binary => absurd binary noBinary, fun unary => absurd unary noUnary⟩

theorem label_withField (d : Draft) (field : String) :
    (d.withField field).label = { d.label with field := some field } := by
  cases d
  rfl

theorem IsExpressionOf.unwrap_eq {inner : Draft} (h : d.IsExpressionOf inner) :
    unwrap d = inner := by
  rw [unwrap, h.1, h.2]
  rfl

theorem IsExpressionOf.withField {inner : Draft} (h : d.IsExpressionOf inner) (field : String) :
    (d.withField field).IsExpressionOf inner := by
  cases d
  exact h

theorem unwrap_cases (d : Draft) : unwrap d = d ∨ ∃ only ∈ d.children, unwrap d = only := by
  unfold Script.unwrap
  split
  · rename_i only _ single
    exact .inr ⟨only, by simp [single], rfl⟩
  · exact .inl rfl

theorem kind_withField (d : Draft) (field : String) :
    (d.withField field).label.kind = d.label.kind := by
  cases d
  rfl

theorem wrap_notExtra (d : Draft) : (wrap d).label.extra = false := rfl

theorem rank?_of_solidChildren {left operator right : Draft}
    (children : d.solidChildren = [left, operator, right]) :
    d.rank? = spelledPrecedence? operator.label.kind := by rw [rank?, children]

theorem Binds.withField (h : d.Binds low) (field : String) : (d.withField field).Binds low := by
  obtain ⟨holds, assignment, binary⟩ := h
  have same : unwrap (d.withField field) = unwrap d := (holds.withField field).unwrap_eq
  exact ⟨same ▸ holds.withField field, same ▸ assignment, same ▸ binary⟩

theorem Binds.mono {low' : Nat} (h : d.Binds low) (le : low' ≤ low) : d.Binds low' :=
  ⟨h.holds, h.assignment, fun binary => by
    obtain ⟨rank, known, bound⟩ := h.binary binary
    exact ⟨rank, known, Nat.le_trans le bound⟩⟩

/-- What holds neither an assignment nor a binary operator binds as tightly as one likes. -/
theorem IsOperand.binds (h : d.IsOperand) (low : Nat) : d.Binds low := by
  obtain ⟨inner, rfl, plain⟩ := h
  obtain ⟨noBinary, noAssignment⟩ :
      inner.label.kind ≠ Kind.binary ∧ inner.label.kind ≠ Kind.assignment := by simpa using plain
  exact ⟨⟨rfl, rfl⟩, noAssignment, fun binary => absurd binary noBinary⟩

namespace Steady

theorem branch (plain : kind ∉ operatorKinds) (h : ∀ c ∈ children, c.Steady) :
    (branch kind children).Steady := steady_node.2 ⟨graded_of_plain plain, h⟩

theorem leaf (plain : kind ∉ operatorKinds) (named : Bool) (start stop : Nat) :
    (leaf kind named start stop).Steady := steady_node.2 ⟨graded_of_plain plain, by simp⟩

theorem relabel (h : d.Steady) {f : Tag → Tag} (same : ∀ t, (f t).kind = t.kind) :
    (d.relabel f).Steady := by
  obtain ⟨t, children⟩ := d
  obtain ⟨⟨binary, unary⟩, below⟩ := steady_node.1 h
  refine steady_node.2 ⟨⟨fun kind => binary ?_, fun kind => unary ?_⟩, below⟩
  · exact (same t).symm.trans kind
  · exact (same t).symm.trans kind

theorem withField (h : d.Steady) (field : String) : (d.withField field).Steady :=
  h.relabel fun _ => rfl

theorem below (h : d.Steady) : ∀ c ∈ d.children, Steady c := by
  obtain ⟨t, children⟩ := d
  exact (steady_node.1 h).2

theorem wrap (h : d.Steady) : (wrap d).Steady := branch (by decide) (List.forall_mem_singleton.2 h)

theorem unwrap (h : d.Steady) : (unwrap d).Steady := by
  rcases unwrap_cases d with same | ⟨only, child, same⟩
  · exact same.symm ▸ h
  · exact same.symm ▸ h.below only child

theorem salvage (h : d.Steady) : ∀ c ∈ d.salvage, c.Steady := by
  unfold Draft.salvage
  split
  · split
    · exact List.forall_mem_singleton.2 (h.relabel fun _ => rfl)
    · exact h.below
  · exact List.forall_mem_singleton.2 (h.relabel fun _ => rfl)

theorem error (h : ∀ c ∈ children, c.Steady) : (error children).Steady :=
  branch (by decide) fun c hc => by
    obtain ⟨d, hd, hc⟩ := List.mem_flatMap.1 hc
    exact (h d hd).salvage c hc

theorem tokenLeaf (t : Token) : (tokenLeaf t).Steady := by
  unfold Script.tokenLeaf
  split
  case h_6 =>
    refine leaf ?_ _ _ _
    cases t.kind <;> decide
  all_goals exact leaf (by decide) _ _ _

theorem keywordLeaf (t : Token) : (keywordLeaf t).Steady := by
  unfold Script.keywordLeaf
  split
  · rename_i kind known
    have word : kind ∈ Vocabulary.keywords ++ Vocabulary.punctuation :=
      List.mem_of_find?_eq_some known
    have apart : ∀ kind ∈ Vocabulary.keywords ++ Vocabulary.punctuation,
        kind ∉ operatorKinds := by decide
    exact leaf (apart kind word) _ _ _
  · exact leaf (by decide) _ _ _

theorem extraLeaf (t : Token) : (extraLeaf t).Steady := by
  unfold Script.extraLeaf
  split <;> exact (leaf (by decide) true t.start t.stop).relabel fun _ => rfl

end Steady

/-- The operands and the operator of a binary node. -/
def operands? (d : Draft) : Option (Draft × Draft × Draft) :=
  match d.label.kind == Kind.binary, d.solidChildren with
  | true, [left, operator, right] => some (left, operator, right)
  | _, _ => none

theorem operands?_eq_some_iff {left operator right : Draft} :
    d.operands? = some (left, operator, right) ↔
      d.label.kind = Kind.binary ∧ d.solidChildren = [left, operator, right] := by
  unfold operands?
  split
  · rename_i binary parts
    simp [eq_of_beq binary, parts]
  · rename_i other
    refine ⟨fun h => by contradiction, fun ⟨binary, parts⟩ => ?_⟩
    exact absurd parts (other left operator right (beq_iff_eq.2 binary))

theorem sizeOf_lt_of_mem {c : Draft} (h : c ∈ d.children) : sizeOf c < sizeOf d := by
  obtain ⟨t, children⟩ := d
  have := List.sizeOf_lt_of_mem h
  simp only [Rose.node.sizeOf_spec, Rose.children] at this ⊢
  omega

theorem mem_of_solidChildren {c : Draft} (h : c ∈ d.solidChildren) : c ∈ d.children :=
  (List.mem_filter.1 h).1

theorem sizeOf_unwrap_le (d : Draft) : sizeOf (unwrap d) ≤ sizeOf d := by
  rcases unwrap_cases d with same | ⟨only, child, same⟩
  · rw [same]
  · rw [same]
    exact Nat.le_of_lt (sizeOf_lt_of_mem child)

/-- The operands that binary nodes join, each without the expression node around it. -/
def operation (d : Draft) : OperatorTree Draft Draft :=
  match _h : (unwrap d).operands? with
  | some (left, operator, right) => .join left.operation operator right.operation
  | none => .operand (unwrap d)
termination_by sizeOf d
decreasing_by
  all_goals
    have whole := (operands?_eq_some_iff.1 _h).2
    refine Nat.lt_of_lt_of_le (sizeOf_lt_of_mem (mem_of_solidChildren ?_)) (sizeOf_unwrap_le d)
    simp [whole]

theorem operation_join {left operator right : Draft}
    (h : (unwrap d).operands? = some (left, operator, right)) :
    d.operation = .join left.operation operator right.operation := by
  rw [operation]
  split
  · rename_i same
    obtain ⟨rfl, rfl, rfl⟩ : left = _ ∧ operator = _ ∧ right = _ := by
      simpa using h.symm.trans same
    rfl
  · rename_i none
    rw [h] at none
    contradiction

theorem operation_operand (h : (unwrap d).operands? = none) :
    d.operation = .operand (unwrap d) := by
  rw [operation]
  split
  · rename_i same
    rw [h] at same
    contradiction
  · rfl

/-- How tightly an operator of an operation binds. -/
def rank (operator : Draft) : Nat := (spelledPrecedence? operator.label.kind).getD 0

theorem rank_of_spelled {operator : Draft} {r : Nat}
    (known : spelledPrecedence? operator.label.kind = some r) : rank operator = r := by
  rw [rank, known, Option.getD_some]

theorem Binds.le_top (h : d.Binds low) : ∀ o ∈ d.operation.top?, low ≤ rank o := by
  intro o top
  cases parts : (unwrap d).operands? with
  | none =>
    rw [operation_operand parts] at top
    contradiction
  | some parts' =>
    obtain ⟨left, operator, right⟩ := parts'
    rw [operation_join parts] at top
    obtain rfl : operator = o := Option.some.inj top
    obtain ⟨binary, whole⟩ := operands?_eq_some_iff.1 parts
    obtain ⟨r, known, le⟩ := h.binary binary
    exact rank_of_spelled ((rank?_of_solidChildren whole).symm.trans known) ▸ le

/-- What a steady draft joins is steady, and binds as tightly as the operator between it asks. -/
theorem Steady.joined {left operator right : Draft} (h : d.Steady)
    (parts : (Script.unwrap d).operands? = some (left, operator, right)) :
    (left.Steady ∧ right.Steady) ∧ (1 ≤ rank operator ∧ rank operator ≤ tightest) ∧
      left.Binds (rank operator) ∧ right.Binds (rank operator + 1) := by
  have steady := h.unwrap
  obtain ⟨kind, whole⟩ := operands?_eq_some_iff.1 parts
  have below (c : Draft) (hc : c ∈ [left, operator, right]) : c.Steady :=
    steady.below c (mem_of_solidChildren (whole ▸ hc))
  obtain ⟨left', operator', right', r, whole', -, -, -, known, onLeft, onRight⟩ :=
    (steady _ (Rose.mem_nodes_self _)).binary kind
  obtain ⟨rfl, rfl, rfl⟩ : left = left' ∧ operator = operator' ∧ right = right' := by
    simpa using whole.symm.trans whole'
  rw [rank_of_spelled known]
  exact ⟨⟨below left (by simp), below right (by simp)⟩, spelledPrecedence?_bounds known, onLeft,
    onRight⟩

/-- The operators of a steady draft are in their places. -/
theorem Steady.ordered (h : d.Steady) : d.operation.Ordered rank := by
  fun_induction operation d with
  | case1 d left operator right parts ihl ihr =>
    obtain ⟨⟨hl, hr⟩, -, onLeft, onRight⟩ := h.joined parts
    exact ⟨onLeft.le_top, onRight.le_top, ihl hl, ihr hr⟩
  | case2 d none => trivial

/-- All operators of a steady draft have a precedence. -/
theorem Steady.rank_bounds (h : d.Steady) :
    ∀ o, .inr o ∈ d.operation.flat → 1 ≤ rank o ∧ rank o ≤ tightest := by
  fun_induction operation d with
  | case1 d left operator right parts ihl ihr =>
    obtain ⟨⟨hl, hr⟩, bounds, -⟩ := h.joined parts
    intro o ho
    rcases List.mem_append.1 ho with before | ho
    · exact ihl hl o before
    · rcases List.mem_cons.1 ho with same | behind
      · exact Sum.inr.inj same ▸ bounds
      · exact ihr hr o behind
  | case2 d none => simp [OperatorTree.flat]

end Draft

end RouteScript
