import RouteScript.Proofs.Nesting.Tree
import RouteScript.Proofs.Errors.Basic
import RouteScript.Proofs.Precedence.Statement
import RouteScript.Proofs.Precedence.Climbing
/-!
# Operators in trees of scripts

Whatever the text, the precedences of the operators alone decide how they nest, also in what is left
of an expression that could not be read to its end. So a tree has no choice: operands and operators
from left to right have one tree, and reading them takes all that there are and gives this one.
-/
namespace RouteScript

open Draft Script

/-- A draft in which every operator is where its precedence puts it. -/
structure Draft.Associated (d : Draft) : Prop where
  /-- What an operator joins binds tighter, on its left perhaps as tightly. -/
  graded : d.Graded
  /-- The operators that join its operands have one of the nine precedences. -/
  ranks : ∀ o, .inr o ∈ d.operation.flat → 1 ≤ rank o ∧ rank o ≤ tightest
  ordered : d.operation.Ordered rank
  /-- No other tree of the same operands and operators is ordered. -/
  unique : ∀ u : OperatorTree Draft Draft, u.Ordered rank → u.flat = d.operation.flat →
    u = d.operation

theorem Draft.Steady.associated {d : Draft} (h : d.Steady) : d.Associated :=
  ⟨h _ (Rose.mem_nodes_self _), h.rank_bounds, h.ordered,
    fun _ ordered same => ordered.eq_of_flat h.ordered same⟩

namespace Script

/-- What operands with operators between them give: the tree of all of them up to the last operator,
or, when an operand fails, what was read before it. -/
def Associates (operand : Reader Outcome) (s : Stream) : Outcome → Stream → Prop
  | .ok d, s' => ∃ first more, Strand operand s (OperatorTree.sequence first more) s' ∧
      d.operation = .ofSequence rank first more ∧
      ∀ t, s'.tokens.head? = some t → precedence? t.kind = none
  | .error consumed, s' => Fails operand s consumed s'

/-- How the operations at a level are read. -/
structure Level.Associates (inner : Level) (s : Stream) : Prop where
  order : Gives (binary inner) s (Script.Associates (unary inner) s)
  /-- One loop that climbs from precedence to precedence reads the same. -/
  climbs : ∀ depth, tightest ≤ depth → climb (unary inner) depth 0 s = binary inner s

theorem Joins.associates {operand : Reader Outcome} {s s' : Stream} {out : Outcome}
    (h : Joins operand 1 s out s') (ordered : ∀ d, out = .ok d → d.operation.Ordered rank) :
    Associates operand s out s' := by
  cases out with
  | error consumed => exact h
  | ok d =>
    obtain ⟨-, strand, looser⟩ := h
    obtain ⟨first, more, flat⟩ := d.operation.flat_eq_sequence
    refine ⟨first, more, flat ▸ strand, (ordered d rfl).eq_ofSequence flat, fun t head => ?_⟩
    refine Option.eq_none_iff_forall_ne_some.2 fun p known => ?_
    have low := looser t head p known
    have pos := (precedence?_bounds known).1
    omega

theorem level_associates (remaining : Nat) {s : Stream} (hs : s.Sound) :
    (level remaining).Associates s := by
  have operands (s : Stream) := unary_isOperand (level_steady s.source remaining).toSteady s
  have forward : Forward (unary (level remaining)) := fun s hs => (operands s hs rfl).1
  have plain (s : Stream) (d : Draft) (s' : Stream) (hs : s.Sound)
      (read : unary (level remaining) s = (.ok d, s')) : d.IsOperand := by
    have operand := (operands s hs rfl).2
    rw [read] at operand
    exact operand.2
  refine ⟨?_, fun depth deep => ?_⟩
  · have binds := (binary_binds (level_steady s.source remaining).toSteady s hs rfl).2
    have joins := chain_joins forward plain (Nat.le_refl tightest) s hs
    refine Joins.associates joins fun d read => ?_
    rw [read] at binds
    exact binds.1.ordered
  · rw [climb_zero, climb_eq_tighter forward plain (by decide) (by decide) (by omega) hs]
    rfl

end Script

namespace Tree

theorem steady_ofScript (text : List Char) : ∀ n ∈ (ofScript text).nodes, n.Steady := by
  have plain : Kind.sourceFile ∉ operatorKinds := by decide
  have whole : (Script.draft text).Steady :=
    steady_node.2 ⟨graded_of_plain plain, items_steady text⟩
  rw [nodes, thaw_ofScript]
  exact fun n hn m hm => whole m (Rose.nodes_subset hn m hm)

/-- Operators associate and bind as their precedences say, for every text: wherever they stand in
its tree, and wherever operands with operators between them are read. -/
theorem ofScript_associated (text : List Char) :
    (∀ n ∈ (ofScript text).nodes, n.Associated) ∧
      ∀ remaining s, s.Sound → s.source = text → (level remaining).Associates s :=
  ⟨fun n hn => (steady_ofScript text n hn).associated,
    fun remaining _ sound _ => level_associates remaining sound⟩

/-- The sum has no second operand, and what stands before it stays as it was read. -/
theorem ofScript_associated_broken :
    (∃ n ∈ (ofScript "1 - 2 - 3 * 4 > 5 + ;".toList).nodes, n.label.kind = Kind.binary ∧
        n.rank? = some 8 ∧ n.start = 0 ∧ n.stop = 13 ∧ n.Associated) ∧
      (Stream.ofText "1 - 2 - 3 * 4 > 5 + ;".toList).Sound ∧
      (level maxNesting).Associates (.ofText "1 - 2 - 3 * 4 > 5 + ;".toList) := by
  have difference : ∃ n ∈ (ofScript "1 - 2 - 3 * 4 > 5 + ;".toList).nodes,
      n.label.kind = Kind.binary ∧ n.rank? = some 8 ∧ n.start = 0 ∧ n.stop = 13 := by
    decide +kernel
  have sound := (whole_ofText "1 - 2 - 3 * 4 > 5 + ;".toList).settle.sound
  obtain ⟨nodes, streams⟩ := ofScript_associated "1 - 2 - 3 * 4 > 5 + ;".toList
  obtain ⟨n, hn, kind, rank, start, stop⟩ := difference
  exact ⟨⟨n, hn, kind, rank, start, stop, nodes n hn⟩, sound, streams maxNesting _ sound rfl⟩

end Tree

end RouteScript
