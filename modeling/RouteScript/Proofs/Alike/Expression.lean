import RouteScript.Proofs.Alike.Variable
/-!
# Expressions that look the same

The readers of expressions give twins wherever the level inside them does.
-/
namespace RouteScript

/-- A draft with markup in it. -/
def Draft.HoldsMarkup (d : Draft) : Prop := ∃ t ∈ d.labels, t.kind = Kind.xml

namespace Script

open Draft

variable {view : View} {p q : Option Nat} {s t : Stream}

/-- On tokens of the same look the readers of a level give twins, or a statement with markup. -/
structure Level.Alike (view : View) (inner : Level) : Prop where
  statement : ∀ {p q s t}, Script.Alike view p q s t inner.statement inner.statement (Single view)
    HoldsMarkup
  expression : ∀ {p q s t}, Script.Alike view p q s t inner.expression inner.expression
    (Ends view (Wrapped view))
  operand : ∀ {p q s t}, Script.Alike view p q s t inner.operand inner.operand
    (Ends view (Wrapped view))

theorem endsArgument_blind {u v : Token} (same : Peers view u v) :
    endsArgument v = endsArgument u := by
  unfold endsArgument
  rw [same.kind, same.newlineBefore]

section Productions

variable {inner : Level} {ds es : List Draft}

theorem argument_alike (h : inner.Alike view) (twin : Twin view ds es) :
    Alike view p q s t (argument inner ds) (argument inner es) (Option.Rel (Twin view)) := by
  refine .bind h.expression fun out out' ends => ?_
  cases ends with
  | ok value => exact .pure (.some (twin.append value.twin))
  | error consumed =>
    refine .bind (collectWhile_alike fun _ _ _ same => ?_) fun rest rest' more => ?_
    · rw [endsArgument_blind same]
    refine .peekKind fun following => ?_
    have all := consumed.append more
    rw [all.isEmpty_eq]
    split
    · exact .pure .none
    · exact .bind (errorNodes_alike all) fun d e garbage => .pure (.some (twin.append garbage))

theorem argumentStep_alike (h : inner.Alike view) (twin : Twin view ds es) :
    Alike view p q s t (argumentStep inner ds) (argumentStep inner es)
      (Sum.LiftRel (Twin view) (Ends view (Single view))) := by
  refine .bind (argument_alike h twin) fun out out' both => ?_
  cases both with
  | none => exact .pure (.inr (.error twin))
  | some both =>
    refine .peekKind fun following => ?_
    split
    · exact .bind nextLeaf_alike fun comma comma' last => .pure (.inl (both.append last))
    · refine .bind nextLeaf_alike fun closing closing' last => ?_
      exact .bind (node_alike (both.append last) _) fun d e node => .pure (.inr (.ok node))
    · exact .pure (.inr (.error both))

variable (lossless : inner.Lossless) (h : inner.Alike view)
include lossless h

theorem argumentList_alike :
    Alike view p q s t (argumentList inner) (argumentList inner) (Ends view (Single view)) := by
  refine .bind nextLeaf_alike fun opening opening' first => .isAt fun closes => ?_
  split
  · refine .bind nextLeaf_alike fun closing closing' last => ?_
    exact .bind (node_alike (first.append last) _) fun d e node => .pure (.ok node)
  · have advancing := (argumentStep_rounds lossless).advancing
    exact .loop advancing advancing
      (fun _ _ twin => ⟨⟨trivial, twin.solid_left⟩, trivial, twin.solid_right⟩)
      (fun _ _ twin => argumentStep_alike h twin) first

theorem call_alike {name name' : Draft} (names : Single view name name') :
    Alike view p q s t (call inner name) (call inner name') (Ends view (Wrapped view)) := by
  have function := names.wrap.withField Field.function
  refine .bind (argumentList_alike lossless h) fun out out' ends => ?_
  cases ends with
  | error consumed => exact .pure (.error (.cons function consumed))
  | ok arguments =>
    have children := function.append (arguments.withField Field.arguments)
    exact .bind (node_alike children _) fun d e node => .pure (.ok ⟨d, e, rfl, rfl, node⟩)

omit lossless in
theorem parenthesized_alike :
    Alike view p q s t (parenthesized inner) (parenthesized inner) (Ends view (Single view)) := by
  refine .bind nextLeaf_alike fun opening opening' first => ?_
  refine .bind h.expression fun out out' ends => ?_
  cases ends with
  | error consumed => exact .pure (.error (first.append consumed))
  | ok value =>
    refine .isAt fun closes => ?_
    split
    · refine .bind nextLeaf_alike fun closing closing' last => ?_
      have children := (first.append value.twin).append last
      exact .bind (node_alike children _) fun d e node => .pure (.ok node)
    · exact .pure (.error (first.append value.twin))

theorem primary_alike :
    Alike view p q s t (primary inner) (primary inner) (Ends view (Wrapped view)) := by
  refine .peek (.pure (.error .nil)) fun u v same => ?_
  have leaf : Ends view (Wrapped view) (.ok (wrap (tokenLeaf u))) (.ok (wrap (tokenLeaf v))) :=
    .ok ⟨_, _, rfl, rfl, .tokenLeaf same⟩
  dsimp only
  rw [same.kind]
  split
  · refine .bind (parenthesized_alike h) fun out out' ends => ?_
    cases ends with
    | ok group => exact .pure (.ok ⟨_, _, rfl, rfl, group⟩)
    | error consumed => exact .pure (.error consumed)
  · exact pseudoVariable_alike
  · exact .next (.pure leaf) fun _ _ _ => .pure leaf
  · exact .next (.pure leaf) fun _ _ _ => .pure leaf
  · refine .next ?_ fun _ _ _ => ?_
    all_goals
      refine .isAt fun opens => ?_
      split
      · exact call_alike lossless h (.tokenLeaf same)
      · exact .pure leaf
  · exact .pure (.error .nil)

theorem unary_alike :
    Alike view p q s t (unary inner) (unary inner) (Ends view (Wrapped view)) := by
  refine .peek (.pure (.error .nil)) fun u v same => .peekSecondKind fun following => ?_
  have operator : isUnaryOperator v following = isUnaryOperator u following := by
    have word : (v.word == "defined") = (u.word == "defined") :=
      same.word fun _ quoted => quoted.beq_eq_false "defined" (by decide)
    unfold isUnaryOperator
    rw [same.kind, word]
  have leaf : Single view (if u.kind == .identifier then keywordLeaf u else tokenLeaf u)
      (if v.kind == .identifier then keywordLeaf v else tokenLeaf v) := by
    rw [same.kind]
    split
    · exact .keywordLeaf same
    · exact .tokenLeaf same
  rw [operator]
  split
  · refine .next ?_ fun _ _ _ => ?_
    all_goals
      refine .bind h.operand fun out out' ends => ?_
      cases ends with
      | ok value =>
        have children := (leaf.withField Field.operator).append
          (value.twin.withField Field.argument)
        exact .bind (node_alike children _) fun d e node => .pure (.ok ⟨d, e, rfl, rfl, node⟩)
      | error consumed => exact .pure (.error (.cons leaf consumed))
  · exact primary_alike lossless h

omit lossless h in
theorem chainStep_alike {operand : Reader Outcome}
    (h : ∀ {p q s t}, Alike view p q s t operand operand (Ends view (Wrapped view)))
    (precedence : Nat) {left left' : Draft} (twin : Wrapped view left left') :
    Alike view p q s t (chainStep operand precedence left) (chainStep operand precedence left')
      (Sum.LiftRel (Wrapped view) (Ends view (Wrapped view))) := by
  refine .peek (.pure (.inr (.ok twin))) fun u v same => ?_
  dsimp only
  rw [same.kind]
  split
  · exact .pure (.inr (.ok twin))
  · refine .next ?_ fun _ _ _ => ?_
    all_goals
      refine .bind h fun out out' ends => ?_
      cases ends with
      | error consumed =>
        exact .pure (.inr (.error (.cons twin.twin (.cons (.tokenLeaf same) consumed))))
      | ok right =>
        have children := (twin.twin.withField Field.left).append (((Twin.tokenLeaf same).withField
          Field.operator).append (right.twin.withField Field.right))
        exact .bind (node_alike children _) fun d e node => .pure (.inl ⟨d, e, rfl, rfl, node⟩)

omit lossless h in
theorem chain_alike {operand : Reader Outcome} (lossless : ∀ s, Lossless s [] operand Outcome.held)
    (h : ∀ {p q s t}, Alike view p q s t operand operand (Ends view (Wrapped view)))
    (levels : Nat) :
    Alike view p q s t (chain operand levels) (chain operand levels) (Ends view (Wrapped view)) := by
  induction levels generalizing p q s t with
  | zero => exact h
  | succ levels ih =>
    refine .bind ih fun out out' ends => ?_
    cases ends with
    | error consumed => exact .pure (.error consumed)
    | ok left =>
      have advancing := (chainStep_rounds (chain_lossless lossless levels)
        (tightest - levels)).advancing
      exact .loop advancing advancing
        (fun _ _ twin => ⟨⟨trivial, twin.twin.solid_left⟩, trivial, twin.twin.solid_right⟩)
        (fun _ _ twin => chainStep_alike ih _ twin) left

theorem binary_alike :
    Alike view p q s t (binary inner) (binary inner) (Ends view (Wrapped view)) :=
  chain_alike (unary_lossless lossless) (unary_alike lossless h) tightest

theorem assignment_alike :
    Alike view p q s t (assignment inner) (assignment inner) (Ends view (Wrapped view)) := by
  refine .bind (binary_alike lossless h) fun out out' ends => ?_
  cases ends with
  | error consumed => exact .pure (.error consumed)
  | ok left =>
    refine .isAt fun assigns => ?_
    cases assigns with
    | false => exact .pure (.ok left)
    | true =>
      refine .bind nextLeaf_alike fun sign sign' equals => ?_
      have children := (left.unwrap.withField Field.left).append equals
      refine .bind h.expression fun out out' ends => ?_
      cases ends with
      | ok right =>
        have all := children.append (right.twin.withField Field.right)
        exact .bind (node_alike all _) fun d e node => .pure (.ok ⟨d, e, rfl, rfl, node⟩)
      | error consumed =>
        refine .bind (errorNodes_alike consumed) fun ds es garbage => ?_
        have all := children.append (garbage.map_withField Field.right)
        exact .bind (node_alike all _) fun d e node => .pure (.ok ⟨d, e, rfl, rfl, node⟩)

end Productions

end Script

end RouteScript
