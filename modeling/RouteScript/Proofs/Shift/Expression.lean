import RouteScript.Proofs.Shift.Rules
/-!
# Expressions further on

Every reader of variables and expressions gives the same further on, on its way through and when it
fails.
-/
namespace RouteScript.Script

open Draft

variable {front : List Char} {s : Stream}

/-- What was read, or was taken before the reading failed, further on. -/
def shiftResult {α : Type} (n : Nat) (f : α → α) :
    Except (List Draft) α → Except (List Draft) α
  | .ok a => .ok (f a)
  | .error consumed => .error (consumed.map (shift n))

/-- The same outcome further on. -/
def Outcome.shift (n : Nat) : Outcome → Outcome := shiftResult n (Draft.shift n)

@[simp] theorem Outcome.shift_ok (n : Nat) (d : Draft) :
    Outcome.shift n (.ok d) = .ok (d.shift n) := rfl

@[simp] theorem Outcome.shift_error (n : Nat) (ds : List Draft) :
    Outcome.shift n (.error ds) = .error (ds.map (Draft.shift n)) := rfl

theorem balanced_moves (opening closing : Token.Kind) :
    Moves front (Option.map (List.map (shift (Text.size front)))) (balanced opening closing)
      (balanced opening closing) s := by
  intro hs
  have moved : Moves front _ (collect (Group.step opening closing) ⟨0, false, false⟩)
      (collect (Group.step opening closing) ⟨0, false, false⟩) s :=
    collect_moves (fun _ _ => rfl) _
  obtain ⟨sound, same⟩ := moved hs
  have eval (s : Stream) : balanced opening closing s = if (collect (Group.step opening closing)
      ⟨0, false, false⟩ s).1.1.closed then (some (collect (Group.step opening closing)
      ⟨0, false, false⟩ s).1.2, (collect (Group.step opening closing) ⟨0, false, false⟩ s).2)
      else (none, s) := rfl
  rw [eval, eval, same]
  simp only [Prod.map, id]
  split
  · exact ⟨sound, rfl⟩
  · exact ⟨hs, rfl⟩

theorem index_moves :
    Moves front (Option.map (shift (Text.size front))) index index s := by
  refine .bindGives (balanced_moves _ _) (fun hs => balanced_lossless _ _ s hs solid_nil)
    fun tokens s₁ ⟨_, _, nonempty⟩ => ?_
  cases tokens with
  | none => exact .pure rfl
  | some tokens => exact .bind (node_moves _ rfl (nonempty _ rfl)) fun _ _ => .pure rfl

theorem variableParts_moves (className : Token) (opening closing : Draft) {inner : List Draft}
    (nonempty : inner ≠ []) :
    Moves front (shift (Text.size front)) (variableParts className opening inner closing)
      (variableParts (className.shift (Text.size front)) (opening.shift (Text.size front))
        (inner.map (shift (Text.size front))) (closing.shift (Text.size front))) s := by
  unfold variableParts
  rw [Token.shift_word]
  cases userVariableKind? className.word with
  | some kind =>
    exact .bind (node_moves _ rfl nonempty) fun _ _ => node_moves _ (by simp) (by simp)
  | none =>
    exact .bind (node_moves _ rfl nonempty) fun _ _ => node_moves _ (by simp) (by simp)

theorem pseudoContent_moves :
    Moves front (Outcome.shift (Text.size front)) pseudoContent pseudoContent s := by
  refine .next (fun _ => .pure rfl) fun className s₁ => ?_
  refine .isAdjacent (Token.shift_stop ..) (fun _ _ _ => ?_) ?_
  · refine .bind (balanced_moves _ _) fun group s₂ => ?_
    match group with
    | some (opening :: second :: third :: more) =>
      have last : (((third :: more).map (shift (Text.size front))).getLast?).getD
          (third.shift (Text.size front))
          = (((third :: more).getLast?).getD third).shift (Text.size front) := by
        simp [List.getLast?_cons]
      have read : Moves front (shift (Text.size front)) (variableParts className opening
          (second :: third :: more).dropLast (((third :: more).getLast?).getD third)) _ s₂ :=
        variableParts_moves className opening _ (by simp)
      rw [← last, List.map_dropLast] at read
      refine .bind read fun parts s₃ => .isAdjacent (stop_shift ..) (fun _ _ _ => ?_) ?_
      · refine .bind index_moves fun index s₄ => ?_
        exact .bind (node_moves _ (by cases index <;> rfl) (by simp)) fun _ _ => .pure rfl
      · exact .bind (node_moves _ rfl (by simp)) fun _ _ => .pure rfl
    | none => exact .pure (by simp)
    | some [] => exact .pure (by simp)
    | some [_] => exact .pure (by simp)
    | some [_, _] => exact .pure (by simp)
  · exact .bind (node_moves _ (by simp) (by simp)) fun _ _ => .pure rfl

theorem transformationStep_moves (children : List Draft) :
    Moves front (Sum.map (List.map (shift (Text.size front)))
        (shiftResult (Text.size front) (List.map (shift (Text.size front)))))
      (transformationStep children)
      (transformationStep (children.map (shift (Text.size front)))) s := by
  refine .peekKind (fun _ => .pure rfl) fun t rest _ => ?_
  split
  · refine .bindGives (balanced_moves _ _) (fun hs => balanced_lossless _ _ s hs solid_nil)
      fun group s₁ ⟨_, _, nonempty⟩ => ?_
    cases group with
    | none => exact .pure rfl
    | some tokens =>
      exact .bind (node_moves _ rfl (nonempty _ rfl)) fun _ _ => .pure (by simp)
  · refine .bind index_moves fun n s₁ => ?_
    cases n with
    | none => exact .pure rfl
    | some n => exact .pure (by simp)
  · exact .pure rfl

theorem pvarExpression_moves (dollar : Token) :
    Moves front (Outcome.shift (Text.size front)) (pvarExpression dollar)
      (pvarExpression (dollar.shift (Text.size front))) s := by
  refine .next (fun _ => .pure rfl) fun opening s₁ => ?_
  dsimp only
  rw [leaf_shift]
  refine .isAdjacent (Token.shift_stop ..) (fun _ _ _ => ?_) (.pure rfl)
  refine .bindGives pseudoContent_moves (fun hs => pseudoContent_lossless s₁ hs solid_nil)
    fun out s₂ ⟨_, solid, _⟩ => ?_
  cases out with
  | error consumed => exact .pure rfl
  | ok content =>
    have start : Solid [leaf "$(" false dollar.start opening.stop, content] := by
      rw [solid_cons, solids_leaf (by decide)]
      exact ⟨by simp, solid⟩
    refine .bind (.repeatUntil transformationStep_rounds.advancing
      (fun children s _ => transformationStep_moves children) ⟨trivial, start⟩) fun out s₃ => ?_
    cases out with
    | error consumed => exact .pure rfl
    | ok children =>
      refine .isAt (fun _ _ tokens _ => ?_) (.pure rfl)
      refine .nextLeaf (fun nothing => by simp [tokens] at nothing) fun t s₄ => ?_
      exact .bind (node_moves _ (by simp) (by simp)) fun _ _ => .pure (by simp)

theorem pseudoVariable_moves :
    Moves front (Outcome.shift (Text.size front)) pseudoVariable pseudoVariable s := by
  refine .next (fun _ => .pure rfl) fun dollar s₁ => ?_
  refine .isAdjacent (Token.shift_stop ..) (fun _ _ _ => pvarExpression_moves dollar) ?_
  dsimp only
  rw [leaf_shift]
  refine .isAdjacent (Token.shift_stop ..) (fun _ _ _ => ?_) (.pure rfl)
  refine .bind pseudoContent_moves fun out s₂ => ?_
  cases out with
  | error consumed => exact .pure rfl
  | ok content =>
    exact .bind (node_moves _ rfl (by simp)) fun _ _ => .pure (by simp)

/-- Every reader of a level gives the same further on. -/
structure Level.Moves (front : List Char) (inner : Level) : Prop where
  statement : ∀ {s : Stream} {t : Token} {rest : List Token}, s.tokens = t :: rest →
    Script.Moves front (Draft.shift (Text.size front)) inner.statement inner.statement s
  expression : ∀ s,
    Script.Moves front (Outcome.shift (Text.size front)) inner.expression inner.expression s
  operand : ∀ s, Script.Moves front (Outcome.shift (Text.size front)) inner.operand inner.operand s

section Productions

variable {inner : Level} (lossless : inner.Lossless) (h : inner.Moves front)
include h

theorem argument_moves (children : List Draft) :
    Moves front (Option.map (List.map (shift (Text.size front)))) (argument inner children)
      (argument inner (children.map (shift (Text.size front)))) s := by
  refine .bind (h.expression s) fun out s₁ => ?_
  cases out with
  | ok value => exact .pure (by simp)
  | error consumed =>
    refine .bind (collectWhile_moves fun _ => rfl) fun rest s₂ => .glance fun following => ?_
    rw [← List.map_append, List.isEmpty_map]
    split
    · exact .pure rfl
    · exact .bind (errorNodes_moves rfl) fun _ _ => .pure (by simp)

theorem argumentStep_moves (children : List Draft) :
    Moves front (Sum.map (List.map (shift (Text.size front))) (Outcome.shift (Text.size front)))
      (argumentStep inner children)
      (argumentStep inner (children.map (shift (Text.size front)))) s := by
  refine .bind (argument_moves h children) fun read s₁ => ?_
  cases read with
  | none => exact .pure rfl
  | some children =>
    refine .peekKind (fun _ => .pure rfl) fun t rest tokens => ?_
    split
    · exact .nextLeaf (fun _ => .pure (by simp)) fun _ _ => .pure (by simp)
    · refine .nextLeaf (fun nothing => by simp [tokens] at nothing) fun _ _ => ?_
      exact .bind (node_moves _ (by simp) (by simp)) fun _ _ => .pure rfl
    · exact .pure rfl

include lossless

theorem argumentList_moves :
    Moves front (Outcome.shift (Text.size front)) (argumentList inner) (argumentList inner) s := by
  have loop {opening : List Draft} (solid : Solid opening) (s : Stream) :
      Moves front (Outcome.shift (Text.size front))
        (repeatUntil (argumentStep inner) .error opening)
        (repeatUntil (argumentStep inner) .error (opening.map (shift (Text.size front)))) s :=
    .repeatUntil (argumentStep_rounds lossless).advancing
      (fun children s _ => argumentStep_moves h children) ⟨trivial, solid⟩
  refine .nextLeaf (fun _ => ?_) fun opening s₁ => ?_
  · refine .isAt (fun _ _ tokens _ => ?_) (loop solid_nil _)
    refine .nextLeaf (fun nothing => by simp [tokens] at nothing) fun _ _ => ?_
    exact .bind (node_moves _ (by simp) (by simp)) fun _ _ => .pure rfl
  · refine .isAt (fun _ _ tokens _ => ?_) (@loop [tokenLeaf opening] (by simp) _)
    refine .nextLeaf (fun nothing => by simp [tokens] at nothing) fun _ _ => ?_
    exact .bind (node_moves _ (by simp) (by simp)) fun _ _ => .pure rfl

theorem call_moves (name : Draft) :
    Moves front (Outcome.shift (Text.size front)) (call inner name)
      (call inner (name.shift (Text.size front))) s := by
  refine .bind (argumentList_moves lossless h) fun out s₁ => ?_
  cases out with
  | error consumed => exact .pure (by simp)
  | ok arguments => exact .bind (node_moves _ (by simp) (by simp)) fun _ _ => .pure (by simp)

omit lossless in
theorem parenthesized_moves :
    Moves front (Outcome.shift (Text.size front)) (parenthesized inner) (parenthesized inner)
      s := by
  refine .nextLeaf (fun _ => ?_) fun opening s₁ => ?_
  all_goals
    refine .bind (h.expression _) fun out s₂ => ?_
    cases out with
    | error consumed => exact .pure (by simp)
    | ok value =>
      refine .isAt (fun _ _ tokens _ => ?_) (.pure (by simp))
      refine .nextLeaf (fun nothing => by simp [tokens] at nothing) fun t s₃ => ?_
      exact .bind (node_moves _ (by simp) (by simp)) fun _ _ => .pure rfl

theorem primary_moves :
    Moves front (Outcome.shift (Text.size front)) (primary inner) (primary inner) s := by
  refine .peek (fun _ => .pure rfl) fun t rest _ => ?_
  dsimp only
  rw [Token.shift_kind]
  split
  · refine .bind (parenthesized_moves h) fun out s₁ => ?_
    cases out with
    | ok group => exact .pure (by simp)
    | error consumed => exact .pure rfl
  · exact pseudoVariable_moves
  · exact .next (fun _ => .pure (by simp)) fun _ _ => .pure (by simp)
  · exact .next (fun _ => .pure (by simp)) fun _ _ => .pure (by simp)
  · rw [← shift_tokenLeaf]
    refine .next (fun _ => ?_) fun _ _ => ?_
    all_goals exact .isAt (fun _ _ _ _ => call_moves lossless h _) (.pure (by simp))
  · exact .pure rfl

theorem unary_moves :
    Moves front (Outcome.shift (Text.size front)) (unary inner) (unary inner) s := by
  refine .peek (fun _ => .pure rfl) fun t rest _ => .peekSecondKind fun following => ?_
  have operator : (if (t.shift (Text.size front)).kind == .identifier
        then keywordLeaf (t.shift (Text.size front)) else tokenLeaf (t.shift (Text.size front)))
      = (if t.kind == .identifier then keywordLeaf t else tokenLeaf t).shift (Text.size front) := by
    rw [Token.shift_kind]
    split <;> simp
  rw [operator, show isUnaryOperator (t.shift (Text.size front)) following
    = isUnaryOperator t following from rfl]
  split
  · refine .next (fun _ => ?_) fun _ _ => ?_
    all_goals
      refine .bind (h.operand _) fun out s₂ => ?_
      cases out with
      | ok value => exact .bind (node_moves _ (by simp) (by simp)) fun _ _ => .pure (by simp)
      | error consumed => exact .pure (by simp)
  · exact primary_moves lossless h

section Operators

omit lossless h

variable {operand : Reader Outcome} (accounts : ∀ s, Lossless s [] operand Outcome.held)
  (moves : ∀ s, Moves front (Outcome.shift (Text.size front)) operand operand s)
include moves

theorem chainStep_moves (precedence : Nat) (left : Draft) :
    Moves front (Sum.map (shift (Text.size front)) (Outcome.shift (Text.size front)))
      (chainStep operand precedence left)
      (chainStep operand precedence (left.shift (Text.size front))) s := by
  refine .peek (fun _ => .pure rfl) fun t rest _ => ?_
  dsimp only
  rw [Token.shift_kind]
  split
  · exact .pure rfl
  · refine .next (fun _ => ?_) fun _ _ => ?_
    all_goals
      refine .bind (moves _) fun out s₂ => ?_
      cases out with
      | ok right => exact .bind (node_moves _ (by simp) (by simp)) fun _ _ => .pure (by simp)
      | error consumed => exact .pure (by simp)

include accounts

theorem chain_moves (levels : Nat) (s : Stream) :
    Moves front (Outcome.shift (Text.size front)) (chain operand levels) (chain operand levels)
      s := by
  induction levels generalizing s with
  | zero => exact moves s
  | succ levels ih =>
    have inner := chain_lossless accounts levels
    refine .bindGives (ih s) (fun hs => inner s hs solid_nil) fun out s₁ ⟨_, solid, _⟩ => ?_
    cases out with
    | error consumed => exact .pure rfl
    | ok left =>
      exact .repeatUntil (chainStep_rounds inner _).advancing
        (fun left s _ => chainStep_moves ih _ left) ⟨trivial, solid⟩

end Operators

theorem binary_moves :
    Moves front (Outcome.shift (Text.size front)) (binary inner) (binary inner) s :=
  chain_moves (unary_lossless lossless) (fun _ => unary_moves lossless h) _ s

theorem assignment_moves :
    Moves front (Outcome.shift (Text.size front)) (assignment inner) (assignment inner) s := by
  refine .bind (binary_moves lossless h) fun out s₁ => ?_
  cases out with
  | error consumed => exact .pure rfl
  | ok left =>
    refine .isAt (fun _ _ _ _ => ?_) (.pure rfl)
    refine .nextLeaf (fun _ => ?_) fun sign s₂ => ?_
    all_goals
      refine .bind (h.expression _) fun out s₃ => ?_
      cases out with
      | ok right => exact .bind (node_moves _ (by simp) (by simp)) fun _ _ => .pure (by simp)
      | error consumed =>
        refine .bind (errorNodes_moves rfl) fun right s₄ => ?_
        exact .bind (node_moves _ (by simp) (by simp)) fun _ _ => .pure (by simp)

end Productions

end RouteScript.Script
