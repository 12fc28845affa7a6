import RouteScript.Proofs.Braces.Rules
import RouteScript.Script.Expression
/-!
# Expressions check

No brace is left in an expression that was read, but below its variables. What was taken before a
reading failed may hold any brace: it ends in an error node.
-/
namespace RouteScript.Script

open Draft

variable {source : List Char}

/-- An expression that was read is checked. -/
def Outcome.Checked (source : List Char) (out : Outcome) : Prop :=
  ∀ d, out = .ok d → d.Checked source

@[simp] theorem Outcome.checked_ok (d : Draft) :
    Outcome.Checked source (.ok d) ↔ d.Checked source := by simp [Outcome.Checked]

@[simp] theorem Outcome.checked_error (ds : List Draft) : Outcome.Checked source (.error ds) := by
  simp [Outcome.Checked]

/-- What was read below a variable has no blocks. -/
def Outcome.Flat (out : Outcome) : Prop := ∀ d, out = .ok d → d.Flat

@[simp] theorem Outcome.flat_ok (d : Draft) : Outcome.Flat (.ok d) ↔ d.Flat := by
  simp [Outcome.Flat]

@[simp] theorem Outcome.flat_error (ds : List Draft) : Outcome.Flat (.error ds) := by
  simp [Outcome.Flat]

theorem balanced_flat (opening closing : Token.Kind) (s : Stream) :
    Checks source s (balanced opening closing) fun r => ∀ ts, r = some ts → ∀ d ∈ ts, d.Flat := by
  intro hs here
  obtain ⟨passes, flat⟩ :=
    Checks.collectFlat (Group.step opening closing) ⟨0, false, false⟩ hs here
  have eval : balanced opening closing s = if (collect (Group.step opening closing)
      ⟨0, false, false⟩ s).1.1.closed then (some (collect (Group.step opening closing)
      ⟨0, false, false⟩ s).1.2, (collect (Group.step opening closing) ⟨0, false, false⟩ s).2)
      else (none, s) := rfl
  unfold Gives
  rw [eval]
  split
  · exact ⟨passes, fun ts eq => Option.some.inj eq ▸ flat⟩
  · exact ⟨hs.refl, fun ts eq => by contradiction⟩

theorem index_flat (s : Stream) :
    Checks source s index fun r => ∀ d ∈ r.toList, d.Flat := by
  refine .bind (balanced_flat _ _ s) fun tokens s₁ flat => ?_
  cases tokens with
  | none => exact .pure (by simp)
  | some tokens =>
    refine .bind (.flatNode (by decide) (flat tokens rfl)) fun d s₂ flat => .pure ?_
    simpa using flat

theorem variableParts_flat (className : Token) {opening closing : Draft} {inner : List Draft}
    (flat : opening.Flat ∧ closing.Flat ∧ ∀ d ∈ inner, d.Flat) (s : Stream) :
    Checks source s (variableParts className opening inner closing) Flat := by
  obtain ⟨first, last, inside⟩ := flat
  unfold variableParts
  split
  · rename_i kind known
    have plain : kind ∉ blockKinds := by
      unfold userVariableKind? at known
      repeat' split at known
      all_goals cases known
      all_goals decide
    refine .bind (.flatNode (by decide) inside) fun name s₁ flat => .flatNode plain ?_
    simpa using ⟨flat_keywordLeaf className, first, flat.withField _, last⟩
  · refine .bind (.flatNode (by decide) inside) fun argument s₁ flat => .flatNode (by decide) ?_
    simpa using ⟨(flat_tokenLeaf className).withField _, first, flat.withField _, last⟩

theorem pseudoContent_flat (s : Stream) : Checks source s pseudoContent Outcome.Flat := by
  refine .next (.pure (by simp)) fun className rest s₁ _ _ _ => .isAdjacent fun follows => ?_
  have alone := flat_tokenLeaf className
  cases follows with
  | false =>
    exact .bind (.flatNode (by decide) (by simpa using alone)) fun d s₂ flat =>
      .pure (by simpa using flat)
  | true =>
    refine .bind (balanced_flat _ _ s₁) fun group s₂ flat => ?_
    split
    · rename_i opening second third more
      have inside := flat _ rfl
      have parts : opening.Flat ∧ (((third :: more).getLast?).getD third).Flat ∧
          ∀ d ∈ (second :: third :: more).dropLast, d.Flat := by
        refine ⟨inside opening (by simp), ?_, fun d hd => ?_⟩
        · rw [List.getLast?_eq_some_getLast (List.cons_ne_nil third more), Option.getD_some]
          have last := List.getLast_mem (List.cons_ne_nil third more)
          exact inside _ (List.mem_cons_of_mem _ (List.mem_cons_of_mem _ last))
        · exact inside d (List.mem_cons_of_mem _ ((List.dropLast_sublist _).subset hd))
      refine .bind (variableParts_flat className parts s₂) fun parts s₃ flat =>
        .isAdjacent fun indexed => ?_
      cases indexed with
      | false =>
        exact .bind (.flatNode (by decide) (by simpa using flat)) fun d s₄ flat =>
          .pure (by simpa using flat)
      | true =>
        refine .bind (index_flat s₃) fun index s₄ below => ?_
        exact .bind (.flatNode (by decide) (List.forall_mem_cons.2 ⟨flat, below⟩)) fun d s₅ flat =>
          .pure (by simpa using flat)
    · exact .pure (by simp)

theorem transformationStep_flat (children : List Draft) (s : Stream)
    (h : ∀ d ∈ children, d.Flat) : Checks source s (transformationStep children)
      (Sum.elim (fun ds => ∀ d ∈ ds, d.Flat) fun r => ∀ ds, r = .ok ds → ∀ d ∈ ds, d.Flat) := by
  have read : ∀ ds, (Except.ok children : Except (List Draft) _) = .ok ds → ∀ d ∈ ds, d.Flat :=
    fun ds eq => Except.ok.inj eq ▸ h
  have failed : ∀ ds, (Except.error children : Except _ (List Draft)) = .ok ds →
      ∀ d ∈ ds, d.Flat := fun ds eq => by contradiction
  have further {d : Draft} (flat : d.Flat) : ∀ c ∈ children ++ [d], c.Flat :=
    List.forall_mem_append.2 ⟨h, by simpa using flat⟩
  refine .peekKind (.pure read) fun t rest _ => ?_
  split
  · refine .bind (balanced_flat _ _ s) fun group s₁ flat => ?_
    cases group with
    | none => exact .pure failed
    | some tokens =>
      exact .bind (.flatNode (by decide) (flat tokens rfl)) fun d s₂ flat => .pure (further flat)
  · refine .bind (index_flat s) fun n s₁ flat => ?_
    cases n with
    | none => exact .pure failed
    | some n => exact .pure (further (flat n (by simp)))
  · exact .pure read

theorem pvarExpression_checks (dollar : Token) (s : Stream) :
    Checks source s (pvarExpression dollar) (Outcome.Checked source) := by
  refine .next (.pure (by simp)) fun opening rest s₁ _ _ _ => .isAdjacent fun named => ?_
  cases named with
  | false => exact .pure (by simp)
  | true =>
    refine .bind (pseudoContent_flat s₁) fun out s₂ flat => ?_
    cases out with
    | error consumed => exact .pure (by simp)
    | ok content =>
      have start : (Draft.leaf "$(" false dollar.start opening.stop).Flat :=
        flat_leaf (by decide) _ _ _
      refine .bind (.repeatUntil (fun ds s => transformationStep_flat ds s)
        (fun ds _ => ?_) ?_) fun out s₃ flat => ?_
      · simp
      · simpa using ⟨start, flat content rfl⟩
      cases out with
      | error consumed => exact .pure (by simp)
      | ok children =>
        refine .isAt (fun _ _ _ _ => ?_) (.pure (by simp))
        refine .nextAs (.bind (.sealedNode (by simp) ?_) fun d s₄ checked => .pure ?_)
          fun t rest s₄ _ _ _ => .bind (.sealedNode (by simp) ?_) fun d s₅ checked => .pure ?_
        · simpa using flat children rfl
        · simpa using checked.wrap
        · exact List.forall_mem_append.2 ⟨flat children rfl, by simpa using flat_tokenLeaf t⟩
        · simpa using checked.wrap

theorem pseudoVariable_checks (s : Stream) :
    Checks source s pseudoVariable (Outcome.Checked source) := by
  refine .next (.pure (by simp)) fun dollar rest s₁ _ _ _ => .isAdjacent fun grouped => ?_
  cases grouped with
  | true => exact pvarExpression_checks dollar s₁
  | false =>
    refine .isAdjacent fun named => ?_
    cases named with
    | false => exact .pure (by simp)
    | true =>
      refine .bind (pseudoContent_flat s₁) fun out s₂ flat => ?_
      cases out with
      | error consumed => exact .pure (by simp)
      | ok content =>
        have sign : (Draft.leaf "$" false dollar.start dollar.stop).Flat :=
          flat_leaf (by decide) _ _ _
        refine .bind (.sealedNode (by simp) ?_) fun d s₃ checked => .pure ?_
        · simpa using ⟨sign, flat content rfl⟩
        · simpa using checked.wrap

/-- Every reader of a level checks. -/
structure Level.Checks (source : List Char) (inner : Level) : Prop where
  statement : ∀ s, Script.Checks source s inner.statement (Checked source)
  expression : ∀ s, Script.Checks source s inner.expression (Outcome.Checked source)
  operand : ∀ s, Script.Checks source s inner.operand (Outcome.Checked source)

section Productions

variable {inner : Level} (h : inner.Checks source)
include h

theorem argument_checks {children : List Draft} (given : AllChecked source children) (s : Stream) :
    Checks source s (argument inner children) fun o => ∀ ds, o = some ds → AllChecked source ds := by
  refine .bind (h.expression s) fun out s₁ checked => ?_
  cases out with
  | ok value => exact .pure (by simpa using ⟨given, checked value rfl⟩)
  | error consumed =>
    refine .bind (.collectWhileAny _) fun rest s₂ _ => ?_
    have read (following : Option Token.Kind) : Checks source s₂
        (if (consumed ++ rest).isEmpty && following != some .comma && following != some .rParen
          then pure none
          else do
            let garbage ← errorNodes (consumed ++ rest)
            pure (some (children ++ garbage)))
        fun o => ∀ ds, o = some ds → AllChecked source ds := by
      split
      · exact .pure (by simp)
      · exact .bind (.errorNodes _) fun garbage s₃ checked =>
          .pure (by simpa using ⟨given, checked⟩)
    exact .peekKind (read none) fun t _ _ => read (some t.kind)

theorem argumentStep_checks (children : List Draft) (s : Stream)
    (given : AllChecked source children) : Checks source s (argumentStep inner children)
      (Sum.elim (AllChecked source) (Outcome.Checked source)) := by
  refine .bind (argument_checks h given s) fun o s₁ checked => ?_
  cases o with
  | none => exact .pure (by simp)
  | some children =>
    have checked : AllChecked source children := checked children rfl
    refine .peekKind (.pure (by simp)) fun t rest tokens => ?_
    split
    · rename_i comma
      have comma : t.kind = .comma := Option.some.inj comma
      refine .bind (.nextLeaf (Stream.isPlain_of_kind tokens comma (by decide)))
        fun leaf s₂ plain => .pure ?_
      simpa using ⟨checked, plain⟩
    · rename_i closing
      have closing : t.kind = .rParen := Option.some.inj closing
      refine .bind (.nextLeaf (Stream.isPlain_of_kind tokens closing (by decide)))
        fun leaf s₂ plain => .bind (.node (by decide) ?_) fun d s₃ checked => .pure ?_
      · simpa using ⟨checked, plain⟩
      · simpa using checked
    · exact .pure (by simp)

theorem argumentList_checks {s : Stream} (plain : s.IsPlain) :
    Checks source s (argumentList inner) (Outcome.Checked source) := by
  refine .bind (.nextLeaf plain) fun opening s₁ checked => ?_
  refine .isAt (fun t rest tokens closing => ?_) ?_
  · refine .bind (.nextLeaf (Stream.isPlain_of_kind tokens closing (by decide)))
      fun leaf s₂ plain => .bind (.node (by decide) ?_) fun d s₃ checked => .pure ?_
    · simpa using ⟨checked, plain⟩
    · simpa using checked
  · exact .repeatUntil (argumentStep_checks h) (by simp) checked

theorem call_checks {name : Draft} (checked : name.Checked source) {s : Stream}
    (plain : s.IsPlain) : Checks source s (call inner name) (Outcome.Checked source) := by
  refine .bind (argumentList_checks h plain) fun out s₁ read => ?_
  cases out with
  | error consumed => exact .pure (by simp)
  | ok arguments =>
    refine .bind (.node (by decide) ?_) fun d s₂ checked => .pure (by simpa using checked.wrap)
    simpa using ⟨checked.wrap.withField _, (read arguments rfl).withField _⟩

theorem parenthesized_checks {s : Stream} (plain : s.IsPlain) :
    Checks source s (parenthesized inner) (Outcome.Checked source) := by
  refine .bind (.nextLeaf plain) fun opening s₁ first => ?_
  refine .bind (h.expression s₁) fun out s₂ checked => ?_
  cases out with
  | error consumed => exact .pure (by simp)
  | ok value =>
    refine .isAt (fun t rest tokens closing => ?_) (.pure (by simp))
    refine .bind (.nextLeaf (Stream.isPlain_of_kind tokens closing (by decide)))
      fun leaf s₃ last => .bind (.node (by decide) ?_) fun d s₄ checked => .pure ?_
    · simpa using ⟨first, checked value rfl, last⟩
    · simpa using checked

theorem primary_checks (s : Stream) :
    Checks source s (primary inner) (Outcome.Checked source) := by
  refine .peek (.pure (by simp)) fun t rest tokens => ?_
  dsimp only
  split
  · rename_i opening
    refine .bind (parenthesized_checks h (Stream.isPlain_of_kind tokens opening (by decide)))
      fun out s₁ checked => ?_
    cases out with
    | ok group => exact .pure (by simpa using (checked group rfl).wrap)
    | error consumed => exact .pure (by simp)
  · exact pseudoVariable_checks s
  · rename_i word
    refine .take tokens fun s₁ _ there => .pure ?_
    simpa using (checked_tokenLeaf there (by simp [Token.IsPlain, word])).wrap
  · rename_i number
    refine .take tokens fun s₁ _ there => .pure ?_
    simpa using (checked_tokenLeaf there (by simp [Token.IsPlain, number])).wrap
  · rename_i word
    refine .take tokens fun s₁ _ there => ?_
    have leaf := checked_tokenLeaf there (by simp [Token.IsPlain, word])
    refine .isAt (fun _ _ tokens opening => ?_) (.pure (by simpa using leaf.wrap))
    exact call_checks h leaf (Stream.isPlain_of_kind tokens opening (by decide))
  · exact .pure (by simp)

theorem unary_checks (s : Stream) : Checks source s (unary inner) (Outcome.Checked source) := by
  refine .peek (.pure (by simp)) fun t rest tokens => .peekSecondKind ?_
  split
  · rename_i operator
    have plain : t.IsPlain := by
      constructor <;> intro brace <;> simp [isUnaryOperator, brace] at operator
    refine .take tokens fun s₁ _ there => .bind (h.operand s₁) fun out s₂ checked => ?_
    cases out with
    | error consumed => exact .pure (by simp)
    | ok value =>
      refine .bind (.node (by decide) ?_) fun d s₃ checked => .pure (by simpa using checked.wrap)
      have leaf : Draft.Checked source
          (if t.kind == .identifier then keywordLeaf t else tokenLeaf t) := by
        split
        · exact checked_keywordLeaf there plain
        · exact checked_tokenLeaf there plain
      refine (allChecked_cons _ _).2 ⟨leaf.withField _, ?_⟩
      simpa using (checked value rfl).withField _
  · exact primary_checks h s

omit h in
theorem chainStep_checks {operand : Reader Outcome}
    (h : ∀ s, Checks source s operand (Outcome.Checked source)) (precedence : Nat) (left : Draft)
    (s : Stream) (checked : left.Checked source) : Checks source s (chainStep operand precedence left)
      (Sum.elim (Draft.Checked source) (Outcome.Checked source)) := by
  refine .peek (.pure (by simpa using checked)) fun t rest tokens => ?_
  dsimp only
  split
  · exact .pure (by simpa using checked)
  · rename_i same
    have plain : t.IsPlain := by
      constructor <;> intro brace <;> simp [brace, precedence?] at same
    refine .take tokens fun s₁ _ there => .bind (h s₁) fun out s₂ right => ?_
    cases out with
    | error consumed => exact .pure (by simp)
    | ok value =>
      refine .bind (.node (by decide) ?_) fun d s₃ checked => .pure checked.wrap
      simpa using ⟨checked.withField _, (checked_tokenLeaf there plain).withField _,
        (right value rfl).withField _⟩

omit h in
theorem chain_checks {operand : Reader Outcome}
    (h : ∀ s, Checks source s operand (Outcome.Checked source)) (levels : Nat) (s : Stream) :
    Checks source s (chain operand levels) (Outcome.Checked source) := by
  induction levels generalizing s with
  | zero => exact h s
  | succ levels ih =>
    refine .bind (ih s) fun out s₁ checked => ?_
    cases out with
    | error consumed => exact .pure (by simp)
    | ok left =>
      exact .repeatUntil (chainStep_checks ih _) (fun d checked => by simpa using checked)
        (checked left rfl)

theorem binary_checks (s : Stream) : Checks source s (binary inner) (Outcome.Checked source) :=
  chain_checks (unary_checks h) _ s

theorem assignment_checks (s : Stream) :
    Checks source s (assignment inner) (Outcome.Checked source) := by
  refine .bind (binary_checks h s) fun out s₁ checked => ?_
  cases out with
  | error consumed => exact .pure (by simp)
  | ok left =>
    have checked : left.Checked source := checked left rfl
    refine .isAt (fun t rest tokens sign => ?_) (.pure (by simpa using checked))
    refine .bind (.nextLeaf (Stream.isPlain_of_kind tokens sign (by decide)))
      fun leaf s₂ plain => .bind (h.expression s₂) fun out s₃ right => ?_
    cases out with
    | ok value =>
      refine .bind (.node (by decide) ?_) fun d s₄ checked => .pure (by simpa using checked.wrap)
      simpa using ⟨checked.unwrap.withField _, plain, (right value rfl).withField _⟩
    | error consumed =>
      refine .bind (.errorNodes consumed) fun garbage s₄ right => ?_
      refine .bind (.node (by decide) ?_) fun d s₅ checked => .pure (by simpa using checked.wrap)
      simpa using ⟨checked.unwrap.withField _, plain, right.withField _⟩

end Productions

end RouteScript.Script
