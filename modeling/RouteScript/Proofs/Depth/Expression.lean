import RouteScript.Proofs.Depth.Basic
import RouteScript.Proofs.Errors.Expression
/-!
# How deep expressions go

What stands inside an expression was read one nesting deeper, and but for the left operands of
binary operators a fixed number of nodes lies around it.
-/
namespace RouteScript.Script

open Draft

variable {source : List Char} {n h : Nat}

theorem balanced_leaves (opening closing : Token.Kind) (s : Stream) :
    Checks source s (balanced opening closing) fun r => ∀ ts, r = some ts → AreLeaves ts := by
  intro hs here
  obtain ⟨passes, leaves⟩ :=
    Checks.collectLeaves (Group.step opening closing) ⟨0, false, false⟩ hs here
  unfold Gives
  rw [balanced_eq]
  split
  · exact ⟨passes, fun ts eq => Option.some.inj eq ▸ leaves⟩
  · exact ⟨hs.refl, fun ts eq => by contradiction⟩

theorem index_low (s : Stream) :
    Checks source s index fun r => AllLow 0 3 r.toList := by
  refine .bind (balanced_leaves _ _ s) fun tokens s₁ leaves => ?_
  cases tokens with
  | none => exact .pure allLow_nil
  | some tokens =>
    exact .bind (.lowNode (by decide) (leaves tokens rfl 0 1)) fun d s₂ low =>
      .pure (by simpa using low)

theorem variableParts_low (className : Token) {opening closing : Draft} {inner : List Draft}
    (leaves : AreLeaves (opening :: closing :: inner)) (s : Stream) :
    Checks source s (variableParts className opening inner closing) (Low 0 3) := by
  have inside : AllLow 0 1 inner := fun d hd => leaves 0 0 d (by simp [hd])
  have parens : opening.Low 0 2 ∧ closing.Low 0 2 :=
    ⟨leaves 0 1 _ (by simp), leaves 0 1 _ (by simp)⟩
  unfold variableParts
  split
  · rename_i kind class_known
    have plain : kind ∉ Kind.assignment :: nestingKinds := by
      unfold userVariableKind? at class_known
      repeat' split at class_known
      all_goals cases class_known
      all_goals decide
    refine .bind (.lowNode (by decide) inside) fun name s₁ low => .lowNode plain ?_
    simpa using ⟨low_keywordLeaf className, parens.1, low.withField _, parens.2⟩
  · refine .bind (.lowNode (by decide) inside) fun argument s₁ low => .lowNode (by decide) ?_
    simpa using ⟨(low_tokenLeaf className).withField _, parens.1, low.withField _, parens.2⟩

theorem pseudoContent_low (s : Stream) :
    Checks source s pseudoContent (Outcome.Low 0 4) := by
  refine .next (.pure allLow_nil) fun className rest s₁ _ _ _ => .isAdjacent fun grouped => ?_
  cases grouped with
  | false =>
    exact .bind (.lowNode (by decide) (by simpa using low_tokenLeaf className)) fun d s₂ low =>
      .pure low
  | true =>
    refine .bind (balanced_leaves _ _ s₁) fun group s₂ leaves => ?_
    split
    · rename_i opening second third more
      have leaves := leaves _ rfl
      have within : AreLeaves (opening :: ((third :: more).getLast?).getD third ::
          (second :: third :: more).dropLast) := by
        intro n h d hd
        refine leaves _ _ d ?_
        rcases List.mem_cons.1 hd with rfl | hd
        · simp
        rcases List.mem_cons.1 hd with rfl | hd
        · have last := List.getLast_mem (List.cons_ne_nil third more)
          rw [List.getLast?_eq_some_getLast (List.cons_ne_nil third more), Option.getD_some]
          exact List.mem_cons_of_mem _ (List.mem_cons_of_mem _ last)
        · exact List.mem_cons_of_mem _ ((List.dropLast_sublist _).subset hd)
      refine .bind (variableParts_low className within s₂) fun parts s₃ low =>
        .isAdjacent fun indexed => ?_
      cases indexed with
      | false =>
        exact .bind (.lowNode (by decide) (by simpa using low)) fun d s₄ low => .pure low
      | true =>
        refine .bind (index_low s₃) fun index s₄ below => ?_
        exact .bind (.lowNode (by decide) (allLow_cons.2 ⟨low, below⟩)) fun d s₅ low => .pure low
    · refine .pure (allLow_cons.2 ⟨low_tokenLeaf className, ?_⟩)
      cases group with
      | none => exact allLow_nil
      | some ts => exact leaves ts rfl _ _

/-- Parts of a variable that were read, whether or not more was expected. -/
def PartsLow (n h : Nat) : Except (List Draft) (List Draft) → Prop
  | .ok parts | .error parts => AllLow n h parts

theorem transformationStep_low (children : List Draft) (s : Stream)
    (low : AllLow 0 4 children) : Checks source s (transformationStep children)
      (Sum.elim (AllLow 0 4) (PartsLow 0 4)) := by
  have further {d : Draft} (part : d.Low 0 4) : AllLow 0 4 (children ++ [d]) := by
    simpa using ⟨low, part⟩
  refine .peekKind (.pure low) fun t rest _ => ?_
  split
  · refine .bind (balanced_leaves _ _ s) fun group s₁ leaves => ?_
    cases group with
    | none => exact .pure low
    | some tokens =>
      exact .bind (.lowNode (by decide) (leaves tokens rfl 0 2)) fun d s₂ part =>
        .pure (further part)
  · refine .bind (index_low s) fun n s₁ part => ?_
    cases n with
    | none => exact .pure low
    | some n =>
      exact .pure (further ((part n (by simp)).mono (Nat.le_refl 0) (by omega)))
  · exact .pure low

theorem pvarExpression_low (dollar : Token) (s : Stream) :
    Checks source s (pvarExpression dollar) (Outcome.Low 0 6) := by
  have start (opening : Token) :
      (Draft.leaf "$(" false dollar.start opening.stop).Low 0 4 :=
    low_leaf (by decide) _ _ _
  have failed {ds : List Draft} (low : AllLow 0 4 ds) : AllLow 0 6 ds :=
    low.mono (Nat.le_refl 0) (by omega)
  refine .next (.pure allLow_nil) fun opening rest s₁ _ _ _ => .isAdjacent fun named => ?_
  cases named with
  | false => exact .pure (failed (by simpa using start opening))
  | true =>
    refine .bind (pseudoContent_low s₁) fun out s₂ read => ?_
    cases out with
    | error consumed => exact .pure (failed (allLow_cons.2 ⟨start opening, read⟩))
    | ok content =>
      have parts : AllLow 0 4 [Draft.leaf "$(" false dollar.start opening.stop, content] := by
        simpa using ⟨start opening, read⟩
      refine .bind (.repeatUntil transformationStep_low (fun _ low => by exact low) parts)
        fun out s₃ read => ?_
      cases out with
      | error consumed => exact .pure (failed read)
      | ok children =>
        have read : AllLow 0 4 children := read
        refine .isAt (fun t rest tokens closes => ?_) (.pure (failed read))
        refine .bind .leaves fun leaf s₄ last => ?_
        exact .bind (.lowNode (by decide) (allLow_append.2 ⟨read, last _ _⟩)) fun d s₅ low =>
          .pure low.wrap

theorem pseudoVariable_low (s : Stream) :
    Checks source s pseudoVariable (Outcome.Low 0 6) := by
  refine .next (.pure allLow_nil) fun dollar rest s₁ _ _ _ => .isAdjacent fun grouped => ?_
  cases grouped with
  | true => exact pvarExpression_low dollar s₁
  | false =>
    have sign : (Draft.leaf "$" false dollar.start dollar.stop).Low 0 4 :=
      low_leaf (by decide) _ _ _
    have failed {ds : List Draft} (low : AllLow 0 4 ds) : AllLow 0 6 ds :=
      low.mono (Nat.le_refl 0) (by omega)
    refine .isAdjacent fun named => ?_
    cases named with
    | false => exact .pure (failed (by simpa using sign))
    | true =>
      refine .bind (pseudoContent_low s₁) fun out s₂ read => ?_
      cases out with
      | error consumed => exact .pure (failed (allLow_cons.2 ⟨sign, read⟩))
      | ok content =>
        have parts : AllLow 0 4 [Draft.leaf "$" false dollar.start dollar.stop, content] := by
          simpa using ⟨sign, read⟩
        exact .bind (.lowNode (by decide) parts) fun d s₃ low => .pure low.wrap

/-- The readers of a level give low drafts. -/
structure Level.Low (source : List Char) (n h : Nat) (inner : Level) : Prop where
  expression : ∀ s, Script.Checks source s inner.expression (Outcome.Low n (h + 1))
  operand : ∀ s, Script.Checks source s inner.operand (Outcome.Low n (h + 1))
  statement : ∀ s, Script.Checks source s inner.statement (Draft.Low (n + 1) (h + 3))

section Productions

variable {inner : Level} (low : inner.Low source n h)
include low

theorem argument_low {children : List Draft} (given : AllLow n (h + 2) children) (s : Stream) :
    Checks source s (argument inner children) fun o => ∀ ds, o = some ds → AllLow n (h + 2) ds := by
  refine .bind (low.expression s) fun out s₁ read => ?_
  cases out with
  | ok value =>
    have value : value.Low n (h + 1) := read
    exact .pure (by simpa using ⟨given, value.mono (Nat.le_refl n) (by omega)⟩)
  | error consumed =>
    have read : AllLow n (h + 1) consumed := read
    refine .bind (.collectLeavesWhile _) fun rest s₂ skipped => ?_
    have finish (following : Option Token.Kind) : Checks source s₂
        (if (consumed ++ rest).isEmpty && following != some .comma && following != some .rParen
          then pure none
          else do
            let garbage ← errorNodes (consumed ++ rest)
            pure (some (children ++ garbage)))
        fun o => ∀ ds, o = some ds → AllLow n (h + 2) ds := by
      split
      · exact .pure (by simp)
      · exact .bind (.lowErrors (allLow_append.2 ⟨read, skipped _ _⟩)) fun garbage s₃ garbage =>
          .pure (by simpa using ⟨given, garbage⟩)
    exact .peekKind (finish none) fun t _ _ => finish (some t.kind)

theorem argumentStep_low (children : List Draft) (s : Stream) (given : AllLow n (h + 2) children) :
    Checks source s (argumentStep inner children)
      (Sum.elim (AllLow n (h + 2)) (Outcome.Low (n + 1) (h + 3))) := by
  have failed {ds : List Draft} (given : AllLow n (h + 2) ds) : AllLow (n + 1) (h + 3) ds :=
    given.mono (by omega) (by omega)
  refine .bind (argument_low low given s) fun o s₁ read => ?_
  cases o with
  | none => exact .pure (failed given)
  | some children =>
    have read : AllLow n (h + 2) children := read children rfl
    refine .peekKind (.pure (failed read)) fun t rest tokens => ?_
    split
    · exact .bind .leaves fun leaf s₂ comma => .pure (allLow_append.2 ⟨read, comma _ _⟩)
    · refine .bind .leaves fun leaf s₂ closing => ?_
      exact .bind (.nestingNode (allLow_append.2 ⟨read, closing _ _⟩)) fun d s₃ list => .pure list
    · exact .pure (failed read)

theorem argumentList_low (s : Stream) :
    Checks source s (argumentList inner) (Outcome.Low (n + 1) (h + 3)) := by
  refine .bind .leaves fun opening s₁ first => ?_
  refine .isAt (fun t rest tokens closing => ?_) ?_
  · refine .bind .leaves fun leaf s₂ last => ?_
    exact .bind (.nestingNode (allLow_append.2 ⟨first _ _, last _ _⟩)) fun d s₃ list => .pure list
  · have ended (children : List Draft) (given : AllLow n (h + 2) children) :
        Outcome.Low (n + 1) (h + 3) (.error children) := given.mono (by omega) (by omega)
    exact .repeatUntil (argumentStep_low low) ended (first _ _)

theorem call_low (name : Token) (s : Stream) :
    Checks source s (call inner (tokenLeaf name)) (Outcome.Low (n + 1) (h + 5)) := by
  have function : ((wrap (tokenLeaf name)).withField Field.function).Low (n + 1) (h + 3) :=
    (low_tokenLeaf name).wrap.withField _
  refine .bind (argumentList_low low s) fun out s₁ read => ?_
  cases out with
  | error consumed =>
    have read : AllLow (n + 1) (h + 3) consumed := read
    exact .pure (AllLow.mono (allLow_cons.2 ⟨function, read⟩) (Nat.le_refl _) (by omega))
  | ok arguments =>
    have read : arguments.Low (n + 1) (h + 3) := read
    refine .bind (.lowNode (by decide) ?_) fun d s₂ call => .pure call.wrap
    simpa using ⟨function, read.withField _⟩

theorem parenthesized_low (s : Stream) :
    Checks source s (parenthesized inner) (Outcome.Low (n + 1) (h + 2)) := by
  refine .bind .leaves fun opening s₁ first => ?_
  refine .bind (low.expression s₁) fun out s₂ read => ?_
  cases out with
  | error consumed =>
    exact .pure (AllLow.mono (allLow_append.2 ⟨first n h, read⟩) (by omega) (by omega))
  | ok value =>
    have inside : AllLow n (h + 1) (opening ++ [value]) := by simpa using ⟨first n h, read⟩
    refine .isAt (fun t rest tokens closing => ?_) (.pure (inside.mono (by omega) (by omega)))
    refine .bind .leaves fun leaf s₃ last => ?_
    exact .bind (.nestingNode (allLow_append.2 ⟨inside, last _ _⟩)) fun d s₄ group => .pure group

theorem primary_low (s : Stream) :
    Checks source s (primary inner) (Outcome.Low (n + 1) (h + 6)) := by
  refine .peek (.pure allLow_nil) fun t rest tokens => ?_
  have leaf : (wrap (tokenLeaf t)).Low (n + 1) (h + 6) := (low_tokenLeaf t).wrap
  dsimp only
  split
  · refine .bind (parenthesized_low low s) fun out s₁ read => ?_
    cases out with
    | ok group =>
      have read : group.Low (n + 1) (h + 2) := read
      exact .pure (read.wrap.mono (Nat.le_refl _) (by omega))
    | error consumed => exact .pure (AllLow.mono read (Nat.le_refl _) (by omega))
  · exact (pseudoVariable_low s).mono fun out read => read.mono (Nat.zero_le _) (by omega)
  · exact .take tokens fun s₁ _ _ => .pure leaf
  · exact .take tokens fun s₁ _ _ => .pure leaf
  · refine .take tokens fun s₁ _ _ => .isAt (fun _ _ _ _ => ?_) (.pure leaf)
    exact (call_low low t s₁).mono fun out read => read.mono (Nat.le_refl _) (by omega)
  · exact .pure allLow_nil

theorem unary_low (s : Stream) : Checks source s (unary inner) (Outcome.Low (n + 1) (h + 6)) := by
  refine .peek (.pure allLow_nil) fun t rest tokens => .peekSecondKind ?_
  split
  · have operator :
        (if t.kind == .identifier then keywordLeaf t else tokenLeaf t).Low n (h + 1) := by
      split
      · exact low_keywordLeaf t
      · exact low_tokenLeaf t
    refine .take tokens fun s₁ _ _ => .bind (low.operand s₁) fun out s₂ read => ?_
    cases out with
    | error consumed =>
      exact .pure (AllLow.mono (allLow_cons.2 ⟨operator, read⟩) (by omega) (by omega))
    | ok value =>
      have read : value.Low n (h + 1) := read
      have parts : AllLow n (h + 1) [(if t.kind == .identifier then keywordLeaf t
          else tokenLeaf t).withField Field.operator, value.withField Field.argument] := by
        exact allLow_cons.2 ⟨operator.withField _, by simpa using read.withField _⟩
      exact .bind (.nestingNode parts) fun d s₃ unary =>
        .pure (unary.wrap.mono (Nat.le_refl _) (by omega))
  · exact primary_low low s

omit low in
theorem chainStep_low {operand : Reader Outcome}
    (low : ∀ s, Checks source s operand (Outcome.Low n (h + 1))) (precedence : Nat) (left : Draft)
    (s : Stream) (given : left.Low n (h + 3)) : Checks source s (chainStep operand precedence left)
      (Sum.elim (Draft.Low n (h + 3)) (Outcome.Low n (h + 3))) := by
  refine .peek (.pure given) fun t rest tokens => ?_
  dsimp only
  split
  · exact .pure given
  · refine .take tokens fun s₁ _ _ => .bind (low s₁) fun out s₂ read => ?_
    cases out with
    | error consumed =>
      have read : AllLow n (h + 1) consumed := read
      exact .pure (show AllLow n (h + 3) (left :: tokenLeaf t :: consumed) by
        simpa using ⟨given, low_tokenLeaf t, read.mono (Nat.le_refl n) (by omega)⟩)
    | ok right =>
      have read : right.Low n (h + 1) := read
      refine .bind (.lowBinary (List.forall_mem_cons.2 ⟨.inr ⟨given.withField _, ?_⟩, ?_⟩))
        fun d s₃ low => .pure low.wrap
      · cases left
        rfl
      · simpa using ⟨.inl ((low_tokenLeaf t).withField _), .inl (read.withField _)⟩

/-- Each precedence adds the two nodes of an operator. -/
theorem chain_low (levels : Nat) (s : Stream) :
    Checks source s (chain (unary inner) levels) (Outcome.Low (n + 1) (h + 2 * levels + 6)) := by
  induction levels generalizing s with
  | zero => exact unary_low low s
  | succ levels ih =>
    refine .bind (ih s) fun out s₁ read => ?_
    cases out with
    | error consumed => exact .pure (AllLow.mono read (Nat.le_refl _) (by omega))
    | ok left =>
      have read : left.Low (n + 1) (h + 2 * levels + 6) := read
      have given : left.Low (n + 1) (h + 2 * levels + 5 + 3) := read.mono (Nat.le_refl _) (by omega)
      exact .repeatUntil (chainStep_low ih _) (fun _ low => by exact low) given

theorem binary_low (s : Stream) :
    Checks source s (binary inner) (Outcome.Low (n + 1) (h + 24)) := chain_low low tightest s

theorem assignment_low (s : Stream) :
    Checks source s (assignment inner) (Outcome.Low (n + 1) (h + 26)) := by
  refine .bind (binary_low low s) fun out s₁ read => ?_
  cases out with
  | error consumed => exact .pure (AllLow.mono read (Nat.le_refl _) (by omega))
  | ok left =>
    have given : left.Low (n + 1) (h + 24) := read
    refine .isAt (fun t rest tokens sign => ?_) (.pure (given.mono (Nat.le_refl _) (by omega)))
    refine .bind .leaves fun leaf s₂ sign => .bind (low.expression s₂) fun out s₃ read => ?_
    have front : ∀ c ∈ (unwrap left).withField Field.left :: leaf,
        c.Low n (h + 24) ∨ c.Low (n + 1) (h + 24) ∧ c.label.field ≠ some Field.right := by
      refine List.forall_mem_cons.2 ⟨.inr ⟨given.unwrap.withField _, ?_⟩, fun c hc => ?_⟩
      · cases unwrap left
        exact fun same => absurd (Option.some.inj same) (by decide)
      · exact .inl (sign n (h + 23) c hc)
    cases out with
    | ok right =>
      have read : right.Low n (h + 1) := read
      refine .bind (.lowAssignment (List.forall_mem_append.2 ⟨front, ?_⟩)) fun d s₄ low =>
        .pure low.wrap
      simpa using .inl ((read.withField _).mono (Nat.le_refl n) (by omega))
    | error consumed =>
      have read : AllLow n (h + 1) consumed := read
      refine .bind (.lowErrors read) fun garbage s₄ errors => ?_
      refine .bind (.lowAssignment (List.forall_mem_append.2 ⟨front, fun c hc => ?_⟩))
        fun d s₅ low => .pure low.wrap
      exact .inl ((errors.withField _ c hc).mono (Nat.le_refl n) (by omega))

end Productions

end RouteScript.Script
