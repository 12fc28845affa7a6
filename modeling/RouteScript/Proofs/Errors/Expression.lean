import RouteScript.Proofs.Errors.Basic
import RouteScript.Script.Expression
/-!
# Errors in expressions

An expression that was read is no error node, and what was taken before a reading failed may be
taken over by one: in both there are errors only below the nodes that hold them.
-/
namespace RouteScript.Script

open Draft

variable {source : List Char} {α β : Type}

/-- Drafts that are all mild. -/
def AllMild (ds : List Draft) : Prop := ∀ d ∈ ds, d.Mild

/-- Drafts that are all mild, and none is an error node. -/
def AllWhole (ds : List Draft) : Prop := ∀ d ∈ ds, d.Whole

@[simp] theorem allMild_nil : AllMild [] := by simp [AllMild]

@[simp] theorem allMild_cons (d : Draft) (ds : List Draft) :
    AllMild (d :: ds) ↔ d.Mild ∧ AllMild ds := by simp [AllMild]

@[simp] theorem allMild_append (ds ds' : List Draft) :
    AllMild (ds ++ ds') ↔ AllMild ds ∧ AllMild ds' := by simp [AllMild, or_imp, forall_and]

@[simp] theorem allWhole_nil : AllWhole [] := by simp [AllWhole]

@[simp] theorem allWhole_cons (d : Draft) (ds : List Draft) :
    AllWhole (d :: ds) ↔ d.Whole ∧ AllWhole ds := by simp [AllWhole]

@[simp] theorem allWhole_append (ds ds' : List Draft) :
    AllWhole (ds ++ ds') ↔ AllWhole ds ∧ AllWhole ds' := by simp [AllWhole, or_imp, forall_and]

theorem AllWhole.mild {ds : List Draft} (h : AllWhole ds) : AllMild ds := fun d hd => (h d hd).mild

theorem AllMild.withField {ds : List Draft} (h : AllMild ds) (field : String) :
    AllMild (ds.map (Draft.withField field)) :=
  List.forall_mem_map.2 fun d hd => (h d hd).withField field

/-- What a reading gives is a whole expression, or it failed. -/
def Outcome.Mild : Outcome → Prop
  | .ok d => d.Whole
  | .error consumed => AllMild consumed

/-- The next token, if there is one, is no error. -/
def Stream.IsKnown (s : Stream) : Prop := ∀ t rest, s.tokens = t :: rest → t.IsKnown

theorem Stream.isKnown_of_kind {s : Stream} {t : Token} {rest : List Token}
    (tokens : s.tokens = t :: rest) {kind : Token.Kind} (same : t.kind = kind)
    (known : kind ≠ .unterminatedString ∧ kind ≠ .unknown) : s.IsKnown := by
  intro t' rest' tokens'
  obtain ⟨rfl, rfl⟩ : t = t' ∧ rest = rest' := by simpa [tokens] using tokens'
  subst same
  exact known

namespace Checks

variable {s : Stream} {k : Bool → Reader β} {good : β → Prop} {kind : String}
  {children : List Draft}

/-- If the next token follows at once, it is of the kind that was asked for. -/
theorem isAdjacentTo {offset : Nat} {kind : Token.Kind}
    (yes : ∀ t rest, s.tokens = t :: rest → t.kind = kind → Checks source s (k true) good)
    (no : Checks source s (k false) good) :
    Checks source s (Script.isAdjacent offset kind >>= k) good := fun hs here =>
  gives_isAdjacent (fun t rest tokens same _ => yes t rest tokens same hs here) (no hs here)

theorem wholeLeaf (known : s.IsKnown) : Checks source s Script.nextLeaf AllWhole :=
  .nextAs (k := Pure.pure) (.pure (by simp)) fun t rest _ tokens _ _ =>
    .pure (by simpa using whole_tokenLeaf (known t rest tokens))

theorem wholeKeyword : Checks source s Script.nextKeyword AllWhole :=
  .nextAs (k := Pure.pure) (.pure (by simp)) fun t _ _ _ _ _ =>
    .pure (by simpa using whole_keywordLeaf t)

theorem mildLeaf : Checks source s Script.nextLeaf AllMild :=
  .nextAs (k := Pure.pure) (.pure (by simp)) fun t _ _ _ _ _ =>
    .pure (by simpa using mild_tokenLeaf t)

theorem collectMild {σ : Type} (step : σ → Token → Option σ) (state : σ) :
    Checks source s (Script.collect step state) fun r => AllMild r.2 :=
  (collect step state).mono fun r all d hd => by
    obtain ⟨t, _, _, rfl⟩ := all d hd
    exact mild_tokenLeaf t

theorem collectWhileMild (accepts : Token → Bool) :
    Checks source s (Script.collectWhile accepts) AllMild :=
  .bind (collectMild _ _) fun _ _ mild => .pure mild

theorem absorbWhole (h : AllWhole children) : Checks source s (Script.absorb children) AllWhole :=
  (absorb children).mono fun all ⟨inside, _⟩ c hc => by
    rcases inside c hc with given | ⟨t, _, _, rfl⟩
    · exact h c given
    · exact whole_extraLeaf t

theorem absorbMild (h : AllMild children) : Checks source s (Script.absorb children) AllMild :=
  (absorb children).mono fun all ⟨inside, _⟩ c hc => by
    rcases inside c hc with given | ⟨t, _, _, rfl⟩
    · exact h c given
    · exact (whole_extraLeaf t).mild

theorem wholeNode (plain : kind ∉ errorKind :: regionKinds) (h : AllWhole children) :
    Checks source s (Script.node kind children) Whole :=
  .bind (absorbWhole h) fun _ _ whole => .pure (.branch plain whole)

theorem holderNode (holds : kind ∈ errorHolders) (h : AllMild children) :
    Checks source s (Script.node kind children) Whole :=
  .bind (absorbMild h) fun _ _ mild => .pure (.holder holds mild)

theorem mildError (h : AllMild children) : Checks source s (Script.errorNode children) Mild :=
  .bind (absorbMild h) fun _ _ mild => .pure (.error mild)

theorem mildErrors (h : AllMild children) : Checks source s (Script.errorNodes children) AllMild := by
  unfold Script.errorNodes
  split
  · exact .pure (by simp)
  · exact .bind (mildError h) fun d _ mild => .pure (by simpa using mild)

end Checks

/-- Nothing is taken behind a group that is closed. -/
theorem takeSteps_of_closed (opening closing : Token.Kind) {g : Group} (closed : g.closed)
    (ts : List Token) :
    ((takeSteps (Group.step opening closing) g ts).2.1.filter Token.isSignificant) = [] := by
  induction ts with
  | nil => rfl
  | cons t ts ih =>
    unfold takeSteps
    split
    · rename_i trivia
      have : t.isSignificant = false := by simp [Token.isSignificant, trivia]
      simpa [this] using ih
    · simp [Group.step, closed]

/-- The last token of a group that closes is its closing one. -/
theorem takeSteps_closing (opening closing : Token.Kind) {g : Group} (opened : g.closed = false)
    {ts : List Token} (closed : (takeSteps (Group.step opening closing) g ts).1.closed) :
    ∃ t, ((takeSteps (Group.step opening closing) g ts).2.1.filter
      Token.isSignificant).getLast? = some t ∧ t.kind = closing := by
  induction ts generalizing g with
  | nil => exact absurd (opened.symm.trans closed) Bool.false_ne_true
  | cons t ts ih =>
    unfold takeSteps at closed ⊢
    by_cases trivia : t.isTrivia
    · rw [if_pos trivia] at closed ⊢
      have insignificant : t.isSignificant = false := by simp [Token.isSignificant, trivia]
      simpa [insignificant] using ih opened closed
    rw [if_neg trivia] at closed ⊢
    have significant : t.isSignificant := by simp [Token.isSignificant, trivia]
    cases step : Group.step opening closing g t with
    | none =>
      rw [step] at closed
      exact absurd (opened.symm.trans closed) Bool.false_ne_true
    | some g' =>
      rw [step] at closed
      simp only [List.filter_cons, if_pos significant]
      cases ends : g'.closed with
      | false =>
        obtain ⟨last, behind, kind⟩ := ih ends closed
        exact ⟨last, by rw [List.getLast?_cons, behind]; rfl, kind⟩
      | true =>
        refine ⟨t, by rw [takeSteps_of_closed opening closing ends]; rfl, ?_⟩
        unfold Group.step at step
        repeat' split at step
        all_goals cases step
        · contradiction
        · rename_i same
          exact eq_of_beq same
        · contradiction

theorem takeSteps_head {σ : Type} {step : σ → Token → Option σ} {state : σ} {t : Token}
    {ts : List Token} (significant : t.isSignificant) :
    ∀ u, ((takeSteps step state (t :: ts)).2.1.filter Token.isSignificant).head? = some u →
      u = t := by
  intro u head
  have trivia : t.isTrivia = false := by simpa [Token.isSignificant] using significant
  unfold takeSteps at head
  rw [if_neg (by simp [trivia])] at head
  cases step : step state t with
  | none => simp [step] at head
  | some state' => simpa [step, significant, eq_comm] using head

theorem balanced_mild (opening closing : Token.Kind) (s : Stream) :
    Checks source s (balanced opening closing) fun r => ∀ ts, r = some ts → AllMild ts := by
  intro hs here
  obtain ⟨passes, mild⟩ :=
    Checks.collectMild (Group.step opening closing) ⟨0, false, false⟩ hs here
  unfold Gives
  rw [balanced_eq]
  split
  · exact ⟨passes, fun ts eq => Option.some.inj eq ▸ mild⟩
  · exact ⟨hs.refl, fun ts eq => by contradiction⟩

/-- Leaves from one parenthesis to another. -/
structure Parens (ds : List Draft) : Prop where
  mild : AllMild ds
  first : ∀ d, ds.head? = some d → d.Whole
  last : ∀ d, ds.getLast? = some d → d.Whole

theorem balanced_parens {s : Stream} {t : Token} {rest : List Token}
    (tokens : s.tokens = t :: rest) (opens : t.kind = .lParen) :
    Checks source s (balanced .lParen .rParen) fun r => ∀ ts, r = some ts → Parens ts := by
  intro hs here
  obtain ⟨passes, mild⟩ :=
    Checks.collectMild (Group.step .lParen .rParen) ⟨0, false, false⟩ hs here
  unfold Gives
  rw [balanced_eq]
  split
  · rename_i closed
    refine ⟨passes, fun ts eq => Option.some.inj eq ▸ ⟨mild, fun d head => ?_, fun d tail => ?_⟩⟩
    · simp only [collect, tokens, List.head?_map, Option.map_eq_some_iff] at head
      obtain ⟨u, head, rfl⟩ := head
      rw [takeSteps_head (by simp [Token.isSignificant, Token.isTrivia, opens,
        Token.Kind.isTrivia]) u head]
      exact whole_tokenLeaf (by simp [Token.IsKnown, opens])
    · obtain ⟨u, tail', closes⟩ := takeSteps_closing .lParen .rParen rfl closed
      simp only [collect, List.getLast?_map, tail', Option.map_some, Option.some.injEq] at tail
      exact tail ▸ whole_tokenLeaf (by simp [Token.IsKnown, closes])
  · exact ⟨hs.refl, fun ts eq => by contradiction⟩

theorem index_whole (s : Stream) :
    Checks source s index fun r => ∀ d ∈ r.toList, d.Whole := by
  refine .bind (balanced_mild _ _ s) fun tokens s₁ mild => ?_
  cases tokens with
  | none => exact .pure (by simp)
  | some tokens =>
    exact .bind (.holderNode (by decide) (mild tokens rfl)) fun d s₂ whole =>
      .pure (by simpa using whole)

theorem variableParts_whole {className : Token} (known : className.IsKnown)
    {opening closing : Draft} (first : opening.Whole) (last : closing.Whole) {inner : List Draft}
    (mild : AllMild inner) (s : Stream) :
    Checks source s (variableParts className opening inner closing) Whole := by
  unfold variableParts
  split
  · rename_i kind class_known
    have plain : kind ∉ errorKind :: regionKinds := by
      unfold userVariableKind? at class_known
      repeat' split at class_known
      all_goals cases class_known
      all_goals decide
    refine .bind (.holderNode (by decide) mild) fun name s₁ whole => .wholeNode plain ?_
    simpa using ⟨whole_keywordLeaf className, first, whole.withField _, last⟩
  · refine .bind (.holderNode (by decide) mild) fun argument s₁ whole => .wholeNode (by decide) ?_
    simpa using ⟨(whole_tokenLeaf known).withField _, first, whole.withField _, last⟩

theorem pseudoContent_mild {s : Stream} (known : s.IsKnown) :
    Checks source s pseudoContent Outcome.Mild := by
  refine .next (.pure allMild_nil) fun className rest s₁ tokens _ _ => ?_
  have known := known className rest tokens
  have alone := whole_tokenLeaf known
  refine .isAdjacentTo (fun t rest tokens opens => ?_) ?_
  · refine .bind (balanced_parens tokens opens) fun group s₂ parens => ?_
    split
    · rename_i opening second third more
      have ⟨mild, first, last⟩ := parens _ rfl
      have ends : (((third :: more).getLast?).getD third).Whole := by
        refine last _ ?_
        rw [List.getLast?_cons_cons, List.getLast?_cons_cons, List.getLast?_eq_some_getLast
          (List.cons_ne_nil third more), Option.getD_some]
      have inside : AllMild (second :: third :: more).dropLast := fun d hd =>
        mild d (List.mem_cons_of_mem _ ((List.dropLast_sublist _).subset hd))
      refine .bind (variableParts_whole known (first _ rfl) ends inside s₂) fun parts s₃ whole =>
        .isAdjacent fun indexed => ?_
      cases indexed with
      | false =>
        exact .bind (.wholeNode (by decide) (by simpa using whole)) fun d s₄ whole => .pure whole
      | true =>
        refine .bind (index_whole s₃) fun index s₄ below => ?_
        exact .bind (.wholeNode (by decide) (List.forall_mem_cons.2 ⟨whole, below⟩))
          fun d s₅ whole => .pure whole
    · refine .pure ((allMild_cons _ _).2 ⟨alone.mild, ?_⟩)
      cases group with
      | none => exact allMild_nil
      | some ts => exact (parens ts rfl).mild
  · exact .bind (.wholeNode (by decide) (by simpa using alone)) fun d s₂ whole => .pure whole

/-- Parts of a variable that were read, whether or not more was expected. -/
def PartsWhole : Except (List Draft) (List Draft) → Prop
  | .ok parts | .error parts => AllWhole parts

theorem transformationStep_whole (children : List Draft) (s : Stream) (h : AllWhole children) :
    Checks source s (transformationStep children) (Sum.elim AllWhole PartsWhole) := by
  have further {d : Draft} (whole : d.Whole) : AllWhole (children ++ [d]) := by
    simpa using ⟨h, whole⟩
  refine .peekKind (.pure h) fun t rest _ => ?_
  split
  · refine .bind (balanced_mild _ _ s) fun group s₁ mild => ?_
    cases group with
    | none => exact .pure h
    | some tokens =>
      exact .bind (.holderNode (by decide) (mild tokens rfl)) fun d s₂ whole =>
        .pure (further whole)
  · refine .bind (index_whole s) fun n s₁ whole => ?_
    cases n with
    | none => exact .pure h
    | some n => exact .pure (further (whole n (by simp)))
  · exact .pure h

theorem pvarExpression_mild (dollar : Token) (s : Stream) :
    Checks source s (pvarExpression dollar) Outcome.Mild := by
  refine .next (.pure allMild_nil) fun opening rest s₁ _ _ _ => ?_
  have start : (Draft.leaf "$(" false dollar.start opening.stop).Whole := .leaf (by decide) _ _ _
  have failed : AllMild [Draft.leaf "$(" false dollar.start opening.stop] := by
    simpa using start.mild
  refine .isAdjacentTo (fun t rest tokens word => ?_) (.pure failed)
  refine .bind (pseudoContent_mild (Stream.isKnown_of_kind tokens word (by decide)))
    fun out s₂ mild => ?_
  cases out with
  | error consumed => exact .pure ((allMild_cons _ _).2 ⟨start.mild, mild⟩)
  | ok content =>
    have parts : AllWhole [Draft.leaf "$(" false dollar.start opening.stop, content] := by
      simpa using ⟨start, mild⟩
    refine .bind (.repeatUntil transformationStep_whole (fun _ whole => by exact whole) parts)
      fun out s₃ whole => ?_
    cases out with
    | error consumed => exact .pure (AllWhole.mild whole)
    | ok children =>
      refine .isAt (fun t rest tokens closes => ?_) (.pure (AllWhole.mild whole))
      refine .bind (.wholeLeaf (Stream.isKnown_of_kind tokens closes (by decide)))
        fun leaf s₄ last => ?_
      refine .bind (.wholeNode (by decide) ((allWhole_append _ _).2 ⟨whole, last⟩))
        fun d s₅ whole => .pure whole.wrap

theorem pseudoVariable_mild (s : Stream) :
    Checks source s pseudoVariable Outcome.Mild := by
  refine .next (.pure allMild_nil) fun dollar rest s₁ _ _ _ => .isAdjacent fun grouped => ?_
  cases grouped with
  | true => exact pvarExpression_mild dollar s₁
  | false =>
    have sign : (Draft.leaf "$" false dollar.start dollar.stop).Whole := .leaf (by decide) _ _ _
    have failed : AllMild [Draft.leaf "$" false dollar.start dollar.stop] := by
      simpa using sign.mild
    refine .isAdjacentTo (fun t rest tokens word => ?_) (.pure failed)
    refine .bind (pseudoContent_mild (Stream.isKnown_of_kind tokens word (by decide)))
      fun out s₂ mild => ?_
    cases out with
    | error consumed => exact .pure ((allMild_cons _ _).2 ⟨sign.mild, mild⟩)
    | ok content =>
      have parts : AllWhole [Draft.leaf "$" false dollar.start dollar.stop, content] := by
        simpa using ⟨sign, mild⟩
      exact .bind (.wholeNode (by decide) parts) fun d s₃ whole => .pure whole.wrap

/-- No reader of a level leaves an error where none may stand. -/
structure Level.Mild (source : List Char) (inner : Level) : Prop where
  expression : ∀ s, Script.Checks source s inner.expression Outcome.Mild
  operand : ∀ s, Script.Checks source s inner.operand Outcome.Mild

section Productions

variable {inner : Level} (h : inner.Mild source)
include h

theorem argument_mild {children : List Draft} (given : AllMild children) (s : Stream) :
    Checks source s (argument inner children) fun o => ∀ ds, o = some ds → AllMild ds := by
  refine .bind (h.expression s) fun out s₁ mild => ?_
  cases out with
  | ok value =>
    have whole : value.Whole := mild
    exact .pure (by simpa using ⟨given, whole.mild⟩)
  | error consumed =>
    have mild : AllMild consumed := mild
    refine .bind (.collectWhileMild _) fun rest s₂ mild' => ?_
    have read (following : Option Token.Kind) : Checks source s₂
        (if (consumed ++ rest).isEmpty && following != some .comma && following != some .rParen
          then pure none
          else do
            let garbage ← errorNodes (consumed ++ rest)
            pure (some (children ++ garbage)))
        fun o => ∀ ds, o = some ds → AllMild ds := by
      split
      · exact .pure (by simp)
      · exact .bind (.mildErrors (by simpa using ⟨mild, mild'⟩)) fun garbage s₃ mild =>
          .pure (by simpa using ⟨given, mild⟩)
    exact .peekKind (read none) fun t _ _ => read (some t.kind)

theorem argumentStep_mild (children : List Draft) (s : Stream) (given : AllMild children) :
    Checks source s (argumentStep inner children) (Sum.elim AllMild Outcome.Mild) := by
  refine .bind (argument_mild h given s) fun o s₁ mild => ?_
  cases o with
  | none => exact .pure given
  | some children =>
    have mild : AllMild children := mild children rfl
    refine .peekKind (.pure mild) fun t rest tokens => ?_
    split
    · exact .bind .mildLeaf fun leaf s₂ mild' => .pure ((allMild_append _ _).2 ⟨mild, mild'⟩)
    · refine .bind .mildLeaf fun leaf s₂ mild' => ?_
      exact .bind (.holderNode (by decide) ((allMild_append _ _).2 ⟨mild, mild'⟩))
        fun d s₃ whole => .pure whole
    · exact .pure mild

theorem argumentList_mild (s : Stream) : Checks source s (argumentList inner) Outcome.Mild := by
  refine .bind .mildLeaf fun opening s₁ mild => ?_
  refine .isAt (fun t rest tokens closing => ?_) ?_
  · refine .bind .mildLeaf fun leaf s₂ mild' => ?_
    exact .bind (.holderNode (by decide) ((allMild_append _ _).2 ⟨mild, mild'⟩))
      fun d s₃ whole => .pure whole
  · exact .repeatUntil (argumentStep_mild h) (fun _ mild => by exact mild) mild

theorem call_mild {name : Draft} (whole : name.Whole) (s : Stream) :
    Checks source s (call inner name) Outcome.Mild := by
  have function := whole.wrap.withField Field.function
  refine .bind (argumentList_mild h s) fun out s₁ mild => ?_
  cases out with
  | error consumed => exact .pure ((allMild_cons _ _).2 ⟨function.mild, mild⟩)
  | ok arguments =>
    have whole : arguments.Whole := mild
    refine .bind (.wholeNode (by decide) ?_) fun d s₂ whole => .pure whole.wrap
    simpa using ⟨function, whole.withField _⟩

theorem parenthesized_mild {s : Stream} (known : s.IsKnown) :
    Checks source s (parenthesized inner) Outcome.Mild := by
  refine .bind (.wholeLeaf known) fun opening s₁ first => ?_
  refine .bind (h.expression s₁) fun out s₂ mild => ?_
  cases out with
  | error consumed => exact .pure ((allMild_append _ _).2 ⟨first.mild, mild⟩)
  | ok value =>
    have inside : AllWhole (opening ++ [value]) := by simpa using ⟨first, mild⟩
    refine .isAt (fun t rest tokens closing => ?_) (.pure inside.mild)
    refine .bind (.wholeLeaf (Stream.isKnown_of_kind tokens closing (by decide)))
      fun leaf s₃ last => ?_
    exact .bind (.wholeNode (by decide) ((allWhole_append _ _).2 ⟨inside, last⟩))
      fun d s₄ whole => .pure whole

theorem primary_mild (s : Stream) : Checks source s (primary inner) Outcome.Mild := by
  refine .peek (.pure allMild_nil) fun t rest tokens => ?_
  dsimp only
  split
  · rename_i opening
    refine .bind (parenthesized_mild h (Stream.isKnown_of_kind tokens opening (by decide)))
      fun out s₁ mild => ?_
    cases out with
    | ok group =>
      have whole : group.Whole := mild
      exact .pure whole.wrap
    | error consumed => exact .pure mild
  · exact pseudoVariable_mild s
  · rename_i word
    exact .take tokens fun s₁ _ _ => .pure (whole_tokenLeaf (by simp [Token.IsKnown, word])).wrap
  · rename_i number
    exact .take tokens fun s₁ _ _ => .pure (whole_tokenLeaf (by simp [Token.IsKnown, number])).wrap
  · rename_i word
    have leaf : (tokenLeaf t).Whole := whole_tokenLeaf (by simp [Token.IsKnown, word])
    refine .take tokens fun s₁ _ _ => .isAt (fun _ _ _ _ => call_mild h leaf s₁) (.pure leaf.wrap)
  · exact .pure allMild_nil

theorem unary_mild (s : Stream) : Checks source s (unary inner) Outcome.Mild := by
  refine .peek (.pure allMild_nil) fun t rest tokens => .peekSecondKind ?_
  split
  · rename_i operator
    have leaf : (if t.kind == .identifier then keywordLeaf t else tokenLeaf t).Whole := by
      split
      · exact whole_keywordLeaf t
      · refine whole_tokenLeaf ?_
        constructor <;> intro garbage <;> simp [isUnaryOperator, garbage] at operator
    refine .take tokens fun s₁ _ _ => .bind (h.operand s₁) fun out s₂ mild => ?_
    cases out with
    | error consumed => exact .pure ((allMild_cons _ _).2 ⟨leaf.mild, mild⟩)
    | ok value =>
      have whole : value.Whole := mild
      refine .bind (.wholeNode (by decide) ?_) fun d s₃ whole => .pure whole.wrap
      exact (allWhole_cons _ _).2 ⟨leaf.withField _, by simpa using whole.withField _⟩
  · exact primary_mild h s

omit h in
theorem chainStep_mild {operand : Reader Outcome}
    (h : ∀ s, Checks source s operand Outcome.Mild) (precedence : Nat) (left : Draft)
    (s : Stream) (whole : left.Whole) : Checks source s (chainStep operand precedence left)
      (Sum.elim Whole Outcome.Mild) := by
  refine .peek (.pure whole) fun t rest tokens => ?_
  dsimp only
  split
  · exact .pure whole
  · rename_i same
    have operator : (tokenLeaf t).Whole := by
      refine whole_tokenLeaf ?_
      constructor <;> intro garbage <;> simp [garbage, precedence?] at same
    refine .take tokens fun s₁ _ _ => .bind (h s₁) fun out s₂ mild => ?_
    cases out with
    | error consumed =>
      have mild : AllMild consumed := mild
      exact .pure (show AllMild (left :: tokenLeaf t :: consumed) by
        simpa using ⟨whole.mild, operator.mild, mild⟩)
    | ok right =>
      have right : right.Whole := mild
      refine .bind (.wholeNode (by decide) ?_) fun d s₃ whole => .pure whole.wrap
      simpa using ⟨whole.withField _, operator.withField _, right.withField _⟩

omit h in
theorem chain_mild {operand : Reader Outcome} (h : ∀ s, Checks source s operand Outcome.Mild)
    (levels : Nat) (s : Stream) : Checks source s (chain operand levels) Outcome.Mild := by
  induction levels generalizing s with
  | zero => exact h s
  | succ levels ih =>
    refine .bind (ih s) fun out s₁ mild => ?_
    cases out with
    | error consumed => exact .pure mild
    | ok left => exact .repeatUntil (chainStep_mild ih _) (fun _ whole => by exact whole) mild

theorem binary_mild (s : Stream) : Checks source s (binary inner) Outcome.Mild :=
  chain_mild (unary_mild h) _ s

theorem assignment_mild (s : Stream) : Checks source s (assignment inner) Outcome.Mild := by
  refine .bind (binary_mild h s) fun out s₁ mild => ?_
  cases out with
  | error consumed => exact .pure mild
  | ok left =>
    have left : left.Whole := mild
    refine .isAt (fun t rest tokens sign => ?_) (.pure mild)
    refine .bind .mildLeaf fun leaf s₂ sign => .bind (h.expression s₂) fun out s₃ mild => ?_
    cases out with
    | ok right =>
      have right : right.Whole := mild
      refine .bind (.holderNode (by decide) ?_) fun d s₄ whole => .pure whole.wrap
      simpa using ⟨(left.unwrap.withField _).mild, sign, (right.withField _).mild⟩
    | error consumed =>
      refine .bind (.mildErrors mild) fun garbage s₄ right => ?_
      refine .bind (.holderNode (by decide) ?_) fun d s₅ whole => .pure whole.wrap
      simpa using ⟨(left.unwrap.withField _).mild, sign, right.withField _⟩

end Productions

end RouteScript.Script
