import RouteScript.Proofs.Precedence.Nodes
/-!
# Operators in expressions

Only the loop over the operators of one precedence makes binary nodes. Its operands come from the
loops inside, which take tighter operators only; so whatever a reading gives is steady, whether it
went through or failed with a part of the operators taken.
-/
namespace RouteScript.Script

open Draft

variable {source : List Char} {α β : Type}

/-- Drafts that are all steady. -/
def AllSteady (ds : List Draft) : Prop := ∀ d ∈ ds, d.Steady

@[simp] theorem allSteady_nil : AllSteady [] := by simp [AllSteady]

@[simp] theorem allSteady_cons (d : Draft) (ds : List Draft) :
    AllSteady (d :: ds) ↔ d.Steady ∧ AllSteady ds := by simp [AllSteady]

@[simp] theorem allSteady_append (ds ds' : List Draft) :
    AllSteady (ds ++ ds') ↔ AllSteady ds ∧ AllSteady ds' := by simp [AllSteady, or_imp, forall_and]

theorem AllSteady.withField {ds : List Draft} (h : AllSteady ds) (field : String) :
    AllSteady (ds.map (Draft.withField field)) :=
  List.forall_mem_map.2 fun d hd => (h d hd).withField field

/-- What a reading gives is steady, be it an expression or what it took before it failed. -/
def Outcome.Steady : Outcome → Prop
  | .ok d => d.Steady
  | .error consumed => AllSteady consumed

/-- What was read is no more than an operand. -/
def Outcome.IsOperand : Outcome → Prop
  | .ok d => d.Steady ∧ d.IsOperand
  | .error consumed => AllSteady consumed

/-- An expression that was read binds at least this tightly. -/
def Outcome.Binds (low : Nat) : Outcome → Prop
  | .ok d => d.Steady ∧ (∃ inner, d = wrap inner) ∧ d.Binds low
  | .error consumed => AllSteady consumed

theorem Outcome.Binds.mono {low low' : Nat} {out : Outcome} (h : out.Binds low) (le : low' ≤ low) :
    out.Binds low' := by
  cases out with
  | ok d => exact ⟨h.1, h.2.1, h.2.2.mono le⟩
  | error consumed => exact h

theorem Outcome.IsOperand.binds {out : Outcome} (h : out.IsOperand) (low : Nat) :
    out.Binds low := by
  cases out with
  | ok d =>
    obtain ⟨steady, operand⟩ := h
    exact ⟨steady, operand.imp fun _ eq => eq.1, operand.binds low⟩
  | error consumed => exact h

namespace Checks

variable {s : Stream} {kind : String} {children : List Draft}

theorem steadyLeaf : Checks source s Script.nextLeaf AllSteady :=
  .nextAs (k := Pure.pure) (.pure allSteady_nil) fun t _ _ _ _ _ =>
    .pure (List.forall_mem_singleton.2 (.tokenLeaf t))

theorem steadyKeyword : Checks source s Script.nextKeyword AllSteady :=
  .nextAs (k := Pure.pure) (.pure allSteady_nil) fun t _ _ _ _ _ =>
    .pure (List.forall_mem_singleton.2 (.keywordLeaf t))

theorem collectSteady {σ : Type} (step : σ → Token → Option σ) (state : σ) :
    Checks source s (Script.collect step state) fun r => AllSteady r.2 :=
  (collect step state).mono fun r all d hd => by
    obtain ⟨t, _, _, rfl⟩ := all d hd
    exact .tokenLeaf t

theorem collectWhileSteady (accepts : Token → Bool) :
    Checks source s (Script.collectWhile accepts) AllSteady :=
  .bind (collectSteady _ _) fun _ _ steady => .pure steady

/-- The comments that a node takes in are steady and no part of the structure. -/
theorem absorbSteady (h : AllSteady children) : Checks source s (Script.absorb children)
    fun all => AllSteady all ∧
      (all.filter fun c => !c.label.extra) = children.filter fun c => !c.label.extra :=
  (absorb children).mono fun all ⟨inside, notExtra⟩ => ⟨fun c hc => by
    rcases inside c hc with given | ⟨t, _, _, rfl⟩
    · exact h c given
    · exact .extraLeaf t, notExtra⟩

/-- A node of a kind that holds no operators. -/
theorem plainNode (plain : kind ∉ operatorKinds) (h : AllSteady children) :
    Checks source s (Script.node kind children) fun d => d.Steady ∧ d.label.kind = kind :=
  .bind (absorbSteady h) fun _ _ ⟨steady, _⟩ => .pure ⟨.branch plain steady, rfl⟩

theorem steadyNode (plain : kind ∉ operatorKinds) (h : AllSteady children) :
    Checks source s (Script.node kind children) Steady :=
  (plainNode plain h).mono fun _ made => made.1

theorem steadyError (h : AllSteady children) : Checks source s (Script.errorNode children) Steady :=
  .bind (absorbSteady h) fun _ _ ⟨steady, _⟩ => .pure (.error steady)

theorem steadyErrors (h : AllSteady children) :
    Checks source s (Script.errorNodes children) AllSteady := by
  unfold Script.errorNodes
  split
  · exact .pure allSteady_nil
  · exact .bind (steadyError h) fun d _ steady => .pure (List.forall_mem_singleton.2 steady)

/-- The structure in a node is what was given to it. -/
theorem solidNode (h : AllSteady children) (notExtra : ∀ c ∈ children, c.label.extra = false) :
    Checks source s (Script.node kind children) fun d =>
      d.label.kind = kind ∧ d.solidChildren = children ∧ AllSteady d.children :=
  .bind (absorbSteady h) fun _ _ ⟨below, same⟩ =>
    .pure ⟨rfl, same.trans (List.filter_eq_self.2 fun c hc => by simp [notExtra c hc]), below⟩

/-- A unary operator with its operand. -/
theorem unaryNode {operator argument : Draft}
    (leaf : operator.Steady ∧ operator.label.extra = false)
    (read : Outcome.IsOperand (.ok argument)) :
    Checks source s (Script.node Kind.unary
      [operator.withField Field.operator, argument.withField Field.argument])
      fun d => d.Steady ∧ d.label.kind = Kind.unary := by
  obtain ⟨steady, inner, rfl, plain⟩ := read
  refine (solidNode ?_ ?_).mono fun d ⟨kind, notExtra, below⟩ => ⟨steady_iff.2 ⟨?_, below⟩, kind⟩
  · simpa using ⟨leaf.1.withField _, steady.withField _⟩
  · simp [label_withField, leaf.2, wrap_notExtra]
  · have noBinary : Kind.unary ≠ Kind.binary := by decide
    refine ⟨fun binary => absurd (kind.symm.trans binary) noBinary, fun _ => ?_⟩
    exact ⟨_, _, inner, notExtra, by rw [label_withField], rfl, ⟨rfl, rfl⟩, plain⟩

/-- A binary operator with its operands. -/
theorem binaryNode {t : Token} {left right : Draft} {precedence : Nat}
    (known : precedence? t.kind = some precedence)
    (onLeft : Outcome.Binds precedence (.ok left))
    (onRight : Outcome.Binds (precedence + 1) (.ok right)) :
    Checks source s (Script.node Kind.binary [left.withField Field.left,
      (tokenLeaf t).withField Field.operator, right.withField Field.right])
      fun d => Outcome.Binds precedence (.ok (wrap d)) := by
  obtain ⟨steady, ⟨inner, rfl⟩, binds⟩ := onLeft
  obtain ⟨steady', ⟨inner', rfl⟩, binds'⟩ := onRight
  have spelled : spelledPrecedence? ((tokenLeaf t).withField Field.operator).label.kind
      = some precedence := by rw [kind_withField, spelledPrecedence?_tokenLeaf, known]
  refine (solidNode ?_ ?_).mono fun d ⟨kind, notExtra, below⟩ =>
    ⟨(steady_iff.2 ⟨?_, below⟩).wrap, ⟨d, rfl⟩, ?_⟩
  · simpa using ⟨steady.withField _, (Steady.tokenLeaf t).withField _, steady'.withField _⟩
  · simp [label_withField, (isLeaf_tokenLeaf t).structural, wrap_notExtra]
  · have noUnary : Kind.binary ≠ Kind.unary := by decide
    refine ⟨fun _ => ?_, fun unary => absurd (kind.symm.trans unary) noUnary⟩
    exact ⟨_, _, _, precedence, notExtra, rfl, by rw [label_withField], rfl, spelled,
      binds.withField _, binds'.withField _⟩
  · have noAssignment : Kind.binary ≠ Kind.assignment := by decide
    refine ⟨⟨rfl, rfl⟩, fun assignment => noAssignment (kind.symm.trans assignment), fun _ => ?_⟩
    exact ⟨precedence, (rank?_of_solidChildren notExtra).trans spelled, Nat.le_refl _⟩

end Checks

theorem balanced_steady (opening closing : Token.Kind) (s : Stream) :
    Checks source s (balanced opening closing) fun r => ∀ ts, r = some ts → AllSteady ts := by
  intro hs here
  obtain ⟨passes, steady⟩ :=
    Checks.collectSteady (Group.step opening closing) ⟨0, false, false⟩ hs here
  have eval : balanced opening closing s = if (collect (Group.step opening closing)
      ⟨0, false, false⟩ s).1.1.closed then (some (collect (Group.step opening closing)
      ⟨0, false, false⟩ s).1.2, (collect (Group.step opening closing) ⟨0, false, false⟩ s).2)
      else (none, s) := rfl
  unfold Gives
  rw [eval]
  split
  · exact ⟨passes, fun ts eq => Option.some.inj eq ▸ steady⟩
  · exact ⟨hs.refl, fun ts eq => by contradiction⟩

theorem index_steady (s : Stream) : Checks source s index fun r => AllSteady r.toList := by
  refine .bind (balanced_steady _ _ s) fun tokens s₁ steady => ?_
  cases tokens with
  | none => exact .pure allSteady_nil
  | some tokens =>
    exact .bind (.steadyNode (by decide) (steady tokens rfl)) fun d s₂ steady =>
      .pure (List.forall_mem_singleton.2 steady)

theorem variableParts_steady (className : Token) {opening closing : Draft} {inner : List Draft}
    (given : AllSteady (opening :: closing :: inner)) (s : Stream) :
    Checks source s (variableParts className opening inner closing) Steady := by
  simp only [allSteady_cons] at given
  obtain ⟨first, last, inside⟩ := given
  unfold variableParts
  split
  · rename_i kind known
    have plain : kind ∉ operatorKinds := by
      unfold userVariableKind? at known
      repeat' split at known
      all_goals cases known
      all_goals decide
    refine .bind (.steadyNode (by decide) inside) fun name s₁ steady => .steadyNode plain ?_
    simpa using ⟨Steady.keywordLeaf className, first, steady.withField _, last⟩
  · refine .bind (.steadyNode (by decide) inside) fun argument s₁ steady =>
      .steadyNode (by decide) ?_
    simpa using ⟨(Steady.tokenLeaf className).withField _, first, steady.withField _, last⟩

theorem pseudoContent_steady (s : Stream) : Checks source s pseudoContent Outcome.Steady := by
  have single {ds : List Draft} (given : AllSteady ds) (s : Stream) :
      Checks source s (do return .ok (← node Kind.pseudoContent ds)) Outcome.Steady :=
    .bind (.steadyNode (by decide) given) fun d s₁ steady => .pure steady
  refine .next (.pure allSteady_nil) fun className rest s₁ _ _ _ => .isAdjacent fun follows => ?_
  have alone : AllSteady [tokenLeaf className] := List.forall_mem_singleton.2 (.tokenLeaf _)
  cases follows with
  | false => exact single alone s₁
  | true =>
    refine .bind (balanced_steady _ _ s₁) fun group s₂ steady => ?_
    split
    · rename_i opening second third more
      have inside := steady _ rfl
      have last : ((third :: more).getLast?).getD third ∈ third :: more := by
        rw [List.getLast?_eq_some_getLast (List.cons_ne_nil third more), Option.getD_some]
        exact List.getLast_mem _
      have given : AllSteady (opening :: ((third :: more).getLast?).getD third ::
          (second :: third :: more).dropLast) := by
        refine (allSteady_cons _ _).2 ⟨inside _ (by simp), (allSteady_cons _ _).2 ⟨?_, ?_⟩⟩
        · exact inside _ (List.mem_cons_of_mem _ (List.mem_cons_of_mem _ last))
        · exact fun d hd =>
            inside d (List.mem_cons_of_mem _ ((List.dropLast_sublist _).subset hd))
      refine .bind (variableParts_steady className given s₂) fun parts s₃ steady =>
        .isAdjacent fun indexed => ?_
      cases indexed with
      | false => exact single (List.forall_mem_singleton.2 steady) s₃
      | true =>
        exact .bind (index_steady s₃) fun index s₄ behind =>
          single ((allSteady_cons _ _).2 ⟨steady, behind⟩) s₄
    · refine .pure ((allSteady_append [_] _).2 ⟨alone, ?_⟩)
      cases group with
      | none => exact allSteady_nil
      | some ts => exact steady ts rfl

/-- Parts of a variable that were read, whether or not more was expected. -/
def PartsSteady : Except (List Draft) (List Draft) → Prop
  | .ok parts | .error parts => AllSteady parts

theorem transformationStep_steady (children : List Draft) (s : Stream) (h : AllSteady children) :
    Checks source s (transformationStep children) (Sum.elim AllSteady PartsSteady) := by
  have further {d : Draft} (steady : d.Steady) : AllSteady (children ++ [d]) :=
    (allSteady_append _ _).2 ⟨h, List.forall_mem_singleton.2 steady⟩
  refine .peekKind (.pure h) fun t rest _ => ?_
  split
  · refine .bind (balanced_steady _ _ s) fun group s₁ steady => ?_
    cases group with
    | none => exact .pure h
    | some tokens =>
      exact .bind (.steadyNode (by decide) (steady tokens rfl)) fun d s₂ steady =>
        .pure (further steady)
  · refine .bind (index_steady s) fun n s₁ steady => ?_
    cases n with
    | none => exact .pure h
    | some n => exact .pure (further (steady n (by simp)))
  · exact .pure h

theorem steady_leaf {kind : String} (plain : kind ∉ operatorKinds) (named : Bool)
    (start stop : Nat) : AllSteady [Draft.leaf kind named start stop] :=
  List.forall_mem_singleton.2 (.leaf plain _ _ _)

theorem isOperand_wrap {d : Draft} {kind : String} (made : d.Steady ∧ d.label.kind = kind)
    (plain : kind ∉ [Kind.binary, Kind.assignment]) : Outcome.IsOperand (.ok (wrap d)) :=
  ⟨made.1.wrap, d, rfl, made.2 ▸ plain⟩

theorem pvarExpression_isOperand (dollar : Token) (s : Stream) :
    Checks source s (pvarExpression dollar) Outcome.IsOperand := by
  refine .next (.pure allSteady_nil) fun opening rest s₁ _ _ _ => ?_
  have start : AllSteady [Draft.leaf "$(" false dollar.start opening.stop] :=
    steady_leaf (by decide) _ _ _
  refine .isAdjacent fun follows => ?_
  cases follows with
  | false => exact .pure start
  | true =>
    refine .bind (pseudoContent_steady s₁) fun out s₂ steady => ?_
    cases out with
    | error consumed => exact .pure ((allSteady_append [_] _).2 ⟨start, steady⟩)
    | ok content =>
      have parts : AllSteady [Draft.leaf "$(" false dollar.start opening.stop, content] :=
        (allSteady_append [_] [_]).2 ⟨start, List.forall_mem_singleton.2 steady⟩
      refine .bind (.repeatUntil transformationStep_steady (fun _ steady => by exact steady) parts)
        fun out s₃ steady => ?_
      cases out with
      | error consumed => exact .pure steady
      | ok children =>
        refine .isAt (fun t rest tokens closes => ?_) (.pure steady)
        refine .bind .steadyLeaf fun leaf s₄ last => ?_
        exact .bind (.plainNode (by decide) ((allSteady_append _ _).2 ⟨steady, last⟩))
          fun d s₅ made => .pure (isOperand_wrap made (by decide))

theorem pseudoVariable_isOperand (s : Stream) :
    Checks source s pseudoVariable Outcome.IsOperand := by
  refine .next (.pure allSteady_nil) fun dollar rest s₁ _ _ _ => .isAdjacent fun grouped => ?_
  cases grouped with
  | true => exact pvarExpression_isOperand dollar s₁
  | false =>
    have sign : AllSteady [Draft.leaf "$" false dollar.start dollar.stop] :=
      steady_leaf (by decide) _ _ _
    refine .isAdjacent fun follows => ?_
    cases follows with
    | false => exact .pure sign
    | true =>
      refine .bind (pseudoContent_steady s₁) fun out s₂ steady => ?_
      cases out with
      | error consumed => exact .pure ((allSteady_append [_] _).2 ⟨sign, steady⟩)
      | ok content =>
        exact .bind (.plainNode (by decide)
          ((allSteady_append [_] [_]).2 ⟨sign, List.forall_mem_singleton.2 steady⟩))
          fun d s₃ made => .pure (isOperand_wrap made (by decide))

/-- The leaf of a unary operator. -/
theorem unaryOperator (t : Token) :
    (if t.kind == .identifier then keywordLeaf t else tokenLeaf t).Steady ∧
      (if t.kind == .identifier then keywordLeaf t else tokenLeaf t).label.extra = false := by
  split
  · exact ⟨.keywordLeaf t, (isLeaf_keywordLeaf t).structural⟩
  · exact ⟨.tokenLeaf t, (isLeaf_tokenLeaf t).structural⟩

/-- The readers of a level give steady drafts, and operands of unary operators hold no binary
one. -/
structure Level.Steady (source : List Char) (inner : Level) : Prop where
  expression : ∀ s, Script.Checks source s inner.expression Outcome.Steady
  operand : ∀ s, Script.Checks source s inner.operand Outcome.IsOperand

section Productions

variable {inner : Level} (h : inner.Steady source)
include h

theorem argument_steady {children : List Draft} (given : AllSteady children) (s : Stream) :
    Checks source s (argument inner children) fun o => ∀ ds, o = some ds → AllSteady ds := by
  refine .bind (h.expression s) fun out s₁ steady => ?_
  cases out with
  | ok value =>
    refine .pure fun ds eq => Option.some.inj eq ▸ (allSteady_append _ _).2 ⟨given, ?_⟩
    exact List.forall_mem_singleton.2 steady
  | error consumed =>
    refine .bind (.collectWhileSteady _) fun rest s₂ steady' => ?_
    have read (following : Option Token.Kind) : Checks source s₂
        (if (consumed ++ rest).isEmpty && following != some .comma && following != some .rParen
          then pure none
          else do
            let garbage ← errorNodes (consumed ++ rest)
            pure (some (children ++ garbage)))
        fun o => ∀ ds, o = some ds → AllSteady ds := by
      split
      · exact .pure fun ds eq => by contradiction
      · exact .bind (.steadyErrors ((allSteady_append _ _).2 ⟨steady, steady'⟩))
          fun garbage s₃ made => .pure fun ds eq =>
            Option.some.inj eq ▸ (allSteady_append _ _).2 ⟨given, made⟩
    exact .peekKind (read none) fun t _ _ => read (some t.kind)

theorem argumentStep_steady (children : List Draft) (s : Stream) (given : AllSteady children) :
    Checks source s (argumentStep inner children) (Sum.elim AllSteady Outcome.Steady) := by
  refine .bind (argument_steady h given s) fun o s₁ steady => ?_
  cases o with
  | none => exact .pure given
  | some children =>
    have steady := steady children rfl
    refine .peekKind (.pure steady) fun t rest tokens => ?_
    split
    · exact .bind .steadyLeaf fun leaf s₂ last => .pure ((allSteady_append _ _).2 ⟨steady, last⟩)
    · refine .bind .steadyLeaf fun leaf s₂ last => ?_
      exact .bind (.steadyNode (by decide) ((allSteady_append _ _).2 ⟨steady, last⟩))
        fun d s₃ steady => .pure steady
    · exact .pure steady

theorem argumentList_steady (s : Stream) :
    Checks source s (argumentList inner) Outcome.Steady := by
  refine .bind .steadyLeaf fun opening s₁ first => ?_
  refine .isAt (fun t rest tokens closing => ?_) ?_
  · refine .bind .steadyLeaf fun leaf s₂ last => ?_
    exact .bind (.steadyNode (by decide) ((allSteady_append _ _).2 ⟨first, last⟩))
      fun d s₃ steady => .pure steady
  · exact .repeatUntil (argumentStep_steady h) (fun _ steady => by exact steady) first

theorem call_isOperand {name : Draft} (steady : name.Steady) (s : Stream) :
    Checks source s (call inner name) Outcome.IsOperand := by
  have function := steady.wrap.withField Field.function
  refine .bind (argumentList_steady h s) fun out s₁ steady => ?_
  cases out with
  | error consumed => exact .pure ((allSteady_cons _ _).2 ⟨function, steady⟩)
  | ok arguments =>
    have arguments := Steady.withField (show arguments.Steady from steady) Field.arguments
    refine .bind (.plainNode (by decide) ?_)
      fun d s₂ made => .pure (isOperand_wrap made (by decide))
    simpa using ⟨function, arguments⟩

theorem parenthesized_steady (s : Stream) : Checks source s (parenthesized inner) fun out =>
    Outcome.Steady out ∧ ∀ d, out = .ok d → d.label.kind = Kind.parenthesized := by
  refine .bind .steadyLeaf fun opening s₁ first => ?_
  refine .bind (h.expression s₁) fun out s₂ steady => ?_
  cases out with
  | error consumed =>
    exact .pure ⟨(allSteady_append _ _).2 ⟨first, steady⟩, fun d eq => by contradiction⟩
  | ok value =>
    have inside : AllSteady (opening ++ [value]) :=
      (allSteady_append _ _).2 ⟨first, List.forall_mem_singleton.2 steady⟩
    refine .isAt (fun t rest tokens closing => ?_) (.pure ⟨inside, fun d eq => by contradiction⟩)
    refine .bind .steadyLeaf fun leaf s₃ last => ?_
    exact .bind (.plainNode (by decide) ((allSteady_append _ _).2 ⟨inside, last⟩))
      fun d s₄ ⟨steady, kind⟩ => .pure ⟨steady, fun d' eq => Except.ok.inj eq ▸ kind⟩

theorem primary_isOperand (s : Stream) :
    Checks source s (primary inner) Outcome.IsOperand := by
  have leaf {t : Token} (kind : t.kind = .string ∨ t.kind = .number ∨ t.kind = .identifier) :
      Outcome.IsOperand (.ok (wrap (tokenLeaf t))) := by
    refine isOperand_wrap ⟨.tokenLeaf t, rfl⟩ ?_
    have plain : ∀ k ∈ [Kind.string, Kind.number, Kind.identifier],
        k ∉ [Kind.binary, Kind.assignment] := by decide
    refine plain _ ?_
    rcases kind with kind | kind | kind
    all_goals simp [tokenLeaf, kind, Draft.leaf, Rose.label]
  refine .peek (.pure allSteady_nil) fun t rest tokens => ?_
  dsimp only
  split
  · refine .bind (parenthesized_steady h s) fun out s₁ read => ?_
    obtain ⟨steady, kind⟩ := read
    cases out with
    | ok group => exact .pure (isOperand_wrap ⟨steady, kind group rfl⟩ (by decide))
    | error consumed => exact .pure steady
  · exact pseudoVariable_isOperand s
  · rename_i word
    exact .take tokens fun s₁ _ _ => .pure (leaf (.inl word))
  · rename_i number
    exact .take tokens fun s₁ _ _ => .pure (leaf (.inr (.inl number)))
  · rename_i word
    exact .take tokens fun s₁ _ _ => .isAt (fun _ _ _ _ => call_isOperand h (.tokenLeaf t) s₁)
      (.pure (leaf (.inr (.inr word))))
  · exact .pure allSteady_nil

theorem unary_isOperand (s : Stream) : Checks source s (unary inner) Outcome.IsOperand := by
  refine .peek (.pure allSteady_nil) fun t rest tokens => .peekSecondKind ?_
  split
  · have operator := unaryOperator t
    generalize (if t.kind == .identifier then keywordLeaf t else tokenLeaf t) = leaf at operator ⊢
    refine .take tokens fun s₁ _ _ => .bind (h.operand s₁) fun out s₂ read => ?_
    cases out with
    | error consumed => exact .pure ((allSteady_cons _ _).2 ⟨operator.1, read⟩)
    | ok value =>
      exact .bind (.unaryNode operator read) fun d s₃ made =>
        .pure (isOperand_wrap made (by decide))
  · exact primary_isOperand h s

end Productions

theorem chainStep_binds {operand : Reader Outcome} {precedence : Nat}
    (h : ∀ s, Checks source s operand (Outcome.Binds (precedence + 1))) (left : Draft) (s : Stream)
    (read : Outcome.Binds precedence (.ok left)) :
    Checks source s (chainStep operand precedence left)
      (Sum.elim (fun d => Outcome.Binds precedence (.ok d)) (Outcome.Binds precedence)) := by
  refine .peek (.pure read) fun t rest tokens => ?_
  dsimp only
  split
  · exact .pure read
  · rename_i same
    have known : precedence? t.kind = some precedence := by simpa using same
    refine .take tokens fun s₁ _ _ => .bind (h s₁) fun out s₂ read' => ?_
    cases out with
    | error consumed =>
      exact .pure ((allSteady_append [_, _] _).2 ⟨by simpa using ⟨read.1, .tokenLeaf t⟩, read'⟩)
    | ok right =>
      exact .bind (.binaryNode known read read') fun d s₃ made => .pure made

theorem chain_binds {operand : Reader Outcome}
    (h : ∀ s, Checks source s operand Outcome.IsOperand) {levels : Nat} (le : levels ≤ tightest)
    (s : Stream) :
    Checks source s (chain operand levels) (Outcome.Binds (tightest + 1 - levels)) := by
  induction levels generalizing s with
  | zero => exact (h s).mono fun out read => read.binds _
  | succ levels ih =>
    have next : tightest + 1 - levels = tightest - levels + 1 := by omega
    have ih (s : Stream) := next ▸ ih (by omega) s
    refine .bind (ih s) fun out s₁ read => ?_
    rw [Nat.add_sub_add_right]
    cases out with
    | error consumed => exact .pure read
    | ok left =>
      exact .repeatUntil (chainStep_binds ih) (fun _ read => by exact read)
        (read.mono (Nat.le_succ _))

section Productions

variable {inner : Level} (h : inner.Steady source)
include h

theorem binary_binds (s : Stream) : Checks source s (binary inner) (Outcome.Binds 1) :=
  chain_binds (unary_isOperand h) (Nat.le_refl _) s

theorem assignment_steady (s : Stream) :
    Checks source s (assignment inner) Outcome.Steady := by
  refine .bind (binary_binds h s) fun out s₁ read => ?_
  cases out with
  | error consumed => exact .pure read
  | ok left =>
    have left := read.1.unwrap.withField Field.left
    refine .isAt (fun t rest tokens sign => ?_) (.pure read.1)
    refine .bind .steadyLeaf fun leaf s₂ sign => .bind (h.expression s₂) fun out s₃ steady => ?_
    cases out with
    | ok right =>
      have right := Steady.withField (show right.Steady from steady) Field.right
      refine .bind (.steadyNode (by decide) ?_) fun d s₄ steady => .pure steady.wrap
      simpa using ⟨left, sign, right⟩
    | error consumed =>
      refine .bind (.steadyErrors steady) fun garbage s₄ right => ?_
      refine .bind (.steadyNode (by decide) ?_) fun d s₅ steady => .pure steady.wrap
      simpa using ⟨left, sign, right.withField Field.right⟩

end Productions

end RouteScript.Script
