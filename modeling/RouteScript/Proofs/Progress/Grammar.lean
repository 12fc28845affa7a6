import RouteScript.Proofs.Progress.Turns
/-!
# Every item goes on

All readers of the grammar halt at every depth of nesting. A turn of a loop in an expression takes a
group, a comma or an operator; what stands around these may be empty or malformed. So reading a
script ends: no loop in it needs a bound on its rounds, and each item, at the top of the script or
in a block, takes at least the token that it starts with.
-/
namespace RouteScript.Script

open Draft

theorem index_halts (s : Stream) : Halts index s := by
  refine .bind (balanced_halts _ _ s) fun tokens s₁ => ?_
  cases tokens with
  | none => exact .pure _ _
  | some tokens => exact .bind (node_halts _ _ _) fun _ _ => .pure _ _

theorem variableParts_halts (className : Token) (opening : Draft) (inner : List Draft)
    (closing : Draft) (s : Stream) :
    Halts (variableParts className opening inner closing) s := by
  unfold variableParts
  split
  all_goals exact .bind (node_halts _ _ _) fun _ _ => node_halts _ _ _

theorem pseudoContent_halts (s : Stream) : Halts pseudoContent s := by
  refine .bind (.step .next s) fun className s₁ => ?_
  cases className with
  | none => exact .pure _ _
  | some className =>
    refine .bind (isAdjacent_halts _ _ _) fun adjacent s₂ => ?_
    cases adjacent with
    | false => exact .bind (node_halts _ _ _) fun _ _ => .pure _ _
    | true =>
      refine .bind (balanced_halts _ _ _) fun group s₃ => ?_
      dsimp only
      split
      · refine .bind (variableParts_halts _ _ _ _ _) fun parts s₄ => ?_
        refine .bind (isAdjacent_halts _ _ _) fun indexed s₅ => ?_
        cases indexed with
        | false => exact .bind (node_halts _ _ _) fun _ _ => .pure _ _
        | true =>
          refine .bind (index_halts _) fun index s₆ => ?_
          exact .bind (node_halts _ _ _) fun _ _ => .pure _ _
      · exact .pure _ _

theorem transformationStep_halts (children : List Draft) (s : Stream) :
    Halts (transformationStep children) s := by
  refine .bind (.step .peekKind s) fun kind s₁ => ?_
  split
  · refine .bind (balanced_halts _ _ _) fun group s₂ => ?_
    cases group with
    | none => exact .pure _ _
    | some tokens => exact .bind (node_halts _ _ _) fun _ _ => .pure _ _
  · refine .bind (index_halts _) fun n s₂ => ?_
    cases n <;> exact .pure _ _
  · exact .pure _ _

theorem pvarExpression_halts (dollar : Token) (s : Stream) : Halts (pvarExpression dollar) s := by
  refine .bind (.step .next s) fun opening s₁ => ?_
  cases opening with
  | none => exact .pure _ _
  | some opening =>
    refine .bind (isAdjacent_halts _ _ _) fun adjacent s₂ => ?_
    cases adjacent with
    | false => exact .pure _ _
    | true =>
      refine .bindGives (pseudoContent_halts s₂)
        (fun hs => pseudoContent_lossless s₂ hs solid_nil) fun out s₃ ⟨_, solid, _⟩ => ?_
      cases out with
      | error consumed => exact .pure _ _
      | ok content =>
        have start : Solid [leaf "$(" false dollar.start opening.stop, content] := by
          rw [solid_cons, solids_leaf (by decide)]
          exact ⟨by simp, solid⟩
        refine .bind (.repeatUntil transformationStep_rounds.advancing
          (fun children s _ => transformationStep_halts children s) ⟨trivial, start⟩ s₃)
          fun out s₄ => ?_
        cases out with
        | error consumed => exact .pure _ _
        | ok children =>
          refine .isAt (fun _ _ _ _ => ?_) (.pure _ _)
          refine .bind (nextLeaf_halts _) fun closing s₅ => ?_
          exact .bind (node_halts _ _ _) fun _ _ => .pure _ _

theorem pseudoVariable_halts (s : Stream) : Halts pseudoVariable s := by
  refine .bind (.step .next s) fun dollar s₁ => ?_
  cases dollar with
  | none => exact .pure _ _
  | some dollar =>
    refine .bind (isAdjacent_halts _ _ _) fun adjacent s₂ => ?_
    cases adjacent with
    | true => exact pvarExpression_halts dollar s₂
    | false =>
      refine .bind (isAdjacent_halts _ _ _) fun adjacent' s₃ => ?_
      cases adjacent' with
      | false => exact .pure _ _
      | true =>
        refine .bind (pseudoContent_halts _) fun out s₄ => ?_
        cases out with
        | ok content => exact .bind (node_halts _ _ _) fun _ _ => .pure _ _
        | error consumed => exact .pure _ _

/-- Every reader of a level halts. -/
structure Level.Halts (inner : Level) : Prop where
  statement : ∀ s, Script.Halts inner.statement s
  expression : ∀ s, Script.Halts inner.expression s
  operand : ∀ s, Script.Halts inner.operand s

section Expressions

variable {inner : Level} (lossless : inner.Lossless) (h : inner.Halts)
include h

theorem argument_halts (children : List Draft) (s : Stream) :
    Halts (argument inner children) s := by
  refine .bind (h.expression s) fun out s₁ => ?_
  cases out with
  | ok value => exact .pure _ _
  | error consumed =>
    refine .bind (collectWhile_halts _ _) fun rest s₂ => ?_
    refine .bind (.step .peekKind _) fun following s₃ => ?_
    split
    · exact .pure _ _
    · exact .bind (errorNodes_halts _ _) fun _ _ => .pure _ _

theorem argumentStep_halts (children : List Draft) (s : Stream) :
    Halts (argumentStep inner children) s := by
  refine .bind (argument_halts h children s) fun read s₁ => ?_
  cases read with
  | none => exact .pure _ _
  | some children =>
    refine .bind (.step .peekKind _) fun kind s₂ => ?_
    split
    · exact .bind (nextLeaf_halts _) fun _ _ => .pure _ _
    · refine .bind (nextLeaf_halts _) fun closing s₃ => ?_
      exact .bind (node_halts _ _ _) fun _ _ => .pure _ _
    · exact .pure _ _

include lossless

theorem argumentList_halts (s : Stream) : Halts (argumentList inner) s := by
  have opening : s.Sound → Gives nextLeaf s fun leaves _ => Solid leaves := fun hs =>
    (nextLeaf_lossless s hs solid_nil).2.1
  refine .bindGives (nextLeaf_halts s) opening fun leaves s₁ solid => ?_
  refine .isAt (fun _ _ _ _ => ?_) ?_
  · refine .bind (nextLeaf_halts _) fun closing s₂ => ?_
    exact .bind (node_halts _ _ _) fun _ _ => .pure _ _
  · exact .repeatUntil (argumentStep_rounds lossless).advancing
      (fun children s _ => argumentStep_halts h children s) ⟨trivial, solid⟩ s₁

theorem call_halts (name : Draft) (s : Stream) : Halts (call inner name) s := by
  refine .bind (argumentList_halts lossless h s) fun out s₁ => ?_
  cases out with
  | ok arguments => exact .bind (node_halts _ _ _) fun _ _ => .pure _ _
  | error consumed => exact .pure _ _

omit lossless in
theorem parenthesized_halts (s : Stream) : Halts (parenthesized inner) s := by
  refine .bind (nextLeaf_halts s) fun opening s₁ => .bind (h.expression s₁) fun out s₂ => ?_
  cases out with
  | error consumed => exact .pure _ _
  | ok value =>
    refine .isAt (fun _ _ _ _ => ?_) (.pure _ _)
    refine .bind (nextLeaf_halts _) fun closing s₃ => ?_
    exact .bind (node_halts _ _ _) fun _ _ => .pure _ _

theorem primary_halts (s : Stream) : Halts (primary inner) s := by
  refine .bind (.step .peek s) fun t s₁ => ?_
  cases t with
  | none => exact .pure _ _
  | some t =>
    dsimp only
    split
    · refine .bind (parenthesized_halts h _) fun out s₂ => ?_
      cases out <;> exact .pure _ _
    · exact pseudoVariable_halts _
    · exact .bind (.step .next _) fun _ _ => .pure _ _
    · exact .bind (.step .next _) fun _ _ => .pure _ _
    · refine .bind (.step .next _) fun _ s₂ => ?_
      exact .isAt (fun _ _ _ _ => call_halts lossless h _ s₂) (.pure _ _)
    · exact .pure _ _

theorem unary_halts (s : Stream) : Halts (unary inner) s := by
  refine .bind (.step .peek s) fun t s₁ => ?_
  cases t with
  | none => exact .pure _ _
  | some t =>
    refine .bind (.step .peekSecondKind _) fun following s₂ => ?_
    dsimp only
    split
    · refine .bind (.step .next _) fun _ s₃ => .bind (h.operand s₃) fun out s₄ => ?_
      cases out with
      | ok value => exact .bind (node_halts _ _ _) fun _ _ => .pure _ _
      | error consumed => exact .pure _ _
    · exact primary_halts lossless h s₂

section Operators

omit lossless h

variable {operand : Reader Outcome} (accounts : ∀ s, Lossless s [] operand Outcome.held)
  (halts : ∀ s, Halts operand s)
include halts

theorem chainStep_halts (precedence : Nat) (left : Draft) (s : Stream) :
    Halts (chainStep operand precedence left) s := by
  refine .bind (.step .peek s) fun t s₁ => ?_
  cases t with
  | none => exact .pure _ _
  | some t =>
    dsimp only
    split
    · exact .pure _ _
    · refine .bind (.step .next _) fun _ s₂ => .bind (halts s₂) fun out s₃ => ?_
      cases out with
      | ok right => exact .bind (node_halts _ _ _) fun _ _ => .pure _ _
      | error consumed => exact .pure _ _

include accounts

theorem chain_halts (levels : Nat) (s : Stream) : Halts (chain operand levels) s := by
  induction levels generalizing s with
  | zero => exact halts s
  | succ levels ih =>
    have inner := chain_lossless accounts levels
    refine .bindGives (ih s) (fun hs => inner s hs solid_nil) fun out s₁ ⟨_, solid, _⟩ => ?_
    cases out with
    | error consumed => exact .pure _ _
    | ok left =>
      exact .repeatUntil (chainStep_rounds inner _).advancing
        (fun left s _ => chainStep_halts ih _ left s) ⟨trivial, solid⟩ s₁

end Operators

theorem binary_halts (s : Stream) : Halts (binary inner) s :=
  chain_halts (unary_lossless lossless) (unary_halts lossless h) _ s

theorem assignment_halts (s : Stream) : Halts (assignment inner) s := by
  refine .bind (binary_halts lossless h s) fun out s₁ => ?_
  cases out with
  | error consumed => exact .pure _ _
  | ok left =>
    refine .isAt (fun _ _ _ _ => ?_) (.pure _ _)
    refine .bind (nextLeaf_halts _) fun sign s₂ => .bind (h.expression s₂) fun out s₃ => ?_
    cases out with
    | ok right => exact .bind (node_halts _ _ _) fun _ _ => .pure _ _
    | error consumed =>
      refine .bind (errorNodes_halts _ _) fun right s₄ => ?_
      exact .bind (node_halts _ _ _) fun _ _ => .pure _ _

end Expressions

theorem skipStatementRest_halts (s : Stream) : Halts skipStatementRest s :=
  .bind (collect_halts _ _ s) fun _ _ => .pure _ _

theorem skipNestedRegion_halts (s : Stream) : Halts skipNestedRegion s :=
  .bind (collect_halts _ _ s) fun _ _ => .pure _ _

theorem finishStatement_halts (children : List Draft) (s : Stream) :
    Halts (finishStatement children) s := by
  refine .bind (.step .peek s) fun t s₁ => ?_
  cases t with
  | none => exact node_halts _ _ _
  | some t =>
    dsimp only
    split
    · exact .bind (nextLeaf_halts _) fun _ _ => node_halts _ _ _
    · split
      · exact node_halts _ _ _
      · refine .bind (skipStatementRest_halts _) fun rest s₂ => ?_
        refine .bind (errorNodes_halts _ _) fun garbage s₃ => ?_
        exact .bind (optionalLeaf_halts _ _) fun _ _ => node_halts _ _ _

section Statements

variable {inner : Level} (lossless : inner.Lossless) (h : inner.Halts)
include h

theorem blockItem_halts (s : Stream) : Halts (blockItem inner) s :=
  .isAt (fun _ _ tokens opens => markup_halts tokens opens) (h.statement s)

theorem blockStep_halts (opening : Token) (children : List Draft) (s : Stream) :
    Halts (blockStep inner opening children) s := by
  refine .bind (.step .peekKind s) fun kind s₁ => ?_
  split
  · exact .bind (.step (.flush children) _) fun _ _ => .pure _ _
  · refine .bind (.step .next _) fun close s₂ => ?_
    cases close with
    | none => exact .pure _ _
    | some close => exact .bind (.step (.place children _) _) fun _ _ => .pure _ _
  · refine .bind (blockItem_halts h _) fun item s₂ => ?_
    exact .bind (.step (.place children item) _) fun _ _ => .pure _ _

include lossless

theorem compound_halts (s : Stream) : Halts (compound inner) s := by
  refine .bind (.step .next s) fun opening s₁ => ?_
  cases opening with
  | none => exact node_halts _ _ _
  | some opening =>
    refine .bind (.repeatUntil (blockStep_advancing lossless opening)
      (fun children s _ => blockStep_halts h opening children s) ⟨[], rfl⟩ s₁) fun _ _ => ?_
    exact node_halts _ _ _

theorem body_halts (field : String) (s : Stream) : Halts (body inner field) s := by
  refine .bind (.step .peekKind s) fun kind s₁ => ?_
  split
  · exact .pure _ _
  · exact .bind (compound_halts lossless h _) fun _ _ => .pure _ _
  · exact .bind (h.statement _) fun _ _ => .pure _ _

omit lossless in
theorem condition_halts (s : Stream) : Halts (condition inner) s := by
  refine .isAt (fun _ _ _ _ => ?_) ?_
  · refine .bind (parenthesized_halts h s) fun out s₁ => ?_
    cases out with
    | ok group => exact .pure _ _
    | error consumed =>
      refine .bind (collect_halts _ _ _) fun rest s₂ => ?_
      exact .bind (errorNode_halts _ _) fun _ _ => .pure _ _
  · exact .bind (collectWhile_halts _ s) fun _ _ => errorNodes_halts _ _

theorem ifStatement_halts (s : Stream) : Halts (ifStatement inner) s := by
  refine .bind (nextKeyword_halts s) fun word s₁ => .bind (condition_halts h s₁) fun test s₂ => ?_
  refine .bind (body_halts lossless h _ s₂) fun consequence s₃ => ?_
  refine .bind (isAtWord_halts s₃ _) fun otherwise s₄ => ?_
  cases otherwise with
  | false => exact node_halts _ _ _
  | true =>
    refine .bind (nextKeyword_halts s₄) fun otherwise s₅ => ?_
    exact .bind (body_halts lossless h _ s₅) fun _ _ => node_halts _ _ _

theorem whileStatement_halts (s : Stream) : Halts (whileStatement inner) s := by
  refine .bind (nextKeyword_halts s) fun word s₁ => .bind (condition_halts h s₁) fun test s₂ => ?_
  exact .bind (body_halts lossless h _ s₂) fun _ _ => node_halts _ _ _

theorem switchStatement_halts (s : Stream) : Halts (switchStatement inner) s := by
  refine .bind (nextKeyword_halts s) fun word s₁ => .bind (condition_halts h s₁) fun test s₂ => ?_
  refine .isAt (fun _ _ _ _ => ?_) ?_
  · exact .bind (compound_halts lossless h s₂) fun _ _ => node_halts _ _ _
  · refine .bind (skipStatementRest_halts s₂) fun rest s₃ => ?_
    exact .bind (errorNodes_halts _ _) fun _ _ => node_halts _ _ _

theorem caseStatement_halts (s : Stream) : Halts (caseStatement inner) s := by
  refine .bind (isAtWord_halts s _) fun isDefault s₁ => ?_
  refine .bind (nextKeyword_halts s₁) fun word s₂ => ?_
  cases isDefault with
  | true => exact .bind (optionalLeaf_halts _ _) fun _ _ => node_halts _ _ _
  | false =>
    refine .bind (binary_halts lossless h s₂) fun out s₃ => ?_
    cases out with
    | ok value => exact .bind (optionalLeaf_halts _ _) fun _ _ => node_halts _ _ _
    | error consumed =>
      refine .bind (errorNodes_halts _ _) fun garbage s₄ => ?_
      exact .bind (optionalLeaf_halts _ _) fun _ _ => node_halts _ _ _

omit lossless in
theorem returnStatement_halts (s : Stream) : Halts (returnStatement inner) s := by
  refine .bind (nextKeyword_halts s) fun word s₁ => .bind (.step .peek s₁) fun t s₂ => ?_
  cases t with
  | none => exact node_halts _ _ _
  | some t =>
    dsimp only
    split
    · exact node_halts _ _ _
    · refine .bind (h.expression s₂) fun out s₃ => ?_
      cases out with
      | ok value => exact node_halts _ _ _
      | error consumed => exact .bind (errorNodes_halts _ _) fun _ _ => node_halts _ _ _

theorem wordStatement_halts {word : String} {following : Option Token.Kind} {read : Reader Draft}
    (found : wordStatement? inner word following = some read) (s : Stream) : Halts read s := by
  have statement {r : Reader Draft} (hr : Halts r s) :
      Halts (do node Kind.statement [← r]) s := .bind hr fun _ _ => node_halts _ _ _
  have finished {r : Reader Draft} (hr : Halts r s) : Halts (do finishStatement [← r]) s :=
    .bind hr fun _ _ => finishStatement_halts _ _
  unfold wordStatement? at found
  repeat' split at found
  all_goals cases found
  · exact statement (ifStatement_halts lossless h s)
  · exact statement (switchStatement_halts lossless h s)
  · exact statement (whileStatement_halts lossless h s)
  · exact statement (caseStatement_halts lossless h s)
  · exact statement (caseStatement_halts lossless h s)
  · exact finished (returnStatement_halts h s)
  · refine .bind (nextKeyword_halts s) fun word s₁ => ?_
    exact .bind (node_halts _ _ _) fun _ _ => finishStatement_halts _ _

omit lossless in
theorem expressionStatement_halts (s : Stream) : Halts (expressionStatement inner) s := by
  refine .bind (h.expression s) fun out s₁ => ?_
  cases out with
  | ok value => exact finishStatement_halts _ _
  | error consumed =>
    have finished (consumed : List Draft) (s₂ : Stream) : Halts (do
        let rest ← skipStatementRest
        finishStatement [← errorNode (consumed ++ rest)]) s₂ :=
      .bind (skipStatementRest_halts s₂) fun rest s₃ =>
        .bind (errorNode_halts s₃ _) fun _ _ => finishStatement_halts _ _
    dsimp only
    split
    · exact .bind (nextLeaf_halts s₁) fun leaf s₂ => finished leaf s₂
    · exact finished consumed s₁

theorem statement_halts (s : Stream) : Halts (statement inner) s := by
  refine .bind (.step .peek s) fun t s₁ => ?_
  cases t with
  | none => exact node_halts _ _ _
  | some t =>
    refine .bind (.step .peekSecondKind s₁) fun following s₂ => ?_
    split
    · rename_i read found
      split at found
      · exact wordStatement_halts lossless h found s₂
      · contradiction
    · split
      · exact .bind (compound_halts lossless h s₂) fun _ _ => node_halts _ _ _
      · exact .bind (nextLeaf_halts s₂) fun _ _ => node_halts _ _ _
      · exact expressionStatement_halts h s₂

end Statements

theorem deepStatement_halts (s : Stream) : Halts deepStatement s := by
  have finished (consumed : List Draft) (s₂ : Stream) :
      Halts (do finishStatement (← errorNodes consumed)) s₂ :=
    .bind (errorNodes_halts s₂ consumed) fun _ _ => finishStatement_halts _ _
  refine .bind (skipNestedRegion_halts s) fun region s₁ => ?_
  dsimp only
  split
  · refine .isAt (fun _ _ _ _ => finished [] s₁) ?_
    exact .bind (nextLeaf_halts s₁) fun leaf s₂ => finished leaf s₂
  · exact finished region s₁

theorem level_halts (remaining : Nat) : (level remaining).Halts := by
  induction remaining with
  | zero =>
    exact ⟨deepStatement_halts, fun s => .bind (skipNestedRegion_halts s) fun _ _ => .pure _ _,
      fun s => .bind (skipNestedRegion_halts s) fun _ _ => .pure _ _⟩
  | succ remaining ih =>
    have lossless := level_lossless remaining
    exact ⟨statement_halts lossless ih, assignment_halts lossless ih, unary_halts lossless ih⟩

theorem topLevel_halts : topLevel.Halts := level_halts maxNesting

theorem stringItem_halts (kind field : String) (s : Stream) :
    Halts (stringItem kind field) s := by
  refine .bind (nextKeyword_halts s) fun word s₁ => .bind (.step .peek s₁) fun t s₂ => ?_
  cases t with
  | none => exact errorNode_halts _ _
  | some t =>
    dsimp only
    split
    · refine .bind (nextLeaf_halts s₂) fun value s₃ => ?_
      exact .bind (optionalLeaf_halts _ _) fun _ _ => node_halts _ _ _
    · exact .bind (skipStatementRest_halts s₂) fun _ _ => errorNode_halts _ _

theorem modParam_halts (s : Stream) : Halts modParam s := by
  refine .bind (nextKeyword_halts s) fun word s₁ => ?_
  refine .bind (argumentList_halts topLevel_lossless topLevel_halts s₁) fun out s₂ => ?_
  cases out with
  | ok arguments => exact .bind (optionalLeaf_halts _ _) fun _ _ => node_halts _ _ _
  | error consumed => exact .bind (skipStatementRest_halts s₂) fun _ _ => errorNode_halts _ _

/-- A node over what was collected, if anything was. -/
theorem labelled_halts {α : Type} (kind field : String) (words : List Draft)
    {k : List Draft → Reader α} (rest : ∀ ds s', Halts (k ds) s') (s : Stream) :
    Halts (do
      let ds ← if words.isEmpty then pure [] else pure [(← node kind words).withField field]
      k ds) s := by
  dsimp only
  split
  · exact rest [] s
  · exact .bind (node_halts s kind words) fun d s₁ => rest [d.withField field] s₁

theorem routeName_halts (s : Stream) : Halts routeName s := by
  refine .bind (nextLeaf_halts s) fun opening s₁ => ?_
  refine .bind (collectWhile_halts _ s₁) fun words s₂ => ?_
  refine labelled_halts _ _ words (fun name s₃ => ?_) s₂
  exact .isAt (fun _ _ _ _ => .bind (nextLeaf_halts s₃) fun _ _ => .pure _ _) (.pure _ _)

theorem routeBody_halts (children : List Draft) (s : Stream) : Halts (routeBody children) s := by
  refine .isAt (fun _ _ _ _ => ?_) ?_
  · exact .bind (compound_halts topLevel_lossless topLevel_halts s) fun _ _ => node_halts _ _ _
  · exact .bind (skipStatementRest_halts s) fun _ _ => errorNode_halts _ _

theorem routeDefinition_halts (s : Stream) : Halts routeDefinition s := by
  refine .bind (.step .next s) fun type s₁ => .isAt (fun _ _ _ _ => ?_) (routeBody_halts _ s₁)
  refine .bind (routeName_halts s₁) fun ⟨name, closed⟩ s₂ => ?_
  cases closed with
  | true => exact routeBody_halts _ s₂
  | false => exact .bind (skipStatementRest_halts s₂) fun _ _ => errorNode_halts _ _

theorem globalAssignment_halts (s : Stream) : Halts globalAssignment s := by
  refine .bind (nextLeaf_halts s) fun key s₁ => .bind (nextLeaf_halts s₁) fun sign s₂ => ?_
  refine .bind (collectWhile_halts _ s₂) fun words s₃ => ?_
  refine labelled_halts _ _ words (fun value s₄ => ?_) s₃
  refine .bind (.step .peek s₄) fun t s₅ => ?_
  cases t with
  | none => exact node_halts _ _ _
  | some t =>
    dsimp only
    split
    · exact .bind (nextLeaf_halts s₅) fun _ _ => node_halts _ _ _
    · exact node_halts _ _ _

theorem wordItem_halts (word : String) (following : Option Token.Kind) (s : Stream) :
    Halts (wordItem word following) s := by
  unfold wordItem
  repeat' split
  · exact stringItem_halts _ _ s
  · exact stringItem_halts _ _ s
  · exact stringItem_halts _ _ s
  · exact modParam_halts s
  · exact routeDefinition_halts s
  · exact globalAssignment_halts s
  · exact topLevel_halts.statement s

theorem topLevelItem_halts {s : Stream} {t : Token} {rest : List Token}
    (tokens : s.tokens = t :: rest) : Halts (topLevelItem t) s := by
  unfold topLevelItem
  split
  · exact .bind (.step .peekSecondKind s) fun following s₁ => wordItem_halts _ following s₁
  · rename_i opens
    exact markup_halts tokens opens
  · exact .bind (nextLeaf_halts s) fun _ _ => errorNode_halts _ _
  · exact topLevel_halts.statement s

theorem itemStep_halts (children : List Draft) (s : Stream) : Halts (itemStep children) s := by
  refine .peek (fun _ => ?_) fun t rest tokens => ?_
  · exact .bind (.step (.flush children) s) fun _ _ => .pure _ _
  · refine .bind (topLevelItem_halts tokens) fun item s₁ => ?_
    exact .bind (.step (.place children item) s₁) fun _ _ => .pure _ _

theorem items_halts (s : Stream) : Halts items s :=
  .repeatUntil itemStep_advancing (fun children s _ => itemStep_halts children s) trivial s

/-- A reader that accounts for its item has gone on. -/
theorem further_of_lossless {r : Reader Draft} {s : Stream} (hs : s.Sound)
    (h : Lossless s [] r fun d => [d]) : s.Further (r s).2 := by
  obtain ⟨⟨conserves, _⟩, solid, _⟩ := h hs solid_nil
  exact ⟨conserves.passes, conserves.further
    (List.length_pos_iff.2 (solid.solidsOf_ne_nil (by simp)))⟩

/--
Reading the items of a text ends without a bound on any loop, and every turn behind which a loop
went on took something. Wherever the reading stands, an item of the script ends further on, and so
does an item of a block with any number of nestings left.
-/
theorem items_finish (text : List Char) :
    (∃ turns,
      Finishes items (.ofText text) (items (.ofText text)).1 (items (.ofText text)).2 turns ∧
        ∀ turn ∈ turns, turn.GoesOn text) ∧
    ∀ s : Stream, s.Sound → s.source = text → ∀ t, s.tokens.head? = some t →
      s.Further (topLevelItem t s).2 ∧
      ∀ remaining, s.Further (blockItem (level remaining) s).2 := by
  refine ⟨(items_halts _ (whole_ofText text).settle.sound).2, fun s hs _ t head => ?_⟩
  obtain ⟨rest, tokens⟩ := List.head?_eq_some_iff.1 head
  exact ⟨further_of_lossless hs (topLevelItem_lossless tokens), fun remaining =>
    further_of_lossless hs (blockItem_lossless (level_lossless remaining) tokens)⟩

/-- Four tokens, of which the last is a string without an end. Behind the markup there are five. -/
theorem items_finish_relexed :
    let text := "<a>'</a> b c d; '".toList
    let s := Stream.ofText text
    let after := (topLevelItem ⟨.lt, ['<'], 0, true⟩ s).2
    s.tokens.length < after.tokens.length ∧ s.Further after ∧
      ∃ turns, Finishes items s (items s).1 (items s).2 turns ∧
        ∀ turn ∈ turns, turn.GoesOn text := by
  intro text s after
  obtain ⟨finishes, progress⟩ := items_finish text
  have sound : s.Sound := (whole_ofText text).settle.sound
  exact ⟨by decide, (progress s sound rfl _ (by decide)).1, finishes⟩

end RouteScript.Script
