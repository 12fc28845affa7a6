import RouteScript.Proofs.Formed.Rules
import RouteScript.Proofs.Lossless.Expression
/-!
# Expressions are well formed

What was read is formed, the names of its variables among it, and so is what was taken before a
reading failed.
-/
namespace RouteScript.Script

open Draft

variable {source : List Char}

/-- An expression and what was taken before one failed are formed. -/
def Outcome.Formed (source : List Char) (out : Outcome) : Prop := AllFormed source out.held

@[simp] theorem Outcome.formed_ok (d : Draft) :
    Outcome.Formed source (.ok d) ↔ d.Formed source := by
  simp [Outcome.Formed]

@[simp] theorem Outcome.formed_error (ds : List Draft) :
    Outcome.Formed source (.error ds) ↔ AllFormed source ds := Iff.rfl

theorem balanced_builds (opening closing : Token.Kind) :
    Builds source (balanced opening closing) fun r => ∀ ds, r = some ds → LeavesIn source ds := by
  intro s hs here
  have eval : balanced opening closing s = if (collect (Group.step opening closing)
      ⟨0, false, false⟩ s).1.1.closed then (some (collect (Group.step opening closing)
      ⟨0, false, false⟩ s).1.2, (collect (Group.step opening closing) ⟨0, false, false⟩ s).2)
      else (none, s) := rfl
  obtain ⟨passes, leaves⟩ := Builds.collect (Group.step opening closing) ⟨0, false, false⟩ s hs here
  unfold Gives
  rw [eval]
  split
  · exact ⟨passes, fun ds eq => Option.some.inj eq ▸ leaves⟩
  · exact ⟨hs.refl, fun ds eq => by contradiction⟩

theorem index_builds : Builds source index fun r => AllFormed source r.toList := by
  refine .bind (balanced_builds _ _) fun tokens leaves => ?_
  cases tokens with
  | none => exact .pure allFormed_nil
  | some tokens =>
    exact .bind (.node (by decide) (leaves tokens rfl).formed) fun d made =>
      .pure (by simpa using made)

/-- The name of a variable is a node over the leaves in the parentheses. -/
theorem variableName_builds {inner : List Draft} (leaves : LeavesIn source inner) :
    Builds source (node Kind.variableName inner) fun d =>
      d.Formed source ∧ d.label.kind = Kind.variableName := by
  refine .bind (.absorb inner) fun all ⟨inside, notExtra, _⟩ => .pure ⟨formed_node.2 ⟨⟨?_, ?_, ?_⟩,
    Builds.formed_absorbed leaves.formed inside⟩, rfl⟩
  · exact fun block => absurd block (by decide : Kind.variableName ≠ Kind.compoundStatement)
  · have all_stripped : inner.filter (fun c => !c.label.extra) = inner :=
      List.filter_eq_self.2 fun d hd => by simp [(leaves.label d hd).1]
    exact fun _ => notExtra.trans all_stripped ▸ leaves
  · exact fun user => absurd user (by decide : Kind.variableName ∉ userKinds)

/-- The one child of a user variable that has the role of the name is a name. -/
theorem userVariable_builds {kind : String} (user : kind ∈ userKinds) (className : Token)
    {opening name closing : Draft} (ends : LeavesIn source [opening] ∧ LeavesIn source [closing])
    (made : name.Formed source ∧ name.label.kind = Kind.variableName) :
    Builds source (node kind [keywordLeaf className, opening, name.withField Field.name, closing])
      (Formed source) := by
  obtain ⟨_, _, keyword, _⟩ := keywordLeaf_eq className
  have unnamed : (keywordLeaf className).label.field = none := by rw [keyword]; rfl
  have first := (ends.1.label opening (by simp)).2
  have last := (ends.2.label closing (by simp)).2
  refine .bind (.absorb _) fun all ⟨inside, _, _⟩ => .pure (formed_node.2 ⟨⟨?_, ?_, ?_⟩,
    Builds.formed_absorbed ?_ inside⟩)
  · have apart : ∀ kind ∈ userKinds, kind ≠ Kind.compoundStatement := by decide
    exact fun block => absurd block (apart kind user)
  · have apart : ∀ kind ∈ userKinds, kind ≠ Kind.variableName := by decide
    exact fun name => absurd name (apart kind user)
  · intro _ c hc role
    rcases inside c hc with given | ⟨t, rfl⟩
    · rcases (by simpa using given : c = keywordLeaf className ∨ c = opening ∨
        c = name.withField Field.name ∨ c = closing) with rfl | rfl | rfl | rfl
      · simp [unnamed] at role
      · simp [first] at role
      · obtain ⟨t, children⟩ := name
        exact made.2
      · simp [last] at role
    · obtain ⟨_, eq, _⟩ := extraLeaf_eq t
      rw [eq] at role
      contradiction
  · have opened : opening.Formed source := by simpa using ends.1.formed
    have closed : closing.Formed source := by simpa using ends.2.formed
    simpa using ⟨formed_keywordLeaf className, opened, formed_withField made.1 _, closed⟩

theorem userKind_of_userVariableKind? {word kind : String}
    (known : userVariableKind? word = some kind) : kind ∈ userKinds := by
  unfold userVariableKind? at known
  repeat' split at known
  all_goals cases known
  all_goals decide

theorem variableParts_builds (className : Token) {opening closing : Draft} {inner : List Draft}
    (leaves : LeavesIn source (opening :: (inner ++ [closing]))) :
    Builds source (variableParts className opening inner closing) (Formed source) := by
  have first : LeavesIn source [opening] :=
    LeavesIn.infix (show LeavesIn source ([] ++ [opening] ++ (inner ++ [closing])) from leaves)
  have inside : LeavesIn source inner :=
    LeavesIn.infix (show LeavesIn source ([opening] ++ inner ++ [closing]) from leaves)
  have last : LeavesIn source [closing] := LeavesIn.infix
    (show LeavesIn source (opening :: inner ++ [closing] ++ []) by simpa using leaves)
  unfold variableParts
  split
  · rename_i kind known
    exact .bind (variableName_builds inside) fun name made =>
      userVariable_builds (userKind_of_userVariableKind? known) className ⟨first, last⟩ made
  · refine .bind (.node (by decide) inside.formed) fun argument made => .node (by decide) ?_
    have opened : opening.Formed source := by simpa using first.formed
    have closed : closing.Formed source := by simpa using last.formed
    simpa using ⟨formed_withField (formed_tokenLeaf className) _, opened,
      formed_withField made _, closed⟩

theorem pseudoContent_builds : Builds source pseudoContent (Outcome.Formed source) := by
  have single {d : Draft} (formed : d.Formed source) {more : List Draft}
      (behind : AllFormed source more) :
      Builds source (do return .ok (← node Kind.pseudoContent (d :: more)))
        (Outcome.Formed source) :=
    .bind (.node (by decide) ((allFormed_cons _ _).2 ⟨formed, behind⟩)) fun d made =>
      .pure ((allFormed_cons _ _).2 ⟨made, allFormed_nil⟩)
  refine .next fun className => ?_
  cases className with
  | none => exact .pure allFormed_nil
  | some className =>
    have alone : (tokenLeaf className).Formed source := formed_tokenLeaf className
    refine .isAdjacent fun follows => ?_
    cases follows with
    | false => exact single alone allFormed_nil
    | true =>
      refine .bind (balanced_builds _ _) fun group leaves => ?_
      split
      · rename_i opening second third more
        have parts : second :: third :: more = (second :: third :: more).dropLast ++
            [((third :: more).getLast?).getD third] := by
          rw [List.getLast?_eq_some_getLast (List.cons_ne_nil third more), Option.getD_some,
            ← List.getLast_cons (List.cons_ne_nil third more)]
          exact (List.dropLast_concat_getLast _).symm
        have given := leaves _ rfl
        rw [parts] at given
        refine .bind (variableParts_builds className given) fun parts made =>
          .isAdjacent fun indexed => ?_
        cases indexed with
        | false => exact single made allFormed_nil
        | true => exact .bind index_builds fun index behind => single made behind
      · refine .pure ((allFormed_cons _ _).2 ⟨alone, ?_⟩)
        cases group with
        | none => exact allFormed_nil
        | some ds => exact (leaves ds rfl).formed

theorem transformationStep_builds (children : List Draft) (given : AllFormed source children) :
    Builds source (transformationStep children)
      (Sum.elim (AllFormed source) fun r => AllFormed source (heldOf r)) := by
  have further {d : Draft} (made : d.Formed source) : AllFormed source (children ++ [d]) := by
    simpa using ⟨given, made⟩
  refine .peekKind fun kind => ?_
  split
  · refine .bind (balanced_builds _ _) fun group leaves => ?_
    cases group with
    | none => exact .pure given
    | some tokens =>
      exact .bind (.node (by decide) (leaves tokens rfl).formed) fun d made => .pure (further made)
  · refine .bind index_builds fun n formed => ?_
    cases n with
    | none => exact .pure given
    | some n => exact .pure (further (by simpa using formed))
  · exact .pure given

theorem pvarExpression_builds (dollar : Token) :
    Builds source (pvarExpression dollar) (Outcome.Formed source) := by
  refine .next fun opening => ?_
  cases opening with
  | none => exact .pure allFormed_nil
  | some opening =>
    have start : (Draft.leaf "$(" false dollar.start opening.stop).Formed source :=
      formed_leaf _ _ _ _
    refine .isAdjacent fun follows => ?_
    cases follows with
    | false => exact .pure (by simpa using start)
    | true =>
      refine .bind pseudoContent_builds fun out formed => ?_
      cases out with
      | error consumed => exact .pure ((allFormed_cons _ _).2 ⟨start, formed⟩)
      | ok content =>
        have ended (ds : List Draft) (given : AllFormed source ds) :
            AllFormed source (heldOf (.error ds)) :=
          given
        have loop : Builds source (repeatUntil transformationStep .error
            [Draft.leaf "$(" false dollar.start opening.stop, content])
            fun r => AllFormed source (heldOf r) :=
          .repeatUntil transformationStep_builds ended ((allFormed_cons _ _).2 ⟨start, formed⟩)
        refine .bind loop fun result kept => ?_
        cases result with
        | error consumed => exact .pure kept
        | ok children =>
          refine .isAt fun closes => ?_
          cases closes with
          | false => exact .pure kept
          | true =>
            refine .bind .nextLeaf fun closing last => ?_
            refine .bind (.node (by decide) ((allFormed_append _ _).2 ⟨kept, last⟩))
              fun d made => ?_
            exact .pure (by simpa using formed_wrap made)

theorem pseudoVariable_builds : Builds source pseudoVariable (Outcome.Formed source) := by
  refine .next fun dollar => ?_
  cases dollar with
  | none => exact .pure allFormed_nil
  | some dollar =>
    have sign : (Draft.leaf "$" false dollar.start dollar.stop).Formed source :=
      formed_leaf _ _ _ _
    refine .isAdjacent fun follows => ?_
    cases follows with
    | true => exact pvarExpression_builds dollar
    | false =>
      refine .isAdjacent fun follows => ?_
      cases follows with
      | false => exact .pure (by simpa using sign)
      | true =>
        refine .bind pseudoContent_builds fun out formed => ?_
        have both : AllFormed source (Draft.leaf "$" false dollar.start dollar.stop :: out.held) :=
          (allFormed_cons _ _).2 ⟨sign, formed⟩
        cases out with
        | error consumed => exact .pure both
        | ok content =>
          exact .bind (.node (by decide) both) fun d made => .pure (by simpa using formed_wrap made)

/-- The readers one nesting deeper make formed drafts. -/
structure Level.Formed source (inner : Level) : Prop where
  statement : Builds source inner.statement (Draft.Formed source)
  expression : Builds source inner.expression (Outcome.Formed source)
  operand : Builds source inner.operand (Outcome.Formed source)

section Productions

variable {inner : Level} (h : inner.Formed source)
include h

theorem argument_builds (children : List Draft) (given : AllFormed source children) :
    Builds source (argument inner children) fun r => AllFormed source (r.getD []) := by
  refine .bind h.expression fun out formed => ?_
  cases out with
  | ok value => exact .pure ((allFormed_append _ _).2 ⟨given, formed⟩)
  | error consumed =>
    refine .bind (.collectWhile _) fun rest more => .peekKind fun following => ?_
    split
    · exact .pure allFormed_nil
    · exact .bind (.errorNodes ((allFormed_append _ _).2 ⟨formed, more⟩)) fun garbage made =>
        .pure ((allFormed_append _ _).2 ⟨given, made⟩)

theorem argumentStep_builds (children : List Draft) (given : AllFormed source children) :
    Builds source (argumentStep inner children)
      (Sum.elim (AllFormed source) (Outcome.Formed source)) := by
  refine .bind (argument_builds h children given) fun result formed => ?_
  cases result with
  | none => exact .pure given
  | some children =>
    refine .peekKind fun kind => ?_
    split
    · exact .bind .nextLeaf fun comma more => .pure ((allFormed_append _ _).2 ⟨formed, more⟩)
    · refine .bind .nextLeaf fun closing last => ?_
      exact .bind (.node (by decide) ((allFormed_append _ _).2 ⟨formed, last⟩)) fun d made =>
        .pure ((allFormed_cons _ _).2 ⟨made, allFormed_nil⟩)
    · exact .pure formed

theorem argumentList_builds : Builds source (argumentList inner) (Outcome.Formed source) := by
  refine .bind .nextLeaf fun opening first => .isAt fun empty => ?_
  cases empty with
  | true =>
    refine .bind .nextLeaf fun closing last => ?_
    exact .bind (.node (by decide) ((allFormed_append _ _).2 ⟨first, last⟩)) fun d made =>
      .pure ((allFormed_cons _ _).2 ⟨made, allFormed_nil⟩)
  | false => exact .repeatUntil (argumentStep_builds h) (fun _ given => by simpa using given) first

theorem call_builds {name : Draft} (formed : name.Formed source) :
    Builds source (call inner name) (Outcome.Formed source) := by
  have function := formed_withField (formed_wrap formed) Field.function
  refine .bind (argumentList_builds h) fun out below => ?_
  cases out with
  | error consumed => exact .pure ((allFormed_cons _ _).2 ⟨function, below⟩)
  | ok arguments =>
    have below : arguments.Formed source := by simpa using below
    refine .bind (.node (by decide) ?_) fun d made => .pure (by simpa using formed_wrap made)
    simpa using ⟨function, formed_withField below _⟩

theorem parenthesized_builds : Builds source (parenthesized inner) (Outcome.Formed source) := by
  refine .bind .nextLeaf fun opening first => .bind h.expression fun out formed => ?_
  have both : AllFormed source (opening ++ out.held) := (allFormed_append _ _).2 ⟨first, formed⟩
  cases out with
  | error consumed => exact .pure both
  | ok value =>
    refine .isAt fun closes => ?_
    cases closes with
    | false => exact .pure both
    | true =>
      refine .bind .nextLeaf fun closing last => ?_
      exact .bind (.node (by decide) ((allFormed_append _ _).2 ⟨both, last⟩)) fun d made =>
        .pure ((allFormed_cons _ _).2 ⟨made, allFormed_nil⟩)

theorem primary_builds : Builds source (primary inner) (Outcome.Formed source) := by
  refine .peek fun t => ?_
  cases t with
  | none => exact .pure allFormed_nil
  | some t =>
    have leaf : (tokenLeaf t).Formed source := formed_tokenLeaf t
    have value : Outcome.Formed source (.ok (wrap (tokenLeaf t))) := by simpa using formed_wrap leaf
    dsimp only
    split
    · refine .bind (parenthesized_builds h) fun out formed => ?_
      cases out with
      | error consumed => exact .pure formed
      | ok group =>
        have formed : group.Formed source := by simpa using formed
        exact .pure (by simpa using formed_wrap formed)
    · exact pseudoVariable_builds
    · exact .next fun _ => .pure value
    · exact .next fun _ => .pure value
    · refine .next fun _ => .isAt fun called => ?_
      cases called with
      | true => exact call_builds h leaf
      | false => exact .pure value
    · exact .pure allFormed_nil

theorem unary_builds : Builds source (unary inner) (Outcome.Formed source) := by
  refine .peek fun t => ?_
  cases t with
  | none => exact .pure allFormed_nil
  | some t =>
    refine .peekSecondKind fun following => ?_
    split
    · have operator : Draft.Formed source
          (if t.kind == .identifier then keywordLeaf t else tokenLeaf t) := by
        split
        · exact formed_keywordLeaf t
        · exact formed_tokenLeaf t
      refine .next fun _ => .bind h.operand fun out formed => ?_
      cases out with
      | error consumed => exact .pure ((allFormed_cons _ _).2 ⟨operator, formed⟩)
      | ok value =>
        have formed : value.Formed source := by simpa using formed
        refine .bind (.node (by decide) ?_) fun d made => .pure (by simpa using formed_wrap made)
        refine (allFormed_cons _ _).2 ⟨formed_withField operator _, ?_⟩
        simpa using formed_withField formed _
    · exact primary_builds h

omit h in
theorem chainStep_builds {operand : Reader Outcome}
    (ho : Builds source operand (Outcome.Formed source)) (precedence : Nat) (left : Draft)
    (formed : left.Formed source) :
    Builds source (chainStep operand precedence left)
      (Sum.elim (Draft.Formed source) (Outcome.Formed source)) := by
  have alone : Outcome.Formed source (.ok left) := by simpa using formed
  refine .peek fun t => ?_
  cases t with
  | none => exact .pure alone
  | some t =>
    have operator : (tokenLeaf t).Formed source := formed_tokenLeaf t
    dsimp only
    split
    · exact .pure alone
    · refine .next fun _ => .bind ho fun out formed' => ?_
      cases out with
      | error consumed =>
        exact .pure ((allFormed_cons _ _).2 ⟨formed, (allFormed_cons _ _).2 ⟨operator, formed'⟩⟩)
      | ok right =>
        have formed' : right.Formed source := by simpa using formed'
        refine .bind (.node (by decide) ?_) fun d made => .pure (formed_wrap made)
        simpa using ⟨formed_withField formed _, formed_withField operator _,
          formed_withField formed' _⟩

omit h in
theorem chain_builds {operand : Reader Outcome} (ho : Builds source operand (Outcome.Formed source))
    (levels : Nat) : Builds source (chain operand levels) (Outcome.Formed source) := by
  induction levels with
  | zero => exact ho
  | succ levels ih =>
    refine .bind ih fun out formed => ?_
    cases out with
    | error consumed => exact .pure formed
    | ok left =>
      exact .repeatUntil (chainStep_builds ih _) (fun d formed => by simpa using formed)
        (by simpa using formed)

theorem binary_builds : Builds source (binary inner) (Outcome.Formed source) :=
  chain_builds (unary_builds h) tightest

omit h in
theorem formed_unwrap {d : Draft} (formed : d.Formed source) : (unwrap d).Formed source := by
  unfold unwrap
  split
  · rename_i only _ eq
    exact formed.children only (by simp [eq])
  · exact formed

theorem assignment_builds : Builds source (assignment inner) (Outcome.Formed source) := by
  refine .bind (binary_builds h) fun out formed => ?_
  cases out with
  | error consumed => exact .pure formed
  | ok left =>
    refine .isAt fun assigns => ?_
    cases assigns with
    | false => exact .pure formed
    | true =>
      have formed : left.Formed source := by simpa using formed
      refine .bind .nextLeaf fun sign more => .bind h.expression fun out formed' => ?_
      have target : AllFormed source ((unwrap left).withField Field.left :: sign) :=
        (allFormed_cons _ _).2 ⟨formed_withField (formed_unwrap formed) _, more⟩
      have assigned {right : List Draft} (given : AllFormed source right) :
          Builds source (do return .ok (wrap (← node Kind.assignment
            (((unwrap left).withField Field.left :: sign) ++ right)))) (Outcome.Formed source) :=
        .bind (.node (by decide) ((allFormed_append _ _).2 ⟨target, given⟩)) fun d made =>
          .pure (by simpa using formed_wrap made)
      cases out with
      | ok right =>
        have formed' : right.Formed source := by simpa using formed'
        exact assigned (by simpa using formed_withField formed' _)
      | error consumed =>
        exact .bind (.errorNodes formed') fun garbage made => assigned (made.withField _)

end Productions

end RouteScript.Script
