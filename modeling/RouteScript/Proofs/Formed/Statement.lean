import RouteScript.Proofs.Formed.Expression
/-!
# Statements are well formed

A block is made from its brace and what follows it, and the brace becomes an error if the block does
not close. All other statements take over what is formed.
-/
namespace RouteScript.Script

open Draft

variable {source : List Char}

theorem markup_formed {s : Stream} {t : Token} {rest : List Token} (tokens : s.tokens = t :: rest)
    (opens : t.kind = .lt) : Checks source s markup (Draft.Formed source) := by
  intro hs _
  obtain ⟨kept, _, ds, parts, leaves, eq⟩ := markup_lossless tokens opens hs solid_nil
  refine ⟨kept.passes, ?_⟩
  rw [eq]
  refine formed_of_plain (by decide : Kind.xml ∉ shapedKinds) fun d hd => ?_
  obtain ⟨_, _, _, _, rfl⟩ := leaf_of_leaves leaves d hd
  exact formed_leaf _ _ _ _

theorem skipStatementRest_builds : Builds source skipStatementRest (AllFormed source) :=
  .bind (.collect _ _) fun _ leaves => .pure leaves.formed

theorem skipNestedRegion_builds : Builds source skipNestedRegion (AllFormed source) :=
  .bind (.collect _ _) fun _ leaves => .pure leaves.formed

theorem finishStatement_builds {children : List Draft} (given : AllFormed source children) :
    Builds source (finishStatement children) (Draft.Formed source) := by
  have plain : Kind.statement ∉ shapedKinds := by decide
  refine .peek fun t => ?_
  cases t with
  | none => exact .node plain given
  | some t =>
    dsimp only
    split
    · exact .bind .nextLeaf fun semicolon last =>
        .node plain ((allFormed_append _ _).2 ⟨given, last⟩)
    · split
      · exact .node plain given
      · refine .bind skipStatementRest_builds fun rest formed => ?_
        refine .bind (.errorNodes formed) fun garbage made => ?_
        refine .bind (.optionalLeaf _) fun semicolon last => .node plain ?_
        simpa using ⟨given, made, last⟩

/-- Formed drafts of which the first is the brace of a block, or an error in its place. -/
def Headed (source : List Char) (children : List Draft) : Prop :=
  AllFormed source children ∧ ∃ first more, children = first :: more ∧ first.IsOpening

theorem Headed.append {children more : List Draft} (h : Headed source children)
    (formed : AllFormed source more) : Headed source (children ++ more) := by
  obtain ⟨given, first, rest, rfl, opening⟩ := h
  exact ⟨(allFormed_append _ _).2 ⟨given, formed⟩, first, rest ++ more, rfl, opening⟩

theorem headed_start (start stop : Nat) :
    Headed source [.leaf Kind.blockStart true start stop] :=
  ⟨(allFormed_cons _ _).2 ⟨formed_leaf _ _ _ _, allFormed_nil⟩, _, [], rfl, rfl, rfl,
    List.mem_cons_self⟩

/-- The brace of a block may become an error. -/
theorem Headed.set {children : List Draft} (h : Headed source children) {brace : Draft}
    (formed : brace.Formed source) : Headed source (children.set 0 (.error [brace])) := by
  obtain ⟨given, first, more, rfl, _⟩ := h
  have made : (Draft.error [brace]).Formed source := formed_error (by simpa using formed)
  refine ⟨(allFormed_cons _ _).2 ⟨made, ((allFormed_cons _ _).1 given).2⟩, _, more, rfl, rfl, rfl,
    ?_⟩
  exact List.mem_cons_of_mem _ List.mem_cons_self

section Productions

variable {inner : Level} (h : inner.Formed source)
include h

theorem blockItem_builds : Builds source (blockItem inner) (Draft.Formed source) := fun s =>
  .isAt (fun _ _ tokens opens => markup_formed tokens opens) (h.statement s)

theorem blockStep_builds (opening : Token) (children : List Draft)
    (headed : Headed source children) : Builds source (blockStep inner opening children)
      (Sum.elim (Headed source) (Headed source)) := by
  have behind {comments : List Draft} (more : AllFormed source comments) {item : Draft}
      (formed : item.Formed source) : Headed source (children ++ comments ++ [item]) := by
    rw [List.append_assoc]
    exact headed.append (by simpa using ⟨more, formed⟩)
  refine .peekKind fun kind => ?_
  split
  · exact .flush fun comments more => .pure ((headed.append more).set (formed_leaf _ _ _ _))
  · refine .next fun close => ?_
    cases close with
    | none => exact .pure headed
    | some close => exact .place fun comments more => .pure (behind more (formed_leaf _ _ _ _))
  · exact .bind (blockItem_builds h) fun item formed =>
      .place fun comments more => .pure (behind more formed)

omit h in
/-- The node of a block. -/
theorem block_builds {children : List Draft} (given : AllFormed source children)
    (opening : ∀ first ∈ children.head?, first.IsOpening) :
    Builds source (node Kind.compoundStatement children) (Draft.Formed source) := by
  refine .bind (.absorb children) fun all ⟨inside, _, same⟩ => .pure (formed_node.2 ⟨⟨?_, ?_, ?_⟩,
    Builds.formed_absorbed given inside⟩)
  · exact fun _ => same ▸ opening
  · exact fun name => absurd name (by decide : Kind.compoundStatement ≠ Kind.variableName)
  · exact fun user => absurd user (by decide : Kind.compoundStatement ∉ userKinds)

theorem compound_builds : Builds source (compound inner) (Draft.Formed source) := by
  refine .next fun opening => ?_
  cases opening with
  | none => exact block_builds allFormed_nil (by simp)
  | some opening =>
    have loop : Builds source (repeatUntil (blockStep inner opening) id
        [.leaf Kind.blockStart true opening.start opening.stop]) (Headed source) :=
      .repeatUntil (blockStep_builds h opening) (fun _ headed => headed) (headed_start _ _)
    refine .bind loop fun children ⟨given, first, more, eq, opens⟩ => block_builds given ?_
    simpa [eq] using opens

theorem body_builds (field : String) : Builds source (body inner field) (AllFormed source) := by
  have labelled {r : Reader Draft} (made : Builds source r (Draft.Formed source)) :
      Builds source (do return [(← r).withField field]) (AllFormed source) :=
    .bind made fun d formed => .pure (by simpa using formed_withField formed field)
  refine .peekKind fun kind => ?_
  split
  · exact .pure allFormed_nil
  · exact labelled (compound_builds h)
  · exact labelled h.statement

theorem condition_builds : Builds source (condition inner) (AllFormed source) := by
  refine .isAt fun opens => ?_
  cases opens with
  | true =>
    refine .bind (parenthesized_builds h) fun out formed => ?_
    cases out with
    | ok group =>
      have formed : group.Formed source := by simpa using formed
      exact .pure (by simpa using formed_withField formed _)
    | error consumed =>
      refine .bind (.collect _ _) fun rest more => ?_
      exact .bind (.errorNode ((allFormed_append _ _).2 ⟨formed, more.formed⟩)) fun d made =>
        .pure (by simpa using made)
  | false => exact .bind (.collectWhile _) fun words formed => .errorNodes formed

theorem ifStatement_builds : Builds source (ifStatement inner) (Draft.Formed source) := by
  refine .bind .nextKeyword fun word first => .bind (condition_builds h) fun test tested => ?_
  refine .bind (body_builds h _) fun consequence followed => .isAtWord fun more => ?_
  have plain : Kind.ifStatement ∉ shapedKinds := by decide
  cases more with
  | true =>
    refine .bind .nextKeyword fun otherwise second => ?_
    refine .bind (body_builds h _) fun alternative last => .node plain ?_
    simpa using ⟨first, tested, followed, second, last⟩
  | false => exact .node plain (by simpa using ⟨first, tested, followed⟩)

theorem whileStatement_builds : Builds source (whileStatement inner) (Draft.Formed source) := by
  refine .bind .nextKeyword fun word first => .bind (condition_builds h) fun test tested => ?_
  refine .bind (body_builds h _) fun repeated last => .node (by decide) ?_
  simpa using ⟨first, tested, last⟩

theorem switchStatement_builds : Builds source (switchStatement inner) (Draft.Formed source) := by
  refine .bind .nextKeyword fun word first => .bind (condition_builds h) fun test tested => ?_
  refine .isAt fun opens => ?_
  cases opens with
  | true =>
    refine .bind (compound_builds h) fun block formed => .node (by decide) ?_
    simpa using ⟨first, tested, formed_withField formed _⟩
  | false =>
    refine .bind skipStatementRest_builds fun rest formed => ?_
    refine .bind (.errorNodes formed) fun garbage last => .node (by decide) ?_
    simpa using ⟨first, tested, last⟩

theorem caseStatement_builds : Builds source (caseStatement inner) (Draft.Formed source) := by
  have labelled {word value : List Draft} (first : AllFormed source word)
      (given : AllFormed source value) : Builds source (do
        node Kind.caseStatement (word ++ value ++ (← optionalLeaf .colon))) (Draft.Formed source) :=
    .bind (.optionalLeaf _) fun colon last =>
      .node (by decide) (by simpa using ⟨first, given, last⟩)
  refine .isAtWord fun isDefault => .bind .nextKeyword fun word first => ?_
  cases isDefault with
  | true =>
    refine .bind (.optionalLeaf _) fun colon last => .node (by decide) ?_
    simpa using ⟨first, last⟩
  | false =>
    refine .bind (binary_builds h) fun out formed => ?_
    cases out with
    | ok value =>
      have formed : value.Formed source := by simpa using formed
      exact labelled first (by simpa using formed_withField formed _)
    | error consumed => exact .bind (.errorNodes formed) fun garbage made => labelled first made

theorem returnStatement_builds : Builds source (returnStatement inner) (Draft.Formed source) := by
  have plain : Kind.returnStatement ∉ shapedKinds := by decide
  refine .bind .nextKeyword fun word first => .peek fun t => ?_
  cases t with
  | none => exact .node plain first
  | some t =>
    dsimp only
    split
    · exact .node plain first
    · refine .bind h.expression fun out formed => ?_
      cases out with
      | ok value => exact .node plain ((allFormed_append _ _).2 ⟨first, formed⟩)
      | error consumed =>
        exact .bind (.errorNodes formed) fun garbage made =>
          .node plain ((allFormed_append _ _).2 ⟨first, made⟩)

theorem wordStatement_builds {word : String} {following : Option Token.Kind} {read : Reader Draft}
    (found : wordStatement? inner word following = some read) :
    Builds source read (Draft.Formed source) := by
  have statement {r : Reader Draft} (made : Builds source r (Draft.Formed source)) :
      Builds source (do node Kind.statement [← r]) (Draft.Formed source) :=
    .bind made fun d formed => .node (by decide) (by simpa using formed)
  have finished {r : Reader Draft} (made : Builds source r (Draft.Formed source)) :
      Builds source (do finishStatement [← r]) (Draft.Formed source) :=
    .bind made fun d formed => finishStatement_builds (by simpa using formed)
  unfold wordStatement? at found
  repeat' split at found
  all_goals cases found
  · exact statement (ifStatement_builds h)
  · exact statement (switchStatement_builds h)
  · exact statement (whileStatement_builds h)
  · exact statement (caseStatement_builds h)
  · exact statement (caseStatement_builds h)
  · exact finished (returnStatement_builds h)
  · refine .bind .nextKeyword fun word formed => ?_
    exact .bind (.node (by decide) formed) fun d made =>
      finishStatement_builds (by simpa using made)

theorem expressionStatement_builds :
    Builds source (expressionStatement inner) (Draft.Formed source) := by
  refine .bind h.expression fun out formed => ?_
  cases out with
  | ok value => exact finishStatement_builds formed
  | error consumed =>
    have finished {consumed : List Draft} (given : AllFormed source consumed) : Builds source (do
        let rest ← skipStatementRest
        finishStatement [← errorNode (consumed ++ rest)]) (Draft.Formed source) :=
      .bind skipStatementRest_builds fun rest more =>
        .bind (.errorNode ((allFormed_append _ _).2 ⟨given, more⟩)) fun d made =>
          finishStatement_builds (by simpa using made)
    dsimp only
    split
    · exact .bind .nextLeaf fun leaf formed => finished formed
    · exact finished formed

theorem statement_builds : Builds source (statement inner) (Draft.Formed source) := by
  have plain : Kind.statement ∉ shapedKinds := by decide
  refine .peek fun t => ?_
  cases t with
  | none => exact .node plain allFormed_nil
  | some t =>
    refine .peekSecondKind fun following => ?_
    split
    · rename_i read found
      split at found
      · exact wordStatement_builds h found
      · contradiction
    · split
      · exact .bind (compound_builds h) fun d formed => .node plain (by simpa using formed)
      · exact .bind .nextLeaf fun leaf formed => .node plain formed
      · exact expressionStatement_builds h

end Productions

theorem deepStatement_builds : Builds source deepStatement (Draft.Formed source) := by
  have finished {consumed : List Draft} (given : AllFormed source consumed) :
      Builds source (do finishStatement (← errorNodes consumed)) (Draft.Formed source) :=
    .bind (.errorNodes given) fun garbage made => finishStatement_builds made
  refine .bind skipNestedRegion_builds fun region formed => ?_
  dsimp only
  split
  · refine .isAt fun ends => ?_
    cases ends with
    | true => exact finished allFormed_nil
    | false => exact .bind .nextLeaf fun leaf formed => finished formed
  · exact finished formed

theorem level_formed (remaining : Nat) : (level remaining).Formed source := by
  induction remaining with
  | zero =>
    have region : Builds source (do return .error (← skipNestedRegion)) (Outcome.Formed source) :=
      .bind skipNestedRegion_builds fun _ formed => .pure formed
    exact ⟨deepStatement_builds, region, region⟩
  | succ remaining ih => exact ⟨statement_builds ih, assignment_builds ih, unary_builds ih⟩

end RouteScript.Script
