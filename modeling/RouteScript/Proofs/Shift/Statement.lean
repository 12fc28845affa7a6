import RouteScript.Proofs.Shift.Expression
import RouteScript.Proofs.Lossless.Items
/-!
# Statements further on

Every reader of statements gives the same further on, at every depth of nesting. Markup is read
again from the source, where the same text stands that many bytes further on. So every item at the
top of a script is the same further on, and all items together are.
-/
namespace RouteScript.Script

open Draft

variable {front : List Char} {s : Stream}

theorem textLeaves_shift (n offset : Nat) (run : List Char) :
    textLeaves (offset + n) run = (textLeaves offset run).map (shift n) := by
  unfold textLeaves
  dsimp only
  split
  · rfl
  · simp only [List.map_cons, List.map_nil, shift_leaf, Nat.add_right_comm _ n]

theorem markupLeaves_shift (n rounds : Nat) (depth : Int) (offset : Nat) (text : List Char) :
    markupLeaves rounds depth (offset + n) text =
      ((markupLeaves rounds depth offset text).1.map (shift n),
        (markupLeaves rounds depth offset text).2.1 + n,
        (markupLeaves rounds depth offset text).2.2) := by
  induction rounds generalizing depth offset text with
  | zero => rfl
  | succ rounds ih =>
    cases text with
    | nil => rfl
    | cons c rest =>
      unfold markupLeaves
      split
      · dsimp only
        rw [Nat.add_right_comm, ih, textLeaves_shift]
        simp
      · split
        · simp [Nat.add_right_comm]
        · simp only [Nat.add_right_comm _ n]
          split
          · simp [ih]
          · split
            · simp [ih]
            · simp

theorem markupLeaves_ne_nil (rounds : Nat) (depth : Int) (offset : Nat) (rest : List Char) :
    (markupLeaves (rounds + 1) depth offset ('<' :: rest)).1 ≠ [] := by
  unfold markupLeaves
  rw [if_neg (by simp)]
  split <;> simp

theorem Stream.behind_shift (s : Stream) (offset : Nat) (rest : List Char) :
    (s.shift front).behind ⟨offset + Text.size front, rest⟩
      = (s.behind ⟨offset, rest⟩).shift front := by
  simp only [Stream.behind, Token.allFrom_shift]
  rfl

theorem markup_moves {t : Token} {rest : List Token} (tokens : s.tokens = t :: rest)
    (opens : t.kind = .lt) :
    Moves front (shift (Text.size front)) markup markup s := by
  intro hs
  refine ⟨(markup_lossless tokens opens hs solid_nil).1.passes.sound, ?_⟩
  obtain ⟨behind, there⟩ := hs.place tokens
  have spelling : t.text = ['<'] :=
    (hs.spelled t (by simp [tokens])).text "<" (by rw [opens]; rfl)
  rw [spelling] at there
  have there' : Spot.In (front ++ s.source)
      ⟨t.start + Text.size front, ['<'] ++ behind⟩ := by
    obtain ⟨before, source, size⟩ := there
    refine ⟨front ++ before, by simp [source], ?_⟩
    rw [Text.size_append, ← size]
    exact Nat.add_comm ..
  have tokens' : (s.shift front).tokens
      = t.shift (Text.size front) :: rest.map (Token.shift (Text.size front)) := by simp [tokens]
  have further : (t.shift (Text.size front)).start = t.start + Text.size front := rfl
  have some_leaves := markupLeaves_ne_nil (['<'] ++ behind).length 0 t.start behind
  rw [markup_eq tokens there.after?, markup_eq tokens' there'.after?, further, markupLeaves_shift,
    Stream.behind_shift, Stream.settle_shift]
  exact node_shift Kind.xml some_leaves _

theorem skipStatementRest_moves :
    Moves front (List.map (shift (Text.size front))) skipStatementRest skipStatementRest s :=
  .bind (collect_moves (fun _ _ => rfl) true) fun _ _ => .pure rfl

theorem skipNestedRegion_moves :
    Moves front (List.map (shift (Text.size front))) skipNestedRegion skipNestedRegion s :=
  .bind (collect_moves (fun _ _ => rfl) _) fun _ _ => .pure rfl

theorem finishStatement_moves {children : List Draft}
    (h : children = [] → ∃ t rest, s.tokens = t :: rest ∧ t.kind = .semicolon) :
    Moves front (shift (Text.size front)) (finishStatement children)
      (finishStatement (children.map (shift (Text.size front)))) s := by
  refine .peek (fun nothing => node_moves _ rfl fun none => ?_) fun t rest tokens => ?_
  · obtain ⟨t, rest, tokens, _⟩ := h none
    simp [nothing] at tokens
  dsimp only
  rw [Token.shift_kind, Token.shift_newlineBefore]
  split
  · refine .nextLeaf (fun nothing => by simp [tokens] at nothing) fun _ _ => ?_
    exact node_moves _ (by simp) (by simp)
  · rename_i other
    have nonempty : children ≠ [] := by
      intro none
      obtain ⟨t', rest', tokens', semicolon⟩ := h none
      obtain ⟨rfl, rfl⟩ : t = t' ∧ rest = rest' := by simpa [tokens] using tokens'
      simp [semicolon] at other
    split
    · exact node_moves _ rfl nonempty
    · refine .bind skipStatementRest_moves fun rest s₁ => ?_
      refine .bind (errorNodes_moves rfl) fun garbage s₂ => ?_
      exact .bind (optionalLeaf_moves _) fun _ _ => node_moves _ (by simp) (by simp [nonempty])

section Productions

variable {inner : Level} (lossless : inner.Lossless) (h : inner.Moves front)
include lossless h

omit lossless in
theorem blockItem_moves {t : Token} {rest : List Token} (tokens : s.tokens = t :: rest) :
    Moves front (shift (Text.size front)) (blockItem inner) (blockItem inner) s :=
  .isAt (fun _ _ tokens' opens => markup_moves tokens' opens) (h.statement tokens)

omit lossless in
theorem blockStep_moves (opening : Token) (children : List Draft) :
    Moves front (Sum.map (List.map (shift (Text.size front))) (List.map (shift (Text.size front))))
      (blockStep inner opening children)
      (blockStep inner (opening.shift (Text.size front))
        (children.map (shift (Text.size front)))) s := by
  refine .peekKind (fun _ => ?_) fun t rest tokens => ?_
  · refine .bind (flush_moves children) fun all s₁ => .pure ?_
    rw [Sum.map_inr, leaf_shift, List.map_set, shift_error _ (by simp)]
    rfl
  split
  · contradiction
  · refine .next (fun nothing => by simp [tokens] at nothing) fun close s₁ => ?_
    dsimp only
    rw [leaf_shift]
    exact .bind (place_moves children _) fun _ _ => .pure rfl
  · refine .bind (blockItem_moves h tokens) fun item s₁ => ?_
    exact .bind (place_moves children item) fun _ _ => .pure rfl

theorem compound_moves {t : Token} {rest : List Token} (tokens : s.tokens = t :: rest) :
    Moves front (shift (Text.size front)) (compound inner) (compound inner) s := by
  refine .next (fun nothing => by simp [tokens] at nothing) fun opening s₁ => ?_
  dsimp only
  rw [leaf_shift]
  refine .bindGives (.repeatUntil (blockStep_advancing lossless opening)
    (fun children s _ => blockStep_moves h opening children) ⟨[], rfl⟩)
    (fun hs => block_conserves lossless hs ⟨[], rfl⟩) fun children s₂ conserves => ?_
  refine node_moves _ rfl fun nothing => ?_
  -- what the loop gives back still accounts for the opening brace
  have marks := conserves.solids_ne_nil (by simp [solids_leaf (show Kind.blockStart ≠ Kind.xml by
    decide)])
  simp [nothing] at marks

theorem body_moves (field : String) :
    Moves front (List.map (shift (Text.size front))) (body inner field) (body inner field) s := by
  refine .peekKind (fun _ => .pure rfl) fun t rest tokens => ?_
  split
  · exact .pure rfl
  · exact .bind (compound_moves lossless h tokens) fun _ _ => .pure (by simp)
  · exact .bind (h.statement tokens) fun _ _ => .pure (by simp)

theorem condition_moves :
    Moves front (List.map (shift (Text.size front))) (condition inner) (condition inner) s := by
  refine .isAt (fun t rest tokens _ => ?_) ?_
  · refine .bindGives (parenthesized_moves h)
      (fun hs => parenthesized_lossless lossless s hs solid_nil) fun out s₁ ⟨_, _, nonempty⟩ => ?_
    cases out with
    | ok group => exact .pure (by simp)
    | error consumed =>
      have some_consumed : consumed ≠ [] := nonempty (by simp [tokens]) _ rfl
      refine .bind (collect_moves (fun _ _ => rfl) false) fun rest s₂ => ?_
      exact .bind (errorNode_moves (by simp) (by simp [some_consumed])) fun _ _ => .pure (by simp)
  · exact .bind (collectWhile_moves fun _ => rfl) fun words s₁ => errorNodes_moves rfl

theorem ifStatement_moves {t : Token} {rest : List Token} (tokens : s.tokens = t :: rest) :
    Moves front (shift (Text.size front)) (ifStatement inner) (ifStatement inner) s := by
  refine .nextKeyword (fun nothing => by simp [tokens] at nothing) fun word s₁ => ?_
  refine .bind (condition_moves lossless h) fun test s₂ => ?_
  refine .bind (body_moves lossless h _) fun consequence s₃ => ?_
  refine .isAtWord (fun _ _ _ => ?_) (node_moves _ (by simp) (by simp))
  refine .nextKeyword (fun _ => ?_) fun otherwise s₄ => ?_
  all_goals exact .bind (body_moves lossless h _) fun _ _ => node_moves _ (by simp) (by simp)

theorem whileStatement_moves {t : Token} {rest : List Token} (tokens : s.tokens = t :: rest) :
    Moves front (shift (Text.size front)) (whileStatement inner) (whileStatement inner) s := by
  refine .nextKeyword (fun nothing => by simp [tokens] at nothing) fun word s₁ => ?_
  refine .bind (condition_moves lossless h) fun test s₂ => ?_
  exact .bind (body_moves lossless h _) fun _ _ => node_moves _ (by simp) (by simp)

theorem switchStatement_moves {t : Token} {rest : List Token} (tokens : s.tokens = t :: rest) :
    Moves front (shift (Text.size front)) (switchStatement inner) (switchStatement inner) s := by
  refine .nextKeyword (fun nothing => by simp [tokens] at nothing) fun word s₁ => ?_
  refine .bind (condition_moves lossless h) fun test s₂ => ?_
  refine .isAt (fun t rest tokens _ => ?_) ?_
  · exact .bind (compound_moves lossless h tokens) fun _ _ => node_moves _ (by simp) (by simp)
  · refine .bind skipStatementRest_moves fun rest s₃ => ?_
    exact .bind (errorNodes_moves rfl) fun _ _ => node_moves _ (by simp) (by simp)

theorem caseStatement_moves {t : Token} {rest : List Token} (tokens : s.tokens = t :: rest) :
    Moves front (shift (Text.size front)) (caseStatement inner) (caseStatement inner) s := by
  refine .isAtWord (fun _ _ _ => ?_) ?_
  · refine .nextKeyword (fun nothing => by simp [tokens] at nothing) fun word s₁ => ?_
    exact .bind (optionalLeaf_moves _) fun _ _ => node_moves _ (by simp) (by simp)
  · refine .nextKeyword (fun nothing => by simp [tokens] at nothing) fun word s₁ => ?_
    refine .bind (binary_moves lossless h) fun out s₂ => ?_
    cases out with
    | ok value => exact .bind (optionalLeaf_moves _) fun _ _ => node_moves _ (by simp) (by simp)
    | error consumed =>
      refine .bind (errorNodes_moves rfl) fun garbage s₃ => ?_
      exact .bind (optionalLeaf_moves _) fun _ _ => node_moves _ (by simp) (by simp)

omit lossless in
theorem returnStatement_moves {t : Token} {rest : List Token} (tokens : s.tokens = t :: rest) :
    Moves front (shift (Text.size front)) (returnStatement inner) (returnStatement inner) s := by
  refine .nextKeyword (fun nothing => by simp [tokens] at nothing) fun word s₁ => ?_
  refine .peek (fun _ => node_moves _ rfl (by simp)) fun t rest tokens => ?_
  dsimp only
  rw [Token.shift_kind, Token.shift_newlineBefore]
  split
  · exact node_moves _ rfl (by simp)
  · refine .bind (h.expression s₁) fun out s₂ => ?_
    cases out with
    | ok value => exact node_moves _ (by simp) (by simp)
    | error consumed =>
      exact .bind (errorNodes_moves rfl) fun _ _ => node_moves _ (by simp) (by simp)

theorem wordStatement_moves {word : String} {following : Option Token.Kind}
    {read : Reader Draft} (found : wordStatement? inner word following = some read)
    {t : Token} {rest : List Token} (tokens : s.tokens = t :: rest) :
    Moves front (shift (Text.size front)) read read s := by
  have statement {r : Reader Draft} (hr : Moves front (shift (Text.size front)) r r s) :
      Moves front (shift (Text.size front)) (do node Kind.statement [← r])
        (do node Kind.statement [← r]) s :=
    .bind hr fun _ _ => node_moves _ rfl (by simp)
  have finished {r : Reader Draft} (hr : Moves front (shift (Text.size front)) r r s) :
      Moves front (shift (Text.size front)) (do finishStatement [← r])
        (do finishStatement [← r]) s :=
    .bind hr fun d _ => @finishStatement_moves _ _ [d] (by simp)
  unfold wordStatement? at found
  repeat' split at found
  all_goals cases found
  · exact statement (ifStatement_moves lossless h tokens)
  · exact statement (switchStatement_moves lossless h tokens)
  · exact statement (whileStatement_moves lossless h tokens)
  · exact statement (caseStatement_moves lossless h tokens)
  · exact statement (caseStatement_moves lossless h tokens)
  · exact finished (returnStatement_moves h tokens)
  · refine .nextKeyword (fun nothing => by simp [tokens] at nothing) fun word s₁ => ?_
    exact .bind (node_moves _ rfl (by simp)) fun d _ => @finishStatement_moves _ _ [d] (by simp)

theorem expressionStatement_moves {t : Token} {rest : List Token} (tokens : s.tokens = t :: rest) :
    Moves front (shift (Text.size front)) (expressionStatement inner) (expressionStatement inner)
      s := by
  intro hs
  refine Moves.bindGives (h.expression s) (fun hs => lossless.expression s hs solid_nil)
    (fun out s₁ ⟨kept, _, _⟩ => ?_) hs
  cases out with
  | ok value => exact @finishStatement_moves _ _ [value] (by simp)
  | error consumed =>
    have finished {consumed : List Draft} (nonempty : consumed ≠ []) (s₂ : Stream) :
        Moves front (shift (Text.size front))
          (do
            let rest ← skipStatementRest
            finishStatement [← errorNode (consumed ++ rest)])
          (do
            let rest ← skipStatementRest
            finishStatement
              [← errorNode (consumed.map (shift (Text.size front)) ++ rest)]) s₂ := by
      refine .bind skipStatementRest_moves fun rest s₃ => ?_
      exact .bind (errorNode_moves (by simp) (by simp [nonempty])) fun d _ =>
        @finishStatement_moves _ _ [d] (by simp)
    dsimp only [Outcome.shift_error]
    rw [List.isEmpty_map]
    split
    · rename_i nothing
      obtain rfl := List.isEmpty_iff.1 nothing
      -- nothing was taken, so the token that stood next still does and the error node is not empty
      have same := kept.conserves.tokens_eq hs rfl
      refine .nextLeaf (fun nothing => ?_) fun u s₂ => ?_
      · simp [same, tokens] at nothing
      · exact @finished [tokenLeaf u] (by simp) s₂
    · rename_i something
      exact finished (by simpa using something) s₁

theorem statement_moves {t : Token} {rest : List Token} (tokens : s.tokens = t :: rest) :
    Moves front (shift (Text.size front)) (statement inner) (statement inner) s := by
  refine .peek (fun nothing => by simp [tokens] at nothing) fun t rest tokens => ?_
  refine .peekSecondKind fun following => ?_
  rw [Token.shift_kind, Token.shift_word]
  split
  · rename_i read found
    split at found
    · exact wordStatement_moves lossless h found tokens
    · contradiction
  · split
    · exact .bind (compound_moves lossless h tokens) fun _ _ => node_moves _ rfl (by simp)
    · refine .nextLeaf (fun nothing => by simp [tokens] at nothing) fun _ _ => ?_
      exact node_moves _ rfl (by simp)
    · exact expressionStatement_moves lossless h tokens

end Productions

theorem deepStatement_moves {t : Token} {rest : List Token} (tokens : s.tokens = t :: rest) :
    Moves front (shift (Text.size front)) deepStatement deepStatement s := by
  have finished {consumed : List Draft} {s₂ : Stream}
      (empty : consumed = [] → ∃ t rest, s₂.tokens = t :: rest ∧ t.kind = .semicolon) :
      Moves front (shift (Text.size front)) (do finishStatement (← errorNodes consumed))
        (do finishStatement (← errorNodes (consumed.map (shift (Text.size front))))) s₂ := by
    cases consumed with
    | nil => exact @finishStatement_moves _ _ [] fun _ => empty rfl
    | cons d ds =>
      have error : Moves front _ (errorNode (d :: ds))
          (errorNode ((d :: ds).map (shift (Text.size front)))) s₂ := errorNode_moves rfl (by simp)
      simp only [errorNodes, List.isEmpty_cons, List.map_cons, Bool.false_eq_true, if_false,
        bind_assoc, pure_bind]
      exact .bind error fun d _ => @finishStatement_moves _ _ [d] (by simp)
  intro hs
  refine Moves.bindGives skipNestedRegion_moves
    (fun hs => skipNestedRegion_lossless s hs solid_nil) (fun region s₁ ⟨kept, _, _⟩ => ?_) hs
  rw [List.isEmpty_map]
  split
  · rename_i nothing
    obtain rfl := List.isEmpty_iff.1 nothing
    have same := kept.conserves.tokens_eq hs rfl
    refine .isAt (fun t rest tokens semicolon => ?_) ?_
    · exact @finished [] _ fun _ => ⟨t, rest, tokens, semicolon⟩
    · refine .nextLeaf (fun nothing => by simp [same, tokens] at nothing) fun u s₂ => ?_
      exact @finished [tokenLeaf u] _ (by simp)
  · rename_i something
    have something : region ≠ [] := by simpa using something
    exact finished fun none => absurd none something

theorem level_moves (front : List Char) (remaining : Nat) : (level remaining).Moves front := by
  induction remaining with
  | zero =>
    exact ⟨deepStatement_moves, fun s => .bind skipNestedRegion_moves fun _ _ => .pure rfl,
      fun s => .bind skipNestedRegion_moves fun _ _ => .pure rfl⟩
  | succ remaining ih =>
    have lossless := level_lossless remaining
    exact ⟨statement_moves lossless ih, fun _ => assignment_moves lossless ih,
      fun _ => unary_moves lossless ih⟩

theorem topLevel_moves (front : List Char) : topLevel.Moves front := level_moves front maxNesting

theorem stringItem_moves (kind field : String) {t : Token} {rest : List Token}
    (tokens : s.tokens = t :: rest) :
    Moves front (shift (Text.size front)) (stringItem kind field) (stringItem kind field) s := by
  refine .nextKeyword (fun nothing => by simp [tokens] at nothing) fun word s₁ => ?_
  refine .peek (fun _ => errorNode_moves rfl (by simp)) fun t rest tokens => ?_
  dsimp only
  rw [Token.shift_kind, Token.shift_newlineBefore]
  split
  · refine .nextLeaf (fun nothing => by simp [tokens] at nothing) fun value s₂ => ?_
    exact .bind (optionalLeaf_moves _) fun _ _ => node_moves _ (by simp) (by simp)
  · exact .bind skipStatementRest_moves fun _ _ => errorNode_moves (by simp) (by simp)

theorem modParam_moves {t : Token} {rest : List Token} (tokens : s.tokens = t :: rest) :
    Moves front (shift (Text.size front)) modParam modParam s := by
  refine .nextKeyword (fun nothing => by simp [tokens] at nothing) fun word s₁ => ?_
  refine .bind (argumentList_moves topLevel_lossless (topLevel_moves front)) fun out s₂ => ?_
  cases out with
  | ok arguments =>
    exact .bind (optionalLeaf_moves _) fun _ _ => node_moves _ (by simp) (by simp)
  | error consumed =>
    exact .bind skipStatementRest_moves fun _ _ => errorNode_moves (by simp) (by simp)

/-- A node over what was collected, if anything was. -/
theorem labelled_moves {α β : Type} {g : α → β} (kind field : String) (words : List Draft)
    {k : List Draft → Reader α} {l : List Draft → Reader β}
    (rest : ∀ ds s', Moves front g (k ds) (l (ds.map (shift (Text.size front)))) s') :
    Moves front g
      (do
        let ds ← if words.isEmpty then pure [] else pure [(← node kind words).withField field]
        k ds)
      (do
        let ds ← if (words.map (shift (Text.size front))).isEmpty then pure [] else
          pure [(← node kind (words.map (shift (Text.size front)))).withField field]
        l ds) s := by
  rw [List.isEmpty_map]
  dsimp only
  split
  · exact rest [] s
  · rename_i something
    refine .bind (node_moves _ rfl (by simpa using something)) fun d s₁ => ?_
    simpa using rest [d.withField field] s₁

theorem routeName_moves :
    Moves front (Prod.map (List.map (shift (Text.size front))) id) routeName routeName s := by
  refine .nextLeaf (fun _ => ?_) fun opening s₁ => ?_
  all_goals
    refine .bind (collectWhile_moves fun _ => rfl) fun words s₂ => ?_
    refine labelled_moves _ _ words fun name s₃ => ?_
    refine .isAt (fun _ _ _ _ => ?_) (.pure (by simp))
    exact .nextLeaf (fun _ => .pure (by simp)) fun _ _ => .pure (by simp)

theorem routeBody_moves {children : List Draft} (nonempty : children ≠ []) :
    Moves front (shift (Text.size front)) (routeBody children)
      (routeBody (children.map (shift (Text.size front)))) s := by
  refine .isAt (fun t rest tokens _ => ?_) ?_
  · exact .bind (compound_moves topLevel_lossless (topLevel_moves front) tokens)
      fun _ _ => node_moves _ (by simp) (by simp)
  · exact .bind skipStatementRest_moves fun _ _ => errorNode_moves (by simp) (by simp [nonempty])

theorem routeDefinition_moves {t : Token} {rest : List Token} (tokens : s.tokens = t :: rest) :
    Moves front (shift (Text.size front)) routeDefinition routeDefinition s := by
  refine .next (fun nothing => by simp [tokens] at nothing) fun t s₁ => ?_
  simp only [Option.toList_some, List.map_cons, List.map_nil, leaf_shift, ← shift_withField]
  refine .isAt (fun _ _ _ _ => ?_) (routeBody_moves (by simp))
  refine .bind routeName_moves fun ⟨name, closed⟩ s₂ => ?_
  have together (type : Draft) : [type.shift (Text.size front)]
      ++ name.map (shift (Text.size front)) = ([type] ++ name).map (shift (Text.size front)) := by
    simp
  simp only [Prod.map, id, together]
  split
  · exact routeBody_moves (by simp)
  · exact .bind skipStatementRest_moves fun _ _ => errorNode_moves (by simp) (by simp)

theorem globalAssignment_moves {t : Token} {rest : List Token} (tokens : s.tokens = t :: rest) :
    Moves front (shift (Text.size front)) globalAssignment globalAssignment s := by
  refine .nextLeaf (fun nothing => by simp [tokens] at nothing) fun key s₁ => ?_
  refine .nextLeaf (fun _ => ?_) fun sign s₂ => ?_
  all_goals
    refine .bind (collectWhile_moves fun _ => rfl) fun words s₃ => ?_
    refine labelled_moves _ _ words fun value s₄ => ?_
    refine .peek (fun _ => node_moves _ (by simp) (by simp)) fun t rest tokens => ?_
    dsimp only
    rw [Token.shift_kind, Token.shift_newlineBefore]
    split
    · refine .nextLeaf (fun nothing => by simp [tokens] at nothing) fun semicolon s₅ => ?_
      exact node_moves _ (by simp) (by simp)
    · exact node_moves _ (by simp) (by simp)

theorem wordItem_moves (word : String) (following : Option Token.Kind) {t : Token}
    {rest : List Token} (tokens : s.tokens = t :: rest) :
    Moves front (shift (Text.size front)) (wordItem word following) (wordItem word following)
      s := by
  unfold wordItem
  repeat' split
  · exact stringItem_moves _ _ tokens
  · exact stringItem_moves _ _ tokens
  · exact stringItem_moves _ _ tokens
  · exact modParam_moves tokens
  · exact routeDefinition_moves tokens
  · exact globalAssignment_moves tokens
  · exact (topLevel_moves front).statement tokens

theorem topLevelItem_moves {t : Token} {rest : List Token} (tokens : s.tokens = t :: rest) :
    Moves front (shift (Text.size front)) (topLevelItem t)
      (topLevelItem (t.shift (Text.size front))) s := by
  unfold topLevelItem
  rw [Token.shift_kind, Token.shift_word]
  split
  · exact .peekSecondKind fun following => wordItem_moves _ following tokens
  · rename_i opens
    exact markup_moves tokens opens
  · refine .nextLeaf (fun nothing => by simp [tokens] at nothing) fun brace s₁ => ?_
    exact errorNode_moves rfl (by simp)
  · exact (topLevel_moves front).statement tokens

theorem itemStep_moves (children : List Draft) :
    Moves front (Sum.map (List.map (shift (Text.size front))) (List.map (shift (Text.size front))))
      (itemStep children) (itemStep (children.map (shift (Text.size front)))) s := by
  refine .peek (fun _ => ?_) fun t rest tokens => ?_
  · exact .bind (flush_moves children) fun _ _ => .pure rfl
  · refine .bind (topLevelItem_moves tokens) fun item s₁ => ?_
    exact .bind (place_moves children item) fun _ _ => .pure rfl

/-- All items of a script are the same further on. -/
theorem items_moves : Moves front (List.map (shift (Text.size front))) items items s :=
  .repeatUntil itemStep_advancing (fun children _ _ => itemStep_moves children) trivial

end RouteScript.Script
