import RouteScript.Proofs.Depth.Expression
import RouteScript.Proofs.Depth.Counter
import RouteScript.Proofs.Braces.Items
/-!
# How deep statements go

A statement is a nesting around what it holds, and so is what a level reads in one. A region that is
nested too deeply becomes a flat list below one statement. So the levels bound the nestings, and no
script goes deeper than its top level.
-/
namespace RouteScript.Script

open Draft

variable {source : List Char} {n h : Nat}

theorem markup_low {s : Stream} {t : Token} {rest : List Token} (tokens : s.tokens = t :: rest)
    (opens : t.kind = .lt) : Checks source s markup (Low n (h + 2)) := by
  intro hs _
  obtain ⟨kept, _, ds, parts, leaves, eq⟩ := markup_lossless tokens opens hs solid_nil
  refine ⟨kept.passes, eq ▸ .branch (by decide) fun c hc => ?_⟩
  obtain ⟨kind, inMarkup, _, _, rfl⟩ := leaf_of_leaves leaves c hc
  have apart : ∀ kind ∈ markupKinds, kind ∉ nestingKinds := by decide
  exact low_leaf (apart kind inMarkup) _ _ _

theorem skipStatementRest_leaves (s : Stream) : Checks source s skipStatementRest AreLeaves :=
  .bind (.collectLeaves _ _) fun _ _ leaves => .pure leaves

theorem skipNestedRegion_leaves (s : Stream) : Checks source s skipNestedRegion AreLeaves :=
  .bind (.collectLeaves _ _) fun _ _ leaves => .pure leaves

theorem finishStatement_low {children : List Draft} (given : AllLow n (h + 2) children)
    (s : Stream) : Checks source s (finishStatement children) (Low (n + 1) (h + 3)) := by
  refine .peek (.nestingNode given) fun t rest tokens => ?_
  dsimp only
  split
  · exact .bind .leaves fun leaf s₁ last => .nestingNode (allLow_append.2 ⟨given, last _ _⟩)
  · split
    · exact .nestingNode given
    · refine .bind (skipStatementRest_leaves s) fun rest s₁ leaves => ?_
      refine .bind (.lowErrors (leaves n h)) fun garbage s₂ low => ?_
      refine .bind .optionalLeaves fun semicolon s₃ last => .nestingNode ?_
      simpa using ⟨given, low, last n (h + 1)⟩

section Productions

variable {inner : Level} (low : inner.Low source n h)
include low

theorem blockItem_low (s : Stream) : Checks source s (blockItem inner) (Low (n + 1) (h + 3)) :=
  .isAt (fun _ _ tokens opens => markup_low tokens opens) (low.statement s)

theorem blockStep_low (opening : Token) (children : List Draft) (s : Stream)
    (given : AllLow (n + 1) (h + 3) children) : Checks source s (blockStep inner opening children)
      (Sum.elim (AllLow (n + 1) (h + 3)) (AllLow (n + 1) (h + 3))) := by
  refine .peekKind (.flush fun comments s₁ there => .pure fun d hd => ?_) fun t rest tokens => ?_
  · rcases List.mem_or_eq_of_mem_set hd with before | rfl
    · exact allLow_append.2 ⟨given, there.low⟩ d before
    · exact AllLow.error (by simpa using low_leaf (by decide) false opening.start opening.stop)
  split
  · contradiction
  · refine .take tokens fun s₁ _ _ => .place fun comments s₂ there => .pure ?_
    have closing : (Draft.leaf Kind.blockEnd true t.start t.stop).Low (n + 1) (h + 3) :=
      low_leaf (by decide) _ _ _
    simpa using ⟨given, there.low, closing⟩
  · refine .bind (blockItem_low low s) fun item s₁ read =>
      .place fun comments s₂ there => .pure ?_
    simpa using ⟨given, there.low, read⟩

theorem compound_low (s : Stream) : Checks source s (compound inner) (Low (n + 1) (h + 4)) := by
  refine .next (.lowNode (by decide) allLow_nil) fun t rest s₁ _ _ _ => ?_
  have start : AllLow (n + 1) (h + 3) [Draft.leaf Kind.blockStart true t.start t.stop] := by
    simpa using low_leaf (by decide) true t.start t.stop
  exact .bind (.repeatUntil (blockStep_low low t) (fun _ given => by exact given) start)
    fun children s₂ given => .lowNode (by decide) given

theorem body_low (field : String) (s : Stream) :
    Checks source s (body inner field) (AllLow (n + 1) (h + 4)) := by
  refine .peekKind (.pure allLow_nil) fun t rest tokens => ?_
  split
  · exact .pure allLow_nil
  · exact .bind (compound_low low s) fun d s₁ block =>
      .pure (by simpa using block.withField field)
  · refine .bind (low.statement s) fun d s₁ read => .pure ?_
    simpa using (read.withField field).mono (Nat.le_refl _) (by omega)

theorem condition_low (s : Stream) :
    Checks source s (condition inner) (AllLow (n + 1) (h + 4)) := by
  refine .isAt (fun t rest tokens opening => ?_) ?_
  · refine .bind (parenthesized_low low s) fun out s₁ read => ?_
    cases out with
    | ok group =>
      have read : group.Low (n + 1) (h + 2) := read
      exact .pure (by simpa using (read.withField _).mono (Nat.le_refl _) (by omega))
    | error consumed =>
      have read : AllLow (n + 1) (h + 3) consumed :=
        AllLow.mono read (Nat.le_refl _) (Nat.le_succ _)
      refine .bind (.collectLeaves _ _) fun rest s₂ leaves => ?_
      exact .bind (.lowError (allLow_append.2 ⟨read, leaves _ _⟩)) fun d s₃ error =>
        .pure (by simpa using error)
  · exact .bind (.collectLeavesWhile _) fun words s₁ leaves => .lowErrors (leaves _ _)

theorem ifStatement_low (s : Stream) :
    Checks source s (ifStatement inner) (Low (n + 1) (h + 5)) := by
  refine .bind .keywordLeaves fun word s₁ first => ?_
  refine .bind (condition_low low s₁) fun test s₂ tested => ?_
  refine .bind (body_low low _ s₂) fun consequence s₃ followed => ?_
  refine .isAtWord (fun _ _ _ _ => ?_) (.lowNode (by decide) ?_)
  · refine .bind .keywordLeaves fun otherwise s₄ second => ?_
    refine .bind (body_low low _ s₄) fun alternative s₅ last => .lowNode (by decide) ?_
    simpa using ⟨first _ _, tested, followed, second _ _, last⟩
  · simpa using ⟨first _ _, tested, followed⟩

theorem whileStatement_low (s : Stream) :
    Checks source s (whileStatement inner) (Low (n + 1) (h + 5)) := by
  refine .bind .keywordLeaves fun word s₁ first => ?_
  refine .bind (condition_low low s₁) fun test s₂ tested => ?_
  refine .bind (body_low low _ s₂) fun repeated s₃ last => .lowNode (by decide) ?_
  simpa using ⟨first _ _, tested, last⟩

theorem switchStatement_low (s : Stream) :
    Checks source s (switchStatement inner) (Low (n + 1) (h + 5)) := by
  refine .bind .keywordLeaves fun word s₁ first => ?_
  refine .bind (condition_low low s₁) fun test s₂ tested => ?_
  refine .isAt (fun t rest tokens _ => ?_) ?_
  · refine .bind (compound_low low s₂) fun block s₃ last => .lowNode (by decide) ?_
    simpa using ⟨first _ _, tested, last.withField _⟩
  · refine .bind (skipStatementRest_leaves s₂) fun rest s₃ leaves => ?_
    refine .bind (.lowErrors (leaves (n + 1) (h + 2))) fun garbage s₄ errors =>
      .lowNode (by decide) ?_
    simpa using ⟨first _ _, tested, errors⟩

theorem caseStatement_low (s : Stream) :
    Checks source s (caseStatement inner) (Low (n + 1) (h + 26)) := by
  refine .isAtWord (fun _ _ _ _ => ?_) ?_
  · refine .bind .keywordLeaves fun word s₁ first => ?_
    refine .bind .optionalLeaves fun colon s₂ last => .lowNode (by decide) ?_
    simpa using ⟨first (n + 1) (h + 24), last (n + 1) (h + 24)⟩
  · refine .bind .keywordLeaves fun word s₁ first => ?_
    refine .bind (binary_low low s₁) fun out s₂ read => ?_
    cases out with
    | ok value =>
      have read : value.Low (n + 1) (h + 24) := read
      refine .bind .optionalLeaves fun colon s₃ last => .lowNode (by decide) ?_
      simpa using ⟨first _ _, (read.withField _).mono (Nat.le_refl _) (Nat.le_succ _), last _ _⟩
    | error consumed =>
      have read : AllLow (n + 1) (h + 24) consumed := read
      refine .bind (.lowErrors read) fun garbage s₃ errors => ?_
      refine .bind .optionalLeaves fun colon s₄ last => .lowNode (by decide) ?_
      simpa using ⟨first _ _, errors, last _ _⟩

theorem returnStatement_low (s : Stream) :
    Checks source s (returnStatement inner) (Low n (h + 3)) := by
  refine .bind .keywordLeaves fun word s₁ first => ?_
  refine .peek (.lowNode (by decide) (first _ _)) fun t rest tokens => ?_
  dsimp only
  split
  · exact .lowNode (by decide) (first _ _)
  · refine .bind (low.expression s₁) fun out s₂ read => ?_
    cases out with
    | ok value =>
      have read : value.Low n (h + 1) := read
      refine .lowNode (by decide) ?_
      simpa using ⟨first _ _, read.mono (Nat.le_refl n) (Nat.le_succ _)⟩
    | error consumed =>
      have read : AllLow n (h + 1) consumed := read
      exact .bind (.lowErrors read) fun garbage s₃ errors =>
        .lowNode (by decide) (allLow_append.2 ⟨first _ _, errors⟩)

theorem wordStatement_low {word : String} {following : Option Token.Kind} {read : Reader Draft}
    (found : wordStatement? inner word following = some read) (s : Stream) :
    Checks source s read (Low (n + 2) (h + 28)) := by
  have statement {r : Reader Draft} (hr : Checks source s r (Low (n + 1) (h + 26))) :
      Checks source s (do node Kind.statement [← r]) (Low (n + 2) (h + 28)) :=
    .bind hr fun d s₁ low => Checks.mono (.nestingNode (by simpa using low)) fun d low =>
      low.mono (Nat.le_refl _) (by omega)
  have control {r : Reader Draft} (hr : Checks source s r (Low (n + 1) (h + 5))) :
      Checks source s r (Low (n + 1) (h + 26)) :=
    hr.mono fun d low => low.mono (Nat.le_refl _) (by omega)
  have finished {r : Reader Draft} (hr : Checks source s r (Low n (h + 3))) :
      Checks source s (do finishStatement [← r]) (Low (n + 2) (h + 28)) :=
    .bind hr fun d s₁ low => (finishStatement_low (by simpa using low) s₁).mono fun d low =>
      low.mono (by omega) (by omega)
  unfold wordStatement? at found
  repeat' split at found
  all_goals cases found
  · exact statement (control (ifStatement_low low s))
  · exact statement (control (switchStatement_low low s))
  · exact statement (control (whileStatement_low low s))
  · exact statement (caseStatement_low low s)
  · exact statement (caseStatement_low low s)
  · exact finished (returnStatement_low low s)
  · exact finished (.bind .keywordLeaves fun word s₁ first => .lowNode (by decide) (first _ _))

theorem expressionStatement_low (s : Stream) :
    Checks source s (expressionStatement inner) (Low (n + 1) (h + 4)) := by
  refine .bind (low.expression s) fun out s₁ read => ?_
  cases out with
  | ok value =>
    have read : value.Low n (h + 1) := read
    exact finishStatement_low (by simpa using read.mono (Nat.le_refl n) (by omega)) s₁
  | error consumed =>
    have read : AllLow n (h + 1) consumed := read
    have finished {consumed : List Draft} (given : AllLow n (h + 1) consumed) (s₂ : Stream) :
        Checks source s₂ (do
          let rest ← skipStatementRest
          finishStatement [← errorNode (consumed ++ rest)]) (Low (n + 1) (h + 4)) :=
      .bind (skipStatementRest_leaves s₂) fun rest s₃ leaves =>
        .bind (.lowError (allLow_append.2 ⟨given, leaves _ _⟩)) fun d s₄ error =>
          finishStatement_low (by simpa using error.mono (Nat.le_refl n) (Nat.le_succ _)) s₄
    dsimp only
    split
    · exact .bind .leaves fun leaf s₂ leaves => finished (leaves _ _) s₂
    · exact finished read s₁

theorem statement_low (s : Stream) :
    Checks source s (statement inner) (Low (n + 2) (h + 28)) := by
  refine .peek (.nestingNode allLow_nil) fun t rest tokens => .peekSecondKind ?_
  split
  · rename_i read found
    split at found
    · exact wordStatement_low low found s
    · contradiction
  · split
    · refine .bind (compound_low low s) fun d s₁ block => .nestingNode ?_
      simpa using block.mono (Nat.le_refl _) (by omega)
    · exact .bind .leaves fun leaf s₁ leaves => .nestingNode (leaves _ _)
    · exact (expressionStatement_low low s).mono fun d low => low.mono (by omega) (by omega)

end Productions

theorem deepStatement_low (s : Stream) : Checks source s deepStatement (Low 1 3) := by
  have finished {consumed : List Draft} (leaves : AreLeaves consumed) (s₁ : Stream) :
      Checks source s₁ (do finishStatement (← errorNodes consumed)) (Low 1 3) :=
    .bind (.lowErrors (leaves 0 0)) fun garbage s₂ errors => finishStatement_low errors s₂
  refine .bind (skipNestedRegion_leaves s) fun region s₁ leaves => ?_
  dsimp only
  split
  · refine .isAt (fun _ _ _ _ => finished (fun _ _ => allLow_nil) s₁) ?_
    exact .bind .leaves fun leaf s₂ leaves => finished leaves s₂
  · exact finished leaves s₁

/-- What a level reads nests no more often than there are nestings left, a statement once more. -/
theorem level_low (source : List Char) (remaining : Nat) :
    (level remaining).Low source remaining (25 * remaining) := by
  induction remaining with
  | zero =>
    have region (s : Stream) : Checks source s (do return .error (← skipNestedRegion))
        (Outcome.Low 0 1) :=
      .bind (skipNestedRegion_leaves s) fun _ _ leaves => .pure (leaves 0 0)
    exact ⟨region, region, deepStatement_low⟩
  | succ remaining ih =>
    refine ⟨assignment_low ih, fun s => ?_, statement_low ih⟩
    exact (unary_low ih s).mono fun out read => read.mono (Nat.le_refl _) (by omega)

theorem topLevel_low (source : List Char) : topLevel.Low source 64 1600 := level_low source _

theorem stringItem_low {kind : String} (plain : kind ∉ Kind.assignment :: nestingKinds)
    (field : String) (s : Stream) : Checks source s (stringItem kind field) (Low n (h + 2)) := by
  refine .bind .keywordLeaves fun word s₁ first => ?_
  refine .peek (.lowError (first _ _)) fun t rest tokens => ?_
  dsimp only
  split
  · refine .bind .leaves fun value s₂ leaves => ?_
    refine .bind .optionalLeaves fun semicolon s₃ last => .lowNode plain ?_
    simpa using ⟨first n h, (leaves n h).withField field, last n h⟩
  · refine .bind (skipStatementRest_leaves s₁) fun rest s₂ leaves => ?_
    exact .lowError (allLow_append.2 ⟨first _ _, leaves _ _⟩)

theorem modParam_low (s : Stream) : Checks source s modParam (Low 65 1605) := by
  refine .bind .keywordLeaves fun word s₁ first => ?_
  refine .bind (argumentList_low (topLevel_low source) s₁) fun out s₂ read => ?_
  cases out with
  | ok arguments =>
    have read : arguments.Low 65 1603 := read
    refine .bind .optionalLeaves fun semicolon s₃ last => .lowNode (by decide) ?_
    simpa using ⟨first _ _, (read.withField _).mono (Nat.le_refl _) (Nat.le_succ _), last _ _⟩
  | error consumed =>
    have read : AllLow 65 1603 consumed := read
    refine .bind (skipStatementRest_leaves s₂) fun rest s₃ leaves => .lowError ?_
    simpa using ⟨first _ _, read.mono (Nat.le_refl _) (Nat.le_succ _), leaves _ _⟩

theorem routeName_low (s : Stream) :
    Checks source s routeName fun r => AllLow 65 1604 r.1 := by
  refine .bind .leaves fun opening s₁ first => ?_
  refine .bind (.collectLeavesWhile _) fun words s₂ leaves => ?_
  refine checks_labelled (fun _ => .lowNode (by decide) (leaves 65 1602))
    (fun _ low => low.withField _) (fun name s₃ named => ?_) s₂
  have opened : AllLow 65 1604 (opening ++ name) := allLow_append.2 ⟨first _ _, named⟩
  refine .isAt (fun t rest tokens closing => ?_) (.pure opened)
  exact .bind .leaves fun closing s₄ last => .pure (allLow_append.2 ⟨opened, last _ _⟩)

theorem routeBody_low {children : List Draft} (given : AllLow 65 1604 children) (s : Stream) :
    Checks source s (routeBody children) (Low 65 1605) := by
  refine .isAt (fun t rest tokens _ => ?_) ?_
  · refine .bind (compound_low (topLevel_low source) s) fun block s₁ low =>
      .lowNode (by decide) ?_
    simpa using ⟨given, low.withField _⟩
  · exact .bind (skipStatementRest_leaves s) fun rest s₁ leaves =>
      .lowError (allLow_append.2 ⟨given, leaves _ _⟩)

theorem routeDefinition_low (s : Stream) : Checks source s routeDefinition (Low 65 1605) := by
  have word : Checks source s next fun _ => True :=
    .next (k := Pure.pure) (.pure trivial) fun _ _ _ _ _ _ => .pure trivial
  refine .bind word fun t s₁ _ => ?_
  have type : AllLow 65 1604 (t.toList.map fun t =>
      (Draft.leaf Kind.routeType true t.start t.stop).withField Field.routeType) :=
    List.forall_mem_map.2 fun t _ => (low_leaf (by decide) _ _ _).withField _
  refine .isAt (fun _ _ _ _ => ?_) (routeBody_low type s₁)
  refine .bind (routeName_low s₁) fun result s₂ named => ?_
  obtain ⟨name, closed⟩ := result
  have before : AllLow 65 1604 (_ ++ name) := allLow_append.2 ⟨type, named⟩
  dsimp only
  split
  · exact routeBody_low before s₂
  · exact .bind (skipStatementRest_leaves s₂) fun rest s₃ leaves =>
      .lowError (allLow_append.2 ⟨before, leaves _ _⟩)

theorem globalAssignment_low (s : Stream) :
    Checks source s globalAssignment (Low n (h + 3)) := by
  refine .bind .leaves fun key s₁ first => ?_
  refine .bind .leaves fun sign s₂ second => ?_
  refine .bind (.collectLeavesWhile _) fun words s₃ leaves => ?_
  refine checks_labelled (fun _ => .lowNode (by decide) (leaves n h)) (fun _ low => low.withField _)
    (fun value s₄ valued => ?_) s₃
  have given : AllLow n (h + 2) (key.map (Draft.withField Field.key) ++ sign ++ value) := by
    simpa using ⟨(first n (h + 1)).withField _, second n (h + 1), valued⟩
  refine .peek (.lowNode (by decide) given) fun t rest tokens => ?_
  dsimp only
  split
  · exact .bind .leaves fun semicolon s₅ last =>
      .lowNode (by decide) (allLow_append.2 ⟨given, last _ _⟩)
  · exact .lowNode (by decide) given

theorem wordItem_low (word : String) (following : Option Token.Kind) (s : Stream) :
    Checks source s (wordItem word following) (Low 65 1605) := by
  unfold wordItem
  repeat' split
  · exact stringItem_low (by decide) _ s
  · exact stringItem_low (by decide) _ s
  · exact stringItem_low (by decide) _ s
  · exact modParam_low s
  · exact routeDefinition_low s
  · exact globalAssignment_low s
  · exact ((topLevel_low source).statement s).mono fun d low =>
      low.mono (Nat.le_refl _) (by omega)

theorem topLevelItem_low {s : Stream} {t : Token} {rest : List Token}
    (tokens : s.tokens = t :: rest) : Checks source s (topLevelItem t) (Low 65 1605) := by
  unfold topLevelItem
  split
  · exact .peekSecondKind (wordItem_low _ _ s)
  · rename_i opens
    exact markup_low tokens opens
  · exact .bind .leaves fun brace s₁ leaves => .lowError (leaves _ _)
  · exact ((topLevel_low source).statement s).mono fun d low =>
      low.mono (Nat.le_refl _) (by omega)

theorem itemStep_low (children : List Draft) (s : Stream) (given : AllLow 65 1605 children) :
    Checks source s (itemStep children) (Sum.elim (AllLow 65 1605) (AllLow 65 1605)) := by
  refine .peek (.flush fun comments s₁ there => .pure ?_) fun t rest tokens => ?_
  · exact allLow_append.2 ⟨given, there.low⟩
  · refine .bind (topLevelItem_low tokens) fun item s₁ low =>
      .place fun comments s₂ there => .pure ?_
    simpa using ⟨given, there.low, low⟩

theorem items_low (text : List Char) : AllLow 65 1605 (items (.ofText text)).1 := by
  have sound : (Stream.ofText text).Sound := (whole_ofText text).settle.sound
  have low : Checks text (.ofText text) items (AllLow 65 1605) :=
    .repeatUntil itemStep_low (fun _ given => given) allLow_nil
  exact (low sound rfl).2

/-- No path of a script nests more than 65 times. -/
theorem draft_low (text : List Char) : (draft text).Low 65 1606 :=
  Low.spanning (.branch (by decide) (items_low text)) 0 _

end RouteScript.Script

namespace RouteScript.Tree

open Script Draft

/-- A tree in which no way to a leaf nests more often than 65 times, and none grows but by steps to
the left of binary operators. -/
structure Shallow (t : Tree) : Prop where
  nestings_le : ∀ path ∈ t.root.paths, nestings (path.map Entry.tag) ≤ 65
  length_le : ∀ path ∈ t.root.paths,
    path.length ≤ 1606 + 2 * leftSteps (path.map Entry.tag)

/-- Scripts are shallow, and the readers of a level may as well count their nestings. -/
theorem ofScript_shallow (text : List Char) :
    Shallow (ofScript text) ∧ ∃ plans : Plans, plans.Complete := by
  have low := draft_low text
  rw [← thaw_ofScript] at low
  refine ⟨⟨fun path hp => ?_, fun path hp => ?_⟩, exists_complete⟩
  · exact low.nestings_le _ (Rose.map_mem_paths Entry.tag hp)
  · have long := low.length_le _ (Rose.map_mem_paths Entry.tag hp)
    rwa [List.length_map] at long

end RouteScript.Tree
