import RouteScript.Proofs.Precedence.Expression
import RouteScript.Proofs.Braces.Items
/-!
# Operators in statements

No statement makes an operator node by itself: what it holds of expressions is steady, and so is
what it keeps of those that failed. So every item of a script is steady, and so is its tree.
-/
namespace RouteScript.Script

open Draft

variable {source : List Char} {s : Stream}

theorem AreComments.steady {ds : List Draft} (h : AreComments source ds) : AllSteady ds := by
  intro d hd
  obtain ⟨t, _, _, rfl⟩ := h d hd
  exact .extraLeaf t

theorem allSteady_singleton {d : Draft} : AllSteady [d] ↔ d.Steady := List.forall_mem_singleton

theorem markup_steady {t : Token} {rest : List Token} (tokens : s.tokens = t :: rest)
    (opens : t.kind = .lt) : Checks source s markup Steady := by
  intro hs _
  obtain ⟨kept, _, ds, parts, leaves, eq⟩ := markup_lossless tokens opens hs solid_nil
  refine ⟨kept.passes, eq ▸ Steady.branch (by decide) fun c hc => ?_⟩
  obtain ⟨kind, inMarkup, _, _, rfl⟩ := leaf_of_leaves leaves c hc
  have apart : ∀ kind ∈ markupKinds, kind ∉ operatorKinds := by decide
  exact .leaf (apart kind inMarkup) _ _ _

theorem skipStatementRest_steady (s : Stream) : Checks source s skipStatementRest AllSteady :=
  .bind (.collectSteady _ _) fun _ _ steady => .pure steady

theorem skipNestedRegion_steady (s : Stream) : Checks source s skipNestedRegion AllSteady :=
  .bind (.collectSteady _ _) fun _ _ steady => .pure steady

theorem optionalLeaf_steady (kind : Token.Kind) (s : Stream) :
    Checks source s (optionalLeaf kind) AllSteady :=
  .isAt (fun _ _ _ _ => .steadyLeaf) (.pure allSteady_nil)

theorem finishStatement_steady {children : List Draft} (given : AllSteady children) (s : Stream) :
    Checks source s (finishStatement children) Steady := by
  refine .peek (.steadyNode (by decide) given) fun t rest tokens => ?_
  dsimp only
  split
  · exact .bind .steadyLeaf fun leaf s₁ last =>
      .steadyNode (by decide) ((allSteady_append _ _).2 ⟨given, last⟩)
  · split
    · exact .steadyNode (by decide) given
    · refine .bind (skipStatementRest_steady s) fun rest s₁ steady => ?_
      refine .bind (.steadyErrors steady) fun garbage s₂ made => ?_
      refine .bind (optionalLeaf_steady _ s₂) fun semicolon s₃ last => .steadyNode (by decide) ?_
      simpa using ⟨given, made, last⟩

/-- The readers of a level, that of statements among them, give steady drafts. -/
structure Level.AllSteady (source : List Char) (inner : Level) : Prop extends
    inner.Steady source where
  statement : ∀ s, Script.Checks source s inner.statement Draft.Steady

section Productions

variable {inner : Level} (h : inner.AllSteady source)
include h

theorem blockItem_steady (s : Stream) : Checks source s (blockItem inner) Steady :=
  .isAt (fun _ _ tokens opens => markup_steady tokens opens) (h.statement s)

theorem blockStep_steady (opening : Token) (children : List Draft) (s : Stream)
    (given : AllSteady children) : Checks source s (blockStep inner opening children)
      (Sum.elim AllSteady AllSteady) := by
  refine .peekKind (.flush fun comments s₁ there => .pure ?_) fun t rest tokens => ?_
  · intro d hd
    rcases List.mem_or_eq_of_mem_set hd with before | rfl
    · exact (allSteady_append _ _).2 ⟨given, there.steady⟩ d before
    · exact .error (List.forall_mem_singleton.2 (.leaf (by decide) _ _ _))
  split
  · contradiction
  · refine .take tokens fun s₁ _ _ => .place fun comments s₂ there => .pure ?_
    have closing : AllSteady [Draft.leaf Kind.blockEnd true t.start t.stop] :=
      steady_leaf (by decide) _ _ _
    exact (allSteady_append _ _).2 ⟨(allSteady_append _ _).2 ⟨given, there.steady⟩, closing⟩
  · refine .bind (blockItem_steady h s) fun item s₁ steady =>
      .place fun comments s₂ there => .pure ?_
    exact (allSteady_append _ _).2
      ⟨(allSteady_append _ _).2 ⟨given, there.steady⟩, allSteady_singleton.2 steady⟩

theorem compound_steady (s : Stream) : Checks source s (compound inner) Steady := by
  refine .next (.steadyNode (by decide) allSteady_nil) fun opening rest s₁ _ _ _ => ?_
  exact .bind (.repeatUntil (blockStep_steady h opening) (fun _ given => by exact given)
    (steady_leaf (by decide) _ _ _)) fun children s₂ given => .steadyNode (by decide) given

theorem body_steady (field : String) (s : Stream) :
    Checks source s (body inner field) AllSteady := by
  refine .peekKind (.pure allSteady_nil) fun t rest tokens => ?_
  split
  · exact .pure allSteady_nil
  · exact .bind (compound_steady h s) fun d s₁ steady =>
      .pure (allSteady_singleton.2 (steady.withField field))
  · exact .bind (h.statement s) fun d s₁ steady =>
      .pure (allSteady_singleton.2 (steady.withField field))

theorem condition_steady (s : Stream) : Checks source s (condition inner) AllSteady := by
  refine .isAt (fun t rest tokens opening => ?_) ?_
  · refine .bind (parenthesized_steady h.toSteady s) fun out s₁ ⟨steady, _⟩ => ?_
    cases out with
    | ok group => exact .pure (allSteady_singleton.2 (Steady.withField steady _))
    | error consumed =>
      refine .bind (.collectSteady _ _) fun rest s₂ steady' => ?_
      exact .bind (.steadyError ((allSteady_append _ _).2 ⟨steady, steady'⟩)) fun d s₃ made =>
        .pure (allSteady_singleton.2 made)
  · exact .bind (.collectWhileSteady _) fun words s₁ steady => .steadyErrors steady

theorem ifStatement_steady (s : Stream) : Checks source s (ifStatement inner) Steady := by
  refine .bind .steadyKeyword fun word s₁ first => ?_
  refine .bind (condition_steady h s₁) fun test s₂ tested => ?_
  refine .bind (body_steady h _ s₂) fun consequence s₃ followed => ?_
  refine .isAtWord (fun _ _ _ _ => ?_) (.steadyNode (by decide) ?_)
  · refine .bind .steadyKeyword fun otherwise s₄ second => ?_
    refine .bind (body_steady h _ s₄) fun alternative s₅ last => .steadyNode (by decide) ?_
    simpa using ⟨first, tested, followed, second, last⟩
  · simpa using ⟨first, tested, followed⟩

theorem whileStatement_steady (s : Stream) : Checks source s (whileStatement inner) Steady := by
  refine .bind .steadyKeyword fun word s₁ first => ?_
  refine .bind (condition_steady h s₁) fun test s₂ tested => ?_
  refine .bind (body_steady h _ s₂) fun repeated s₃ last => .steadyNode (by decide) ?_
  simpa using ⟨first, tested, last⟩

theorem switchStatement_steady (s : Stream) :
    Checks source s (switchStatement inner) Steady := by
  refine .bind .steadyKeyword fun word s₁ first => ?_
  refine .bind (condition_steady h s₁) fun test s₂ tested => ?_
  refine .isAt (fun t rest tokens _ => ?_) ?_
  · refine .bind (compound_steady h s₂) fun block s₃ last => .steadyNode (by decide) ?_
    simpa using ⟨first, tested, last.withField _⟩
  · refine .bind (skipStatementRest_steady s₂) fun rest s₃ steady => ?_
    refine .bind (.steadyErrors steady) fun garbage s₄ made => .steadyNode (by decide) ?_
    simpa using ⟨first, tested, made⟩

theorem caseStatement_steady (s : Stream) : Checks source s (caseStatement inner) Steady := by
  refine .isAtWord (fun _ _ _ _ => ?_) ?_
  · refine .bind .steadyKeyword fun word s₁ first => ?_
    exact .bind (optionalLeaf_steady _ s₁) fun colon s₂ last =>
      .steadyNode (by decide) ((allSteady_append _ _).2 ⟨first, last⟩)
  · refine .bind .steadyKeyword fun word s₁ first => ?_
    refine .bind (binary_binds h.toSteady s₁) fun out s₂ read => ?_
    cases out with
    | ok value =>
      refine .bind (optionalLeaf_steady _ s₂) fun colon s₃ last => .steadyNode (by decide) ?_
      simpa using ⟨first, read.1.withField _, last⟩
    | error consumed =>
      refine .bind (.steadyErrors read) fun garbage s₃ made => ?_
      refine .bind (optionalLeaf_steady _ s₃) fun colon s₄ last => .steadyNode (by decide) ?_
      simpa using ⟨first, made, last⟩

theorem returnStatement_steady (s : Stream) :
    Checks source s (returnStatement inner) Steady := by
  refine .bind .steadyKeyword fun word s₁ first => ?_
  refine .peek (.steadyNode (by decide) first) fun t rest tokens => ?_
  dsimp only
  split
  · exact .steadyNode (by decide) first
  · refine .bind (h.expression s₁) fun out s₂ steady => ?_
    cases out with
    | ok value =>
      exact .steadyNode (by decide)
        ((allSteady_append _ _).2 ⟨first, allSteady_singleton.2 steady⟩)
    | error consumed =>
      exact .bind (.steadyErrors steady) fun garbage s₃ made =>
        .steadyNode (by decide) ((allSteady_append _ _).2 ⟨first, made⟩)

theorem wordStatement_steady {word : String} {following : Option Token.Kind}
    {read : Reader Draft} (found : wordStatement? inner word following = some read) (s : Stream) :
    Checks source s read Steady := by
  have statement {r : Reader Draft} (hr : Checks source s r Steady) :
      Checks source s (do node Kind.statement [← r]) Steady :=
    .bind hr fun d s₁ steady => .steadyNode (by decide) (allSteady_singleton.2 steady)
  have finished {r : Reader Draft} (hr : Checks source s r Steady) :
      Checks source s (do finishStatement [← r]) Steady :=
    .bind hr fun d s₁ steady => finishStatement_steady (allSteady_singleton.2 steady) s₁
  unfold wordStatement? at found
  repeat' split at found
  all_goals cases found
  · exact statement (ifStatement_steady h s)
  · exact statement (switchStatement_steady h s)
  · exact statement (whileStatement_steady h s)
  · exact statement (caseStatement_steady h s)
  · exact statement (caseStatement_steady h s)
  · exact finished (returnStatement_steady h s)
  · refine .bind .steadyKeyword fun word s₁ first => ?_
    exact .bind (.steadyNode (by decide) first) fun d s₂ steady =>
      finishStatement_steady (allSteady_singleton.2 steady) s₂

theorem expressionStatement_steady (s : Stream) :
    Checks source s (expressionStatement inner) Steady := by
  refine .bind (h.expression s) fun out s₁ steady => ?_
  cases out with
  | ok value => exact finishStatement_steady (allSteady_singleton.2 steady) s₁
  | error consumed =>
    have finished {consumed : List Draft} (steady : AllSteady consumed) (s₂ : Stream) :
        Checks source s₂ (do
          let rest ← skipStatementRest
          finishStatement [← errorNode (consumed ++ rest)]) Steady :=
      .bind (skipStatementRest_steady s₂) fun rest s₃ steady' =>
        .bind (.steadyError ((allSteady_append _ _).2 ⟨steady, steady'⟩)) fun d s₄ made =>
          finishStatement_steady (allSteady_singleton.2 made) s₄
    dsimp only
    split
    · exact .bind .steadyLeaf fun leaf s₂ steady => finished steady s₂
    · exact finished steady s₁

theorem statement_steady (s : Stream) : Checks source s (statement inner) Steady := by
  refine .peek (.steadyNode (by decide) allSteady_nil) fun t rest tokens => .peekSecondKind ?_
  split
  · rename_i read found
    split at found
    · exact wordStatement_steady h found s
    · contradiction
  · split
    · exact .bind (compound_steady h s) fun d s₁ steady =>
        .steadyNode (by decide) (allSteady_singleton.2 steady)
    · exact .bind .steadyLeaf fun leaf s₁ steady => .steadyNode (by decide) steady
    · exact expressionStatement_steady h s

end Productions

theorem deepStatement_steady (s : Stream) : Checks source s deepStatement Steady := by
  have finished {consumed : List Draft} (steady : AllSteady consumed) (s₁ : Stream) :
      Checks source s₁ (do finishStatement (← errorNodes consumed)) Steady :=
    .bind (.steadyErrors steady) fun garbage s₂ made => finishStatement_steady made s₂
  refine .bind (skipNestedRegion_steady s) fun region s₁ steady => ?_
  dsimp only
  split
  · refine .isAt (fun _ _ _ _ => finished allSteady_nil s₁) ?_
    exact .bind .steadyLeaf fun leaf s₂ steady => finished steady s₂
  · exact finished steady s₁

theorem level_steady (source : List Char) (remaining : Nat) :
    (level remaining).AllSteady source := by
  induction remaining with
  | zero =>
    exact ⟨⟨fun s => .bind (skipNestedRegion_steady s) fun _ _ steady => .pure steady,
      fun s => .bind (skipNestedRegion_steady s) fun _ _ steady => .pure steady⟩,
      deepStatement_steady⟩
  | succ remaining ih =>
    exact ⟨⟨assignment_steady ih.toSteady, unary_isOperand ih.toSteady⟩, statement_steady ih⟩

end RouteScript.Script

namespace RouteScript.Script

open Draft

variable {source : List Char} {s : Stream}

theorem topLevel_steady (source : List Char) : topLevel.AllSteady source := level_steady source _

theorem stringItem_steady {kind : String} (plain : kind ∉ operatorKinds) (field : String)
    (s : Stream) : Checks source s (stringItem kind field) Steady := by
  refine .bind .steadyKeyword fun word s₁ first => ?_
  refine .peek (.steadyError first) fun t rest tokens => ?_
  dsimp only
  split
  · refine .bind .steadyLeaf fun value s₂ steady => ?_
    refine .bind (optionalLeaf_steady _ s₂) fun semicolon s₃ last => .steadyNode plain ?_
    simpa using ⟨first, steady.withField field, last⟩
  · exact .bind (skipStatementRest_steady s₁) fun rest s₂ steady =>
      .steadyError ((allSteady_append _ _).2 ⟨first, steady⟩)

theorem modParam_steady (s : Stream) : Checks source s modParam Steady := by
  refine .bind .steadyKeyword fun word s₁ first => ?_
  refine .bind (argumentList_steady (topLevel_steady source).toSteady s₁) fun out s₂ steady => ?_
  cases out with
  | ok arguments =>
    refine .bind (optionalLeaf_steady _ s₂) fun semicolon s₃ last => .steadyNode (by decide) ?_
    simpa using ⟨first, Steady.withField steady _, last⟩
  | error consumed =>
    refine .bind (skipStatementRest_steady s₂) fun rest s₃ steady' => .steadyError ?_
    exact (allSteady_append _ _).2 ⟨(allSteady_append _ _).2 ⟨first, steady⟩, steady'⟩

theorem routeName_steady (s : Stream) : Checks source s routeName fun r => AllSteady r.1 := by
  refine .bind .steadyLeaf fun opening s₁ first => ?_
  refine .bind (.collectWhileSteady _) fun words s₂ steady => ?_
  refine checks_labelled (fun _ => .steadyNode (by decide) steady) (fun _ kept => kept.withField _)
    (fun name s₃ named => ?_) s₂
  have before : AllSteady (opening ++ name) := (allSteady_append _ _).2 ⟨first, named⟩
  refine .isAt (fun t rest tokens closing => ?_) (.pure before)
  exact .bind .steadyLeaf fun closing s₄ last => .pure ((allSteady_append _ _).2 ⟨before, last⟩)

theorem routeBody_steady {children : List Draft} (given : AllSteady children) (s : Stream) :
    Checks source s (routeBody children) Steady := by
  refine .isAt (fun t rest tokens _ => ?_) ?_
  · refine .bind (compound_steady (topLevel_steady source) s) fun block s₁ steady =>
      .steadyNode (by decide) ?_
    simpa using ⟨given, steady.withField _⟩
  · exact .bind (skipStatementRest_steady s) fun rest s₁ steady =>
      .steadyError ((allSteady_append _ _).2 ⟨given, steady⟩)

theorem routeDefinition_steady (s : Stream) : Checks source s routeDefinition Steady := by
  have word : Checks source s next fun _ => True :=
    .next (k := Pure.pure) (.pure trivial) fun _ _ _ _ _ _ => .pure trivial
  refine .bind word fun t s₁ _ => ?_
  have type : AllSteady (t.toList.map fun t =>
      (Draft.leaf Kind.routeType true t.start t.stop).withField Field.routeType) :=
    List.forall_mem_map.2 fun t _ =>
      (Steady.leaf (by decide : Kind.routeType ∉ operatorKinds) _ _ _).withField _
  refine .isAt (fun _ _ _ _ => ?_) (routeBody_steady type s₁)
  refine .bind (routeName_steady s₁) fun result s₂ named => ?_
  obtain ⟨name, closed⟩ := result
  have before : AllSteady (_ ++ name) := (allSteady_append _ _).2 ⟨type, named⟩
  dsimp only
  split
  · exact routeBody_steady before s₂
  · exact .bind (skipStatementRest_steady s₂) fun rest s₃ steady =>
      .steadyError ((allSteady_append _ _).2 ⟨before, steady⟩)

theorem globalAssignment_steady (s : Stream) : Checks source s globalAssignment Steady := by
  refine .bind .steadyLeaf fun key s₁ first => ?_
  refine .bind .steadyLeaf fun sign s₂ second => ?_
  refine .bind (.collectWhileSteady _) fun words s₃ steady => ?_
  refine checks_labelled (fun _ => .steadyNode (by decide) steady) (fun _ kept => kept.withField _)
    (fun value s₄ valued => ?_) s₃
  have given : AllSteady (key.map (Draft.withField Field.key) ++ sign ++ value) :=
    (allSteady_append _ _).2 ⟨(allSteady_append _ _).2 ⟨first.withField _, second⟩, valued⟩
  refine .peek (.steadyNode (by decide) given) fun t rest tokens => ?_
  dsimp only
  split
  · exact .bind .steadyLeaf fun semicolon s₅ last => .steadyNode (by decide)
      ((allSteady_append _ _).2 ⟨given, last⟩)
  · exact .steadyNode (by decide) given

theorem wordItem_steady (word : String) (following : Option Token.Kind) (s : Stream) :
    Checks source s (wordItem word following) Steady := by
  unfold wordItem
  repeat' split
  · exact stringItem_steady (by decide) _ s
  · exact stringItem_steady (by decide) _ s
  · exact stringItem_steady (by decide) _ s
  · exact modParam_steady s
  · exact routeDefinition_steady s
  · exact globalAssignment_steady s
  · exact (topLevel_steady source).statement s

theorem topLevelItem_steady {t : Token} {rest : List Token} (tokens : s.tokens = t :: rest) :
    Checks source s (topLevelItem t) Steady := by
  unfold topLevelItem
  split
  · exact .peekSecondKind (wordItem_steady _ _ s)
  · rename_i opens
    exact markup_steady tokens opens
  · exact .bind .steadyLeaf fun brace s₁ steady => .steadyError steady
  · exact (topLevel_steady source).statement s

theorem itemStep_steady (children : List Draft) (s : Stream) (given : AllSteady children) :
    Checks source s (itemStep children) (Sum.elim AllSteady AllSteady) := by
  refine .peek (.flush fun comments s₁ there => .pure ?_) fun t rest tokens => ?_
  · exact (allSteady_append _ _).2 ⟨given, there.steady⟩
  · refine .bind (topLevelItem_steady tokens) fun item s₁ steady =>
      .place fun comments s₂ there => .pure ?_
    exact (allSteady_append _ _).2
      ⟨(allSteady_append _ _).2 ⟨given, there.steady⟩, allSteady_singleton.2 steady⟩

/-- All items of a text are steady. -/
theorem items_steady (text : List Char) : AllSteady (items (.ofText text)).1 := by
  have sound : (Stream.ofText text).Sound := (whole_ofText text).settle.sound
  have steady : Checks text (.ofText text) items AllSteady :=
    .repeatUntil itemStep_steady (fun _ given => given) allSteady_nil
  exact (steady sound rfl).2

end RouteScript.Script
