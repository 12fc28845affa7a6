import RouteScript.Proofs.Errors.Expression
import RouteScript.Proofs.Nesting.Stops
import RouteScript.Proofs.Braces.Items
/-!
# Errors in statements

No statement gets into an error node whole, and markup has leaves only. So the regions of errors and
of markup are no more than what the readers of expressions leave behind, and flat lists. Statements
stand in blocks, which hold them in the order of their ends.

An item that fails leaves an error node over flat lists of words, and all others are regular.
-/
namespace RouteScript

open Script

namespace Draft

/-- A node that holds what an error node, markup or a block may hold. -/
structure Confined (d : Draft) : Prop where
  error : d.isError → d.Mild
  markup : d.label.kind = Kind.xml → d.label.named ∧ ∀ c ∈ d.children, Rose.children c = []
  block : d.label.kind = Kind.compoundStatement → d.Climbing

/-- A draft all nodes of which are confined. -/
def Regular (d : Draft) : Prop := ∀ n ∈ d.nodes, Confined n

variable {t : Tag} {kind : String} {children : List Draft} {d : Draft}

theorem regular_node : Regular (.node t children) ↔
    Confined (.node t children) ∧ ∀ c ∈ children, c.Regular := Rose.forall_nodes_node

theorem Mild.regular (h : d.Mild) : d.Regular := by
  intro n hn
  have plain := (h n hn).plain
  refine ⟨fun _ => h.of_mem_nodes hn, fun markup => ?_, fun block => ?_⟩
  · rw [markup] at plain
    exact absurd plain (by decide)
  · rw [block] at plain
    exact absurd plain (by decide)

namespace Regular

/-- A node that is no error, no markup and no block. -/
theorem branch (plain : kind ∉ errorKind :: regionKinds) (h : ∀ c ∈ children, c.Regular) :
    (branch kind children).Regular := by
  obtain ⟨noError, noBlock, noMarkup⟩ :
      kind ≠ errorKind ∧ kind ≠ Kind.compoundStatement ∧ kind ≠ Kind.xml := by
    simpa [regionKinds] using plain
  refine regular_node.2 ⟨⟨fun error => ?_, fun markup => absurd markup noMarkup,
    fun block => absurd block noBlock⟩, h⟩
  exact absurd (Tag.isError_iff.1 error).2 noError

theorem withField (h : d.Regular) (field : String) : (d.withField field).Regular := by
  obtain ⟨t, children⟩ := d
  obtain ⟨⟨error, markup, block⟩, below⟩ := regular_node.1 h
  exact regular_node.2 ⟨⟨fun malformed => (error malformed).withField field, markup, block⟩, below⟩

/-- Markup over leaves. -/
theorem markup (h : ∀ c ∈ children, c.Mild ∧ Rose.children c = []) :
    (Draft.branch Kind.xml children).Regular := by
  have noError : Kind.xml ≠ errorKind := by decide
  have noBlock : Kind.xml ≠ Kind.compoundStatement := by decide
  refine regular_node.2 ⟨⟨fun error => ?_, fun _ => ⟨rfl, fun c hc => (h c hc).2⟩,
    fun block => absurd block noBlock⟩, fun c hc => (h c hc).1.regular⟩
  exact absurd (Tag.isError_iff.1 error).2 noError

/-- A block over what ends in its order. -/
theorem compound {field : Option String} {start stop : Nat} (h : ∀ c ∈ children, c.Regular)
    (climbing : Climbing (.node ⟨Kind.compoundStatement, true, false, field, start, stop⟩ children)) :
    Regular (.node ⟨Kind.compoundStatement, true, false, field, start, stop⟩ children) := by
  have noError : Kind.compoundStatement ≠ errorKind := by decide
  have noMarkup : Kind.compoundStatement ≠ Kind.xml := by decide
  refine regular_node.2 ⟨⟨fun error => ?_, fun markup => absurd markup noMarkup,
    fun _ => climbing⟩, h⟩
  exact absurd (Tag.isError_iff.1 error).2 noError

end Regular

end Draft

namespace Script

open Draft

variable {source : List Char} {β : Type}

/-- Drafts that are all regular. -/
def AllRegular (ds : List Draft) : Prop := ∀ d ∈ ds, d.Regular

@[simp] theorem allRegular_nil : AllRegular [] := by simp [AllRegular]

@[simp] theorem allRegular_cons (d : Draft) (ds : List Draft) :
    AllRegular (d :: ds) ↔ d.Regular ∧ AllRegular ds := by simp [AllRegular]

@[simp] theorem allRegular_append (ds ds' : List Draft) :
    AllRegular (ds ++ ds') ↔ AllRegular ds ∧ AllRegular ds' := by
  simp [AllRegular, or_imp, forall_and]

theorem AllMild.regular {ds : List Draft} (h : AllMild ds) : AllRegular ds := fun d hd =>
  (h d hd).regular

theorem AllWhole.regular {ds : List Draft} (h : AllWhole ds) : AllRegular ds := h.mild.regular

theorem AreComments.whole {ds : List Draft} (h : AreComments source ds) : AllWhole ds := by
  intro d hd
  obtain ⟨t, _, _, rfl⟩ := h d hd
  exact whole_extraLeaf t

theorem AreComments.regular {ds : List Draft} (h : AreComments source ds) : AllRegular ds :=
  h.whole.regular

theorem Checks.regularNode {s : Stream} {kind : String} {children : List Draft}
    (plain : kind ∉ errorKind :: regionKinds) (h : AllRegular children) :
    Checks source s (Script.node kind children) Regular :=
  .bind (.absorb children) fun all _ ⟨inside, _⟩ => .pure (.branch plain fun c hc => by
    rcases inside c hc with given | ⟨t, _, _, rfl⟩
    · exact h c given
    · exact (whole_extraLeaf t).mild.regular)

theorem markup_regular {s : Stream} {t : Token} {rest : List Token} (tokens : s.tokens = t :: rest)
    (opens : t.kind = .lt) : Checks source s markup Regular := by
  intro hs _
  obtain ⟨kept, _, ds, parts, leaves, eq⟩ := markup_lossless tokens opens hs solid_nil
  refine ⟨kept.passes, eq ▸ .markup fun c hc => ?_⟩
  obtain ⟨kind, inMarkup, _, _, rfl⟩ := leaf_of_leaves leaves c hc
  have apart : ∀ kind ∈ markupKinds, kind ∉ regionKinds := by decide
  exact ⟨mild_leaf (apart kind inMarkup), rfl⟩

theorem skipStatementRest_mild (s : Stream) : Checks source s skipStatementRest AllMild :=
  .bind (.collectMild _ _) fun _ _ mild => .pure mild

theorem skipNestedRegion_mild (s : Stream) : Checks source s skipNestedRegion AllMild :=
  .bind (.collectMild _ _) fun _ _ mild => .pure mild

theorem optionalLeaf_mild (kind : Token.Kind) (s : Stream) :
    Checks source s (optionalLeaf kind) AllMild :=
  .isAt (fun _ _ _ _ => .mildLeaf) (.pure allMild_nil)

theorem finishStatement_regular {children : List Draft} (given : AllRegular children) (s : Stream) :
    Checks source s (finishStatement children) Regular := by
  refine .peek (.regularNode (by decide) given) fun t rest tokens => ?_
  dsimp only
  split
  · refine .bind .mildLeaf fun leaf s₁ mild => .regularNode (by decide) ?_
    exact (allRegular_append _ _).2 ⟨given, mild.regular⟩
  · split
    · exact .regularNode (by decide) given
    · refine .bind (skipStatementRest_mild s) fun rest s₁ mild => ?_
      refine .bind (.mildErrors mild) fun garbage s₂ mild => ?_
      refine .bind (optionalLeaf_mild _ s₂) fun semicolon s₃ mild' => .regularNode (by decide) ?_
      simpa using ⟨given, mild.regular, mild'.regular⟩

/-- No reader of a level leaves more in an error node than there may be. -/
structure Level.Regular (source : List Char) (inner : Level) : Prop extends
    inner.Mild source where
  statement : ∀ s, Script.Checks source s inner.statement Draft.Regular

section Productions

variable {inner : Level} (lossless : inner.Lossless) (h : inner.Regular source)

include h in
theorem blockItem_regular (s : Stream) : Checks source s (blockItem inner) Regular :=
  .isAt (fun _ _ tokens opens => markup_regular tokens opens) (h.statement s)

include h in
theorem blockStep_regular (opening : Token) (children : List Draft) (s : Stream)
    (given : AllRegular children) : Checks source s (blockStep inner opening children)
      (Sum.elim AllRegular AllRegular) := by
  have brace (named : Bool) {kind : String} (plain : kind ∉ errorKind :: regionKinds)
      (t : Token) : (Draft.leaf kind named t.start t.stop).Mild := (Whole.leaf plain _ _ _).mild
  refine .peekKind (.flush fun comments s₁ there => .pure ?_) fun t rest tokens => ?_
  · intro d hd
    rcases List.mem_or_eq_of_mem_set hd with before | rfl
    · exact (allRegular_append _ _).2 ⟨given, there.regular⟩ d before
    · exact (Mild.error (List.forall_mem_singleton.2 (brace false (by decide) opening))).regular
  split
  · contradiction
  · refine .take tokens fun s₁ _ _ => .place fun comments s₂ there => .pure ?_
    have closing := (brace true (by decide : Kind.blockEnd ∉ _) t).regular
    exact (allRegular_append _ _).2
      ⟨(allRegular_append _ _).2 ⟨given, there.regular⟩, by simpa using closing⟩
  · refine .bind (blockItem_regular h s) fun item s₁ regular =>
      .place fun comments s₂ there => .pure ?_
    exact (allRegular_append _ _).2
      ⟨(allRegular_append _ _).2 ⟨given, there.regular⟩, by simpa using regular⟩

include lossless h

theorem compound_regular {s : Stream} {t : Token} {rest : List Token}
    (tokens : s.tokens = t :: rest) : Checks source s (compound inner) Regular := by
  have start : (Draft.leaf Kind.blockStart true t.start t.stop).Regular :=
    (Whole.leaf (by decide) _ _ _).mild.regular
  have children : Checks source s (compound inner) fun d => ∃ children,
      AllRegular children ∧ d = .branch Kind.compoundStatement children := by
    refine .take tokens fun s₁ _ _ => ?_
    refine .bind (.repeatUntil (blockStep_regular h t) (fun _ given => by exact given) ?_)
      fun children s₂ given => .bind (.absorb children) fun all s₃ ⟨inside, _⟩ =>
        .pure ⟨all, fun c hc => ?_, rfl⟩
    · simpa using start
    · rcases inside c hc with mem | ⟨t, _, _, rfl⟩
      · exact given c mem
      · exact (whole_extraLeaf t).mild.regular
  intro hs here
  obtain ⟨⟨passes, ds, regular, eq⟩, climbing⟩ :=
    (children hs here).and (compound_climbing lossless hs tokens)
  rw [eq] at climbing
  exact ⟨passes, eq ▸ .compound regular climbing⟩

theorem body_regular (field : String) (s : Stream) :
    Checks source s (body inner field) AllRegular := by
  refine .peekKind (.pure (by simp)) fun t rest tokens => ?_
  split
  · exact .pure (by simp)
  · exact .bind (compound_regular lossless h tokens) fun d s₁ regular =>
      .pure (by simpa using regular.withField field)
  · exact .bind (h.statement s) fun d s₁ regular =>
      .pure (by simpa using regular.withField field)

omit lossless in
theorem condition_regular (s : Stream) : Checks source s (condition inner) AllRegular := by
  refine .isAt (fun t rest tokens opening => ?_) ?_
  · refine .bind (parenthesized_mild h.toMild (Stream.isKnown_of_kind tokens opening (by decide)))
      fun out s₁ mild => ?_
    cases out with
    | ok group =>
      have whole : group.Whole := mild
      exact .pure (by simpa using whole.mild.regular.withField _)
    | error consumed =>
      have mild : AllMild consumed := mild
      refine .bind (.collectMild _ _) fun rest s₂ mild' => ?_
      exact .bind (.mildError ((allMild_append _ _).2 ⟨mild, mild'⟩)) fun d s₃ mild =>
        .pure (by simpa using mild.regular)
  · exact .bind (.collectWhileMild _) fun words s₁ mild =>
      (Checks.mildErrors mild).mono fun _ mild => mild.regular

theorem ifStatement_regular (s : Stream) : Checks source s (ifStatement inner) Regular := by
  refine .bind .wholeKeyword fun word s₁ first => ?_
  refine .bind (condition_regular h s₁) fun test s₂ tested => ?_
  refine .bind (body_regular lossless h _ s₂) fun consequence s₃ followed => ?_
  refine .isAtWord (fun _ _ _ _ => ?_) (.regularNode (by decide) ?_)
  · refine .bind .wholeKeyword fun otherwise s₄ second => ?_
    refine .bind (body_regular lossless h _ s₄) fun alternative s₅ last => .regularNode (by decide) ?_
    simpa using ⟨first.regular, tested, followed, second.regular, last⟩
  · simpa using ⟨first.regular, tested, followed⟩

theorem whileStatement_regular (s : Stream) : Checks source s (whileStatement inner) Regular := by
  refine .bind .wholeKeyword fun word s₁ first => ?_
  refine .bind (condition_regular h s₁) fun test s₂ tested => ?_
  refine .bind (body_regular lossless h _ s₂) fun repeated s₃ last => .regularNode (by decide) ?_
  simpa using ⟨first.regular, tested, last⟩

theorem switchStatement_regular (s : Stream) :
    Checks source s (switchStatement inner) Regular := by
  refine .bind .wholeKeyword fun word s₁ first => ?_
  refine .bind (condition_regular h s₁) fun test s₂ tested => ?_
  refine .isAt (fun t rest tokens _ => ?_) ?_
  · refine .bind (compound_regular lossless h tokens) fun block s₃ last => .regularNode (by decide) ?_
    simpa using ⟨first.regular, tested, last.withField _⟩
  · refine .bind (skipStatementRest_mild s₂) fun rest s₃ mild => ?_
    refine .bind (.mildErrors mild) fun garbage s₄ mild => .regularNode (by decide) ?_
    simpa using ⟨first.regular, tested, mild.regular⟩

omit lossless in
theorem caseStatement_regular (s : Stream) : Checks source s (caseStatement inner) Regular := by
  refine .isAtWord (fun _ _ _ _ => ?_) ?_
  · refine .bind .wholeKeyword fun word s₁ first => ?_
    refine .bind (optionalLeaf_mild _ s₁) fun colon s₂ last => .regularNode (by decide) ?_
    simpa using ⟨first.regular, last.regular⟩
  · refine .bind .wholeKeyword fun word s₁ first => ?_
    refine .bind (binary_mild h.toMild s₁) fun out s₂ mild => ?_
    cases out with
    | ok value =>
      have whole : value.Whole := mild
      refine .bind (optionalLeaf_mild _ s₂) fun colon s₃ last => .regularNode (by decide) ?_
      simpa using ⟨first.regular, whole.mild.regular.withField _, last.regular⟩
    | error consumed =>
      refine .bind (.mildErrors mild) fun garbage s₃ mild => ?_
      refine .bind (optionalLeaf_mild _ s₃) fun colon s₄ last => .regularNode (by decide) ?_
      simpa using ⟨first.regular, mild.regular, last.regular⟩

omit lossless in
theorem returnStatement_regular (s : Stream) :
    Checks source s (returnStatement inner) Regular := by
  refine .bind .wholeKeyword fun word s₁ first => ?_
  refine .peek (.regularNode (by decide) first.regular) fun t rest tokens => ?_
  dsimp only
  split
  · exact .regularNode (by decide) first.regular
  · refine .bind (h.expression s₁) fun out s₂ mild => ?_
    cases out with
    | ok value =>
      have whole : value.Whole := mild
      exact .regularNode (by decide) (by simpa using ⟨first.regular, whole.mild.regular⟩)
    | error consumed =>
      exact .bind (.mildErrors mild) fun garbage s₃ mild =>
        .regularNode (by decide) (by simpa using ⟨first.regular, mild.regular⟩)

theorem wordStatement_regular {word : String} {following : Option Token.Kind}
    {read : Reader Draft} (found : wordStatement? inner word following = some read) (s : Stream) :
    Checks source s read Regular := by
  have statement {r : Reader Draft} (hr : Checks source s r Regular) :
      Checks source s (do node Kind.statement [← r]) Regular :=
    .bind hr fun d s₁ regular => .regularNode (by decide) (by simpa using regular)
  have finished {r : Reader Draft} (hr : Checks source s r Regular) :
      Checks source s (do finishStatement [← r]) Regular :=
    .bind hr fun d s₁ regular => finishStatement_regular (by simpa using regular) s₁
  unfold wordStatement? at found
  repeat' split at found
  all_goals cases found
  · exact statement (ifStatement_regular lossless h s)
  · exact statement (switchStatement_regular lossless h s)
  · exact statement (whileStatement_regular lossless h s)
  · exact statement (caseStatement_regular h s)
  · exact statement (caseStatement_regular h s)
  · exact finished (returnStatement_regular h s)
  · refine .bind .wholeKeyword fun word s₁ whole => ?_
    exact .bind (.regularNode (by decide) whole.regular) fun d s₂ regular =>
      finishStatement_regular (by simpa using regular) s₂

omit lossless in
theorem expressionStatement_regular (s : Stream) :
    Checks source s (expressionStatement inner) Regular := by
  refine .bind (h.expression s) fun out s₁ mild => ?_
  cases out with
  | ok value =>
    have whole : value.Whole := mild
    exact finishStatement_regular (by simpa using whole.mild.regular) s₁
  | error consumed =>
    have finished {consumed : List Draft} (mild : AllMild consumed) (s₂ : Stream) :
        Checks source s₂ (do
          let rest ← skipStatementRest
          finishStatement [← errorNode (consumed ++ rest)]) Regular :=
      .bind (skipStatementRest_mild s₂) fun rest s₃ mild' =>
        .bind (.mildError ((allMild_append _ _).2 ⟨mild, mild'⟩)) fun d s₄ mild =>
          finishStatement_regular (by simpa using mild.regular) s₄
    dsimp only
    split
    · exact .bind .mildLeaf fun leaf s₂ mild => finished mild s₂
    · exact finished mild s₁

theorem statement_regular (s : Stream) : Checks source s (statement inner) Regular := by
  refine .peek (.regularNode (by decide) (by simp)) fun t rest tokens => .peekSecondKind ?_
  split
  · rename_i read found
    split at found
    · exact wordStatement_regular lossless h found s
    · contradiction
  · split
    · exact .bind (compound_regular lossless h tokens) fun d s₁ regular =>
        .regularNode (by decide) (by simpa using regular)
    · exact .bind .mildLeaf fun leaf s₁ mild => .regularNode (by decide) mild.regular
    · exact expressionStatement_regular h s

end Productions

theorem deepStatement_regular (s : Stream) : Checks source s deepStatement Regular := by
  have finished {consumed : List Draft} (mild : AllMild consumed) (s₁ : Stream) :
      Checks source s₁ (do finishStatement (← errorNodes consumed)) Regular :=
    .bind (.mildErrors mild) fun garbage s₂ mild => finishStatement_regular mild.regular s₂
  refine .bind (skipNestedRegion_mild s) fun region s₁ mild => ?_
  dsimp only
  split
  · refine .isAt (fun _ _ _ _ => finished allMild_nil s₁) ?_
    exact .bind .mildLeaf fun leaf s₂ mild => finished mild s₂
  · exact finished mild s₁

theorem level_regular (source : List Char) (remaining : Nat) :
    (level remaining).Regular source := by
  induction remaining with
  | zero =>
    exact ⟨⟨fun s => .bind (skipNestedRegion_mild s) fun _ _ mild => .pure mild,
      fun s => .bind (skipNestedRegion_mild s) fun _ _ mild => .pure mild⟩, deepStatement_regular⟩
  | succ remaining ih =>
    exact ⟨⟨assignment_mild ih.toMild, unary_mild ih.toMild⟩,
      statement_regular (level_lossless remaining) ih⟩

end Script

end RouteScript

namespace RouteScript.Script

open Draft

variable {source : List Char} {s : Stream}

theorem topLevel_regular (source : List Char) : topLevel.Regular source := level_regular source _

theorem stringItem_regular {kind : String} (plain : kind ∉ errorKind :: regionKinds) (field : String)
    (s : Stream) : Checks source s (stringItem kind field) Regular := by
  refine .bind .wholeKeyword fun word s₁ first => ?_
  refine .peek ((Checks.mildError first.mild).mono fun _ mild => mild.regular)
    fun t rest tokens => ?_
  dsimp only
  split
  · refine .bind .mildLeaf fun value s₂ mild => ?_
    refine .bind (optionalLeaf_mild _ s₂) fun semicolon s₃ last => .regularNode plain ?_
    exact (allRegular_append _ _).2
      ⟨(allRegular_append _ _).2 ⟨first.regular, (mild.withField field).regular⟩, last.regular⟩
  · refine .bind (skipStatementRest_mild s₁) fun rest s₂ mild => ?_
    exact (Checks.mildError ((allMild_append _ _).2 ⟨first.mild, mild⟩)).mono
      fun _ mild => mild.regular

theorem modParam_regular (s : Stream) : Checks source s modParam Regular := by
  refine .bind .wholeKeyword fun word s₁ first => ?_
  refine .bind (argumentList_mild (topLevel_regular source).toMild s₁) fun out s₂ mild => ?_
  cases out with
  | ok arguments =>
    have whole : arguments.Whole := mild
    refine .bind (optionalLeaf_mild _ s₂) fun semicolon s₃ last => .regularNode (by decide) ?_
    simpa using ⟨first.regular, whole.mild.regular.withField _, last.regular⟩
  | error consumed =>
    have mild : AllMild consumed := mild
    refine .bind (skipStatementRest_mild s₂) fun rest s₃ mild' => ?_
    refine (Checks.mildError ?_).mono fun _ mild => mild.regular
    simpa using ⟨first.mild, mild, mild'⟩

theorem routeName_mild (s : Stream) : Checks source s routeName fun r => AllMild r.1 := by
  refine .bind .mildLeaf fun opening s₁ first => ?_
  refine .bind (.collectWhileMild _) fun words s₂ mild => ?_
  refine checks_labelled (fun _ => .holderNode (by decide) mild) (fun _ kept => kept.withField _)
    (fun name s₃ named => ?_) s₂
  have open_name : AllMild (opening ++ name) := (allMild_append _ _).2 ⟨first, AllWhole.mild named⟩
  refine .isAt (fun t rest tokens closing => ?_) (.pure open_name)
  exact .bind .mildLeaf fun closing s₄ last => .pure ((allMild_append _ _).2 ⟨open_name, last⟩)

theorem routeBody_regular {children : List Draft} (given : AllMild children) (s : Stream) :
    Checks source s (routeBody children) Regular := by
  refine .isAt (fun t rest tokens _ => ?_) ?_
  · refine .bind (compound_regular topLevel_lossless (topLevel_regular source) tokens)
      fun block s₁ regular =>
      .regularNode (by decide) ?_
    simpa using ⟨given.regular, regular.withField _⟩
  · refine .bind (skipStatementRest_mild s) fun rest s₁ mild => ?_
    exact (Checks.mildError ((allMild_append _ _).2 ⟨given, mild⟩)).mono
      fun _ mild => mild.regular

theorem routeDefinition_regular (s : Stream) : Checks source s routeDefinition Regular := by
  have word : Checks source s next fun _ => True :=
    .next (k := Pure.pure) (.pure trivial) fun _ _ _ _ _ _ => .pure trivial
  refine .bind word fun t s₁ _ => ?_
  have type : AllMild (t.toList.map fun t =>
      (Draft.leaf Kind.routeType true t.start t.stop).withField Field.routeType) :=
    List.forall_mem_map.2 fun t _ =>
      (mild_leaf (by decide : Kind.routeType ∉ regionKinds)).withField _
  refine .isAt (fun _ _ _ _ => ?_) (routeBody_regular type s₁)
  refine .bind (routeName_mild s₁) fun result s₂ named => ?_
  obtain ⟨name, closed⟩ := result
  have before : AllMild (_ ++ name) := (allMild_append _ _).2 ⟨type, named⟩
  dsimp only
  split
  · exact routeBody_regular before s₂
  · refine .bind (skipStatementRest_mild s₂) fun rest s₃ mild => ?_
    exact (Checks.mildError ((allMild_append _ _).2 ⟨before, mild⟩)).mono
      fun _ mild => mild.regular

theorem globalAssignment_regular (s : Stream) : Checks source s globalAssignment Regular := by
  refine .bind .mildLeaf fun key s₁ first => ?_
  refine .bind .mildLeaf fun sign s₂ second => ?_
  refine .bind (.collectWhileMild _) fun words s₃ mild => ?_
  refine checks_labelled (fun _ => .regularNode (by decide) mild.regular)
    (fun _ kept => kept.withField _)
    (fun value s₄ valued => ?_) s₃
  have given : AllRegular (key.map (Draft.withField Field.key) ++ sign ++ value) := by
    simpa using ⟨(first.withField _).regular, second.regular, valued⟩
  refine .peek (.regularNode (by decide) given) fun t rest tokens => ?_
  dsimp only
  split
  · exact .bind .mildLeaf fun semicolon s₅ last => .regularNode (by decide)
      ((allRegular_append _ _).2 ⟨given, last.regular⟩)
  · exact .regularNode (by decide) given

theorem wordItem_regular (word : String) (following : Option Token.Kind) (s : Stream) :
    Checks source s (wordItem word following) Regular := by
  unfold wordItem
  repeat' split
  · exact stringItem_regular (by decide) _ s
  · exact stringItem_regular (by decide) _ s
  · exact stringItem_regular (by decide) _ s
  · exact modParam_regular s
  · exact routeDefinition_regular s
  · exact globalAssignment_regular s
  · exact (topLevel_regular source).statement s

theorem topLevelItem_regular {t : Token} {rest : List Token} (tokens : s.tokens = t :: rest) :
    Checks source s (topLevelItem t) Regular := by
  unfold topLevelItem
  split
  · exact .peekSecondKind (wordItem_regular _ _ s)
  · rename_i opens
    exact markup_regular tokens opens
  · exact .bind .mildLeaf fun brace s₁ mild =>
      (Checks.mildError mild).mono fun _ mild => mild.regular
  · exact (topLevel_regular source).statement s

theorem itemStep_regular (children : List Draft) (s : Stream) (given : AllRegular children) :
    Checks source s (itemStep children) (Sum.elim AllRegular AllRegular) := by
  refine .peek (.flush fun comments s₁ there => .pure ?_) fun t rest tokens => ?_
  · exact (allRegular_append _ _).2 ⟨given, there.regular⟩
  · refine .bind (topLevelItem_regular tokens) fun item s₁ regular =>
      .place fun comments s₂ there => .pure ?_
    exact (allRegular_append _ _).2
      ⟨(allRegular_append _ _).2 ⟨given, there.regular⟩, by simpa using regular⟩

/-- All items of a text are regular. -/
theorem items_regular (text : List Char) : AllRegular (items (.ofText text)).1 := by
  have sound : (Stream.ofText text).Sound := (whole_ofText text).settle.sound
  have regular : Checks text (.ofText text) items AllRegular :=
    .repeatUntil itemStep_regular (fun _ given => given) (by simp)
  exact (regular sound rfl).2

end RouteScript.Script
