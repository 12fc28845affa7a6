import RouteScript.Proofs.Braces.Expression
import RouteScript.Proofs.Lossless.Statement
/-!
# Statements check

A block takes its two braces; one that does not close holds an error node. No other reader of
statements leaves a brace outside an error node.
-/
namespace RouteScript.Script

open Draft

variable {source : List Char}

theorem leaf_of_leaves {ds : List Draft} {ts : List Token} (h : List.Forall₂ IsLeafOf ds ts) :
    ∀ d ∈ ds, ∃ kind ∈ markupKinds, ∃ start stop, d = .leaf kind true start stop := by
  induction h with
  | nil => simp
  | cons leaf _ ih =>
    obtain ⟨_, kind, inMarkup, rfl⟩ := leaf
    exact List.forall_mem_cons.2 ⟨⟨kind, inMarkup, _, _, rfl⟩, ih⟩

theorem flat_of_leaves {ds : List Draft} {ts : List Token} (h : List.Forall₂ IsLeafOf ds ts) :
    ∀ d ∈ ds, d.Flat := by
  intro d hd
  obtain ⟨kind, inMarkup, _, _, rfl⟩ := leaf_of_leaves h d hd
  have apart : ∀ kind ∈ markupKinds, kind ∉ blockKinds := by decide
  exact flat_leaf (apart kind inMarkup) _ _ _

theorem markup_checks {s : Stream} {t : Token} {rest : List Token} (tokens : s.tokens = t :: rest)
    (opens : t.kind = .lt) : Checks source s markup (Checked source) := by
  intro hs _
  obtain ⟨kept, _, ds, parts, leaves, eq⟩ := markup_lossless tokens opens hs solid_nil
  refine ⟨kept.passes, ?_⟩
  rw [eq]
  exact .of_sealed (by simp) (flat_of_leaves leaves)

/-- Leaves of comments and directives of the source. -/
def AreComments (source : List Char) (ds : List Draft) : Prop :=
  ∀ d ∈ ds, ∃ t : Token, t.isTrivia ∧ t.StandsIn source ∧ d = extraLeaf t

theorem AreComments.checked {ds : List Draft} (h : AreComments source ds) :
    AllChecked source ds := by
  intro d hd
  obtain ⟨t, trivia, there, rfl⟩ := h d hd
  exact checked_extraLeaf there trivia

namespace Checks

variable {β : Type} {s : Stream} {good : β → Prop} {children : List Draft}
  {k : List Draft → Reader β}

/-- An item goes behind the comments before it. -/
theorem place {item : Draft} (h : ∀ comments s', AreComments source comments →
      Checks source s' (k (children ++ comments ++ [item])) good) :
    Checks source s (Script.place children item >>= k) good := by
  intro hs here
  refine gives_place ?_
  have passes := (Conserves.place hs children item).passes
  have comments : AreComments source (s.waiting.filter fun d => d.start < item.start) :=
    fun d hd => here ▸ hs.waiting d (List.mem_filter.1 hd).1
  exact (h _ _ comments passes.sound (passes.source.trans here)).mono
    fun _ _ ⟨passes', hg⟩ => ⟨passes.trans passes', hg⟩

theorem flush (h : ∀ comments s', AreComments source comments →
      Checks source s' (k (children ++ comments)) good) :
    Checks source s (Script.flush children >>= k) good := by
  intro hs here
  refine gives_flush ?_
  have passes := (Conserves.flush hs children).passes
  exact (h _ _ (here ▸ hs.waiting) passes.sound (passes.source.trans here)).mono
    fun _ _ ⟨passes', hg⟩ => ⟨passes.trans passes', hg⟩

end Checks

theorem skipStatementRest_any (s : Stream) : Checks source s skipStatementRest fun _ => True :=
  .bind (.collectAny _ _) fun _ _ _ => .pure trivial

theorem skipNestedRegion_any (s : Stream) : Checks source s skipNestedRegion fun _ => True :=
  .bind (.collectAny _ _) fun _ _ _ => .pure trivial

theorem finishStatement_checks {children : List Draft} (given : AllChecked source children)
    (s : Stream) : Checks source s (finishStatement children) (Checked source) := by
  refine .peek (.node (by decide) given) fun t rest tokens => ?_
  dsimp only
  split
  · rename_i semicolon
    have plain := Stream.isPlain_of_kind tokens (eq_of_beq semicolon) (by decide)
    refine .bind (.nextLeaf plain) fun leaf s₁ checked => .node (by decide) ?_
    simpa using ⟨given, checked⟩
  · split
    · exact .node (by decide) given
    · refine .bind (skipStatementRest_any s) fun rest s₁ _ => ?_
      refine .bind (.errorNodes rest) fun garbage s₂ checked => ?_
      refine .bind (.optionalLeaf (by decide)) fun semicolon s₃ checked' => .node (by decide) ?_
      simpa using ⟨given, checked, checked'⟩

/-- The nodes of a block that is open: behind its brace there are checked ones. -/
def OpenBlock (source : List Char) (opening : Token) (children : List Draft) : Prop :=
  ∃ items, AllChecked source items ∧
    children = .leaf Kind.blockStart true opening.start opening.stop :: items

/-- The nodes of a block that ends: it holds an error node, or it is closed by a brace. -/
def EndedBlock (source : List Char) (opening : Token) (children : List Draft) : Prop :=
  (∃ c ∈ children, c.Faulty ∧ c.label.extra = false) ∨
    ∃ items, ∃ close : Token, AllChecked source items ∧ close.kind = .rBrace ∧ close.StandsIn source ∧
      children = .leaf Kind.blockStart true opening.start opening.stop ::
        (items ++ [.leaf Kind.blockEnd true close.start close.stop])

section Productions

variable {inner : Level} (lossless : inner.Lossless) (h : inner.Checks source)

include h in
theorem blockItem_checks (s : Stream) : Checks source s (blockItem inner) (Checked source) :=
  .isAt (fun _ _ tokens opens => markup_checks tokens opens) (h.statement s)

include h in
theorem blockStep_checks {opening : Token} {children : List Draft}
    (opened : OpenBlock source opening children) (s : Stream) :
    Checks source s (blockStep inner opening children)
      (Sum.elim (OpenBlock source opening) (EndedBlock source opening)) := by
  obtain ⟨items, given, rfl⟩ := opened
  refine .peekKind (.flush fun comments s₁ _ => .pure ?_) fun t rest tokens => ?_
  · exact Or.inl ⟨_, List.mem_cons_self, faulty_node.2 (.inl ⟨rfl, rfl⟩), rfl⟩
  split
  · contradiction
  · rename_i closing
    have closing : t.kind = .rBrace := Option.some.inj closing
    refine .take tokens fun s₁ _ there => .place fun comments s₂ there' => .pure ?_
    refine Or.inr ⟨items ++ comments, t, ?_, closing, there, by simp⟩
    simpa using ⟨given, there'.checked⟩
  · refine .bind (blockItem_checks h s) fun item s₁ checked =>
      .place fun comments s₂ there => .pure ?_
    refine ⟨items ++ comments ++ [item], ?_, by simp⟩
    simpa using ⟨given, there.checked, checked⟩

include lossless h

theorem block_checks {opening : Token} {children : List Draft}
    (opened : OpenBlock source opening children) (s : Stream) :
    Checks source s (repeatUntil (blockStep inner opening) id children) (EndedBlock source opening) := by
  intro hs here
  let keeps (ds : List Draft) (s' : Stream) : Prop := s.Passes s' ∧ OpenBlock source opening ds
  have isOpened : isOpened opening children := by
    obtain ⟨items, _, eq⟩ := opened
    exact ⟨items, eq⟩
  refine gives_repeatUntil (blockStep_advancing lossless opening) keeps ?_ isOpened hs
    ⟨hs.refl, opened⟩
  intro ds s' _ hs' ⟨passes, opened'⟩
  obtain ⟨passes', kept⟩ := blockStep_checks h opened' s' hs' (passes.source.trans here)
  unfold Gives
  cases result : (blockStep inner opening ds s').1 with
  | inl ds' =>
    rw [result] at kept
    exact ⟨passes.trans passes', kept⟩
  | inr ds' =>
    rw [result] at kept
    exact ⟨passes.trans passes', kept⟩

omit lossless h in
/-- The node of a block that ends. -/
theorem blockNode_checks {opening : Token} (there : opening.StandsIn source)
    (opens : opening.kind = .lBrace) {children : List Draft}
    (ended : EndedBlock source opening children) (s : Stream) :
    Checks source s (node Kind.compoundStatement children) (Checked source) := by
  refine .bind (.absorb children) fun all s₁ ⟨inside, structural⟩ => .pure ?_
  rcases ended with ⟨c, hc, faulty, notExtra⟩ | ⟨items, close, given, closes, there', rfl⟩
  · have kept : c ∈ all.filter fun c => !c.label.extra := by
      rw [structural]
      exact List.mem_filter.2 ⟨hc, by simp [notExtra]⟩
    exact .inl (faulty_node.2 (.inr ⟨c, (List.mem_filter.1 kept).1, faulty⟩))
  · have structural' : (all.filter fun c => !c.label.extra)
        = .leaf Kind.blockStart true opening.start opening.stop ::
          (items.filter (fun c => !c.label.extra)
            ++ [.leaf Kind.blockEnd true close.start close.stop]) :=
      structural.trans (by simp [Rose.label, Draft.leaf])
    refine .compound structural' ⟨rfl, rfl⟩ ⟨rfl, rfl⟩
      ⟨neat_opening there opens, neat_closing there' closes⟩ ?_ ?_
    · exact fun c hc => given c (List.mem_filter.1 hc).1
    · intro c hc
      rcases inside c hc with child | ⟨t, trivia, there, rfl⟩
      · simp only [List.mem_cons, List.mem_append, List.not_mem_nil, or_false] at child
        rcases child with first | item | last
        · exact .inl first
        · exact .inr (.inr (given c item))
        · exact .inr (.inl last)
      · exact .inr (.inr (checked_extraLeaf there trivia))

theorem compound_checks {s : Stream} {t : Token} {rest : List Token}
    (tokens : s.tokens = t :: rest) (opens : t.kind = .lBrace) :
    Checks source s (compound inner) (Checked source) := by
  refine .take tokens fun s₁ _ there => ?_
  refine .bind (block_checks lossless h ⟨[], by simp, rfl⟩ s₁) fun children s₂ ended => ?_
  exact blockNode_checks there opens ended s₂

theorem body_checks (field : String) (s : Stream) :
    Checks source s (body inner field) (AllChecked source) := by
  refine .peekKind (.pure (by simp)) fun t rest tokens => ?_
  split
  · exact .pure (by simp)
  · rename_i opens
    have opens : t.kind = .lBrace := Option.some.inj opens
    exact .bind (compound_checks lossless h tokens opens) fun d s₁ checked =>
      .pure (by simpa using checked.withField field)
  · exact .bind (h.statement s) fun d s₁ checked =>
      .pure (by simpa using checked.withField field)

omit lossless in
theorem condition_checks (s : Stream) :
    Checks source s (condition inner) (AllChecked source) := by
  refine .isAt (fun t rest tokens opening => ?_) ?_
  · refine .bind (parenthesized_checks h (Stream.isPlain_of_kind tokens opening (by decide)))
      fun out s₁ checked => ?_
    cases out with
    | ok group => exact .pure (by simpa using (checked group rfl).withField _)
    | error consumed =>
      refine .bind (.collectAny _ _) fun rest s₂ _ => ?_
      exact .bind (.errorNode _) fun d s₃ checked => .pure (by simpa using checked)
  · exact .bind (.collectWhileAny _) fun words s₁ _ => .errorNodes words

theorem ifStatement_checks {s : Stream} (plain : s.IsPlain) :
    Checks source s (ifStatement inner) (Checked source) := by
  refine .bind (.nextKeyword plain) fun word s₁ first => ?_
  refine .bind (condition_checks h s₁) fun test s₂ tested => ?_
  refine .bind (body_checks lossless h _ s₂) fun consequence s₃ followed => ?_
  refine .isAtWord (fun t rest tokens word => ?_) (.node (by decide) ?_)
  · refine .bind (.nextKeyword (Stream.isPlain_of_kind tokens word (by decide)))
      fun otherwise s₄ second => ?_
    refine .bind (body_checks lossless h _ s₄) fun alternative s₅ last => .node (by decide) ?_
    simpa using ⟨first, tested, followed, second, last⟩
  · simpa using ⟨first, tested, followed⟩

theorem whileStatement_checks {s : Stream} (plain : s.IsPlain) :
    Checks source s (whileStatement inner) (Checked source) := by
  refine .bind (.nextKeyword plain) fun word s₁ first => ?_
  refine .bind (condition_checks h s₁) fun test s₂ tested => ?_
  refine .bind (body_checks lossless h _ s₂) fun repeated s₃ last => .node (by decide) ?_
  simpa using ⟨first, tested, last⟩

theorem switchStatement_checks {s : Stream} (plain : s.IsPlain) :
    Checks source s (switchStatement inner) (Checked source) := by
  refine .bind (.nextKeyword plain) fun word s₁ first => ?_
  refine .bind (condition_checks h s₁) fun test s₂ tested => ?_
  refine .isAt (fun t rest tokens opens => ?_) ?_
  · refine .bind (compound_checks lossless h tokens opens) fun block s₃ last =>
      .node (by decide) ?_
    simpa using ⟨first, tested, last.withField _⟩
  · refine .bind (skipStatementRest_any s₂) fun rest s₃ _ => ?_
    refine .bind (.errorNodes rest) fun garbage s₄ last => .node (by decide) ?_
    simpa using ⟨first, tested, last⟩

omit lossless in
theorem caseStatement_checks {s : Stream} (plain : s.IsPlain) :
    Checks source s (caseStatement inner) (Checked source) := by
  refine .isAtWord (fun _ _ _ _ => ?_) ?_
  · refine .bind (.nextKeyword plain) fun word s₁ first => ?_
    refine .bind (.optionalLeaf (by decide)) fun colon s₂ last => .node (by decide) ?_
    simpa using ⟨first, last⟩
  · refine .bind (.nextKeyword plain) fun word s₁ first => ?_
    refine .bind (binary_checks h s₁) fun out s₂ checked => ?_
    cases out with
    | ok value =>
      refine .bind (.optionalLeaf (by decide)) fun colon s₃ last => .node (by decide) ?_
      simpa using ⟨first, (checked value rfl).withField _, last⟩
    | error consumed =>
      refine .bind (.errorNodes consumed) fun garbage s₃ checked => ?_
      refine .bind (.optionalLeaf (by decide)) fun colon s₄ last => .node (by decide) ?_
      simpa using ⟨first, checked, last⟩

omit lossless in
theorem returnStatement_checks {s : Stream} (plain : s.IsPlain) :
    Checks source s (returnStatement inner) (Checked source) := by
  refine .bind (.nextKeyword plain) fun word s₁ first => ?_
  refine .peek (.node (by decide) first) fun t rest tokens => ?_
  dsimp only
  split
  · exact .node (by decide) first
  · refine .bind (h.expression s₁) fun out s₂ checked => ?_
    cases out with
    | ok value => exact .node (by decide) (by simpa using ⟨first, checked value rfl⟩)
    | error consumed =>
      exact .bind (.errorNodes consumed) fun garbage s₃ checked =>
        .node (by decide) (by simpa using ⟨first, checked⟩)

theorem wordStatement_checks {word : String} {following : Option Token.Kind}
    {read : Reader Draft} (found : wordStatement? inner word following = some read) {s : Stream}
    (plain : s.IsPlain) : Checks source s read (Checked source) := by
  have statement {r : Reader Draft} (hr : Checks source s r (Checked source)) :
      Checks source s (do node Kind.statement [← r]) (Checked source) :=
    .bind hr fun d s₁ checked => .node (by decide) (by simpa using checked)
  have finished {r : Reader Draft} (hr : Checks source s r (Checked source)) :
      Checks source s (do finishStatement [← r]) (Checked source) :=
    .bind hr fun d s₁ checked => finishStatement_checks (by simpa using checked) s₁
  unfold wordStatement? at found
  repeat' split at found
  all_goals cases found
  · exact statement (ifStatement_checks lossless h plain)
  · exact statement (switchStatement_checks lossless h plain)
  · exact statement (whileStatement_checks lossless h plain)
  · exact statement (caseStatement_checks h plain)
  · exact statement (caseStatement_checks h plain)
  · exact finished (returnStatement_checks h plain)
  · refine .bind (.nextKeyword plain) fun word s₁ checked => ?_
    exact .bind (.node (by decide) checked) fun d s₂ checked =>
      finishStatement_checks (by simpa using checked) s₂

omit lossless in
theorem expressionStatement_checks (s : Stream) :
    Checks source s (expressionStatement inner) (Checked source) := by
  refine .bind (h.expression s) fun out s₁ checked => ?_
  cases out with
  | ok value => exact finishStatement_checks (by simpa using checked value rfl) s₁
  | error consumed =>
    have finished (consumed : List Draft) (s₂ : Stream) : Checks source s₂ (do
        let rest ← skipStatementRest
        finishStatement [← errorNode (consumed ++ rest)]) (Checked source) :=
      .bind (skipStatementRest_any s₂) fun rest s₃ _ =>
        .bind (.errorNode _) fun d s₄ checked => finishStatement_checks (by simpa using checked) s₄
    dsimp only
    split
    · exact .bind .nextAny fun leaf s₂ _ => finished leaf s₂
    · exact finished consumed s₁

theorem statement_checks (s : Stream) : Checks source s (statement inner) (Checked source) := by
  refine .peek (.node (by decide) (by simp)) fun t rest tokens => .peekSecondKind ?_
  split
  · rename_i read found
    split at found
    · rename_i word
      exact wordStatement_checks lossless h found
        (Stream.isPlain_of_kind tokens (eq_of_beq word) (by decide))
    · contradiction
  · split
    · rename_i opens
      exact .bind (compound_checks lossless h tokens opens) fun d s₁ checked =>
        .node (by decide) (by simpa using checked)
    · rename_i semicolon
      exact .bind (.nextLeaf (Stream.isPlain_of_kind tokens semicolon (by decide)))
        fun leaf s₁ checked => .node (by decide) checked
    · exact expressionStatement_checks h s

end Productions

theorem deepStatement_checks (s : Stream) : Checks source s deepStatement (Checked source) := by
  have finished (consumed : List Draft) (s₁ : Stream) :
      Checks source s₁ (do finishStatement (← errorNodes consumed)) (Checked source) :=
    .bind (.errorNodes consumed) fun garbage s₂ checked => finishStatement_checks checked s₂
  refine .bind (skipNestedRegion_any s) fun region s₁ _ => ?_
  dsimp only
  split
  · refine .isAt (fun _ _ _ _ => finished [] s₁) ?_
    exact .bind .nextAny fun leaf s₂ _ => finished leaf s₂
  · exact finished region s₁

theorem level_checks (source : List Char) (remaining : Nat) :
    (level remaining).Checks source := by
  induction remaining with
  | zero =>
    exact ⟨deepStatement_checks,
      fun s => .bind (skipNestedRegion_any s) fun _ _ _ => .pure (by simp),
      fun s => .bind (skipNestedRegion_any s) fun _ _ _ => .pure (by simp)⟩
  | succ remaining ih =>
    exact ⟨statement_checks (level_lossless remaining) ih, assignment_checks ih, unary_checks ih⟩

end RouteScript.Script
