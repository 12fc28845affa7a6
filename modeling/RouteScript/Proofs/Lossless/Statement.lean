import RouteScript.Proofs.Lossless.Expression
import RouteScript.Proofs.Lossless.Markup
import RouteScript.Script.Statement
/-!
# Statements are lossless

Every reader of statements accounts for what it takes, at every depth of nesting.
-/
namespace RouteScript.Script

open Draft

theorem skipStatementRest_lossless (s : Stream) : Lossless s [] skipStatementRest id :=
  .bind (collect_lossless _ _ s) fun _ _ _ => .pure (.refl _)

theorem skipNestedRegion_lossless (s : Stream) : Lossless s [] skipNestedRegion id :=
  .bind (collect_lossless _ _ s) fun _ _ _ => .pure (.refl _)

theorem finishStatement_lossless {children : List Draft} {s : Stream}
    (h : children = [] → ∃ t rest, s.tokens = t :: rest ∧ t.kind = .semicolon) :
    Lossless s children (finishStatement children) fun d => [d] := by
  refine .peek (fun nothing => ?_) fun t rest tokens => ?_
  · refine .node (.refl _) (fun none => ?_) (by decide)
    obtain ⟨t, rest, tokens, _⟩ := h none
    simp [nothing] at tokens
  dsimp only
  split
  · refine .nextLeaf (fun nothing => by simp [tokens] at nothing) fun t rest s₁ _ => ?_
    exact .node (.refl _) (by simp) (by decide)
  · rename_i other
    have nonempty : children ≠ [] := by
      intro none
      obtain ⟨t', rest', tokens', semicolon⟩ := h none
      obtain ⟨rfl, rfl⟩ : t = t' ∧ rest = rest' := by simpa [tokens] using tokens'
      simp [semicolon] at other
    split
    · exact .node (.refl _) nonempty (by decide)
    · refine .after (skipStatementRest_lossless s) fun rest s₁ _ => ?_
      refine .within (.errorNodes (.refl _)) fun garbage s₂ _ => ?_
      refine .after (optionalLeaf_lossless _ s₂) fun semicolon s₃ _ => ?_
      exact .node (.refl _) (by simp [nonempty]) (by decide)

section Productions

variable {inner : Level} (h : inner.Lossless)
include h

theorem blockItem_lossless {s : Stream} {t : Token} {rest : List Token}
    (tokens : s.tokens = t :: rest) : Lossless s [] (blockItem inner) fun d => [d] :=
  .isAt (fun _ _ tokens' opens => (markup_lossless tokens' opens).mono fun _ _ => trivial)
    (h.statement tokens)

/-- The nodes of a block that is open start with its brace. -/
def isOpened (opening : Token) (children : List Draft) : Prop :=
  ∃ more, children = .leaf Kind.blockStart true opening.start opening.stop :: more

theorem blockStep_conserves {s : Stream} (hs : s.Sound) {opening : Token} {children : List Draft}
    (opened : isOpened opening children) :
    Gives (blockStep inner opening children) s fun result s' =>
      Conserves children s (Sum.elim id id result) s' ∧
        ∀ children', result = .inl children' →
          isOpened opening children' ∧ s.position < s'.position := by
  refine gives_peekKind (fun _ => ?_) fun t rest tokens => ?_
  · obtain ⟨more, rfl⟩ := opened
    refine gives_flush (.pure ?_)
    have conserves :=
      Conserves.flush hs (.leaf Kind.blockStart true opening.start opening.stop :: more)
    refine ⟨conserves.trans (.of_same conserves.passes.sound ?_ ?_), by simp⟩
    · simp [flush, solids_error, solids_leaf (show "\x7b" ≠ Kind.xml by decide),
        solids_leaf (show Kind.blockStart ≠ Kind.xml by decide)]
    · simp [flush, extras_error, extras_leaf (show "\x7b" ≠ Kind.xml by decide),
        extras_leaf (show Kind.blockStart ≠ Kind.xml by decide)]
  split
  · contradiction
  · refine gives_next (fun nothing => by simp [tokens] at nothing) fun close behind tokens' => ?_
    have conserves : Conserves children s
      (children ++ [.leaf Kind.blockEnd true close.start close.stop])
        (next s).2 :=
      .next children hs tokens' (solids_leaf (by decide) _ _ _) (extras_leaf (by decide) _ _ _)
    rw [next_snd tokens'] at conserves
    exact gives_place (.pure ⟨conserves.trans (.place conserves.passes.sound _ _), by simp⟩)
  · refine .bind (blockItem_lossless h tokens hs solid_nil) fun item s₁ kept => ?_
    obtain ⟨⟨conserves, _⟩, solid, _⟩ := kept
    have further := conserves.further (List.length_pos_iff.2 (solid.solidsOf_ne_nil (by simp)))
    have framed : Conserves children s (children ++ [item]) s₁ := by
      simpa using conserves.frame children
    have placed := Conserves.place framed.passes.sound children item
    refine gives_place (.pure ⟨framed.trans placed, fun children' eq => ?_⟩)
    cases eq
    obtain ⟨more, rfl⟩ := opened
    exact ⟨⟨_, rfl⟩, Nat.lt_of_lt_of_le further placed.passes.position⟩

theorem blockStep_advancing (opening : Token) :
    Advancing (isOpened opening) (blockStep inner opening) := fun _ _ opened hs =>
  (blockStep_conserves h hs opened).mono fun _ _ ⟨conserves, onward⟩ => ⟨conserves.passes, onward⟩

theorem block_conserves {s : Stream} (hs : s.Sound) {opening : Token} {children : List Draft}
    (opened : isOpened opening children) :
    Gives (repeatUntil (blockStep inner opening) id children) s (Conserves children s) :=
  gives_repeatUntil_same (blockStep_advancing h opening) (Conserves children s)
    (fun _ _ opened' hs' kept => kept.trans (blockStep_conserves h hs' opened').1)
    opened hs (.of_same hs rfl rfl)

/-- A block starts with its brace, which is an error if the block ends in a comment. -/
def StartsBlock (opening : Token) (children : List Draft) : Prop :=
  ∃ first, children.head? = some first ∧ first.start = opening.start ∧
    first.label.extra = false ∧
      ∀ last, children.getLast? = some last → last.label.extra → first.isError

/-- The items of a block stand in order, unless it has taken in a comment from before its brace. -/
theorem blockStep_lined {s₀ s : Stream} (hs : s.Sound) {opening : Token} {children : List Draft}
    (opened : isOpened opening children) (position : s₀.position ≤ s.position)
    (lined : Lined s₀.position s₀ children s) :
    Gives (blockStep inner opening children) s fun result s' =>
      Lined s₀.position s₀ (Sum.elim id id result) s' ∧
        ∀ children', result = .inr children' → StartsBlock opening children' := by
  obtain ⟨more, rfl⟩ := opened
  refine gives_peekKind (fun _ => ?_) fun t rest tokens => ?_
  · have brace : ReplaceableBy (leaf Kind.blockStart true opening.start opening.stop)
        (error [leaf "\x7b" false opening.start opening.stop]) :=
      (replaceable_of_spans (t := opening) ⟨rfl, rfl, rfl⟩ (isLeaf_leaf (by decide) _ _)).trans
        (.error _)
    refine gives_flush
      (.pure ⟨(lined.flush hs).replaceable brace rfl rfl, fun children' done => ?_⟩)
    cases done
    exact ⟨_, rfl, rfl, rfl, fun _ _ _ => rfl⟩
  split
  · contradiction
  · refine gives_next (fun nothing => by simp [tokens] at nothing) fun close behind tokens' => ?_
    have brace : IsLeaf (leaf Kind.blockEnd true close.start close.stop) close :=
      isLeaf_leaf (by decide) _ _
    have kept := Kept.next [] hs tokens' brace
    rw [next_snd tokens'] at kept
    refine gives_place (.pure ⟨lined.place position position kept.orders kept.passes.position
      kept.passes.sound, fun children' done => ?_⟩)
    cases done
    refine ⟨_, rfl, rfl, rfl, fun last tail extra => ?_⟩
    have closing : leaf Kind.blockEnd true close.start close.stop = last :=
      Option.some.inj (List.getLast?_concat.symm.trans tail)
    subst closing
    contradiction
  · refine .bind (blockItem_lossless h tokens hs solid_nil) fun item s₁ ⟨kept, _⟩ => ?_
    exact gives_place (.pure ⟨lined.place position position kept.orders kept.passes.position
      kept.passes.sound, fun _ done => by cases done⟩)

theorem block_lined {s₀ s : Stream} (hs : s.Sound) {opening : Token} {children : List Draft}
    (opened : isOpened opening children) (position : s₀.position ≤ s.position)
    (lined : Lined s₀.position s₀ children s) :
    Gives (repeatUntil (blockStep inner opening) id children) s fun children' s' =>
      Lined s₀.position s₀ children' s' ∧ StartsBlock opening children' := by
  let keeps (ds : List Draft) (s' : Stream) : Prop :=
    s₀.position ≤ s'.position ∧ Lined s₀.position s₀ ds s'
  refine gives_repeatUntil (blockStep_advancing h opening) keeps ?_ opened hs ⟨position, lined⟩
  intro ds s' opened' hs' ⟨position', lined'⟩
  have passes := (blockStep_conserves h hs' opened').1.passes
  obtain ⟨later, head⟩ := blockStep_lined h hs' opened' position' lined'
  unfold Gives
  cases result : (blockStep inner opening ds s').1 with
  | inl _ =>
    rw [result] at later
    exact ⟨Nat.le_trans position' passes.position, later⟩
  | inr _ =>
    rw [result] at later
    exact ⟨later, head _ result⟩

theorem compound_lossless {s : Stream} {t : Token} {rest : List Token}
    (tokens : s.tokens = t :: rest) : Lossless s [] (compound inner) fun d => [d] := by
  intro hs _
  refine gives_next (fun nothing => by simp [tokens] at nothing) fun opening rest' tokens' => ?_
  have brace : IsLeaf (leaf Kind.blockStart true opening.start opening.stop) opening :=
    isLeaf_leaf (by decide) _ _
  have here : opening.start = s.position := by simp [Stream.position, tokens']
  have kept : Kept [] s [.leaf Kind.blockStart true opening.start opening.stop] (next s).2 :=
    .next [] hs tokens' brace
  rw [next_snd tokens'] at kept
  have lined : Lined s.position s [.leaf Kind.blockStart true opening.start opening.stop] _ :=
    .start kept.orders here
  refine .bind (.and (block_conserves h kept.passes.sound ⟨[], rfl⟩)
    (block_lined h kept.passes.sound ⟨[], rfl⟩ kept.passes.position lined))
    fun children s₁ block => ?_
  obtain ⟨conserves₁, lined₁, first, head, start, notExtra, closed⟩ := block
  have some_marks : solidsOf children ≠ [] := conserves₁.solids_ne_nil (by simp [brace.solids])
  have nonempty : children ≠ [] := by
    rintro rfl
    contradiction
  have conserves₂ := Conserves.node conserves₁.passes.sound [] [] nonempty
    (show Kind.compoundStatement ≠ Kind.xml by decide)
  simp only [List.nil_append, List.append_nil] at conserves₂
  have tail := List.getLast?_eq_some_getLast nonempty
  have orders := Orders.compound lined₁
    (Nat.le_trans kept.passes.position conserves₁.passes.position) head (start.trans here) notExtra
      tail
    (closed _ tail)
  exact ⟨⟨(kept.conserves.trans conserves₁).trans conserves₂, orders⟩,
    by simpa using conserves₂.solids_ne_nil some_marks, trivial⟩

theorem body_lossless (field : String) (s : Stream) : Lossless s [] (body inner field) id := by
  refine .peekKind (fun _ => .pure (.refl _)) fun t rest tokens => ?_
  split
  · exact .pure (.refl _)
  · exact .bind (compound_lossless h tokens) fun d s₁ _ => .pure (.withField field d)
  · exact .bind (h.statement tokens) fun d s₁ _ => .pure (.withField field d)

theorem condition_lossless (s : Stream) : Lossless s [] (condition inner) id := by
  refine .isAt (fun t rest tokens _ => ?_) ?_
  · refine .bind (parenthesized_lossless h s) fun out s₁ nonempty => ?_
    cases out with
    | ok group => exact .pure (.withField _ group)
    | error consumed =>
      refine .after (collect_lossless _ _ s₁) fun rest s₂ _ => ?_
      have some_consumed : consumed ≠ [] := nonempty (by simp [tokens]) _ rfl
      exact .bind (.errorNode (.refl _) (by simp [some_consumed])) fun d s₃ _ => .pure (.refl _)
  · exact .bind (collectWhile_lossless _ s) fun words s₁ _ => .errorNodes (.refl _)

theorem ifStatement_lossless {s : Stream} {t : Token} {rest : List Token}
    (tokens : s.tokens = t :: rest) : Lossless s [] (ifStatement inner) fun d => [d] := by
  refine .nextKeyword (fun nothing => by simp [tokens] at nothing) fun word _ s₁ _ => ?_
  refine .after (condition_lossless h s₁) fun test s₂ _ => ?_
  refine .after (body_lossless h _ s₂) fun consequence s₃ _ => ?_
  refine .isAtWord (fun _ _ tokens => ?_) (.node (.refl _) (by simp) (by decide))
  refine .nextKeyword (fun nothing => by simp [tokens] at nothing) fun otherwise _ s₄ _ => ?_
  exact .after (body_lossless h _ s₄) fun alternative s₅ _ => .node (.refl _) (by simp) (by decide)

theorem whileStatement_lossless {s : Stream} {t : Token} {rest : List Token}
    (tokens : s.tokens = t :: rest) : Lossless s [] (whileStatement inner) fun d => [d] := by
  refine .nextKeyword (fun nothing => by simp [tokens] at nothing) fun word _ s₁ _ => ?_
  refine .after (condition_lossless h s₁) fun test s₂ _ => ?_
  exact .after (body_lossless h _ s₂) fun body s₃ _ => .node (.refl _) (by simp) (by decide)

theorem switchStatement_lossless {s : Stream} {t : Token} {rest : List Token}
    (tokens : s.tokens = t :: rest) : Lossless s [] (switchStatement inner) fun d => [d] := by
  refine .nextKeyword (fun nothing => by simp [tokens] at nothing) fun word _ s₁ _ => ?_
  refine .after (condition_lossless h s₁) fun test s₂ _ => ?_
  refine .isAt (fun t rest tokens _ => ?_) ?_
  · refine .after (compound_lossless h tokens) fun block s₃ _ => .node ?_ (by simp) (by decide)
    exact ⟨by simp, by simp, by simp +contextual, by simp⟩
  · refine .after (skipStatementRest_lossless s₂) fun rest s₃ _ => ?_
    exact .within (.errorNodes (.refl _)) fun garbage s₄ _ => .node (.refl _) (by simp) (by decide)

theorem caseStatement_lossless {s : Stream} {t : Token} {rest : List Token}
    (tokens : s.tokens = t :: rest) : Lossless s [] (caseStatement inner) fun d => [d] := by
  refine .isAtWord (fun _ _ _ => ?_) ?_
  · refine .nextKeyword (fun nothing => by simp [tokens] at nothing) fun word _ s₁ _ => ?_
    exact .after (optionalLeaf_lossless _ s₁)
      fun colon s₂ _ => .node (.refl _) (by simp) (by decide)
  · refine .nextKeyword (fun nothing => by simp [tokens] at nothing) fun word _ s₁ _ => ?_
    refine .after (binary_lossless h s₁) fun out s₂ _ => ?_
    cases out with
    | ok value =>
      refine .after (optionalLeaf_lossless _ s₂) fun colon s₃ _ => .node ?_ (by simp) (by decide)
      exact ⟨by simp, by simp, by simp +contextual, by simp⟩
    | error consumed =>
      refine .within (.errorNodes (.refl _)) fun garbage s₃ _ => ?_
      exact .after (optionalLeaf_lossless _ s₃)
        fun colon s₄ _ => .node (.refl _) (by simp) (by decide)

theorem returnStatement_lossless {s : Stream} {t : Token} {rest : List Token}
    (tokens : s.tokens = t :: rest) : Lossless s [] (returnStatement inner) fun d => [d] := by
  refine .nextKeyword (fun nothing => by simp [tokens] at nothing) fun word _ s₁ _ => ?_
  refine .peek (fun _ => .node (.refl _) (by simp) (by decide)) fun t rest tokens => ?_
  dsimp only
  split
  · exact .node (.refl _) (by simp) (by decide)
  · refine .after (h.expression s₁) fun out s₂ _ => ?_
    cases out with
    | ok value => exact .node (.refl _) (by simp) (by decide)
    | error consumed =>
      exact .within (.errorNodes (.refl _))
        fun garbage s₃ _ => .node (.refl _) (by simp) (by decide)

theorem wordStatement_lossless {word : String} {following : Option Token.Kind}
    {read : Reader Draft} (found : wordStatement? inner word following = some read) {s : Stream}
    {t : Token} {rest : List Token} (tokens : s.tokens = t :: rest) :
    Lossless s [] read fun d => [d] := by
  have statement {r : Reader Draft} (hr : Lossless s [] r fun d => [d]) :
      Lossless s [] (do node Kind.statement [← r]) fun d => [d] :=
    .bind hr fun d s₁ _ => .node (.refl _) (by simp) (by decide)
  have finished {r : Reader Draft} (hr : Lossless s [] r fun d => [d]) :
      Lossless s [] (do finishStatement [← r]) fun d => [d] :=
    .bind hr fun d s₁ _ => finishStatement_lossless (by simp)
  unfold wordStatement? at found
  repeat' split at found
  all_goals cases found
  · exact statement (ifStatement_lossless h tokens)
  · exact statement (switchStatement_lossless h tokens)
  · exact statement (whileStatement_lossless h tokens)
  · exact statement (caseStatement_lossless h tokens)
  · exact statement (caseStatement_lossless h tokens)
  · exact finished (returnStatement_lossless h tokens)
  · refine .nextKeyword (fun nothing => by simp [tokens] at nothing) fun word _ s₁ _ => ?_
    exact .bind (.node (.refl _) (by simp) (by decide))
      fun d s₂ _ => finishStatement_lossless (by simp)

theorem expressionStatement_lossless {s : Stream} {t : Token} {rest : List Token}
    (tokens : s.tokens = t :: rest) : Lossless s [] (expressionStatement inner) fun d => [d] := by
  intro hs _
  refine .bind (h.expression s hs solid_nil) fun out s₁ ⟨kept, solid, _⟩ => ?_
  cases out with
  | ok value => exact (finishStatement_lossless (by simp)).onward kept solid
  | error consumed =>
    have finished {consumed : List Draft} (nonempty : consumed ≠ []) (s₂ : Stream) :
        Lossless s₂ consumed (do
          let rest ← skipStatementRest
          finishStatement [← errorNode (consumed ++ rest)]) fun d => [d] :=
      .after (skipStatementRest_lossless s₂) fun rest s₃ _ =>
        .bind (.errorNode (.refl _) (by simp [nonempty])) fun d s₄ _ =>
          finishStatement_lossless (by simp)
    dsimp only
    split
    · rename_i nothing
      obtain rfl := List.isEmpty_iff.1 nothing
      have same := kept.conserves.tokens_eq hs rfl
      refine Lossless.onward (.nextLeaf (fun nothing => ?_) fun u _ s₂ _ => ?_) kept solid
      · simp [same, tokens] at nothing
      · exact finished (by simp) s₂
    · rename_i something
      exact (finished (by simpa using something) s₁).onward kept solid

theorem statement_lossless {s : Stream} {t : Token} {rest : List Token}
    (tokens : s.tokens = t :: rest) : Lossless s [] (statement inner) fun d => [d] := by
  refine .peek (fun nothing => by simp [tokens] at nothing) fun t rest tokens => ?_
  refine .peekSecondKind fun following => ?_
  split
  · rename_i read found
    split at found
    · exact wordStatement_lossless h found tokens
    · contradiction
  · split
    · exact .bind (compound_lossless h tokens) fun d s₁ _ => .node (.refl _) (by simp) (by decide)
    · refine .nextLeaf (fun nothing => by simp [tokens] at nothing) fun u _ s₁ _ => ?_
      exact .node (.refl _) (by simp) (by decide)
    · exact expressionStatement_lossless h tokens

end Productions

theorem deepStatement_lossless {s : Stream} {t : Token} {rest : List Token}
    (tokens : s.tokens = t :: rest) : Lossless s [] deepStatement fun d => [d] := by
  intro hs _
  refine .bind (skipNestedRegion_lossless s hs solid_nil) fun region s₁ ⟨kept, solid, _⟩ => ?_
  have finished {consumed : List Draft} {s₂ : Stream}
      (empty : consumed = [] → ∃ t rest, s₂.tokens = t :: rest ∧ t.kind = .semicolon) :
      Lossless s₂ consumed (do finishStatement (← errorNodes consumed)) fun d => [d] := by
    cases consumed with
    | nil => exact finishStatement_lossless fun _ => empty rfl
    | cons d ds =>
      have error : Lossless s₂ (d :: ds) (errorNodes (d :: ds)) id fun out => out ≠ [] :=
        .bind (.errorNode (.refl _) (by simp)) fun d s₃ _ => .result (.refl _) (by simp)
      exact .bind error fun out s₃ nonempty => finishStatement_lossless fun none =>
        absurd none nonempty
  dsimp only
  split
  · rename_i nothing
    obtain rfl := List.isEmpty_iff.1 nothing
    have same := kept.conserves.tokens_eq hs rfl
    refine Lossless.onward (.isAt (fun t rest tokens semicolon => ?_) ?_) kept solid
    · exact finished fun _ => ⟨t, rest, tokens, semicolon⟩
    · refine .nextLeaf (fun nothing => by simp [same, tokens] at nothing) fun u _ s₂ _ => ?_
      exact finished (by simp)
  · rename_i something
    have something : region ≠ [] := by simpa using something
    exact (finished fun none => absurd none something).onward kept solid

theorem level_lossless (remaining : Nat) : (level remaining).Lossless := by
  induction remaining with
  | zero =>
    exact ⟨deepStatement_lossless,
      fun s => .bind (skipNestedRegion_lossless s) fun _ _ _ => .pure (.refl _),
      fun s => .bind (skipNestedRegion_lossless s) fun _ _ _ => .pure (.refl _)⟩
  | succ remaining ih =>
    exact ⟨statement_lossless ih, assignment_lossless ih, unary_lossless ih⟩

end RouteScript.Script
