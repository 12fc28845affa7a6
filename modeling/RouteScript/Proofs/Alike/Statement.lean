import RouteScript.Proofs.Alike.Expression
import RouteScript.Proofs.Lossless.Statement
/-!
# Statements that look the same

Statements give twins as long as no markup stands in them. Markup is read from the text itself;
a node with markup in it stays in the tree, whatever stands behind.
-/
namespace RouteScript

namespace Draft

theorem holdsMarkup_node {t : Tag} {children : List Draft} :
    HoldsMarkup (.node t children) ↔ t.kind = Kind.xml ∨ ∃ d ∈ children, d.HoldsMarkup := by
  unfold HoldsMarkup
  rw [Rose.labels_node]
  constructor
  · rintro ⟨u, hu, isMarkup⟩
    rcases List.mem_cons.1 hu with rfl | below
    · exact .inl isMarkup
    · obtain ⟨d, hd, hu⟩ := List.mem_flatMap.1 below
      exact .inr ⟨d, hd, u, hu, isMarkup⟩
  · rintro (isMarkup | ⟨d, hd, u, hu, isMarkup⟩)
    · exact ⟨t, by simp, isMarkup⟩
    · exact ⟨u, List.mem_cons_of_mem _ (List.mem_flatMap.2 ⟨d, hd, hu⟩), isMarkup⟩

theorem HoldsMarkup.withField {d : Draft} (h : d.HoldsMarkup) (field : String) :
    (d.withField field).HoldsMarkup := by
  obtain ⟨t, children⟩ := d
  rcases holdsMarkup_node.1 h with isMarkup | below
  · exact holdsMarkup_node.2 (.inl isMarkup)
  · exact holdsMarkup_node.2 (.inr below)

end Draft

namespace Script

open Draft

variable {α β : Type} {view : View} {p q : Option Nat} {s t : Stream}

/-- A list of drafts with markup in one of them. -/
def HoldMarkup (ds : List Draft) : Prop := ∃ d ∈ ds, d.HoldsMarkup

theorem HoldMarkup.node {ds : List Draft} (h : HoldMarkup ds) (kind : String) (s : Stream) :
    (node kind ds s).1.HoldsMarkup := by
  obtain ⟨d, hd, holds⟩ := h
  have kept : d ∈ (absorb ds s).1 :=
    (absorb_perm _ ds).mem_iff.2 (List.mem_append_left _ hd)
  exact holdsMarkup_node.2 (.inr ⟨d, kept, holds⟩)

theorem holdsMarkup_markup (s : Stream) : (markup s).1.HoldsMarkup := by
  have gives : Gives markup s fun d _ => d.HoldsMarkup := by
    refine gives_peek (fun _ => ?_) fun t rest tokens => ?_
    · exact holdsMarkup_node.2 (.inl rfl)
    · exact holdsMarkup_node.2 (.inl rfl)
  exact gives

theorem markup_alike : Alike view p q s t markup markup (Single view) HoldsMarkup :=
  fun _ => .inl (holdsMarkup_markup s)

theorem repeatUntil_keeps {step : α → Reader (α ⊕ β)} {unfinished : α → β} {bad : α → Prop}
    {marked : β → Prop} (round : ∀ c s, bad c → Sum.elim bad marked (step c s).1)
    (finish : ∀ c, bad c → marked (unfinished c)) {c : α} (h : bad c) (s : Stream) :
    marked (repeatUntil step unfinished c s).1 := by
  unfold repeatUntil
  induction s.size + 1 generalizing c s with
  | zero => exact finish c h
  | succ rounds ih =>
    rw [repeatAtMost_succ]
    have once := round c s h
    cases result : step c s with
    | mk out s' =>
      rw [result] at once
      cases out with
      | inl c' => exact ih once s'
      | inr e => exact once

/-- The last node of a reader, which markup in its children does not leave. -/
theorem node_alike_or {ds es : List Draft} (h : Twin view ds es) (kind : String) :
    Alike view p q s t (node kind ds) (node kind es) (Single view) HoldsMarkup :=
  (node_alike h kind).mono fun _ _ => id

theorem statementRest_blind : Blind statementRestStep := by
  intro view first u v same
  unfold statementRestStep
  rw [same.kind, same.newlineBefore]

theorem nestedRegion_blind : Blind nestedRegionStep := by
  intro view depths u v same
  unfold nestedRegionStep
  rw [same.kind, same.newlineBefore]

theorem skipStatementRest_alike :
    Alike view p q s t skipStatementRest skipStatementRest (Twin view) :=
  .bind (collect_alike statementRest_blind true) fun _ _ twin => .pure twin

theorem skipNestedRegion_alike :
    Alike view p q s t skipNestedRegion skipNestedRegion (Twin view) :=
  .bind (collect_alike nestedRegion_blind _) fun _ _ twin => .pure twin

theorem finishStatement_alike {ds es : List Draft} (h : Twin view ds es) :
    Alike view p q s t (finishStatement ds) (finishStatement es) (Single view) HoldsMarkup := by
  refine .peek (node_alike_or h _) fun u v same => ?_
  dsimp only
  rw [same.kind, same.newlineBefore]
  split
  · exact .bind nextLeaf_alike fun _ _ last => node_alike_or (h.append last) _
  · split
    · exact node_alike_or h _
    · refine .bind skipStatementRest_alike fun _ _ rest => ?_
      refine .bind (errorNodes_alike rest) fun _ _ garbage => ?_
      exact .bind (optionalLeaf_alike _) fun _ _ last =>
        node_alike_or ((h.append garbage).append last) _

/-- Children of two nodes, the comments among them left out of account. -/
structure Siblings (view : View) (ds es : List Draft) : Prop where
  outlines : view.outlines view.left ds = view.outlines view.right es
  left : solidsOf ds ≠ []
  right : solidsOf es ≠ []

theorem Siblings.node {ds es : List Draft} (h : Siblings view ds es) (kind : String) :
    Alike view p q s t (Script.node kind ds) (Script.node kind es) (Single view) HoldsMarkup := by
  intro like
  have isEmpty {ds : List Draft} (solid : solidsOf ds ≠ []) : ds.isEmpty = false := by
    cases ds with
    | nil => contradiction
    | cons => rfl
  have structural {s : Stream} (hs : s.Sound) {ds : List Draft} (solid : solidsOf ds ≠ []) :
      (Script.node kind ds s).1.Structural := by
    refine structural_branch kind fun _ => ?_
    change solidsOf (absorb ds s).1 ≠ []
    rwa [solidsOf_absorbed hs]
  refine .inr ⟨.single ?_ (structural like.left h.left) (structural like.right h.right), p, q,
    like.keep (fun _ hd => (List.mem_filter.1 hd).1) fun _ hd => (List.mem_filter.1 hd).1⟩
  change view.outlines view.left [.branch kind (absorb ds s).1]
    = view.outlines view.right [.branch kind (absorb es t).1]
  rw [View.outlines_branch, View.outlines_branch, isEmpty_absorb, isEmpty_absorb, isEmpty h.left,
    isEmpty h.right, View.outlines_absorb like.left, View.outlines_absorb like.right, h.outlines]

/-- The nodes of two blocks from their opening braces on. -/
def Opened (view : View) (u v : Token) (ds es : List Draft) : Prop :=
  Peers view u v ∧ ∃ more more', ds = .leaf Kind.blockStart true u.start u.stop :: more
    ∧ es = .leaf Kind.blockStart true v.start v.stop :: more'
    ∧ view.outlines view.left more = view.outlines view.right more'

namespace Opened

variable {u v : Token} {ds es : List Draft} (h : Opened view u v ds es)
include h

theorem siblings : Siblings view ds es := by
  obtain ⟨same, more, more', rfl, rfl, outlines⟩ := h
  have known : Kind.blockStart ≠ Kind.xml := by decide
  refine ⟨?_, ?_, ?_⟩
  · rw [View.outlines_cons _ more, View.outlines_cons _ more',
      (Twin.leaf same known true).outlines, outlines]
  · simp [solids_leaf known]
  · simp [solids_leaf known]

theorem place (like : Like view p q s t) {item item' : Draft} (twin : Single view item item') :
    Opened view u v (place ds item s).1 (place es item' t).1 := by
  obtain ⟨same, more, more', rfl, rfl, outlines⟩ := h
  refine ⟨same, (Script.place more item s).1, (Script.place more' item' t).1, rfl, rfl, ?_⟩
  rw [View.outlines_place like.left, View.outlines_place like.right, outlines, twin.outlines]

/-- A block that never closes has its brace as an error. -/
theorem unclosed (like : Like view p q s t) : Siblings view
    ((flush ds s).1.set 0 (.error [.leaf "\x7b" false u.start u.stop]))
    ((flush es t).1.set 0 (.error [.leaf "\x7b" false v.start v.stop])) := by
  obtain ⟨same, more, more', rfl, rfl, outlines⟩ := h
  have known : "\x7b" ≠ Kind.xml := by decide
  have plain (t : Token) : ∀ d ∈ [Draft.leaf "\x7b" false t.start t.stop],
      d.label.extra → ¬ d.isError := by
    simp [Draft.leaf, Rose.label]
  have brace := (Twin.leaf same known false).outlines
  have late : view.outlines view.left s.waiting = [] :=
    View.outlines_waiting like.left view.left fun _ hd => hd
  have late' : view.outlines view.right t.waiting = [] :=
    View.outlines_waiting like.right view.right fun _ hd => hd
  refine ⟨?_, ?_, ?_⟩
  · change view.outlines view.left (_ :: (more ++ s.waiting))
      = view.outlines view.right (_ :: (more' ++ t.waiting))
    rw [View.outlines_cons _ (more ++ _), View.outlines_cons _ (more' ++ _), View.outlines_append,
      View.outlines_append, View.outlines_error (plain u), View.outlines_error (plain v), brace,
      outlines, late, late']
    rfl
  · change solidsOf (_ :: (more ++ s.waiting)) ≠ []
    simp [solids_error, solids_leaf known]
  · change solidsOf (_ :: (more' ++ t.waiting)) ≠ []
    simp [solids_error, solids_leaf known]

end Opened

/-- Markup stands behind the first of some drafts. -/
def TailHoldsMarkup (ds : List Draft) : Prop := ∃ d more, ds = d :: more ∧ HoldMarkup more

theorem TailHoldsMarkup.all {ds : List Draft} (h : TailHoldsMarkup ds) : HoldMarkup ds := by
  obtain ⟨d, more, rfl, c, hc, holds⟩ := h
  exact ⟨c, List.mem_cons_of_mem d hc, holds⟩

section Productions

variable {inner : Level} (lossless : inner.Lossless) (h : inner.Alike view)

theorem blockStep_keeps (opening : Token) (ds : List Draft) (s : Stream)
    (h : TailHoldsMarkup ds) :
    Sum.elim TailHoldsMarkup TailHoldsMarkup (blockStep inner opening ds s).1 := by
  obtain ⟨d, more, rfl, c, hc, holds⟩ := h
  have gives : Gives (blockStep inner opening (d :: more)) s fun out _ =>
      Sum.elim TailHoldsMarkup TailHoldsMarkup out := by
    refine gives_peekKind (fun _ => ?_) fun t rest tokens => ?_
    · exact ⟨_, _, rfl, c, List.mem_append_left _ hc, holds⟩
    split
    · contradiction
    · refine gives_next (fun _ => ⟨d, more, rfl, c, hc, holds⟩) fun close rest tokens => ?_
      exact ⟨_, _, rfl, c, List.mem_append_left _ (List.mem_append_left _ hc), holds⟩
    · exact ⟨_, _, rfl, c, List.mem_append_left _ (List.mem_append_left _ hc), holds⟩
  exact gives

section
include h

theorem blockItem_alike :
    Alike view p q s t (blockItem inner) (blockItem inner) (Single view) HoldsMarkup := by
  refine .isAt fun markup => ?_
  split
  · exact markup_alike
  · exact h.statement

theorem blockStep_alike {u v : Token} {ds es : List Draft} (opened : Opened view u v ds es) :
    Alike view p q s t (blockStep inner u ds) (blockStep inner v es)
      (Sum.LiftRel (Opened view u v) (Siblings view)) (Sum.elim TailHoldsMarkup TailHoldsMarkup) := by
  refine .peekKind fun following => ?_
  split
  · exact fun like => .inr ⟨.inr (opened.unclosed like), p, q, like.keep (by simp) (by simp)⟩
  · refine .next (.pure (.inr opened.siblings)) fun close close' same => ?_
    have item := Twin.leaf same (show Kind.blockEnd ≠ Kind.xml by decide) true
    exact fun like => .inr ⟨.inr (opened.place like item).siblings, _, _,
      like.keep (fun _ hd => (List.mem_filter.1 hd).1) fun _ hd => (List.mem_filter.1 hd).1⟩
  · refine .bindOr (blockItem_alike h) (fun item s holds => ?_) fun item item' twin => ?_
    · obtain ⟨_, more, _, rfl, _⟩ := opened
      exact ⟨_, _, rfl, item, List.mem_append_right _ (by simp), holds⟩
    · exact fun like => .inr ⟨.inl (opened.place like twin), _, _,
        like.keep (fun _ hd => (List.mem_filter.1 hd).1) fun _ hd => (List.mem_filter.1 hd).1⟩

end

section
include lossless h

theorem block_alike {u v : Token} {ds es : List Draft} (opened : Opened view u v ds es) :
    Alike view p q s t (repeatUntil (blockStep inner u) id ds)
      (repeatUntil (blockStep inner v) id es) (Siblings view) TailHoldsMarkup := by
  refine .repeatUntil TailHoldsMarkup (blockStep_advancing lossless u)
    (blockStep_advancing lossless v) (fun ds es opened => ?_) (fun ds s holds => ?_)
    (fun ds es opened => blockStep_alike h opened) opened
  · obtain ⟨_, more, more', rfl, rfl, _⟩ := opened
    exact ⟨⟨more, rfl⟩, more', rfl⟩
  · exact repeatUntil_keeps (blockStep_keeps u) (fun _ => id) holds s

theorem compound_alike :
    Alike view p q s t (compound inner) (compound inner) (Single view) HoldsMarkup := by
  refine .next (node_alike_or .nil _) fun opening opening' same => ?_
  refine .bindOr (block_alike lossless h ⟨same, [], [], rfl, rfl, rfl⟩) (fun ds s holds => ?_)
    fun ds es siblings => siblings.node _
  exact holds.all.node _ s

theorem body_alike (field : String) :
    Alike view p q s t (body inner field) (body inner field) (Twin view) HoldMarkup := by
  refine .peekKind fun following => ?_
  split
  · exact .pure .nil
  · exact .bindOr (compound_alike lossless h)
      (fun d _ holds => ⟨_, List.mem_singleton_self _, holds.withField field⟩)
      fun d e twin => .pure (twin.withField field)
  · exact .bindOr h.statement
      (fun d _ holds => ⟨_, List.mem_singleton_self _, holds.withField field⟩)
      fun d e twin => .pure (twin.withField field)

omit lossless in
theorem condition_alike :
    Alike view p q s t (condition inner) (condition inner) (Twin view) := by
  refine .isAt fun opens => ?_
  split
  · refine .bind (parenthesized_alike h) fun out out' ends => ?_
    cases ends with
    | ok group => exact .pure (group.withField Field.condition)
    | error consumed =>
      have blind : Blind closingParenStep := by
        intro view finished u v same
        unfold closingParenStep isBlockOrEnd
        rw [same.kind]
      refine .bind (collect_alike blind false) fun _ _ rest => ?_
      exact .bind (errorNode_alike (consumed.append rest)) fun _ _ twin => .pure twin
  · refine .bind (collectWhile_alike fun _ _ _ same => ?_) fun _ _ words => errorNodes_alike words
    unfold isBlockOrEnd
    rw [same.kind]

theorem ifStatement_alike :
    Alike view p q s t (ifStatement inner) (ifStatement inner) (Single view) HoldsMarkup := by
  refine .bind nextKeyword_alike fun word word' first => ?_
  refine .bind (condition_alike h) fun test test' second => ?_
  refine .bindOr (body_alike lossless h _) (fun consequence s ⟨d, hd, holds⟩ => ?_)
    fun consequence consequence' third => ?_
  · change Gives _ s fun (d : Draft) _ => d.HoldsMarkup
    refine gives_isAtWord (fun _ _ _ _ _ => ?_) ?_
    · exact HoldMarkup.node ⟨d, by simp [hd], holds⟩ _ _
    · exact HoldMarkup.node ⟨d, by simp [hd], holds⟩ _ _
  · refine .isAtWord (by decide) fun otherwise => ?_
    split
    · refine .bind nextKeyword_alike fun word word' fourth => ?_
      refine .bindOr (body_alike lossless h _) (fun alternative s ⟨d, hd, holds⟩ => ?_)
        fun alternative alternative' fifth => ?_
      · exact HoldMarkup.node ⟨d, by simp [hd], holds⟩ _ _
      · exact node_alike_or ((((first.append second).append third).append fourth).append fifth) _
    · exact node_alike_or ((first.append second).append third) _

theorem whileStatement_alike :
    Alike view p q s t (whileStatement inner) (whileStatement inner) (Single view) HoldsMarkup := by
  refine .bind nextKeyword_alike fun word word' first => ?_
  refine .bind (condition_alike h) fun test test' second => ?_
  refine .bindOr (body_alike lossless h _) (fun body s ⟨d, hd, holds⟩ => ?_)
    fun body body' third => ?_
  · exact HoldMarkup.node ⟨d, by simp [hd], holds⟩ _ _
  · exact node_alike_or ((first.append second).append third) _

theorem switchStatement_alike :
    Alike view p q s t (switchStatement inner) (switchStatement inner) (Single view) HoldsMarkup := by
  refine .bind nextKeyword_alike fun word word' first => ?_
  refine .bind (condition_alike h) fun test test' second => .isAt fun opens => ?_
  split
  · refine .bindOr (compound_alike lossless h) (fun block s holds => ?_)
      fun block block' third => ?_
    · exact HoldMarkup.node ⟨_, by simp, holds.withField Field.body⟩ _ _
    · exact node_alike_or ((first.append second).append (third.withField Field.body)) _
  · refine .bind skipStatementRest_alike fun rest rest' twin => ?_
    refine .bind (errorNodes_alike twin) fun garbage garbage' third => ?_
    exact node_alike_or ((first.append second).append third) _

theorem caseStatement_alike :
    Alike view p q s t (caseStatement inner) (caseStatement inner) (Single view) HoldsMarkup := by
  refine .isAtWord (by decide) fun isDefault => .bind nextKeyword_alike fun word word' first => ?_
  split
  · exact .bind (optionalLeaf_alike _) fun colon colon' last => node_alike_or (first.append last) _
  · refine .bind (binary_alike lossless h) fun out out' ends => ?_
    cases ends with
    | ok value =>
      refine .bind (optionalLeaf_alike _) fun colon colon' last => ?_
      exact node_alike_or ((first.append (value.twin.withField Field.value)).append last) _
    | error consumed =>
      refine .bind (errorNodes_alike consumed) fun garbage garbage' second => ?_
      exact .bind (optionalLeaf_alike _) fun colon colon' last =>
        node_alike_or ((first.append second).append last) _

omit lossless in
theorem returnStatement_alike :
    Alike view p q s t (returnStatement inner) (returnStatement inner) (Single view) := by
  refine .bind nextKeyword_alike fun word word' first => ?_
  refine .peek (node_alike first _) fun u v same => ?_
  dsimp only
  rw [same.kind, same.newlineBefore]
  split
  · exact node_alike first _
  · refine .bind h.expression fun out out' ends => ?_
    cases ends with
    | ok value => exact node_alike (first.append value.twin) _
    | error consumed =>
      refine .bind (errorNodes_alike consumed) fun garbage garbage' second => ?_
      exact node_alike (first.append second) _

theorem wordStatement_alike {word : String} {following : Option Token.Kind} {read : Reader Draft}
    (found : wordStatement? inner word following = some read) :
    Alike view p q s t read read (Single view) HoldsMarkup := by
  have statement {r : Reader Draft} {p q : Option Nat} {s t : Stream}
      (hr : Alike view p q s t r r (Single view) HoldsMarkup) :
      Alike view p q s t (do node Kind.statement [← r]) (do node Kind.statement [← r]) (Single view)
        HoldsMarkup :=
    .bindOr hr (fun d s holds => HoldMarkup.node ⟨d, by simp, holds⟩ _ s)
      fun d e twin => node_alike_or twin _
  unfold wordStatement? at found
  repeat' split at found
  all_goals cases found
  · exact statement (ifStatement_alike lossless h)
  · exact statement (switchStatement_alike lossless h)
  · exact statement (whileStatement_alike lossless h)
  · exact statement (caseStatement_alike lossless h)
  · exact statement (caseStatement_alike lossless h)
  · exact .bind (returnStatement_alike h) fun d e twin => finishStatement_alike twin
  · refine .bind nextKeyword_alike fun word word' twin => ?_
    exact .bind (node_alike twin _) fun d e twin => finishStatement_alike twin

omit lossless in
theorem expressionStatement_alike :
    Alike view p q s t (expressionStatement inner) (expressionStatement inner) (Single view)
      HoldsMarkup := by
  refine .bind h.expression fun out out' ends => ?_
  cases ends with
  | ok value => exact finishStatement_alike value.twin
  | error consumed =>
    have finished {ds es : List Draft} (twin : Twin view ds es) {p q : Option Nat} {s t : Stream} :
        Alike view p q s t (do finishStatement [← errorNode (ds ++ (← skipStatementRest))])
          (do finishStatement [← errorNode (es ++ (← skipStatementRest))]) (Single view)
          HoldsMarkup := by
      refine .bind skipStatementRest_alike fun rest rest' more => ?_
      exact .bind (errorNode_alike (twin.append more)) fun d e twin => finishStatement_alike twin
    dsimp only
    rw [consumed.isEmpty_eq]
    split
    · exact .bind nextLeaf_alike fun leaf leaf' twin => finished twin
    · exact finished consumed

theorem statement_alike :
    Alike view p q s t (statement inner) (statement inner) (Single view) HoldsMarkup := by
  refine .peek (node_alike_or .nil _) fun u v same => .peekSecondKind fun following => ?_
  rw [same.kind, same.word fun _ quoted => quoted.wordStatement? inner following]
  split
  · rename_i read found
    split at found
    · exact wordStatement_alike lossless h found
    · contradiction
  · split
    · refine .bindOr (compound_alike lossless h) (fun block s holds => ?_) fun d e twin => ?_
      · exact HoldMarkup.node ⟨block, by simp, holds⟩ _ s
      · exact node_alike_or twin _
    · exact .bind nextLeaf_alike fun leaf leaf' twin => node_alike_or twin _
    · exact expressionStatement_alike h

end

end Productions

theorem deepStatement_alike :
    Alike view p q s t deepStatement deepStatement (Single view) HoldsMarkup := by
  have finished {ds es : List Draft} (twin : Twin view ds es) {p q : Option Nat} {s t : Stream} :
      Alike view p q s t (do finishStatement (← errorNodes ds))
        (do finishStatement (← errorNodes es)) (Single view) HoldsMarkup :=
    .bind (errorNodes_alike twin) fun d e twin => finishStatement_alike twin
  refine .bind skipNestedRegion_alike fun region region' twin => ?_
  dsimp only
  rw [twin.isEmpty_eq]
  split
  · refine .isAt fun ends => ?_
    split
    · exact finished .nil
    · exact .bind nextLeaf_alike fun leaf leaf' twin => finished twin
  · exact finished twin

theorem level_alike (view : View) (remaining : Nat) : (level remaining).Alike view := by
  induction remaining with
  | zero =>
    exact ⟨deepStatement_alike,
      .bind skipNestedRegion_alike fun _ _ twin => .pure (.error twin),
      .bind skipNestedRegion_alike fun _ _ twin => .pure (.error twin)⟩
  | succ remaining ih =>
    have lossless := level_lossless remaining
    exact ⟨statement_alike lossless ih, assignment_alike lossless ih, unary_alike lossless ih⟩

end Script

end RouteScript
