import RouteScript.Proofs.Alike.Rules
import RouteScript.Proofs.Lossless.Expression
/-!
# Variables that look the same

Variables are the one place where a reader looks at offsets. It compares them with the end of the
token or node it took last, and no comment that a node takes in moves the end of the node.
-/
namespace RouteScript.Script

open Draft

variable {β : Type} {view : View} {p q : Option Nat} {s t : Stream}

theorem group_blind (opening closing : Token.Kind) : Blind (Group.step opening closing) := by
  intro view g u v same
  unfold Group.step
  rw [same.kind, same.newlineBefore]

theorem Alike.balanced {opening closing : Token.Kind} {rel : β → β → Prop} {marked : β → Prop}
    {k l : Option (List Draft) → Reader β}
    (none : Alike view p q s t (k .none) (l .none) rel marked)
    (some : ∀ {s t} us vs, List.Forall₂ (Peers view) us vs → (∀ u ∈ us, Clear s u) →
      (∀ v ∈ vs, Clear t v) → Alike view (endOf p us) (endOf q vs) s t
        (k (.some (us.map tokenLeaf))) (l (.some (vs.map tokenLeaf))) rel marked) :
    Alike view p q s t (balanced opening closing >>= k) (balanced opening closing >>= l)
      rel marked := by
  intro like
  let step := Group.step opening closing
  let start : Group := ⟨0, false, false⟩
  obtain ⟨final, peers, like'⟩ := like.collect (group_blind opening closing) start
  have eval (s : Stream) (k : Option (List Draft) → Reader β) :
      (Script.balanced opening closing >>= k) s = if (takeSteps step start s.tokens).1.closed
        then k (.some ((takenOf step start s).map tokenLeaf)) (Script.collect step start s).2
        else k .none s := by
    change k (Script.balanced opening closing s).1 (Script.balanced opening closing s).2 = _
    have once : Script.balanced opening closing s = if (takeSteps step start s.tokens).1.closed
        then (.some ((takenOf step start s).map tokenLeaf), (Script.collect step start s).2)
        else (.none, s) := rfl
    rw [once]
    split <;> rfl
  by_cases closes : (takeSteps step start s.tokens).1.closed
  · have closes' : (takeSteps step start t.tokens).1.closed := by
      rw [final]
      exact closes
    unfold Alike at some
    rw [eval, eval, if_pos closes, if_pos closes']
    exact some _ _ peers (fun _ hu => collect_clear like.left step start hu)
      (fun _ hv => collect_clear like.right step start hv) like'
  · have open' : ¬ (takeSteps step start t.tokens).1.closed := by
      rw [final]
      exact closes
    rw [eval, eval, if_neg closes, if_neg open']
    exact none like

theorem index_alike : Alike view p q s t index index (Option.Rel (Single view)) := by
  refine .balanced (.pure .none) fun us vs peers _ _ => ?_
  exact .bind (node_alike (twin_tokenLeaf peers) _) fun d e twin => .pure (.some twin)

@[simp] theorem start_tokenLeaf (t : Token) : (tokenLeaf t).start = t.start := by
  unfold tokenLeaf
  split <;> rfl

@[simp] theorem stop_tokenLeaf (t : Token) : (tokenLeaf t).stop = t.stop := by
  unfold tokenLeaf
  split <;> rfl

/-- A node ends where its last token ends, even if comments are put in front of that. -/
theorem stop_node {w : Token} (hs : s.Sound) (clear : Clear s w) (kind : String)
    (ds : List Draft) : (node kind (ds ++ [tokenLeaf w]) s).1.stop = w.stop := by
  have outside : ∀ d ∈ s.waiting,
      ¬ ((tokenLeaf w).start ≤ d.start ∧ d.stop ≤ (tokenLeaf w).stop) := by
    intro d waits ⟨low, high⟩
    obtain ⟨t, _, there, rfl⟩ := hs.waiting d waits
    have long : t.start < t.stop := Token.start_lt_stop there.nonempty
    have apart : t.stop ≤ w.start ∨ w.stop ≤ t.start := clear _ waits
    rw [start_tokenLeaf] at low
    rw [stop_tokenLeaf] at high
    change w.start ≤ t.start at low
    change t.stop ≤ w.stop at high
    omega
  have last := getLast?_absorb (s := s) (List.getLast?_concat (l := ds)) outside
  change (Draft.branch kind (absorb (ds ++ [tokenLeaf w]) s).1).stop = w.stop
  simp [branch, last, Draft.stop, Rose.label, ← stop_tokenLeaf w]

theorem Clear.node {w : Token} (clear : Clear s w) (kind : String) (ds : List Draft) :
    Clear (node kind ds s).2 w := fun d hd => clear d (List.mem_filter.1 hd).1

section Parts

variable {rel : β → β → Prop} {marked : β → Prop} {ds es : List Draft} {k l : Draft → Reader β}

/-- A node whose last token is `w`, with its end. -/
theorem Alike.nodeTo {w x : Token} (h : Twin view ds es) (last : Peers view w x) (kind : String)
    (clear : Clear s w) (clear' : Clear t x)
    (hk : ∀ {s t} d e, Single view d e → d.stop = w.stop → e.stop = x.stop →
      Alike view p q s t (k d) (l e) rel marked) :
    Alike view p q s t (node kind (ds ++ [tokenLeaf w]) >>= k)
      (node kind (es ++ [tokenLeaf x]) >>= l) rel marked := by
  intro like
  exact hk _ _ ((h.append (.tokenLeaf last)).node like.left like.right kind)
    (stop_node like.left clear kind ds) (stop_node like.right clear' kind es)
    (like.keep (fun _ hd => (List.mem_filter.1 hd).1) fun _ hd => (List.mem_filter.1 hd).1)

theorem Alike.variableParts {name name' opening opening' w x : Token} (same : Peers view name name')
    (opens : Peers view opening opening') (h : Twin view ds es) (last : Peers view w x)
    (clear : Clear s w) (clear' : Clear t x)
    (hk : ∀ {s t} d e, Single view d e → d.stop = w.stop → e.stop = x.stop →
      Alike view p q s t (k d) (l e) rel marked) :
    Alike view p q s t
      (variableParts name (tokenLeaf opening) ds (tokenLeaf w) >>= k)
      (variableParts name' (tokenLeaf opening') es (tokenLeaf x) >>= l) rel marked := by
  unfold Script.variableParts
  rw [same.word fun _ quoted => quoted.userVariableKind?]
  split
  · rename_i kind _
    intro like
    have inner := h.node like.left like.right Kind.variableName
    have parts := (Twin.keywordLeaf same).append ((Twin.tokenLeaf opens).append
      (inner.withField Field.name))
    exact Alike.nodeTo parts last kind (clear.node Kind.variableName ds)
      (clear'.node Kind.variableName es) hk
      (like.keep (fun _ hd => (List.mem_filter.1 hd).1) fun _ hd => (List.mem_filter.1 hd).1)
  · intro like
    have inner := h.node like.left like.right Kind.pvarArgument
    have parts := ((Twin.tokenLeaf same).withField Field.pvarClass).append
      ((Twin.tokenLeaf opens).append (inner.withField Field.argument))
    exact Alike.nodeTo parts last Kind.pvarCall (clear.node Kind.pvarArgument ds)
      (clear'.node Kind.pvarArgument es) hk
      (like.keep (fun _ hd => (List.mem_filter.1 hd).1) fun _ hd => (List.mem_filter.1 hd).1)

end Parts

/-- The last ones of two lists that are related member by member. -/
theorem forall₂_concat {R : Token → Token → Prop} {us vs : List Token}
    (h : List.Forall₂ R us vs) (nonempty : us ≠ []) : ∃ us' w vs' x, us = us' ++ [w]
      ∧ vs = vs' ++ [x] ∧ List.Forall₂ R us' vs' ∧ R w x := by
  induction h with
  | nil => contradiction
  | @cons u v us vs same h ih =>
    by_cases single : us = []
    · subst single
      cases h
      exact ⟨[], u, [], v, rfl, rfl, .nil, same⟩
    · obtain ⟨us', w, vs', x, rfl, rfl, rest, last⟩ := ih single
      exact ⟨u :: us', w, v :: vs', x, rfl, rfl, .cons same rest, last⟩

theorem pseudoContent_alike :
    Alike view p q s t pseudoContent pseudoContent (Ends view (Single view)) := by
  refine .next (.pure (.error .nil)) fun name name' same => ?_
  refine .isAdjacent (by decide) (fun _ _ _ _ _ _ _ _ _ => ?_) ?_
  · refine .balanced (.pure (.error (.tokenLeaf same))) fun us vs peers clear clear' => ?_
    rcases peers with _ | ⟨opens, _ | ⟨seconds, _ | ⟨thirds, peers⟩⟩⟩
    · exact .pure (.error (.tokenLeaf same))
    · exact .pure (.error (.cons (.tokenLeaf same) (.tokenLeaf opens)))
    · exact .pure (.error (.cons (.tokenLeaf same) (.cons (.tokenLeaf opens) (.tokenLeaf seconds))))
    · obtain ⟨us', w, vs', x, left, right, between, last⟩ :=
        forall₂_concat (.cons seconds (.cons thirds peers)) (by simp)
      have inner {t₂ t₃ w : Token} {ts ts' : List Token} (split : t₂ :: t₃ :: ts = ts' ++ [w]) :
          (tokenLeaf t₂ :: tokenLeaf t₃ :: ts.map tokenLeaf).dropLast = ts'.map tokenLeaf
            ∧ ((tokenLeaf t₃ :: ts.map tokenLeaf).getLast?).getD (tokenLeaf t₃) = tokenLeaf w := by
        have leaves : tokenLeaf t₂ :: tokenLeaf t₃ :: ts.map tokenLeaf
            = ts'.map tokenLeaf ++ [tokenLeaf w] := by
          simpa using congrArg (List.map tokenLeaf) split
        rw [← List.getLast?_cons_cons, leaves, List.dropLast_concat, List.getLast?_concat]
        exact ⟨rfl, rfl⟩
      simp only [List.map_cons]
      rw [(inner left).1, (inner left).2, (inner right).1, (inner right).2, left, right,
        endOf_cons, endOf_cons, endOf_concat, endOf_concat]
      refine .variableParts same opens (twin_tokenLeaf between) last (clear w (by simp [left]))
        (clear' x (by simp [right])) fun d e parts stop stop' => ?_
      rw [stop, stop']
      refine .isAdjacent (by decide) (fun _ _ _ _ _ _ _ _ _ => ?_) ?_
      · refine .bind index_alike fun index index' twin => ?_
        refine .bind (node_alike ?_ _) fun d e twin => .pure (.ok twin)
        cases twin with
        | none => exact parts
        | some twin => exact .cons parts twin
      · exact .bind (node_alike parts _) fun d e twin => .pure (.ok twin)
  · exact .bind (node_alike (.tokenLeaf same) _) fun d e twin => .pure (.ok twin)

theorem transformationStep_alike {cs ds : List Draft} (h : Twin view cs ds) :
    Alike view p q s t (transformationStep cs) (transformationStep ds)
      (Sum.LiftRel (Twin view) (Ends view (Twin view))) := by
  refine .peekKind fun following => ?_
  split
  · refine .balanced (.pure (.inr (.error h))) fun us vs peers _ _ => ?_
    exact .bind (node_alike (twin_tokenLeaf peers) _) fun d e twin => .pure (.inl (h.append twin))
  · refine .bind index_alike fun index index' twin => ?_
    cases twin with
    | none => exact .pure (.inr (.error h))
    | some twin => exact .pure (.inl (h.append twin))
  · exact .pure (.inr (.ok h))

theorem transformations_alike {cs ds : List Draft} (h : Twin view cs ds) :
    Alike view p q s t (repeatUntil transformationStep .error cs)
      (repeatUntil transformationStep .error ds) (Ends view (Twin view)) :=
  .loop transformationStep_rounds.advancing transformationStep_rounds.advancing
    (fun _ _ twin => ⟨⟨trivial, twin.solid_left⟩, trivial, twin.solid_right⟩)
    (fun _ _ twin => transformationStep_alike twin) h

/-- A dollar sign and the parenthesis right behind it are one leaf. -/
theorem Twin.sigil {dollar dollar' opening opening' : Token} (h : Peers view dollar dollar')
    (h' : Peers view opening opening') (adjacent : opening.start = dollar.stop)
    (adjacent' : opening'.start = dollar'.stop) :
    Single view (.leaf "$(" false dollar.start opening.stop)
      (.leaf "$(" false dollar'.start opening'.stop) := by
  have known : "$(" ≠ Kind.xml := by decide
  have left := h'.left
  have right := h'.right
  rw [adjacent] at left
  rw [adjacent'] at right
  refine .single ?_ (structural_leaf known ..) (structural_leaf known ..)
  rw [View.outlines_leaf, View.outlines_leaf, Text.slice, Text.slice, Text.slice?_join h.left left,
    Text.slice?_join h.right right, Option.getD_some, Option.getD_some,
    View.see_append h.text.symm h'.text.symm]

theorem pvarExpression_alike {dollar dollar' opening opening' : Token} {rest rest' : List Token}
    (h : Peers view dollar dollar') (h' : Peers view opening opening')
    (tokens : s.tokens = opening :: rest) (tokens' : t.tokens = opening' :: rest')
    (adjacent : opening.start = dollar.stop) (adjacent' : opening'.start = dollar'.stop) :
    Alike view p q s t (pvarExpression dollar) (pvarExpression dollar')
      (Ends view (Wrapped view)) := by
  have start := Twin.sigil h h' adjacent adjacent'
  refine .take tokens tokens' ?_
  refine .isAdjacent (by decide) (fun _ _ _ _ _ _ _ _ _ => ?_) (.pure (.error start))
  refine .bind pseudoContent_alike fun out out' ends => ?_
  cases ends with
  | error consumed => exact .pure (.error (.cons start consumed))
  | ok content =>
    refine .bind (transformations_alike (.cons start content)) fun out out' ends => ?_
    cases ends with
    | error consumed => exact .pure (.error consumed)
    | ok children =>
      refine .isAt fun closes => ?_
      split
      · refine .bind nextLeaf_alike fun closing closing' last => ?_
        refine .bind (node_alike (children.append last) _) fun d e twin => ?_
        exact .pure (.ok ⟨d, e, rfl, rfl, twin⟩)
      · exact .pure (.error children)

theorem pseudoVariable_alike :
    Alike view p q s t pseudoVariable pseudoVariable (Ends view (Wrapped view)) := by
  refine .next (.pure (.error .nil)) fun dollar dollar' same => ?_
  refine .isAdjacent (by decide) (fun _ _ _ _ tokens tokens' opens start start' => ?_) ?_
  · exact pvarExpression_alike same opens tokens tokens' start start'
  · have sign := Twin.leaf same (show "$" ≠ Kind.xml by decide) false
    refine .isAdjacent (by decide) (fun _ _ _ _ _ _ _ _ _ => ?_) (.pure (.error sign))
    refine .bind pseudoContent_alike fun out out' ends => ?_
    cases ends with
    | error consumed => exact .pure (.error (.cons sign consumed))
    | ok content =>
      refine .bind (node_alike (.cons sign content) _) fun d e twin => ?_
      exact .pure (.ok ⟨d, e, rfl, rfl, twin⟩)

end RouteScript.Script
