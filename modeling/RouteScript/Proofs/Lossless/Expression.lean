import RouteScript.Proofs.Lossless.Rules
/-!
# Expressions are lossless

Every reader of variables and expressions accounts for what it takes, on its way through and when
it fails.
-/
namespace RouteScript.Script

open Draft

/-- What an outcome gives back: the expression, or what was taken before it failed. -/
def Outcome.held : Outcome → List Draft
  | .ok d => [d]
  | .error consumed => consumed

@[simp] theorem Outcome.held_ok (d : Draft) : Outcome.held (.ok d) = [d] := rfl

@[simp] theorem Outcome.held_error (ds : List Draft) : Outcome.held (.error ds) = ds := rfl

theorem takeSteps_unchanged {σ : Type} (step : σ → Token → Option σ) (state : σ) (ts : List Token)
    (nothing : (takeSteps step state ts).2.1.filter Token.isSignificant = []) :
    (takeSteps step state ts).1 = state := by
  induction ts generalizing state with
  | nil => rfl
  | cons t ts ih =>
    unfold takeSteps at nothing ⊢
    split
    · rename_i trivia
      simp only [trivia, if_true] at nothing
      exact ih state (by simpa [Token.isSignificant, trivia] using nothing)
    · rename_i significant
      split
      · rfl
      · rename_i state' taken
        simp [Token.isSignificant, significant, taken] at nothing

theorem balanced_eq (opening closing : Token.Kind) (s : Stream) :
    let group := collect (Group.step opening closing) ⟨0, false, false⟩ s
    balanced opening closing s =
      if group.1.1.closed then (some group.1.2, group.2) else (none, s) := rfl

theorem balanced_lossless (opening closing : Token.Kind) (s : Stream) :
    Lossless s [] (balanced opening closing) (·.getD []) fun r => ∀ ts, r = some ts → ts ≠ [] := by
  intro hs solid
  obtain ⟨kept, solid', _⟩ :=
    collect_lossless (Group.step opening closing) ⟨0, false, false⟩ s hs solid
  unfold Gives
  rw [balanced_eq]
  split
  · rename_i closed
    refine ⟨kept, solid', fun ts eq nothing => ?_⟩
    cases eq
    have unchanged : (collect (Group.step opening closing) ⟨0, false, false⟩ s).1.1
        = ⟨0, false, false⟩ :=
      takeSteps_unchanged _ _ s.tokens (List.map_eq_nil_iff.1 nothing)
    simp [unchanged] at closed
  · exact ⟨.of_same hs (.refl _), solid_nil, by simp⟩

theorem index_lossless (s : Stream) : Lossless s [] index Option.toList := by
  refine .bind (balanced_lossless _ _ s) fun tokens s₁ nonempty => ?_
  cases tokens with
  | none => exact .pure (.refl _)
  | some tokens =>
    exact .bind (.node (.refl _) (nonempty _ rfl) (by decide)) fun d s₂ _ => .pure (.refl _)

theorem userVariableKind_ne_xml {word kind : String} (h : userVariableKind? word = some kind) :
    kind ≠ Kind.xml := by
  unfold userVariableKind? at h
  split at h
  · cases h; decide
  · split at h
    · cases h; decide
    · split at h
      · cases h; decide
      · contradiction

theorem variableParts_lossless (className : Token) {opening closing : Draft} {inner : List Draft}
    (nonempty : inner ≠ []) (s : Stream) :
    Lossless s (tokenLeaf className :: opening :: (inner ++ [closing]))
      (variableParts className opening inner closing) fun d => [d] := by
  unfold variableParts
  split
  · rename_i kind known
    refine .nodeWithin [keywordLeaf className, opening] [closing] ?_ nonempty (by decide)
      fun d s' => .node ?_ (by simp) (userVariableKind_ne_xml known)
    · constructor <;> simp +contextual
    · constructor <;> simp +contextual
  · refine .nodeWithin [tokenLeaf className, opening] [closing] ?_ nonempty (by decide)
      fun d s' => .node ?_ (by simp) (by decide)
    · constructor <;> simp +contextual
    · constructor <;> simp +contextual

theorem pseudoContent_lossless (s : Stream) : Lossless s [] pseudoContent Outcome.held := by
  refine .next isLeaf_tokenLeaf (fun _ => .pure (.refl _))
    fun className rest s₁ _ _ => .isAdjacent (fun _ _ _ => ?_) ?_
  · refine .after (balanced_lossless _ _ s₁) fun group s₂ _ => ?_
    split
    · rename_i opening second third more _
      have last : second :: third :: more
          = (second :: third :: more).dropLast ++ [((third :: more).getLast?).getD third] := by
        rw [List.getLast?_eq_some_getLast (List.cons_ne_nil third more), Option.getD_some]
        exact (List.dropLast_concat_getLast (List.cons_ne_nil second (third :: more))).symm
      have same : Same ([] ++ [tokenLeaf className] ++ opening :: second :: third :: more)
          (tokenLeaf className :: opening :: ((second :: third :: more).dropLast
            ++ [((third :: more).getLast?).getD third])) := by
        rw [← last]
        exact .refl _
      refine .bind (.regroup same (variableParts_lossless className (by simp) s₂))
        fun parts s₃ _ => .isAdjacent (fun _ _ _ => ?_) ?_
      · refine .after (index_lossless s₃) fun index s₄ _ => ?_
        exact .bind (.node (.refl _) (by simp) (by decide)) fun d s₅ _ => .pure (.refl _)
      · exact .bind (.node (.refl _) (by simp) (by decide)) fun d s₄ _ => .pure (.refl _)
    · exact .pure (.refl _)
  · exact .bind (.node (.refl _) (by simp) (by decide)) fun d s₂ _ => .pure (.refl _)

/-- What is left of a list of nodes that were read, or were read before the reading failed. -/
def heldOf : Except (List Draft) (List Draft) → List Draft
  | .ok ds => ds
  | .error ds => ds

theorem transformationStep_rounds : Rounds (fun _ => True) transformationStep id heldOf := by
  intro children s _
  refine .peekKind (fun _ => .result (.refl _) (by simp)) fun t rest _ => ?_
  split
  · refine .after (balanced_lossless _ _ s) fun group s₁ nonempty => ?_
    cases group with
    | none => exact .result (by simpa using .refl _) (by simp)
    | some tokens =>
      refine .nodeWithin children [] (by simpa using .refl _) (nonempty _ rfl) (by decide)
        fun d s₂ => ?_
      rw [List.append_nil]
      refine .result (.refl _) fun solid a' eq => ?_
      cases eq
      exact ⟨trivial, solid.longer (by simp)⟩
  · refine .after (index_lossless s) fun n s₁ _ => ?_
    cases n with
    | none => exact .result (by simpa using .refl _) (by simp)
    | some n =>
      refine .result (.refl _) fun solid a' eq => ?_
      cases eq
      exact ⟨trivial, solid.longer (by simp)⟩
  · exact .result (.refl _) (by simp)

/-- Nothing fits between a token and the one that starts where it stops. -/
theorem Stream.Sound.adjacent {s : Stream} (hs : s.Sound) {t u : Token} {rest rest' : List Token}
    (tokens : s.tokens = t :: rest) (tokens' : (next s).2.tokens = u :: rest')
    (adjacent : u.start = t.stop) : rest = u :: rest' := by
  have split := List.takeWhile_append_dropWhile (p := Token.isTrivia) (l := rest)
  rw [next_snd tokens] at tokens'
  simp only [Stream.settle] at tokens'
  have together : rest.takeWhile Token.isTrivia = [] := by
    refine List.eq_nil_iff_forall_not_mem.2 fun v hv => ?_
    have order := hs.pairwise
    rw [tokens, ← split, tokens', List.pairwise_cons, List.pairwise_append] at order
    have before := order.1 v (by simp [hv])
    have behind := order.2.2.2 v hv u (by simp)
    have member : v ∈ s.tokens := by
      rw [tokens]
      exact List.mem_cons_of_mem _ ((List.takeWhile_prefix _).subset hv)
    have long := Token.start_lt_stop (hs.nonempty member)
    omega
  rw [← split, together, tokens', List.nil_append]

/-- A dollar sign and the parenthesis right behind it become one leaf. -/
theorem Kept.sigil {s : Stream} (given : List Draft) (hs : s.Sound) {dollar opening : Token}
    {rest rest' : List Token} (tokens : s.tokens = dollar :: rest)
    (tokens' : (Script.next s).2.tokens = opening :: rest')
    (adjacent : opening.start = dollar.stop) :
    Kept given s (given ++ [Draft.leaf "$(" false dollar.start opening.stop])
      (Script.next (Script.next s).2).2 := by
  have passes : s.Passes (Script.next s).2 := (Kept.next [] hs tokens (isLeaf_tokenLeaf _)).passes
  have dollarSign : dollar.isSignificant := hs.settled dollar (by simp [tokens])
  have parenthesis : opening.isSignificant := passes.sound.settled opening (by simp [tokens'])
  have together := hs.adjacent tokens tokens' adjacent
  have dollarSign' : dollar.isTrivia = false := by simpa [Token.isSignificant] using dollarSign
  have parenthesis' : opening.isTrivia = false := by simpa [Token.isSignificant] using parenthesis
  have waiting (ds : List Token) : (dollar :: opening :: ds).filter Token.isTrivia
      = (opening :: ds).filter Token.isTrivia := by simp [dollarSign']
  have first : (dollar :: rest.takeWhile Token.isTrivia).filter Token.isTrivia = [] := by
    simp [together, dollarSign', parenthesis']
  rw [next_snd tokens', settle_eq _ opening rest' parenthesis, next_snd tokens,
    settle_eq s dollar rest dollarSign, first, List.map_nil, List.append_nil, ← waiting]
  have split : s.tokens = (dollar :: opening :: rest'.takeWhile Token.isTrivia)
      ++ rest'.dropWhile Token.isTrivia := by
    rw [tokens, together]
    simp
  refine ⟨.pieces hs _ split (dropWhile_settled rest')
    (.sigil dollarSign parenthesis adjacent.symm (.tokens _ _ _)) (by simp) ?_ ?_ ?_, ?_⟩
  · rw [List.flatMap_cons, Piece.solids_tokens, significant_takeWhile]
    simp [Piece.solids, solids_leaf (show "$(" ≠ Kind.xml by decide)]
  · simp [extras_leaf (show "$(" ≠ Kind.xml by decide)]
  · rw [List.flatMap_cons, Piece.extras_tokens, waiting]
    simp [Piece.extras, parenthesis']
  · obtain ⟨p, q, cut, begins, ends⟩ := hs.cut_taken split
      (s.waiting ++ ((dollar :: opening :: rest'.takeWhile Token.isTrivia).filter
        Token.isTrivia).map extraLeaf)
    let sign : Token := ⟨.dollar, dollar.text ++ opening.text, dollar.start, dollar.newlineBefore⟩
    have stop : opening.stop = sign.stop := by
      rw [Token.stop, adjacent, Token.stop, Token.stop, Text.size_append, Nat.add_assoc]
    have joined := cut.join (v := sign) adjacent.symm rfl rfl
    refine .of_cut joined (Nat.le_of_eq begins.symm) ends ?_ given ?_
    · rw [waiting, List.filter_cons_of_neg (by simp [parenthesis']),
        List.filter_cons_of_neg (show ¬ sign.isTrivia from Bool.false_ne_true)]
    · rw [List.filter_cons_of_pos (show sign.isSignificant from rfl), significant_takeWhile]
      exact .cons ⟨⟨rfl, rfl, stop⟩, rfl, (by decide : "$(" ≠ Kind.xml)⟩ .nil

theorem transformations_lossless (children : List Draft) (s : Stream) :
    Lossless s children (repeatUntil transformationStep .error children) heldOf :=
  .repeatUntil transformationStep_rounds trivial s

/-- A variable in parentheses, whose sign and parenthesis are one leaf. -/
theorem pvarExpression_gives {s s₁ : Stream} {dollar opening : Token} {rest : List Token}
    (tokens : s₁.tokens = opening :: rest)
    (kept : Kept [] s [Draft.leaf "$(" false dollar.start opening.stop] (next s₁).2) :
    Gives (pvarExpression dollar) s₁ fun out s' =>
      Kept [] s out.held s' ∧ Solid out.held ∧ True := by
  refine gives_next (fun nothing => by simp [tokens] at nothing) fun opening' rest' tokens' => ?_
  obtain ⟨rfl, rfl⟩ : opening = opening' ∧ rest = rest' := by simpa [tokens] using tokens'
  rw [next_snd tokens] at kept
  refine Lossless.onward (show Lossless _ _ _ Outcome.held from ?_) kept
    (by simp [solids_leaf (show "$(" ≠ Kind.xml by decide)])
  refine .isAdjacent (fun _ _ _ => ?_) (.pure (.refl _))
  refine .after (pseudoContent_lossless _) fun out s₂ _ => ?_
  cases out with
  | error consumed => exact .pure (.refl _)
  | ok content =>
    refine .bind (transformations_lossless _ s₂) fun out s₃ _ => ?_
    cases out with
    | error consumed => exact .pure (.refl _)
    | ok children =>
      refine .isAt (fun _ _ tokens _ => ?_) (.pure (.refl _))
      refine .nextLeaf (fun nothing => by simp [tokens] at nothing) fun t rest s₄ _ => ?_
      refine .bind (.node (.refl _) (by simp) (by decide)) fun d s₅ _ => .pure (.wrap d)

theorem pseudoVariable_lossless (s : Stream) : Lossless s [] pseudoVariable Outcome.held := by
  intro hs solid
  refine gives_next (fun _ => ?_) fun dollar rest tokens => ?_
  · exact Lossless.pure (.refl _) hs solid
  refine gives_isAdjacent (fun opening rest' tokens' _ start => ?_) ?_
  · rw [← next_snd tokens] at tokens' ⊢
    exact pvarExpression_gives tokens' (by simpa using Kept.sigil [] hs tokens tokens' start)
  · have sign : IsLeaf (Draft.leaf "$" false dollar.start dollar.stop) dollar :=
      isLeaf_leaf (by decide) _ _
    have kept : Kept [] s [Draft.leaf "$" false dollar.start dollar.stop] (next s).2 :=
      .next [] hs tokens sign
    rw [next_snd tokens] at kept
    refine Lossless.onward (show Lossless _ _ _ Outcome.held from ?_) kept (by simp [sign.solids])
    refine .isAdjacent (fun _ _ _ => ?_) (.pure (.refl _))
    refine .after (pseudoContent_lossless _) fun out s₂ _ => ?_
    cases out with
    | error consumed => exact .pure (.refl _)
    | ok content =>
      refine .bind (.node (.refl _) (by simp) (by decide)) fun d s₃ _ => .pure (.wrap d)

/-- Every reader of a level accounts for what it takes. -/
structure Level.Lossless (inner : Level) : Prop where
  statement : ∀ {s : Stream} {t : Token} {rest : List Token}, s.tokens = t :: rest →
    Script.Lossless s [] inner.statement fun d => [d]
  expression : ∀ s, Script.Lossless s [] inner.expression Outcome.held
  operand : ∀ s, Script.Lossless s [] inner.operand Outcome.held

section Productions

variable {inner : Level} (h : inner.Lossless)
include h

theorem argument_lossless (children : List Draft) (s : Stream) :
    Lossless s children (argument inner children) (·.getD children) fun o =>
      ∀ children', o = some children' → ∃ more, children' = children ++ more := by
  refine .after (h.expression s) fun out s₁ _ => ?_
  cases out with
  | ok value => exact .result (.refl _) fun _ => by simp
  | error consumed =>
    refine .after (collectWhile_lossless _ s₁) fun rest s₂ _ => .glance fun following => ?_
    split
    · rename_i nothing
      have nothing : consumed ++ rest = [] := by
        simp only [Bool.and_eq_true, List.isEmpty_iff] at nothing
        exact nothing.1.1
      refine .result ?_ (by simp)
      simpa [List.append_assoc, nothing] using Same.refl children
    · refine .regroup (show Same _ (children ++ (consumed ++ rest)) by simpa using .refl _)
        (.within (.errorNodes (.refl _)) fun ds s₃ _ => ?_)
      exact .result (.refl _) fun _ => by simp

theorem argumentStep_rounds : Rounds (fun _ => True) (argumentStep inner) id Outcome.held := by
  intro children s _
  refine .bind (argument_lossless h children s) fun o s₁ further => ?_
  cases o with
  | none => exact .result (.refl _) fun _ => by simp
  | some children' =>
    obtain ⟨more, rfl⟩ := further _ rfl
    refine .peekKind (fun _ => .result (.refl _) fun _ => by simp) fun t rest tokens => ?_
    split
    · refine .nextLeaf (fun nothing => by simp [tokens] at nothing) fun t rest s₂ _ => ?_
      refine .result (.refl _) fun _ a' eq => ?_
      cases eq
      exact ⟨trivial, by simp⟩
    · refine .nextLeaf (fun nothing => by simp [tokens] at nothing) fun t rest s₂ _ => ?_
      exact .bind (.node (.refl _) (by simp) (by decide))
        fun d s₃ _ => .result (.refl _) fun _ => by simp
    · exact .result (.refl _) fun _ => by simp

theorem argumentList_lossless (s : Stream) :
    Lossless s [] (argumentList inner) Outcome.held := by
  refine .nextLeaf (fun _ => ?_) fun t rest s₁ _ => ?_
  all_goals
    refine .isAt (fun _ _ tokens _ => ?_) (.repeatUntil (argumentStep_rounds h) trivial _)
    refine .nextLeaf (fun nothing => by simp [tokens] at nothing) fun t rest s₂ _ => ?_
    exact .bind (.node (.refl _) (by simp) (by decide)) fun d s₃ _ => .pure (.refl _)

theorem call_lossless (name : Draft) (s : Stream) :
    Lossless s [name] (call inner name) Outcome.held := by
  refine .after (argumentList_lossless h s) fun out s₁ _ => ?_
  cases out with
  | error consumed => exact .pure ⟨by simp, by simp, by simp +contextual, by simp⟩
  | ok arguments =>
    refine .bind (.node ?_ (by simp) (by decide)) fun d s₂ _ => .pure (.wrap d)
    exact ⟨by simp, by simp, by simp +contextual, by simp⟩

theorem parenthesized_lossless (s : Stream) :
    Lossless s [] (parenthesized inner) Outcome.held fun out =>
      s.tokens ≠ [] → ∀ consumed, out = .error consumed → consumed ≠ [] := by
  refine .nextLeaf (fun nothing => ?_) fun t rest s₁ _ => ?_
  all_goals
    refine .after (h.expression _) fun out s₂ _ => ?_
    cases out with
    | error consumed => exact .result (.refl _) (by simp [*])
    | ok value =>
      refine .isAt (fun _ _ tokens _ => ?_) (.result (.refl _) (by simp))
      refine .nextLeaf (fun nothing => by simp [tokens] at nothing) fun t rest s₃ _ => ?_
      exact .bind (.node (.refl _) (by simp) (by decide)) fun d s₄ _ => .result (.refl _) (by simp)

theorem primary_lossless (s : Stream) : Lossless s [] (primary inner) Outcome.held := by
  refine .peek (fun _ => .pure (.refl _)) fun t rest tokens => ?_
  dsimp only
  split
  · refine .bind (parenthesized_lossless h s) fun out s₁ _ => ?_
    cases out with
    | ok group => exact .pure (.wrap _)
    | error consumed => exact .pure (.refl _)
  · exact pseudoVariable_lossless s
  · exact .take tokens (isLeaf_tokenLeaf t) fun s₁ _ => .pure (.wrap _)
  · exact .take tokens (isLeaf_tokenLeaf t) fun s₁ _ => .pure (.wrap _)
  · refine .take tokens (isLeaf_tokenLeaf t) fun s₁ _ => ?_
    exact .isAt (fun _ _ _ _ => call_lossless h _ s₁) (.pure (.wrap _))
  · exact .pure (.refl _)

theorem unary_lossless (s : Stream) : Lossless s [] (unary inner) Outcome.held := by
  refine .peek (fun _ => .pure (.refl _)) fun t rest tokens => .peekSecondKind fun following => ?_
  split
  · have leaf : IsLeaf (if t.kind == .identifier then keywordLeaf t else tokenLeaf t) t := by
      split
      · exact isLeaf_keywordLeaf t
      · exact isLeaf_tokenLeaf t
    refine .take tokens leaf fun s₁ _ => .after (h.operand s₁) fun out s₂ _ => ?_
    cases out with
    | ok value =>
      refine .bind (.node ?_ (by simp) (by decide)) fun d s₃ _ => .pure (.wrap d)
      exact ⟨by simp, by simp, by simp +contextual, by simp⟩
    | error consumed => exact .pure (.refl _)
  · exact primary_lossless h s

omit h in
theorem chainStep_rounds {operand : Reader Outcome}
    (h : ∀ s, Lossless s [] operand Outcome.held) (precedence : Nat) :
    Rounds (fun _ => True) (chainStep operand precedence) (fun d => [d]) Outcome.held := by
  intro left s _
  refine .peek (fun _ => .result (.refl _) fun _ => by simp) fun t rest tokens => ?_
  dsimp only
  split
  · exact .result (.refl _) fun _ => by simp
  · refine .take tokens (isLeaf_tokenLeaf t) fun s₁ _ => ?_
    refine .after (h s₁) fun out s₂ _ => ?_
    cases out with
    | ok right =>
      refine .bind (.nodeOver ?_ (by simp) (by decide))
        fun d s₃ solids => .result (.wrap d) fun _ a' eq => ?_
      · exact ⟨by simp, by simp, by simp +contextual, by simp⟩
      · cases eq
        exact ⟨trivial, by simp [solids]⟩
    | error consumed => exact .result (.refl _) fun _ => by simp

omit h in
theorem chain_lossless {operand : Reader Outcome} (h : ∀ s, Lossless s [] operand Outcome.held)
    (levels : Nat) (s : Stream) : Lossless s [] (chain operand levels) Outcome.held := by
  induction levels generalizing s with
  | zero => exact h s
  | succ levels ih =>
    refine .bind (ih s) fun out s₁ _ => ?_
    cases out with
    | error consumed => exact .pure (.refl _)
    | ok left => exact .repeatUntil (chainStep_rounds ih _) trivial s₁

theorem binary_lossless (s : Stream) : Lossless s [] (binary inner) Outcome.held :=
  chain_lossless (unary_lossless h) _ s

theorem assignment_lossless (s : Stream) : Lossless s [] (assignment inner) Outcome.held := by
  refine .bind (binary_lossless h s) fun out s₁ _ => ?_
  cases out with
  | error consumed => exact .pure (.refl _)
  | ok left =>
    refine .isAt (fun _ _ tokens _ => ?_) (.pure (.refl _))
    refine .nextLeaf (fun nothing => by simp [tokens] at nothing) fun t rest s₂ _ => ?_
    refine .after (h.expression s₂) fun out s₃ _ => ?_
    cases out with
    | ok right =>
      refine .bind (.node ?_ (by simp) (by decide))
        fun d s₄ _ => .pure (.wrap d)
      exact ⟨by simp, by simp, by simp +contextual, by simp⟩
    | error consumed =>
      refine .within (.errorNodes (.refl _)) fun right s₄ _ => ?_
      refine .bind (.node ?_ (by simp) (by decide))
        fun d s₅ _ => .pure (.wrap d)
      exact ⟨by simp, by simp, by simp +contextual, by simp⟩

end Productions

end RouteScript.Script
