import RouteScript.Proofs.Lossless.Statement
import RouteScript.Script.Items
/-!
# Items are lossless

Every item at the top of a script accounts for what it takes, and so do all items together.
-/
namespace RouteScript.Script

open Draft

theorem topLevel_lossless : topLevel.Lossless := level_lossless maxNesting

theorem stringItem_lossless {kind : String} (h : kind ≠ Kind.xml) (field : String) {s : Stream}
    {t : Token} {rest : List Token} (tokens : s.tokens = t :: rest) :
    Lossless s [] (stringItem kind field) fun d => [d] := by
  refine .nextKeyword (fun nothing => by simp [tokens] at nothing) fun word _ s₁ _ => ?_
  refine .peek (fun _ => .errorNode (.refl _) (by simp)) fun t rest tokens => ?_
  dsimp only
  split
  · refine .nextLeaf (fun nothing => by simp [tokens] at nothing) fun value _ s₂ _ => ?_
    refine .after (optionalLeaf_lossless _ s₂) fun semicolon s₃ _ => .node ?_ (by simp) h
    exact ⟨by simp, by simp, by simp +contextual, by simp⟩
  · exact .after (skipStatementRest_lossless s₁) fun rest s₂ _ => .errorNode (.refl _) (by simp)

theorem modParam_lossless {s : Stream} {t : Token} {rest : List Token}
    (tokens : s.tokens = t :: rest) : Lossless s [] modParam fun d => [d] := by
  refine .nextKeyword (fun nothing => by simp [tokens] at nothing) fun word _ s₁ _ => ?_
  refine .after (argumentList_lossless topLevel_lossless s₁) fun out s₂ _ => ?_
  cases out with
  | ok arguments =>
    refine .after (optionalLeaf_lossless _ s₂) fun semicolon s₃ _ => .node ?_ (by simp) (by decide)
    exact ⟨by simp, by simp, by simp +contextual, by simp⟩
  | error consumed =>
    exact .after (skipStatementRest_lossless s₂) fun rest s₃ _ => .errorNode (.refl _) (by simp)

/-- A node over what was collected, if anything was. -/
theorem labelled_lossless {α : Type} {kind field : String} (h : kind ≠ Kind.xml)
    {before words : List Draft} {k : List Draft → Reader α} {held : α → List Draft}
    (hk : ∀ ds s', Lossless s' (before ++ ds) (k ds) held) (s : Stream) :
    Lossless s (before ++ words) (do
      let ds ← if words.isEmpty then pure [] else pure [(← node kind words).withField field]
      k ds) held := by
  dsimp only
  split
  · rename_i nothing
    rw [List.isEmpty_iff.1 nothing]
    exact hk [] s
  · rename_i something
    refine .within (.node (.refl _) (by simpa using something) h) fun d s₁ _ => ?_
    refine .regroup ?_ (hk [d.withField field] s₁)
    exact ⟨by simp, by simp, by simp +contextual, by simp⟩

theorem routeName_lossless (s : Stream) : Lossless s [] routeName Prod.fst := by
  refine .nextLeaf (fun _ => ?_) fun opening _ s₁ _ => ?_
  all_goals
    refine .after (collectWhile_lossless _ _) fun words s₂ _ => ?_
    refine labelled_lossless (by decide) (fun name s₃ => ?_) s₂
    refine .isAt (fun _ _ tokens _ => ?_) (.pure (.refl _))
    refine .nextLeaf (fun nothing => by simp [tokens] at nothing) fun closing _ s₄ _ => ?_
    exact .pure (.refl _)

theorem routeBody_lossless {children : List Draft} (nonempty : children ≠ []) (s : Stream) :
    Lossless s children (routeBody children) fun d => [d] := by
  refine .isAt (fun t rest tokens _ => ?_) ?_
  · refine .after (compound_lossless topLevel_lossless tokens)
      fun block s₁ _ => .node ?_ (by simp) (by decide)
    exact ⟨by simp, by simp, by simp +contextual, by simp⟩
  · exact .after (skipStatementRest_lossless s) fun rest s₁ _ =>
      .errorNode (.refl _) (by simp [nonempty])

theorem routeDefinition_lossless {s : Stream} {t : Token} {rest : List Token}
    (tokens : s.tokens = t :: rest) : Lossless s [] routeDefinition fun d => [d] := by
  have type : IsLeaf ((leaf Kind.routeType true t.start t.stop).withField Field.routeType) t :=
    (isLeaf_leaf (by decide) _ _).withField _
  refine .take tokens type fun s₁ _ => ?_
  refine .isAt (fun _ _ _ _ => ?_) (routeBody_lossless (by simp) s₁)
  refine .after (routeName_lossless s₁) fun ⟨name, closed⟩ s₂ _ => ?_
  dsimp only
  split
  · exact routeBody_lossless (by simp) s₂
  · exact .after (skipStatementRest_lossless s₂) fun rest s₃ _ => .errorNode (.refl _) (by simp)

theorem globalAssignment_lossless {s : Stream} {t : Token} {rest : List Token}
    (tokens : s.tokens = t :: rest) : Lossless s [] globalAssignment fun d => [d] := by
  refine .nextLeaf (fun nothing => by simp [tokens] at nothing) fun key _ s₁ _ => ?_
  refine .nextLeaf (fun _ => ?_) fun sign _ s₂ _ => ?_
  all_goals
    refine .after (collectWhile_lossless _ _) fun words s₃ _ => ?_
    refine labelled_lossless (by decide) (fun value s₄ => ?_) s₃
    refine .peek (fun _ => ?_) fun t rest tokens => ?_
    · exact .node ⟨by simp, by simp, by simp +contextual, by simp⟩ (by simp) (by decide)
    dsimp only
    split
    · refine .nextLeaf (fun nothing => by simp [tokens] at nothing) fun semicolon _ s₅ _ => ?_
      exact .node ⟨by simp, by simp, by simp +contextual, by simp⟩ (by simp) (by decide)
    · exact .node ⟨by simp, by simp, by simp +contextual, by simp⟩ (by simp) (by decide)

theorem wordItem_lossless (word : String) (following : Option Token.Kind) {s : Stream} {t : Token}
    {rest : List Token} (tokens : s.tokens = t :: rest) :
    Lossless s [] (wordItem word following) fun d => [d] := by
  unfold wordItem
  repeat' split
  · exact stringItem_lossless (by decide) _ tokens
  · exact stringItem_lossless (by decide) _ tokens
  · exact stringItem_lossless (by decide) _ tokens
  · exact modParam_lossless tokens
  · exact routeDefinition_lossless tokens
  · exact globalAssignment_lossless tokens
  · exact topLevel_lossless.statement tokens

theorem topLevelItem_lossless {s : Stream} {t : Token} {rest : List Token}
    (tokens : s.tokens = t :: rest) : Lossless s [] (topLevelItem t) fun d => [d] := by
  unfold topLevelItem
  split
  · exact .peekSecondKind fun following => wordItem_lossless _ following tokens
  · rename_i opens
    exact (markup_lossless tokens opens).mono fun _ _ => trivial
  · refine .nextLeaf (fun nothing => by simp [tokens] at nothing) fun brace _ s₁ _ => ?_
    exact .errorNode (.refl _) (by simp)
  · exact topLevel_lossless.statement tokens

theorem itemStep_conserves {s : Stream} (hs : s.Sound) (children : List Draft) :
    Gives (itemStep children) s fun result s' =>
      Conserves children s (Sum.elim id id result) s' ∧
        (∀ children', result = .inl children' → s.position < s'.position) ∧
        ∀ children', result = .inr children' → s'.tokens = [] ∧ s'.waiting = [] := by
  refine gives_peek (fun nothing => ?_) fun t rest tokens => ?_
  · exact gives_flush (.pure ⟨.flush hs _, by simp, by simp [nothing]⟩)
  · refine .bind (topLevelItem_lossless tokens hs solid_nil) fun item s₁
      ⟨⟨conserves, _⟩, solid, _⟩ => ?_
    have further := conserves.further (List.length_pos_iff.2 (solid.solidsOf_ne_nil (by simp)))
    have framed : Conserves children s (children ++ [item]) s₁ := by
      simpa using conserves.frame children
    have placed := Conserves.place framed.passes.sound children item
    exact gives_place (.pure ⟨framed.trans placed,
      fun _ _ => Nat.lt_of_lt_of_le further placed.passes.position, by simp⟩)

theorem itemStep_advancing : Advancing (fun _ => True) itemStep := fun children _ _ hs =>
  (itemStep_conserves hs children).mono fun _ _ ⟨conserves, onward, _⟩ =>
    ⟨conserves.passes, fun children' eq => ⟨trivial, onward children' eq⟩⟩

/-- Reading all items takes all tokens, and nothing waits any more. -/
theorem items_conserves {s : Stream} (hs : s.Sound) :
    Gives items s fun children s' =>
      Conserves [] s children s' ∧ s'.tokens = [] ∧ s'.waiting = [] :=
  gives_repeatUntil itemStep_advancing (Conserves [] s)
    (fun _ _ _ hs' kept => (itemStep_conserves hs' _).mono fun result _ ⟨conserves, _, done⟩ => by
      cases result with
      | inl _ => exact kept.trans conserves
      | inr children => exact ⟨kept.trans conserves, done children rfl⟩)
    trivial hs (.of_same hs rfl rfl)

theorem all_cut (text : List Char) :
    Cut Token.Scan.isGap ⟨0, text⟩ (Token.all text) ⟨Text.size text, []⟩ := by
  have cut := Token.allFrom_cut 0 true text
  rwa [Nat.zero_add] at cut

theorem whole_ofText (text : List Char) :
    (Stream.mk text (Text.size text) [] (Token.all text)).Whole :=
  ⟨rfl, ⟨_, Spot.in_start text, all_cut text⟩, by simp, by simp,
    Token.allFrom_scanned (Spot.in_start text) true⟩

end RouteScript.Script
