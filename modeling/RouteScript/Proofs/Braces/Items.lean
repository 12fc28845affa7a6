import RouteScript.Proofs.Braces.Statement
import RouteScript.Proofs.Lossless.Items
/-!
# Items check

No item at the top of a script leaves a brace outside its blocks and error nodes, and neither do all
items together.
-/
namespace RouteScript.Script

open Draft

variable {source : List Char} {s : Stream}

/-- The kind of the token behind the next one. -/
abbrev Stream.second? (s : Stream) : Option Token.Kind :=
  (s.tokens.tail.find? Token.isSignificant).map Token.kind

theorem Stream.isPlain_next {t : Token} {rest : List Token} (tokens : s.tokens = t :: rest)
    {kind : Token.Kind} (second : s.second? = some kind)
    (noBrace : kind ≠ .lBrace ∧ kind ≠ .rBrace) : (next s).2.IsPlain := by
  intro t' rest' tokens'
  have behind : rest.find? Token.isSignificant = some t' := by
    have trivia : (fun t : Token => !t.isSignificant) = Token.isTrivia := by
      funext t
      simp [Token.isSignificant]
    have tokens' : rest.dropWhile Token.isTrivia = t' :: rest' := by
      rwa [next_snd tokens] at tokens'
    rw [List.find?_eq_head?_dropWhile_not, trivia, tokens', List.head?_cons]
  rw [Stream.second?, tokens, List.tail_cons, behind] at second
  obtain rfl : t'.kind = kind := Option.some.inj second
  exact noBrace

theorem topLevel_checks (source : List Char) : topLevel.Checks source := level_checks source _

section Word

variable {t : Token} {rest : List Token} (tokens : s.tokens = t :: rest) (word : t.kind = .identifier)
include tokens word

theorem stringItem_checks {kind : String} (noBlock : kind ∉ blockKinds) (field : String) :
    Checks source s (stringItem kind field) (Checked source) := by
  refine .bind (.nextKeyword (Stream.isPlain_of_kind tokens word (by decide)))
    fun word s₁ first => ?_
  refine .peek (.errorNode word) fun t rest tokens => ?_
  dsimp only
  split
  · rename_i quoted
    have quoted : t.kind = .string := by
      simp only [Bool.and_eq_true, beq_iff_eq] at quoted
      exact quoted.1
    refine .bind (.nextLeaf (Stream.isPlain_of_kind tokens quoted (by decide)))
      fun value s₂ checked => ?_
    refine .bind (.optionalLeaf (by decide)) fun semicolon s₃ last => .node noBlock ?_
    simpa using ⟨first, checked.withField field, last⟩
  · exact .bind (skipStatementRest_any s₁) fun rest s₂ _ => .errorNode _

theorem modParam_checks (second : s.second? = some .lParen) :
    Checks source s modParam (Checked source) := by
  refine .takeAs tokens fun s₁ there stands => ?_
  have plain : s₁.IsPlain := there ▸ Stream.isPlain_next tokens second (by decide)
  have first := checked_keywordLeaf stands (by simp [Token.IsPlain, word])
  refine .bind (argumentList_checks (topLevel_checks source) plain) fun out s₂ checked => ?_
  cases out with
  | ok arguments =>
    refine .bind (.optionalLeaf (by decide)) fun semicolon s₃ last => .node (by decide) ?_
    simpa using ⟨first, (checked arguments rfl).withField _, last⟩
  | error consumed => exact .bind (skipStatementRest_any s₂) fun rest s₃ _ => .errorNode _

end Word

/-- A node over what was collected, if anything was. -/
theorem checks_labelled {α : Type} {kind field : String} {words : List Draft} {p : Draft → Prop}
    (h : ∀ s, Checks source s (node kind words) p) (keeps : ∀ d, p d → p (d.withField field))
    {k : List Draft → Reader α} {good : α → Prop}
    (hk : ∀ ds s', (∀ d ∈ ds, p d) → Checks source s' (k ds) good) (s : Stream) :
    Checks source s (do
      let ds ← if words.isEmpty then pure [] else pure [(← node kind words).withField field]
      k ds) good := by
  dsimp only
  split
  · exact hk [] s (by simp)
  · exact .bind (h s) fun d s₁ kept => hk _ s₁ (by simpa using keeps d kept)

theorem routeName_checks (plain : s.IsPlain) :
    Checks source s routeName fun r => AllChecked source r.1 := by
  have inside (t : Token) (more : !endsRouteName t) : t.IsPlain := by
    constructor <;> intro brace <;> simp [endsRouteName, brace] at more
  refine .bind (.nextLeaf plain) fun opening s₁ first => ?_
  refine .bind (.collectWhile inside) fun words s₂ checked => ?_
  refine checks_labelled (fun _ => .node (by decide) checked) (fun _ kept => kept.withField _)
    (fun name s₃ named => ?_) s₂
  refine .isAt (fun t rest tokens closing => ?_) (.pure (by simpa using ⟨first, named⟩))
  refine .bind (.nextLeaf (Stream.isPlain_of_kind tokens closing (by decide)))
    fun closing s₄ last => .pure ?_
  simpa using ⟨first, named, last⟩

theorem routeBody_checks {children : List Draft} (given : AllChecked source children)
    (s : Stream) : Checks source s (routeBody children) (Checked source) := by
  refine .isAt (fun t rest tokens opens => ?_) ?_
  · refine .bind (compound_checks topLevel_lossless (topLevel_checks source) tokens opens)
      fun block s₁ checked => .node (by decide) ?_
    simpa using ⟨given, checked.withField _⟩
  · exact .bind (skipStatementRest_any s) fun rest s₁ _ => .errorNode _

theorem routeDefinition_checks {t : Token} {rest : List Token} (tokens : s.tokens = t :: rest)
    (word : t.kind = .identifier) : Checks source s routeDefinition (Checked source) := by
  refine .take tokens fun s₁ _ there => ?_
  have leaf : (Draft.leaf Kind.routeType true t.start t.stop).Checked source :=
    .leaf there (by simp [Token.IsPlain, word]) (by decide : Kind.routeType ∉ blockKinds) rfl rfl
  have type : AllChecked source
      [(Draft.leaf Kind.routeType true t.start t.stop).withField Field.routeType] := by
    simpa using leaf.withField _
  refine .isAt (fun u behind tokens opening => ?_) (routeBody_checks type s₁)
  refine .bind (routeName_checks (Stream.isPlain_of_kind tokens opening (by decide)))
    fun result s₂ named => ?_
  obtain ⟨name, closed⟩ := result
  dsimp only
  split
  · exact routeBody_checks (by simpa using ⟨by simpa using type, named⟩) s₂
  · exact .bind (skipStatementRest_any s₂) fun rest s₃ _ => .errorNode _

theorem globalAssignment_checks {t : Token} {rest : List Token} (tokens : s.tokens = t :: rest)
    (word : t.kind = .identifier) (second : s.second? = some .assign) :
    Checks source s globalAssignment (Checked source) := by
  have inside (t : Token) (more : !endsValue t) : t.IsPlain := by
    constructor <;> intro brace <;> simp [endsValue, brace] at more
  refine .takeAs tokens fun s₁ there stands => ?_
  have plain : s₁.IsPlain := there ▸ Stream.isPlain_next tokens second (by decide)
  have key := (checked_tokenLeaf stands (by simp [Token.IsPlain, word])).withField Field.key
  refine .bind (.nextLeaf plain) fun sign s₂ signed => ?_
  refine .bind (.collectWhile inside) fun words s₃ checked => ?_
  refine checks_labelled (fun _ => .node (by decide) checked) (fun _ kept => kept.withField _)
    (fun value s₄ valued => ?_) s₃
  have given : AllChecked source
      (([tokenLeaf t].map (Draft.withField Field.key)) ++ sign ++ value) := by
    simpa using ⟨key, signed, valued⟩
  refine .peek (.node (by decide) given) fun u behind tokens => ?_
  dsimp only
  split
  · rename_i ended
    have semicolon : u.kind = .semicolon := by
      simp only [Bool.and_eq_true, beq_iff_eq] at ended
      exact ended.1
    refine .bind (.nextLeaf (Stream.isPlain_of_kind tokens semicolon (by decide)))
      fun semicolon s₅ last => .node (by decide) ?_
    exact (allChecked_append _ _).2 ⟨given, last⟩
  · exact .node (by decide) given

theorem wordItem_checks {t : Token} {rest : List Token} (tokens : s.tokens = t :: rest)
    (word : t.kind = .identifier) :
    Checks source s (wordItem t.word s.second?) (Checked source) := by
  unfold wordItem
  repeat' split
  · exact stringItem_checks tokens word (by decide) _
  · exact stringItem_checks tokens word (by decide) _
  · exact stringItem_checks tokens word (by decide) _
  · rename_i param
    have second : s.second? = some .lParen := by
      simp only [Bool.and_eq_true, beq_iff_eq] at param
      exact param.2
    exact modParam_checks tokens word second
  · exact routeDefinition_checks tokens word
  · rename_i assigned
    exact globalAssignment_checks tokens word (eq_of_beq assigned)
  · exact (topLevel_checks source).statement s

theorem topLevelItem_checks {t : Token} {rest : List Token} (tokens : s.tokens = t :: rest) :
    Checks source s (topLevelItem t) (Checked source) := by
  unfold topLevelItem
  split
  · rename_i word
    exact .peekSecondKind (wordItem_checks tokens word)
  · rename_i opens
    exact markup_checks tokens opens
  · exact .bind .nextAny fun brace s₁ _ => .errorNode brace
  · exact (topLevel_checks source).statement s

theorem itemStep_checks (children : List Draft) (s : Stream) (given : AllChecked source children) :
    Checks source s (itemStep children) (Sum.elim (AllChecked source) (AllChecked source)) := by
  refine .peek (.flush fun comments s₁ there => .pure ?_) fun t rest tokens => ?_
  · simpa using ⟨given, there.checked⟩
  · refine .bind (topLevelItem_checks tokens) fun item s₁ checked =>
      .place fun comments s₂ there => .pure ?_
    simpa using ⟨given, there.checked, checked⟩

/-- All items of a text are checked. -/
theorem items_checks (text : List Char) : AllChecked text (items (.ofText text)).1 := by
  have sound : (Stream.ofText text).Sound := (whole_ofText text).settle.sound
  have checks : Checks text (.ofText text) items (AllChecked text) :=
    .repeatUntil itemStep_checks (fun _ given => given) (by simp)
  exact (checks sound rfl).2

end RouteScript.Script
