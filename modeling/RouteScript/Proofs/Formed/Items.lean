import RouteScript.Proofs.Formed.Statement
import RouteScript.Proofs.Lossless.Items
import RouteScript.Proofs.Extras.Draft
/-!
# Scripts are well formed

All items of a script are formed, and so the first node of every block in its tree is a brace or an
error node, and every name of a variable consists of the leaves of successive tokens.
-/
namespace RouteScript

namespace Script

open Draft

variable {source : List Char}

theorem topLevel_formed : topLevel.Formed source := level_formed _

theorem stringItem_builds {kind : String} (plain : kind ∉ shapedKinds) (field : String) :
    Builds source (stringItem kind field) (Draft.Formed source) := by
  refine .bind .nextKeyword fun word first => .peek fun t => ?_
  cases t with
  | none => exact .errorNode first
  | some t =>
    dsimp only
    split
    · refine .bind .nextLeaf fun value formed => .bind (.optionalLeaf _) fun semicolon last => ?_
      exact .node plain (by simpa using ⟨first, formed.withField field, last⟩)
    · exact .bind skipStatementRest_builds fun rest more =>
        .errorNode ((allFormed_append _ _).2 ⟨first, more⟩)

theorem modParam_builds : Builds source modParam (Draft.Formed source) := by
  refine .bind .nextKeyword fun word first => ?_
  refine .bind (argumentList_builds topLevel_formed) fun out formed => ?_
  cases out with
  | ok arguments =>
    have formed : arguments.Formed source := by simpa using formed
    refine .bind (.optionalLeaf _) fun semicolon last => .node (by decide) ?_
    simpa using ⟨first, formed_withField formed _, last⟩
  | error consumed =>
    have formed : AllFormed source consumed := formed
    exact .bind skipStatementRest_builds fun rest more =>
      .errorNode (by simpa using ⟨first, formed, more⟩)

/-- A node over what was collected, if anything was. -/
theorem labelled_builds {α : Type} {kind field : String} (plain : kind ∉ shapedKinds)
    {words : List Draft} (given : AllFormed source words) {k : List Draft → Reader α}
    {good : α → Prop} (hk : ∀ ds, AllFormed source ds → Builds source (k ds) good) :
    Builds source (do
      let ds ← if words.isEmpty then pure [] else pure [(← node kind words).withField field]
      k ds) good := by
  dsimp only
  split
  · exact hk [] allFormed_nil
  · exact .bind (.node plain given) fun d formed =>
      hk _ (by simpa using formed_withField formed field)

theorem routeName_builds : Builds source routeName fun r => AllFormed source r.1 := by
  refine .bind .nextLeaf fun opening first => .bind (.collectWhile _) fun words formed => ?_
  refine labelled_builds (by decide) formed fun name named => .isAt fun closes => ?_
  cases closes with
  | true => exact .bind .nextLeaf fun closing last => .pure (by simpa using ⟨first, named, last⟩)
  | false => exact .pure (by simpa using ⟨first, named⟩)

theorem routeBody_builds {children : List Draft} (given : AllFormed source children) :
    Builds source (routeBody children) (Draft.Formed source) := by
  refine .isAt fun opens => ?_
  cases opens with
  | true =>
    refine .bind (compound_builds topLevel_formed) fun block formed => .node (by decide) ?_
    simpa using ⟨given, formed_withField formed _⟩
  | false =>
    exact .bind skipStatementRest_builds fun rest more =>
      .errorNode ((allFormed_append _ _).2 ⟨given, more⟩)

theorem routeDefinition_builds : Builds source routeDefinition (Draft.Formed source) := by
  refine .next fun t => ?_
  have type : AllFormed source (t.toList.map fun t =>
      (Draft.leaf Kind.routeType true t.start t.stop).withField Field.routeType) :=
    List.forall_mem_map.2 fun t _ => formed_withField (formed_leaf _ _ _ _) _
  refine .isAt fun named => ?_
  cases named with
  | false => exact routeBody_builds type
  | true =>
    refine .bind routeName_builds fun result formed => ?_
    obtain ⟨name, closed⟩ := result
    have head : AllFormed source (_ ++ name) := (allFormed_append _ _).2 ⟨type, formed⟩
    dsimp only
    split
    · exact routeBody_builds head
    · exact .bind skipStatementRest_builds fun rest more =>
        .errorNode ((allFormed_append _ _).2 ⟨head, more⟩)

theorem globalAssignment_builds : Builds source globalAssignment (Draft.Formed source) := by
  refine .bind .nextLeaf fun key first => .bind .nextLeaf fun sign signed => ?_
  refine .bind (.collectWhile _) fun words formed => ?_
  refine labelled_builds (by decide) formed fun value valued => .peek fun t => ?_
  have given : AllFormed source (key.map (Draft.withField Field.key) ++ sign ++ value) := by
    simpa using ⟨first.withField _, signed, valued⟩
  cases t with
  | none => exact .node (by decide) given
  | some t =>
    dsimp only
    split
    · exact .bind .nextLeaf fun semicolon last =>
        .node (by decide) ((allFormed_append _ _).2 ⟨given, last⟩)
    · exact .node (by decide) given

theorem wordItem_builds (word : String) (following : Option Token.Kind) :
    Builds source (wordItem word following) (Draft.Formed source) := by
  unfold wordItem
  repeat' split
  · exact stringItem_builds (by decide) _
  · exact stringItem_builds (by decide) _
  · exact stringItem_builds (by decide) _
  · exact modParam_builds
  · exact routeDefinition_builds
  · exact globalAssignment_builds
  · exact topLevel_formed.statement

theorem topLevelItem_formed {s : Stream} {t : Token} {rest : List Token}
    (tokens : s.tokens = t :: rest) : Checks source s (topLevelItem t) (Draft.Formed source) := by
  unfold topLevelItem
  split
  · exact .peekSecondKind (wordItem_builds _ _ s)
  · rename_i opens
    exact markup_formed tokens opens
  · exact Builds.bind .nextLeaf (fun brace formed => .errorNode formed) s
  · exact topLevel_formed.statement s

theorem itemStep_builds (children : List Draft) (given : AllFormed source children) :
    Builds source (itemStep children) (Sum.elim (AllFormed source) (AllFormed source)) := by
  intro s
  refine .peek (.flush fun comments s₁ there => .pure ?_) fun t rest tokens => ?_
  · simpa using ⟨given, Builds.formed_comments there⟩
  · refine .bind (topLevelItem_formed tokens) fun item s₁ formed =>
      .place fun comments s₂ there => .pure ?_
    simpa using ⟨given, Builds.formed_comments there, formed⟩

/-- Every node of a text is well formed. -/
theorem draft_formed (text : List Char) : (draft text).Formed text := by
  have made : Builds text items (AllFormed text) :=
    .repeatUntil itemStep_builds (fun _ given => given) allFormed_nil
  have sound : (Stream.ofText text).Sound := (whole_ofText text).settle.sound
  exact formed_of_plain (by decide : Kind.sourceFile ∉ shapedKinds) (made _ sound rfl).2

end Script

namespace Tree

/-- The first significant node of a block is its brace or an error. -/
theorem opening_ofScript {text : List Char} {block opening : Cursor}
    (hblock : block ∈ (ofScript text).cursors) (compound : block.kind = Kind.compoundStatement)
    (first : block.significantChildren.head? = some opening) :
    opening.kind ∈ [Kind.blockStart, Kind.error] := by
  have shaped : Draft.WellFormed text block.node.thaw :=
    Script.draft_formed text _ (Draft.thaw_mem_nodes hblock)
  cases children : block.children with
  | nil => simp [Cursor.significantChildren, children] at first
  | cons c more =>
    have head : block.node.thaw.children.head? = some c.node.thaw := by
      rw [Node.children_thaw, ← Cursor.map_node_children, children]
      rfl
    obtain ⟨named, notExtra, brace⟩ := shaped.block (by rwa [Node.label_thaw]) _ head
    rw [Node.label_thaw] at named notExtra brace
    have significant : c.isSignificant := by
      simp [Cursor.isSignificant, Node.isNamed, Node.isExtra, named, notExtra]
    obtain rfl : c = opening := by
      simpa [Cursor.significantChildren, children, significant] using first
    exact brace

end Tree

end RouteScript
