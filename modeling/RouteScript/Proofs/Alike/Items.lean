import RouteScript.Proofs.Alike.Statement
import RouteScript.Proofs.Lossless.Items
/-!
# Scripts that look the same

Two scripts whose significant tokens look the same have trees of the same outline, as long as there
is no markup in them: comments and spaces have no influence.
-/
namespace RouteScript

open Draft

namespace Script

variable {α : Type} {view : View} {p q : Option Nat} {s t : Stream}

theorem stringItem_alike (kind field : String) :
    Alike view p q s t (stringItem kind field) (stringItem kind field) (Single view) := by
  refine .bind nextKeyword_alike fun word word' first => ?_
  refine .peek (errorNode_alike first) fun u v same => ?_
  dsimp only
  rw [same.kind, same.newlineBefore]
  split
  · refine .bind nextLeaf_alike fun value value' second => ?_
    refine .bind (optionalLeaf_alike _) fun semicolon semicolon' last => ?_
    exact node_alike ((first.append (second.map_withField field)).append last) _
  · exact .bind skipStatementRest_alike fun rest rest' more => errorNode_alike (first.append more)

theorem modParam_alike : Alike view p q s t modParam modParam (Single view) := by
  refine .bind nextKeyword_alike fun word word' first => ?_
  refine .bind (argumentList_alike topLevel_lossless (level_alike view maxNesting))
    fun out out' ends => ?_
  cases ends with
  | ok arguments =>
    refine .bind (optionalLeaf_alike _) fun semicolon semicolon' last => ?_
    exact node_alike ((first.append (arguments.withField Field.arguments)).append last) _
  | error consumed =>
    refine .bind skipStatementRest_alike fun rest rest' more => ?_
    exact errorNode_alike ((first.append consumed).append more)

theorem labelled_alike {kind field : String} {ds es : List Draft} (words : Twin view ds es)
    {k l : List Draft → Reader α} {rel : α → α → Prop}
    (h : ∀ {p q s t} ds es, Twin view ds es → Alike view p q s t (k ds) (l es) rel) :
    Alike view p q s t
      (do
        let ds ← if ds.isEmpty then pure [] else pure [(← node kind ds).withField field]
        k ds)
      (do
        let es ← if es.isEmpty then pure [] else pure [(← node kind es).withField field]
        l es) rel := by
  dsimp only
  rw [words.isEmpty_eq]
  split
  · exact h [] [] .nil
  · exact .bind (node_alike words kind) fun d e twin => h _ _ (twin.withField field)

theorem globalAssignment_alike :
    Alike view p q s t globalAssignment globalAssignment (Single view) := by
  refine .bind nextLeaf_alike fun key key' first => ?_
  refine .bind nextLeaf_alike fun sign sign' second => ?_
  refine .bind (collectWhile_alike fun _ _ _ same => ?_) fun words words' third => ?_
  · unfold endsValue
    rw [same.kind, same.newlineBefore]
  refine labelled_alike third fun value value' fourth => ?_
  have children := ((first.map_withField Field.key).append second).append fourth
  refine .peek (node_alike children _) fun u v same => ?_
  dsimp only
  rw [same.kind, same.newlineBefore]
  split
  · exact .bind nextLeaf_alike fun semicolon semicolon' last => node_alike (children.append last) _
  · exact node_alike children _

theorem routeName_alike :
    Alike view p q s t routeName routeName fun c d => Twin view c.1 d.1 ∧ c.2 = d.2 := by
  refine .bind nextLeaf_alike fun opening opening' first => ?_
  refine .bind (collectWhile_alike fun _ _ _ same => ?_) fun words words' second => ?_
  · unfold endsRouteName
    rw [same.kind]
  refine labelled_alike second fun name name' third => .isAt fun closes => ?_
  split
  · exact .bind nextLeaf_alike fun closing closing' last =>
      .pure ⟨(first.append third).append last, rfl⟩
  · exact .pure ⟨first.append third, rfl⟩

theorem routeBody_alike {ds es : List Draft} (twin : Twin view ds es) :
    Alike view p q s t (routeBody ds) (routeBody es) (Single view) HoldsMarkup := by
  refine .isAt fun opens => ?_
  split
  · refine .bindOr (compound_alike topLevel_lossless (level_alike view maxNesting))
      (fun block s holds => ?_) fun block block' body => ?_
    · exact HoldMarkup.node ⟨_, by simp, holds.withField Field.body⟩ _ _
    · exact node_alike_or (twin.append (body.withField Field.body)) _
  · refine .bind skipStatementRest_alike fun rest rest' more => ?_
    exact (errorNode_alike (twin.append more)).mono fun _ _ => id

theorem routeDefinition_alike :
    Alike view p q s t routeDefinition routeDefinition (Single view) HoldsMarkup := by
  refine .next ?_ fun u v same => ?_
  case' refine_1 => have type : Twin view [] [] := .nil
  case' refine_2 =>
    have type := (Twin.leaf same (show Kind.routeType ≠ Kind.xml by decide) true).withField
      Field.routeType
  all_goals
    refine .isAt fun named => ?_
    split
    · refine .bind routeName_alike fun ⟨name, closed⟩ ⟨name', closed'⟩ ⟨both, same⟩ => ?_
      dsimp only at both same ⊢
      rw [same]
      split
      · exact routeBody_alike (type.append both)
      · refine .bind skipStatementRest_alike fun rest rest' more => ?_
        exact (errorNode_alike ((type.append both).append more)).mono fun _ _ => id
    · exact routeBody_alike type

theorem wordItem_alike (word : String) (following : Option Token.Kind) :
    Alike view p q s t (wordItem word following) (wordItem word following) (Single view)
      HoldsMarkup := by
  have plain {r : Reader Draft} (h : Alike view p q s t r r (Single view)) :
      Alike view p q s t r r (Single view) HoldsMarkup := h.mono fun _ _ => id
  unfold wordItem
  repeat' split
  · exact plain (stringItem_alike _ _)
  · exact plain (stringItem_alike _ _)
  · exact plain (stringItem_alike _ _)
  · exact plain modParam_alike
  · exact routeDefinition_alike
  · exact plain globalAssignment_alike
  · exact (level_alike view maxNesting).statement

theorem topLevelItem_alike {u v : Token} (same : Peers view u v) :
    Alike view p q s t (topLevelItem u) (topLevelItem v) (Single view) HoldsMarkup := by
  have item (following : Option Token.Kind) :
      wordItem v.word following = wordItem u.word following :=
    same.word fun _ quoted => quoted.wordItem following
  unfold topLevelItem
  simp only [same.kind, item]
  split
  · exact .peekSecondKind fun following => wordItem_alike _ following
  · exact markup_alike
  · refine .bind nextLeaf_alike fun brace brace' twin => ?_
    exact (errorNode_alike twin).mono fun _ _ => id
  · exact (level_alike view maxNesting).statement

theorem itemStep_alike {ds es : List Draft}
    (outlines : view.outlines view.left ds = view.outlines view.right es) :
    Alike view p q s t (itemStep ds) (itemStep es)
      (Sum.LiftRel (fun ds es => view.outlines view.left ds = view.outlines view.right es)
        fun ds es => view.outlines view.left ds = view.outlines view.right es)
      (Sum.elim HoldMarkup HoldMarkup) := by
  refine .peek (fun like => .inr ⟨.inr ?_, p, q, like.keep (by simp) (by simp)⟩)
    fun u v same => ?_
  · rw [View.outlines_append, View.outlines_append, outlines,
      View.outlines_waiting like.left _ fun _ hd => hd,
      View.outlines_waiting like.right _ fun _ hd => hd]
  · refine .bindOr (topLevelItem_alike same) (fun item s holds => ?_) fun item item' twin like => ?_
    · exact ⟨item, List.mem_append_right _ (by simp), holds⟩
    · refine .inr ⟨.inl ?_, _, _,
        like.keep (fun _ hd => (List.mem_filter.1 hd).1) fun _ hd => (List.mem_filter.1 hd).1⟩
      calc view.outlines view.left (Script.place ds item _).1
          = view.outlines view.left ds ++ view.outlines view.left [item] :=
          View.outlines_place like.left view.left ds item
        _ = view.outlines view.right es ++ view.outlines view.right [item'] := by
          rw [outlines, twin.outlines]
        _ = view.outlines view.right (Script.place es item' _).1 :=
          (View.outlines_place like.right view.right es item').symm

theorem itemStep_keeps (ds : List Draft) (s : Stream) (h : HoldMarkup ds) :
    Sum.elim HoldMarkup HoldMarkup (itemStep ds s).1 := by
  obtain ⟨d, hd, holds⟩ := h
  change Gives (itemStep ds) s fun out _ => Sum.elim HoldMarkup HoldMarkup out
  refine gives_peek (fun _ => ?_) fun t rest tokens => ?_
  · exact ⟨d, List.mem_append_left _ hd, holds⟩
  · exact ⟨d, List.mem_append_left _ (List.mem_append_left _ hd), holds⟩

theorem items_alike :
    Alike view p q s t items items
      (fun ds es => view.outlines view.left ds = view.outlines view.right es) HoldMarkup :=
  .repeatUntil HoldMarkup itemStep_advancing itemStep_advancing (fun _ _ _ => ⟨trivial, trivial⟩)
    (fun _ s holds => repeatUntil_keeps itemStep_keeps (fun _ => id) holds s)
    (fun _ _ outlines => itemStep_alike outlines) rfl

theorem like_ofText (h : view.looks none ((Token.all view.left).filter Token.isSignificant)
      = view.looks none ((Token.all view.right).filter Token.isSignificant)) :
    Like view none none (.ofText view.left) (.ofText view.right) := by
  have left := (whole_ofText view.left).settle
  have right := (whole_ofText view.right).settle
  refine ⟨left.sound, right.sound, rfl, rfl, ?_⟩
  simp only [Stream.ofText, Stream.settle, filter_dropWhile_trivia]
  exact h

end Script

namespace Tree

open Script

/-- Some node stands for inline markup. -/
def HasMarkup (t : Tree) : Prop := ∃ e ∈ t.root.labels, e.tag.kind = Kind.xml

instance (t : Tree) : Decidable t.HasMarkup :=
  inferInstanceAs (Decidable (∃ e ∈ t.root.labels, e.tag.kind = Kind.xml))

theorem hasMarkup_ofScript (text : List Char) :
    (ofScript text).HasMarkup ↔ (draft text).HoldsMarkup := by
  rw [Draft.HoldsMarkup, ← thaw_ofScript, Node.thaw, Rose.labels_map]
  simp [HasMarkup]

/-- Significant tokens that look the same give items that look the same, unless there is markup. -/
theorem items_seen {view : View} (plain : ¬ (ofScript view.left).HasMarkup)
    (same : view.looks none ((Token.all view.left).filter Token.isSignificant)
      = view.looks none ((Token.all view.right).filter Token.isSignificant)) :
    view.outlines view.left (items (.ofText view.left)).1
      = view.outlines view.right (items (.ofText view.right)).1 := by
  rcases items_alike (like_ofText same) with holds | ⟨outlines, _⟩
  · rw [hasMarkup_ofScript] at plain
    exact absurd (holdsMarkup_node.2 (.inr holds)) plain
  · exact outlines

/-- Significant tokens that look the same give the same S-expression, unless there is markup. -/
theorem sexp_seen {view : View} (plain : ¬ (ofScript view.left).HasMarkup)
    (same : view.looks none ((Token.all view.left).filter Token.isSignificant)
      = view.looks none ((Token.all view.right).filter Token.isSignificant)) :
    (ofScript view.right).root.sexp = (ofScript view.left).root.sexp := by
  have entries := congrArg (List.map Outline.entry) (items_seen plain same)
  rw [View.map_entry_outlines, View.map_entry_outlines] at entries
  have shown (text : List Char) : (ofScript text).root.sexp = "(" ++ Kind.sourceFile
      ++ String.join ((outlinesOf text (items (.ofText text)).1).map Outline.entry) ++ ")" := by
    rw [sexp_root, outline, thaw_ofScript]
    rfl
  rw [shown, shown, entries]

/-- Comments and spacing have no influence on a tree without markup. -/
theorem ofScript_congr {a b : List Char} (plain : ¬ (ofScript a).HasMarkup)
    (same : Token.looks none ((Token.all a).filter Token.isSignificant)
      = Token.looks none ((Token.all b).filter Token.isSignificant)) :
    (ofScript a).outline = (ofScript b).outline
      ∧ (ofScript a).root.sexp = (ofScript b).root.sexp := by
  have children : outlinesOf a (items (.ofText a)).1 = outlinesOf b (items (.ofText b)).1 := by
    have seen : (View.sharp a b).outlines a _ = (View.sharp a b).outlines b _ :=
      items_seen plain (congrArg (List.map (View.sharp a b).look) same)
    rwa [View.outlines_sharp, View.outlines_sharp] at seen
  have outlines : (ofScript a).outline = (ofScript b).outline := by
    unfold outline
    rw [thaw_ofScript, thaw_ofScript]
    exact congrArg _ children
  exact ⟨outlines, by rw [sexp_root, sexp_root, outlines]⟩

theorem ofScript_congr_commented :
    (ofScript "if ( 1 ) drop ;".toList).outline
        = (ofScript "if (/* one */1 ) drop /* all */;".toList).outline
      ∧ (ofScript "if ( 1 ) drop ;".toList).root.sexp
        = (ofScript "if (/* one */1 ) drop /* all */;".toList).root.sexp :=
  ofScript_congr (by decide +kernel) (by decide +kernel)

end Tree

end RouteScript
