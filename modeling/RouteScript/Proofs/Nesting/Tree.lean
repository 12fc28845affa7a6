import RouteScript.Proofs.Lossless.Items
import RouteScript.Proofs.Frozen
/-!
# Trees of scripts are nested

A comment that waits goes to the first container or node that asks for it, and a block asks for all
that wait, those from before its brace among them. Such a comment stands outside the block that
holds it; a tree in which no block holds one is well nested.
-/
namespace RouteScript

open Script Draft

namespace Tree

/-- The nodes of a tree, every node before its children. -/
def nodes (t : Tree) : List Draft := t.root.thaw.nodes

/-- Every node lies in the text and encloses its children, which stand apart in their order; a
comment or directive belongs to the innermost node around it. -/
def WellNested (t : Tree) : Prop :=
  ∀ n ∈ t.nodes, n.stop ≤ Text.size t.source ∧ n.Proper

end Tree

namespace Script

theorem ofText_stands (text : List Char) : Stands 0 [] (.ofText text) := by
  have split := List.takeWhile_append_dropWhile (p := Token.isTrivia) (l := Token.all text)
  have cut := all_cut text
  rw [← split] at cut
  obtain ⟨q, gap, behind⟩ := cut.split
  have queue := fits_of_cut gap (List.Sublist.refl _) (spans_extraLeaves _)
  have stop : q.offset ≤ (Stream.ofText text).position :=
    Stream.le_position (s := .ofText text) behind
  exact ⟨fits_nil _ _, by simp, queue.mono Nat.le.refl stop⟩

theorem itemStep_lined {s₀ s : Stream} (hs : s.Sound) {children : List Draft}
    (position : s₀.position ≤ s.position) (lined : Lined 0 s₀ children s) :
    Gives (itemStep children) s fun result s' => Lined 0 s₀ (Sum.elim id id result) s' := by
  refine gives_peek (fun _ => gives_flush (.pure (lined.flush hs))) fun t rest tokens => ?_
  refine .bind (topLevelItem_lossless tokens hs solid_nil) fun item s₁ ⟨kept, _⟩ => ?_
  exact gives_place (.pure (lined.place (Nat.zero_le _) position kept.orders
    kept.passes.position kept.passes.sound))

theorem items_lined {s : Stream} (hs : s.Sound) : Gives items s (Lined 0 s) := by
  let keeps (ds : List Draft) (s' : Stream) : Prop :=
    s.position ≤ s'.position ∧ Lined 0 s ds s'
  have start : Lined 0 s [] s := ⟨fun _ hw => .inl hw, fun _ _ low lower stands =>
    ⟨⟨fits_nil _ _, by simp, stands.queue⟩, by simp⟩, .of_held⟩
  have kept : Gives items s keeps := by
    refine gives_repeatUntil_same itemStep_advancing keeps ?_ trivial hs ⟨Nat.le.refl, start⟩
    intro ds s' _ hs' ⟨position, lined⟩
    have passes := (itemStep_conserves hs' ds).1.passes
    exact ⟨Nat.le_trans position passes.position, itemStep_lined hs' position lined⟩
  exact kept.2

/-- All items of a text are tight and end in the text, whatever it is. -/
theorem items_tight (text : List Char) :
    ∀ d ∈ (items (.ofText text)).1, d.Tight ∧ d.stop ≤ Text.size text := by
  have sound : (Stream.ofText text).Sound := (whole_ofText text).settle.sound
  obtain ⟨conserves, tokens, _⟩ := items_conserves sound
  have size := conserves.passes.size sound
  have queue : Queued (.ofText text) := by
    intro w hw
    obtain ⟨t, _, _, rfl⟩ := sound.waiting w hw
    have queue := (ofText_stands text).queue
    exact ⟨⟨t, rfl⟩, (queue.nested _ hw).long, (queue.inside _ hw).2⟩
  have contains := (items_lined sound).contains ⟨queue, by simp⟩
  intro d hd
  have past := contains.past d hd
  rw [Stream.position, tokens] at past
  exact ⟨contains.tight d hd, Nat.le_trans past (Nat.le_of_eq size)⟩

/-- The items of a text in which no block holds a comment from before its brace. -/
theorem items_fits (text : List Char)
    (braced : ∀ d ∈ (items (.ofText text)).1, d.Braced) :
    Fits 0 (items (.ofText text)).1 (Text.size text) := by
  have sound : (Stream.ofText text).Sound := (whole_ofText text).settle.sound
  obtain ⟨conserves, tokens, _⟩ := items_conserves sound
  have size := conserves.passes.size sound
  obtain ⟨stands, _⟩ := (items_lined sound).stands braced (fun _ _ _ => Nat.zero_le _) 0 Nat.le.refl
    (ofText_stands text)
  have fits := stands.fits
  rw [Stream.position, tokens] at fits
  exact fits.mono Nat.le.refl (Nat.le_of_eq size)

end Script

theorem Draft.Nested.stop_le {d : Draft} (h : d.Nested) : ∀ n ∈ d.nodes, stop n ≤ d.stop := by
  induction d using Rose.induction with
  | node t children ih =>
    obtain ⟨_, fits⟩ := nested_node.1 h
    refine Rose.forall_nodes_node.2 ⟨Nat.le.refl, fun c hc n hn => ?_⟩
    exact Nat.le_trans (ih c hc (fits.nested c hc) n hn) (fits.inside c hc).2

namespace Tree

/-- The tree of a text is well nested if no block holds a comment from before its opening brace, and
only then. -/
theorem ofScript_wellNested (text : List Char) :
    (ofScript text).WellNested ↔ ∀ n ∈ (ofScript text).nodes, BraceFirst n := by
  constructor
  · intro nested n hn _ c hc _
    exact ((nested n hn).2.inside c hc).1
  · intro braced
    rw [WellNested, nodes, thaw_ofScript] at *
    have ⟨_, below⟩ := Rose.forall_nodes_node.1 braced
    have fits := items_fits text below
    refine Rose.forall_nodes_node.2 ⟨⟨Nat.le.refl, fits.proper (Nat.zero_le _)⟩, fun d hd n hn => ?_⟩
    have nested := fits.nested d hd
    exact ⟨Nat.le_trans (nested.stop_le n hn) (fits.inside d hd).2, (nested n hn).2⟩

/-- A comment before a route is moved into the block of the route. -/
theorem ofScript_wellNested_comment :
    ¬ (ofScript "/* c */ request_route { drop; }".toList).WellNested := by
  have outside : ∃ n ∈ (ofScript "/* c */ request_route { drop; }".toList).nodes,
      ∃ c ∈ n.children, start c < n.start := by decide +kernel
  intro nested
  obtain ⟨n, hn, c, hc, before⟩ := outside
  have := ((nested n hn).2.inside c hc).1
  omega

end Tree

end RouteScript
