import RouteScript.Proofs.Lossless.Tree
import RouteScript.Proofs.Braces.Rules
/-!
# Ends in order

A draft that a reader gives ends behind the place where the reader started, or in a comment that
waited there. A comment that waits behind an item ends behind it too. So what a block holds ends in
its order, even where an unclosed block at its end has taken in old comments.
-/
namespace RouteScript

namespace Draft

/-- The structure among the children of a node ends in its order, but for the first of them. -/
def Climbing (d : Draft) : Prop :=
  (d.children.filter fun c => !c.label.extra).tail.Pairwise fun a b => stop a ≤ stop b

/-- A tight draft ends where one of its leaves does. -/
theorem Tight.exists_mark {d : Draft} (h : d.Tight) :
    ∃ m ∈ d.marks, m.isMarkup = false ∧ m.span.2 = d.stop := by
  induction d using Rose.induction with
  | node t children ih =>
    obtain ⟨framed, below⟩ := tight_node.1 h
    by_cases childless : children = []
    · subst childless
      refine ⟨t.mark, by simp [marks_node], ?_⟩
      unfold Tag.mark
      split <;> exact ⟨rfl, rfl⟩
    · have tail := List.getLast?_eq_some_getLast childless
      have hc := List.getLast_mem childless
      obtain ⟨m, hm, leaf, stop⟩ := ih _ hc (below _ hc)
      refine ⟨m, ?_, leaf, stop.trans (framed.last _ tail).1⟩
      have some_child : children.isEmpty = false := by simpa using childless
      rw [marks_node, some_child, if_neg Bool.false_ne_true]
      exact List.mem_append_right _ (List.mem_flatMap.2 ⟨_, hc, hm⟩)

end Draft

namespace Script

open Draft

theorem stop_le_size {source : List Char} {t : Token} (h : t.StandsIn source) :
    t.stop ≤ Text.size source := by
  obtain ⟨before, after, rfl, _, stop⟩ := Text.slice?_split h.slice?
  simp only [Text.size_append]
  omega

/-- What waits at a sound stream are comments before the next token. -/
theorem Stream.Sound.queued {s : Stream} (hs : s.Sound) : Queued s := by
  intro w hw
  obtain ⟨t, _, there, rfl⟩ := hs.waiting w hw
  refine ⟨⟨t, rfl⟩, Token.start_lt_stop there.nonempty, ?_⟩
  unfold Stream.position
  cases tokens : s.tokens with
  | nil => exact hs.size ▸ stop_le_size there
  | cons u rest => exact hs.ordered _ hw u (by simp [tokens])

/-- What is read of the text between two streams ends behind the first. -/
theorem Reads.span_ge {s s' : Stream} {ps : List Piece} (hs : s.Sound) (h : Reads s ps s') :
    ∀ p ∈ ps, ∀ m ∈ p.solids ++ p.extras, m.isMarkup = false → s.position ≤ m.span.2 := by
  intro p hp m hm leaf
  obtain ⟨spot, inside, cut⟩ := hs.cut
  have fair := h.follows.fair p hp
  obtain ⟨start, there, ahead⟩ : ∃ start : Spot, start.offset = s.position ∧ start.In s.source ∧
      Cut Token.Scan.isGap start s.tokens ⟨s.size, []⟩ := by
    cases tokens : s.tokens with
    | nil =>
      have follows := h.follows
      generalize s'.tokens = rest at follows
      rw [tokens] at follows
      cases follows
      contradiction
    | cons t rest =>
      rw [tokens] at cut
      obtain ⟨start, offset, lead, cut⟩ := cut.start_eq rfl
      exact ⟨start, by simp [offset, Stream.position, tokens], lead.place inside, cut⟩
  obtain ⟨q, pieces, _⟩ := h.follows.cut ahead.1 (hs.size ▸ ahead.2)
  have bound (t : Token) (ht : t ∈ p.tokens) : s.position ≤ t.stop := by
    have bounds := pieces.bounds t (List.mem_flatMap.2 ⟨p, hp, ht⟩)
    omega
  rcases List.mem_append.1 hm with solid | extra
  · have solid : m ∈ p.solids.filter fun m => !m.isMarkup := List.mem_filter.2 ⟨solid, by simp [leaf]⟩
    rw [fair.solids] at solid
    obtain ⟨t, ht, rfl⟩ := List.mem_map.1 solid
    exact bound t (List.mem_filter.1 ht).1
  · rw [fair.extras] at extra
    obtain ⟨t, ht, rfl⟩ := List.mem_map.1 extra
    exact bound t (List.mem_filter.1 ht).1

/-- What was read ends behind the place where the reader started, or in a comment from before. -/
theorem Conserves.stop_ge {s s' : Stream} {d : Draft} (hs : s.Sound) (h : Conserves [] s [d] s')
    (tight : d.Tight) : s.position ≤ d.stop ∨ ∃ w ∈ s.waiting, w.stop = d.stop := by
  obtain ⟨ps, reads, solids, extras⟩ := h
  obtain ⟨m, hm, leaf, stop⟩ := tight.exists_mark
  have from_piece {p : Piece} (hp : p ∈ ps) (hm : m ∈ p.solids ++ p.extras) :
      s.position ≤ d.stop := stop ▸ reads.span_ge hs p hp m hm leaf
  cases extra : m.isExtra with
  | false =>
    have there : m ∈ solidsOf [d] :=
      List.mem_append_left _ (List.mem_filter.2 ⟨hm, by simp [extra]⟩)
    rw [solids, solidsOf_nil, List.nil_append] at there
    obtain ⟨p, hp, hm⟩ := List.mem_flatMap.1 there
    exact .inl (from_piece hp (List.mem_append_left _ hm))
  | true =>
    have there : m ∈ extrasOf [d] ++ extrasOf s'.waiting :=
      List.mem_append_left _ (List.mem_append_left _ (List.mem_filter.2 ⟨hm, extra⟩))
    rcases List.mem_append.1 (extras.mem_iff.1 there) with old | new
    · obtain ⟨w, hw, hm⟩ := List.mem_flatMap.1 (by simpa using old : m ∈ extrasOf s.waiting)
      obtain ⟨t, _, _, rfl⟩ := hs.waiting w hw
      rw [Piece.extras_extraLeaf, List.mem_singleton] at hm
      exact .inr ⟨_, hw, stop ▸ hm ▸ rfl⟩
    · obtain ⟨p, hp, hm⟩ := List.mem_flatMap.1 new
      exact .inl (from_piece hp (List.mem_append_right _ hm))

/-- The structure in a container ends in its order, before the next token and before every comment
that waits. -/
structure Climbs (children : List Draft) (s : Stream) : Prop where
  ordered : (children.filter fun c => !c.label.extra).Pairwise fun a b => a.stop ≤ b.stop
  past : ∀ c ∈ children, c.label.extra = false →
    c.stop ≤ s.position ∧ ∀ w ∈ s.waiting, c.stop ≤ w.stop

namespace Climbs

variable {children : List Draft} {item : Draft} {s s' : Stream}

theorem nil (s : Stream) : Climbs [] s := ⟨.nil, by simp⟩

theorem filter_extras {ds : List Draft} (hs : s.Sound) (sub : ∀ d ∈ ds, d ∈ s.waiting) :
    (ds.filter fun c => !c.label.extra) = [] := by
  refine List.filter_eq_nil_iff.2 fun d hd => ?_
  obtain ⟨t, _, _, rfl⟩ := hs.waiting d (sub d hd)
  simp [extraLeaf, asExtra, relabel, Draft.leaf, Rose.label]

theorem place (h : Climbs children s) (hs : s.Sound) (read : Kept [] s [item] s') :
    Climbs (place children item s').1 (place children item s').2 := by
  have sound := read.passes.sound
  have position := read.passes.position
  have tightBefore := (read.orders.held ⟨hs.queued, by simp⟩).tightBefore item (by simp)
  have behind (c : Draft) (hc : c ∈ children) (notExtra : c.label.extra = false) :
      c.stop ≤ item.stop := by
    obtain ⟨past, waits⟩ := h.past c hc notExtra
    rcases read.conserves.stop_ge hs tightBefore.tight with later | ⟨w, hw, stop⟩
    · omega
    · exact stop ▸ waits w hw
  have kept : ((Script.place children item s').1.filter fun c => !c.label.extra)
      = (children.filter fun c => !c.label.extra) ++ [item] := by
    have none_taken : ((s'.waiting.filter fun d => d.start < item.start).filter
        fun c => !c.label.extra) = [] := filter_extras sound fun d hd => (List.mem_filter.1 hd).1
    have notExtra := tightBefore.notExtra
    simp [Script.place, List.filter_append, none_taken, notExtra]
  refine ⟨?_, fun c hc notExtra => ?_⟩
  · rw [kept, List.pairwise_append]
    refine ⟨h.ordered, List.pairwise_singleton _ _, fun c hc d hd => ?_⟩
    obtain ⟨hc, notExtra⟩ := List.mem_filter.1 hc
    exact List.mem_singleton.1 hd ▸ behind c hc (by simpa using notExtra)
  · have among : c ∈ (Script.place children item s').1.filter fun c => !c.label.extra :=
      List.mem_filter.2 ⟨hc, by simp [notExtra]⟩
    rw [kept, List.mem_append] at among
    rcases among with old | new
    · have hc := (List.mem_filter.1 old).1
      obtain ⟨past, waits⟩ := h.past c hc notExtra
      refine ⟨Nat.le_trans past position, fun w hw => ?_⟩
      rcases read.orders.fresh w (List.mem_filter.1 hw).1 with waited | later
      · exact waits w waited
      · have long := (sound.queued w (List.mem_filter.1 hw).1).2.1
        omega
    · obtain rfl : c = item := List.mem_singleton.1 new
      refine ⟨tightBefore.past, fun w hw => ?_⟩
      obtain ⟨hw, late⟩ := List.mem_filter.1 hw
      have late : c.start ≤ w.start := by simpa using late
      have clear := tightBefore.clear w hw
      omega

theorem flush (h : Climbs children s) (hs : s.Sound) :
    Climbs (flush children s).1 (flush children s).2 := by
  have kept : ((Script.flush children s).1.filter fun c => !c.label.extra)
      = children.filter fun c => !c.label.extra := by
    simp [Script.flush, List.filter_append, filter_extras hs fun _ hd => hd]
  refine ⟨kept ▸ h.ordered, fun c hc notExtra => ?_⟩
  have among : c ∈ (Script.flush children s).1.filter fun c => !c.label.extra :=
    List.mem_filter.2 ⟨hc, by simp [notExtra]⟩
  rw [kept] at among
  obtain ⟨past, _⟩ := h.past c (List.mem_filter.1 among).1 notExtra
  exact ⟨past, by simp [Script.flush]⟩

end Climbs

section Productions

variable {inner : Level} (h : inner.Lossless)
include h

/-- A block whose items end in their order. -/
def ClimbsBehind (children : List Draft) (s : Stream) : Prop :=
  ∃ first items, children = first :: items ∧ first.label.extra = false ∧ Climbs items s

theorem blockStep_climbs {s : Stream} (hs : s.Sound) (opening : Token) {children : List Draft}
    (climbs : ClimbsBehind children s) :
    Gives (blockStep inner opening children) s fun result s' =>
      ClimbsBehind (Sum.elim id id result) s' := by
  obtain ⟨first, items, rfl, notExtra, climbs⟩ := climbs
  refine gives_peekKind (fun _ => ?_) fun t rest tokens => ?_
  · exact gives_flush (.pure ⟨_, _, rfl, rfl, climbs.flush hs⟩)
  split
  · contradiction
  · refine gives_next (fun nothing => by simp [tokens] at nothing) fun close behind tokens' => ?_
    have kept := Kept.next [] hs tokens' (isLeaf_leaf (by decide : Kind.blockEnd ≠ _) true close)
    rw [next_snd tokens'] at kept
    exact gives_place (.pure ⟨_, _, rfl, notExtra, climbs.place hs kept⟩)
  · refine .bind (blockItem_lossless h tokens hs solid_nil) fun item s₁ ⟨kept, _⟩ => ?_
    exact gives_place (.pure ⟨_, _, rfl, notExtra, climbs.place hs kept⟩)

theorem block_climbs {s : Stream} (hs : s.Sound) {opening : Token} {children : List Draft}
    (opened : isOpened opening children) (climbs : ClimbsBehind children s) :
    Gives (repeatUntil (blockStep inner opening) id children) s ClimbsBehind :=
  gives_repeatUntil_same (blockStep_advancing h opening) ClimbsBehind
    (fun _ _ _ hs' climbs => blockStep_climbs h hs' opening climbs) opened hs climbs

/-- What stands in a block ends in its order. -/
theorem compound_climbing {s : Stream} (hs : s.Sound) {t : Token} {rest : List Token}
    (tokens : s.tokens = t :: rest) : Gives (compound inner) s fun d _ => d.Climbing := by
  refine gives_next (fun nothing => by simp [tokens] at nothing) fun opening rest' tokens' => ?_
  have sound : (next s).2.Sound := (passes_next hs tokens').1.sound
  rw [next_snd tokens'] at sound
  have opened : isOpened opening [.leaf Kind.blockStart true opening.start opening.stop] :=
    ⟨[], rfl⟩
  refine .bind (.and (block_conserves h sound opened)
    (block_climbs h sound opened ⟨_, _, rfl, rfl, .nil _⟩)) fun children s₁ block => ?_
  obtain ⟨conserves, first, items, rfl, notExtra, climbs⟩ := block
  have extras : ∀ w ∈ s₁.waiting.filter (isInside (first :: items)), Tag.extra w.label := by
    intro w hw
    obtain ⟨t, _, _, rfl⟩ := conserves.passes.sound.waiting w (List.mem_filter.1 hw).1
    rfl
  have kept : ((absorb (first :: items) s₁).1.filter fun c => !c.label.extra)
      = first :: items.filter fun c => !c.label.extra :=
    (Checks.filter_absorb extras _).trans (List.filter_cons_of_pos (by simp [notExtra]))
  change (((absorb (first :: items) s₁).1.filter fun c => !c.label.extra).tail).Pairwise _
  rw [kept]
  exact climbs.ordered

end Productions

theorem itemStep_climbs {s : Stream} (hs : s.Sound) {children : List Draft}
    (climbs : Climbs children s) :
    Gives (itemStep children) s fun result s' => Climbs (Sum.elim id id result) s' := by
  refine gives_peek (fun _ => gives_flush (.pure (climbs.flush hs))) fun t rest tokens => ?_
  refine .bind (topLevelItem_lossless tokens hs solid_nil) fun item s₁ ⟨kept, _⟩ => ?_
  exact gives_place (.pure (climbs.place hs kept))

/-- The items of a text end in their order. -/
theorem items_climb (text : List Char) :
    ((items (.ofText text)).1.filter fun c => !c.label.extra).Pairwise
      fun a b => a.stop ≤ b.stop := by
  have sound : (Stream.ofText text).Sound := (whole_ofText text).settle.sound
  have climbs : Gives items (.ofText text) Climbs :=
    gives_repeatUntil_same itemStep_advancing Climbs
      (fun _ _ _ hs' climbs => itemStep_climbs hs' climbs) trivial sound (.nil _)
  exact climbs.ordered

end Script

end RouteScript
