import RouteScript.Proofs.Alike.Items
import RouteScript.Proofs.Lossless.Tree
/-!
# What drafts say of a part of a text

The leaves that a reader takes lie before the place where it stops, so the outlines of its drafts
are the same over every text that agrees up to there. Without an angle bracket ahead there is no
markup among them.
-/
namespace RouteScript

namespace Text

theorem after?_append_left {front : List Char} (more : List Char) {n : Nat} (h : n ≤ size front) :
    after? (front ++ more) n = (after? front n).map (· ++ more) := by
  induction front generalizing n with
  | nil =>
    have zero : n = 0 := by simpa using h
    simp [zero]
  | cons c front ih =>
    cases n with
    | zero => simp
    | succ n =>
      rw [List.cons_append, after?, after?]
      split
      · apply ih
        rw [size_cons] at h
        omega
      · rfl

theorem upTo?_append_left {front : List Char} (more : List Char) {n : Nat} (h : n ≤ size front) :
    upTo? (front ++ more) n = upTo? front n := by
  induction front generalizing n with
  | nil =>
    have zero : n = 0 := by simpa using h
    subst zero
    cases more <;> rfl
  | cons c front ih =>
    cases n with
    | zero => rfl
    | succ n =>
      rw [List.cons_append, upTo?, upTo?]
      split
      · rw [ih]
        rw [size_cons] at h
        omega
      · rfl

/-- A slice that ends in the front of a text is one of the front. -/
theorem slice_append_left {front : List Char} (more : List Char) {start stop : Nat}
    (h : stop ≤ size front) : slice (front ++ more) start stop = slice front start stop := by
  unfold slice slice?
  split
  · rfl
  · rw [after?_append_left more (by omega)]
    cases behind : after? front start with
    | none => rfl
    | some rest =>
      obtain ⟨before, rfl, rfl⟩ := after?_split behind
      rw [size_append] at h
      simp only [Option.map_some, Option.bind_some]
      rw [upTo?_append_left more (by omega)]

end Text

namespace Draft

theorem mem_solids_of_child {t : Tag} {children : List Draft} {d : Draft} (hd : d ∈ children)
    {m : Mark} (hm : m ∈ d.solids) : m ∈ solids (.node t children) := by
  have nonempty : children.isEmpty = false := by
    cases children with
    | nil => contradiction
    | cons => rfl
  obtain ⟨inside, solid⟩ := List.mem_filter.1 hm
  rw [solids, marks_node, nonempty]
  refine List.mem_filter.2 ⟨List.mem_append_right _ ?_, solid⟩
  exact List.mem_flatMap.2 ⟨d, hd, inside⟩

/-- Outlines show of the text no more than the leaves of the structure. -/
theorem outlines_congr {a b : List Char} {d : Draft}
    (h : ∀ start stop, Mark.leaf start stop ∈ d.solids →
      Text.slice a start stop = Text.slice b start stop) :
    outlines a d = outlines b d := by
  induction d using Rose.induction with
  | node t children ih =>
    rw [outlines_node, outlines_node]
    by_cases extra : t.extra
    · simp [extra]
    · have below : outlinesOf a children = outlinesOf b children := by
        refine congrArg List.flatten (List.map_congr_left fun d hd => ih d hd ?_)
        intro start stop hm
        exact h start stop (mem_solids_of_child hd hm)
      have form : t.form a children.isEmpty = t.form b children.isEmpty := by
        unfold Tag.form
        split
        · rename_i leaf
          have mark : Mark.leaf t.start t.stop ∈ solids (.node t children) := by
            rw [solids, marks_node, if_pos leaf]
            simp [Tag.mark, extra, Mark.isExtra]
          rw [h _ _ mark]
        · rfl
      rw [below, form]

theorem outlinesOf_congr {a b : List Char} {ds : List Draft}
    (h : ∀ start stop, Mark.leaf start stop ∈ solidsOf ds →
      Text.slice a start stop = Text.slice b start stop) :
    outlinesOf a ds = outlinesOf b ds := by
  refine congrArg List.flatten (List.map_congr_left fun d hd => outlines_congr ?_)
  intro start stop hm
  exact h start stop (List.mem_flatMap.2 ⟨d, hd, hm⟩)

/-- Markup shows among the marks of the structure. -/
theorem HoldsMarkup.mark {d : Draft} (h : d.HoldsMarkup) : ∃ m ∈ d.solids, m.isMarkup := by
  induction d using Rose.induction with
  | node t children ih =>
    rcases holdsMarkup_node.1 h with isMarkup | ⟨d, hd, holds⟩
    · refine ⟨.markup t.start t.stop, ?_, rfl⟩
      rw [solids, marks_node, regions, if_pos isMarkup]
      simp [Mark.isExtra]
    · obtain ⟨m, hm, isMarkup⟩ := ih d hd holds
      exact ⟨m, mem_solids_of_child hd hm, isMarkup⟩

end Draft

namespace Script

open Draft

variable {source : List Char} {ts us : List Token} {ps : List Piece} {given out : List Draft}
  {s s' : Stream}

/-- Markup starts with an angle bracket. -/
theorem Follows.plain (h : Follows source ts ps us) (noMarkup : ∀ t ∈ ts, t.kind ≠ .lt) :
    ∀ m ∈ ps.flatMap Piece.solids, m.isMarkup = false := by
  induction h with
  | done _ => simp
  | @token t _ _ _ _ ih =>
    have later := ih fun u hu => noMarkup u (by simp [hu])
    intro m hm
    rcases List.mem_append.1 hm with here | there
    · cases trivia : t.isTrivia with
      | true => simp [Piece.solids, trivia] at here
      | false =>
        obtain rfl : m = tokenMark t := by simpa [Piece.solids, trivia] using here
        rfl
    · exact later m there
  | sigil _ _ _ _ ih =>
    have later := ih fun u hu => noMarkup u (by simp [hu])
    intro m hm
    rcases List.mem_cons.1 hm with rfl | there
    · rfl
    · exact later m there
  | markup opens _ _ _ _ _ _ => exact absurd opens (noMarkup _ (by simp))

namespace Conserves

/-- No markup is read where no angle bracket stands. -/
theorem plain (h : Conserves given s out s') (noMarkup : ∀ t ∈ s.tokens, t.kind ≠ .lt)
    (before : ∀ m ∈ solidsOf given, m.isMarkup = false) : ¬ HoldMarkup out := by
  rintro ⟨d, hd, holds⟩
  obtain ⟨ps, reads, solids, _⟩ := h
  obtain ⟨m, hm, isMarkup⟩ := holds.mark
  have among : m ∈ solidsOf out := List.mem_flatMap.2 ⟨d, hd, hm⟩
  rw [solids] at among
  rcases List.mem_append.1 among with old | new
  · simp [before m old] at isMarkup
  · simp [reads.follows.plain noMarkup m new] at isMarkup

/-- A leaf that is new stands before the tokens that are left. -/
theorem leaf_before (hs : s.Sound) (h : Conserves given s out s') {start stop : Nat}
    (leaf : Mark.leaf start stop ∈ solidsOf out) (new : Mark.leaf start stop ∉ solidsOf given) :
    stop ≤ s'.position := by
  obtain ⟨ps, reads, solids, _⟩ := h
  obtain ⟨p, inside, ahead⟩ := hs.cut
  rw [hs.size] at ahead
  obtain ⟨q, cut, _, behind⟩ := reads.follows.cut inside ahead
  have size : s'.size = Text.size s.source := by rw [reads.passes.size hs, hs.size]
  have reach : q.offset ≤ s'.position := by
    unfold Stream.position
    cases tokens : s'.tokens with
    | nil =>
      have := behind.offset_le
      simpa [size] using this
    | cons t rest =>
      have := (behind.bounds t (by simp [tokens])).1
      simpa using this
  rw [solids] at leaf
  rcases List.mem_append.1 leaf with old | taken
  · exact absurd old new
  · have among : Mark.leaf start stop ∈
        (ps.flatMap Piece.solids).filter fun m => !m.isMarkup :=
      List.mem_filter.2 ⟨taken, rfl⟩
    rw [reads.follows.solids] at among
    obtain ⟨t, ht, mark⟩ := List.mem_map.1 among
    obtain ⟨rfl, rfl⟩ := Mark.leaf.inj mark
    have bound := (cut.bounds t (List.mem_filter.1 ht).1).2.2
    exact Nat.le_trans bound reach

end Conserves

end Script

/-- A text without angle brackets has no markup. -/
theorem Tree.not_hasMarkup {text : List Char} (h : ∀ t ∈ Token.all text, t.kind ≠ .lt) :
    ¬ (ofScript text).HasMarkup := by
  have sound : (Script.Stream.ofText text).Sound := (Script.whole_ofText text).settle.sound
  obtain ⟨conserves, _, _⟩ := Script.items_conserves sound
  have ahead : ∀ t ∈ (Script.Stream.ofText text).tokens, t.kind ≠ .lt := by
    intro t ht
    exact h t ((List.dropWhile_suffix _).subset ht)
  rw [hasMarkup_ofScript]
  intro holds
  rcases Draft.holdsMarkup_node.1 holds with isMarkup | below
  · have other : Kind.sourceFile ≠ Kind.xml := by decide
    exact absurd isMarkup other
  · exact conserves.plain ahead (by simp) below

end RouteScript
