import RouteScript.Proofs.Nesting.Held
/-!
# Drafts and waiting comments in order

While a reader goes on, the drafts that it holds stand in order up to the next token, and no comment
that still waits overlaps one of them. Every step keeps this, except that a block takes in comments
from before its brace; `Braced` says that none has.
-/
namespace RouteScript

namespace Draft.Fits

open Script

variable {low high : Nat} {cs taken : List Draft}

/-- A draft that overlaps none of those in order finds its place by its start. -/
theorem insert (h : Fits low cs high) {w : Draft} (fits : Fits low [w] high)
    (apart : ∀ c ∈ cs, Apart w c) : Fits low (insertByStart w cs) high := by
  induction cs generalizing low with
  | nil => exact fits
  | cons c cs ih =>
    obtain ⟨⟨nested, lower, higher⟩, rest, front⟩ := fits_cons.1 h
    obtain ⟨nested', lower', higher'⟩ := fits_singleton.1 fits
    have long := nested.long
    have long' := nested'.long
    have here : Apart w c := apart c (by simp)
    unfold insertByStart
    split
    · rename_i behind
      have after : c.stop ≤ w.start := by rcases here with before | after <;> omega
      have later : Fits c.stop cs high :=
        ⟨rest.nested, fun d hd => ⟨front d hd, (rest.inside d hd).2⟩, rest.ordered⟩
      have placed := ih later (fits_singleton.2 ⟨nested', after, higher'⟩)
        fun d hd => apart d (by simp [hd])
      exact fits_cons.2 ⟨⟨nested, lower, higher⟩, placed.mono (by omega) Nat.le.refl,
        fun d hd => (placed.inside d hd).1⟩
    · rename_i ahead
      have before : w.stop ≤ c.start := by rcases here with before | after <;> omega
      refine fits_cons.2 ⟨⟨nested', lower', higher'⟩, h, List.forall_mem_cons.2 ⟨before, ?_⟩⟩
      intro d hd
      have := front d hd
      omega

theorem absorb (h : Fits low cs high) (fits : Fits low taken high)
    (apart : ∀ w ∈ taken, ∀ c ∈ cs, Apart w c) :
    Fits low (taken.foldl (fun cs d => insertByStart d cs) cs) high := by
  induction taken generalizing cs with
  | nil => exact h
  | cons w taken ih =>
    obtain ⟨⟨nested, inside⟩, rest, front⟩ := fits_cons.1 fits
    refine ih (h.insert (fits_singleton.2 ⟨nested, inside⟩) (apart w (by simp))) rest ?_
    intro v hv c hc
    rcases List.mem_cons.1 ((insertByStart_perm w cs).subset hc) with rfl | old
    · exact .inr (front v hv)
    · exact apart v (by simp [hv]) c old

end Draft.Fits

namespace Script

open Draft

/-- The drafts held at a stream stand in order from an offset to the next token, those that wait
stand in order too, and the two do not overlap. -/
structure Stands (low : Nat) (ds : List Draft) (s : Stream) : Prop where
  fits : Fits low ds s.position
  apart : ∀ w ∈ s.waiting, ∀ d ∈ ds, Apart w d
  queue : Fits 0 s.waiting s.position

namespace Stands

variable {low : Nat} {ds ds' before children behind : List Draft} {s : Stream}

/-- Drafts that overlap no waiting one may be put in place of those that stand there. -/
theorem replace (h : Stands low ds s) (fits : Fits low ds' s.position)
    (apart : ∀ w ∈ s.waiting, ∀ d ∈ ds', Apart w d) : Stands low ds' s := ⟨fits, apart, h.queue⟩

theorem replaceable (h : Stands low ds s) (replaceables : List.Forall₂ ReplaceableBy ds ds') :
    Stands low ds' s := by
  refine h.replace (h.fits.replaceable replaceables) fun w hw d hd => ?_
  obtain ⟨c, hc, replaceable⟩ := exists_of_forall₂ replaceables hd
  obtain ⟨_, lower, higher⟩ := fits_singleton.1 (replaceable.fits (h.fits.nested c hc))
  rcases h.apart w hw c hc with front | back
  · exact .inl (by omega)
  · exact .inr (by omega)

/-- What lies inside the span of some of the drafts may become one draft with them. -/
theorem enclose (h : Stands low (before ++ children ++ behind) s) {first last d : Draft}
    (head : children.head? = some first) (tail : children.getLast? = some last)
    (fits : Fits first.start [d] last.stop) :
    Stands low (before ++ [d] ++ behind)
      { s with waiting := s.waiting.filter fun w => !isInside children w } := by
  obtain ⟨nested, lower, higher⟩ := fits_singleton.1 fits
  have hfirst := List.mem_of_head? head
  have hlast := List.mem_of_getLast? tail
  obtain ⟨left, right, across⟩ := fits_append.1 h.fits
  obtain ⟨left, middle, across'⟩ := fits_append.1 left
  refine ⟨?_, fun w hw c hc => ?_, h.queue.sublist List.filter_sublist⟩
  · refine fits_append.2 ⟨fits_append.2 ⟨left, fits_singleton.2 ⟨nested, ?_, ?_⟩, ?_⟩, right, ?_⟩
    · exact Nat.le_trans (middle.inside first hfirst).1 lower
    · exact Nat.le_trans higher (middle.inside last hlast).2
    · simpa using fun b hb => Nat.le_trans (across' b hb first hfirst) lower
    · intro b hb c hc
      rcases List.mem_append.1 hb with earlier | same
      · exact across b (by simp [earlier]) c hc
      · rw [List.mem_singleton.1 same]
        exact Nat.le_trans higher (across last (by simp [hlast]) c hc)
  · have outside := outside_of_absorb head tail hw
    have hw := (List.mem_filter.1 hw).1
    rcases List.mem_append.1 hc with front | later
    · rcases List.mem_append.1 front with earlier | same
      · exact h.apart w hw c (by simp [earlier])
      · rw [List.mem_singleton.1 same]
        have := (middle.nested first hfirst).long
        have := (middle.nested last hlast).long
        unfold Apart
        rcases h.apart w hw first (by simp [hfirst]) with ahead | inner
        · exact .inl (by omega)
        · rcases h.apart w hw last (by simp [hlast]) with inner' | past
          · omega
          · exact .inr (by omega)
    · exact h.apart w hw c (by simp [later])

/-- What waits inside the span of some of the drafts stands in order among them. -/
theorem absorbed (h : Stands low (before ++ children ++ behind) s) {first last : Draft}
    (head : children.head? = some first) (tail : children.getLast? = some last) :
    Fits first.start (absorb children s).1 last.stop := by
  have middle := (fits_append.1 (fits_append.1 h.fits).1).2.1
  refine (middle.ends head tail).absorb ⟨fun w hw => ?_, fun w hw => ?_, ?_⟩ fun w hw c hc => ?_
  · exact h.queue.nested w (List.mem_filter.1 hw).1
  · simpa [isInside, head, tail] using (List.mem_filter.1 hw).2
  · exact h.queue.ordered.sublist List.filter_sublist
  · exact h.apart w (List.mem_filter.1 hw).1 c (by simp [hc])

end Stands

/-- From drafts at one stream to drafts at another, what stood in order still does, as long as no
block has taken in a comment from before its brace, and what was held tight still is. -/
structure Orders (given : List Draft) (s : Stream) (out : List Draft) (s' : Stream) : Prop where
  braced : (∀ d ∈ out, d.Braced) → ∀ d ∈ given, d.Braced
  fresh : ∀ w ∈ s'.waiting, w ∈ s.waiting ∨ s.position ≤ w.start
  stands : (∀ d ∈ out, d.Braced) → ∀ low ≤ s.position, Stands low given s → Stands low out s'
  held : Held given s → Held out s'

namespace Orders

variable {given mid out before : List Draft} {s s' s'' : Stream}

theorem trans (h : Orders given s mid s') (h' : Orders mid s' out s'')
    (position : s.position ≤ s'.position) : Orders given s out s'' where
  braced all := h.braced (h'.braced all)
  fresh w hw := by
    rcases h'.fresh w hw with old | new
    · exact h.fresh w old
    · exact .inr (Nat.le_trans position new)
  stands all low lower start :=
    h'.stands all low (Nat.le_trans lower position) (h.stands (h'.braced all) low lower start)
  held start := h'.held (h.held start)

/-- What is set aside stays before what is read meanwhile. -/
theorem frame (before : List Draft) (h : Orders given s out s')
    (position : s.position ≤ s'.position) : Orders (before ++ given) s (before ++ out) s' where
  braced all := by
    rw [List.forall_mem_append] at all ⊢
    exact ⟨all.1, h.braced all.2⟩
  fresh := h.fresh
  stands all low lower start := by
    rw [List.forall_mem_append] at all
    obtain ⟨mid, above, below, left, right⟩ := start.fits.cut lower
    have later := h.stands all.2 mid below
      ⟨right, fun w hw d hd => start.apart w hw d (by simp [hd]), start.queue⟩
    refine ⟨?_, fun w hw => List.forall_mem_append.2 ⟨fun d hd => ?_, later.apart w hw⟩,
      later.queue⟩
    · exact left.join later.fits above (Nat.le_trans below position)
    · rcases h.fresh w hw with old | new
      · exact start.apart w old d (by simp [hd])
      · exact .inr (Nat.le_trans (left.inside d hd).2 (Nat.le_trans below new))
  held start := start.frame h.held h.fresh position

theorem replaceable (replaceables : List.Forall₂ ReplaceableBy given out) :
    Orders given s out s where
  braced all d hd := by
    obtain ⟨c, hc, replaceable⟩ := exists_of_forall₂ replaceables.flip hd
    exact replaceable.braced (all c hc)
  fresh _ hw := .inl hw
  stands _ _ _ start := start.replaceable replaceables
  held start := start.replaceable replaceables

/-- New leaves and newly waiting ones from behind the old position. -/
theorem extend (position : s.position ≤ s'.position) {leaves more : List Draft}
    (waiting : s'.waiting = s.waiting ++ more) (bare : ∀ w ∈ more, w.IsExtraLeaf)
    (notExtra : ∀ d ∈ leaves, d.children = [] ∧ d.label.extra = false)
    (fits : Fits s.position leaves s'.position)
    (queue : Fits s.position more s'.position) (apart : ∀ w ∈ more, ∀ d ∈ leaves, Apart w d) :
    Orders given s (given ++ leaves) s' where
  braced all := (List.forall_mem_append.1 all).1
  fresh w hw := by
    rw [waiting] at hw
    exact (List.mem_append.1 hw).imp id fun new => (queue.inside w new).1
  stands _ low lower start := by
    refine ⟨start.fits.join fits lower position, fun w hw d hd => ?_, ?_⟩
    · rw [waiting] at hw
      rcases List.mem_append.1 hw with old | new <;> rcases List.mem_append.1 hd with held | leaf
      · exact start.apart w old d held
      · exact .inl (Nat.le_trans (start.queue.inside w old).2 (fits.inside d leaf).1)
      · exact .inr (Nat.le_trans (start.fits.inside d held).2 (queue.inside w new).1)
      · exact apart w new d leaf
    · rw [waiting]
      exact start.queue.join queue (Nat.zero_le _) position
  held start := start.extend position waiting bare notExtra fits queue apart

/-- One draft in place of some, with what waits inside their span. -/
theorem enclose {children behind : List Draft} {d : Draft} (nonempty : children ≠ [])
    (braced : d.Braced → ∀ c ∈ children, c.Braced)
    (fits : ∀ low high, Fits low (absorb children s).1 high → Fits low [d] high)
    (reach : ∀ low high, Reach low (absorb children s).1 high → Reach low [d] high) :
    Orders (before ++ children ++ behind) s (before ++ [d] ++ behind) (absorb children s).2 where
  braced all := by
    simp only [List.forall_mem_append, List.forall_mem_singleton] at all ⊢
    exact ⟨⟨all.1.1, braced all.1.2⟩, all.2⟩
  fresh w hw := .inl (List.mem_filter.1 hw).1
  stands _ low _ start := by
    have head := List.head?_eq_some_head nonempty
    have tail := List.getLast?_eq_some_getLast nonempty
    exact start.enclose head tail (fits _ _ (start.absorbed head tail))
  held := .enclose nonempty reach

theorem node {children : List Draft} (nonempty : children ≠ []) (kind : String)
    (before behind : List Draft) :
    Orders (before ++ children ++ behind) s (before ++ [(Script.node kind children s).1] ++ behind)
      (Script.node kind children s).2 :=
  .enclose nonempty
    (fun braced c hc => braced_of_branch braced c
      ((absorb_perm _ _).mem_iff.2 (List.mem_append_left _ hc)))
    (fun _ _ fits => fits.branch (absorb_ne_nil nonempty s) kind) fun _ _ reach => reach.branch kind

theorem errorNode {children : List Draft} (nonempty : children ≠ []) :
    Orders children s [(Script.errorNode children s).1] (Script.errorNode children s).2 := by
  have orders : Orders ([] ++ children ++ []) s ([] ++ [(Script.errorNode children s).1] ++ [])
      (Script.errorNode children s).2 := .enclose nonempty
    (fun braced c hc => braced_of_error braced c
      ((absorb_perm _ _).mem_iff.2 (List.mem_append_left _ hc)))
    (fun _ _ fits => fits.error (absorb_ne_nil nonempty s)) fun _ _ reach => reach.error
  simpa using orders

end Orders

theorem spans_extraLeaf (t : Token) : Spans (extraLeaf t) t := ⟨rfl, rfl, rfl⟩

theorem nested_of_spans {d : Draft} {t : Token} (h : Spans d t) (long : t.start < t.stop) :
    d.Nested := by
  obtain ⟨tag, children⟩ := d
  obtain ⟨rfl, start, stop⟩ := h
  rw [← start, ← stop] at long
  exact nested_node.2 ⟨long, fits_nil _ _⟩

theorem braced_of_childless {d : Draft} (h : d.children = []) : d.Braced := by
  obtain ⟨tag, children⟩ := d
  obtain rfl : children = [] := h
  exact braced_node.2 ⟨fun _ => by simp [Rose.children], by simp⟩

/-- Leaves over one token stand for each other. -/
theorem replaceable_of_spans {d d' : Draft} {t : Token} (h : Spans d t) (h' : IsLeaf d' t) :
    ReplaceableBy d d' where
  fits nested := by
    have long := nested.long
    rw [h.start, h.stop] at long ⊢
    exact fits_singleton.2 ⟨nested_of_spans h'.toSpans long, Nat.le_of_eq h'.start.symm,
      Nat.le_of_eq h'.stop⟩
  braced _ := braced_of_childless h.childless
  reach _ _ := reach_singleton.2 ⟨tight_leaf h'.childless h'.structural, h'.structural,
    h'.start.trans h.start.symm, h'.stop.trans h.stop.symm⟩

@[simp] theorem replaceable_keywordLeaf (t : Token) : ReplaceableBy (tokenLeaf t) (keywordLeaf t) :=
  replaceable_of_spans (isLeaf_tokenLeaf t).toSpans (isLeaf_keywordLeaf t)

/-- Leaves of tokens that cut a text stand in order. -/
theorem fits_of_cut {gap : Char → Bool} {p q : Spot} {taken ts : List Token} {leaves : List Draft}
    (cut : Cut gap p taken q) (sub : ts.Sublist taken) (spans : List.Forall₂ Spans leaves ts) :
    Fits p.offset leaves q.offset := by
  have order := cut.pairwise.sublist sub
  have bounds := cut.bounds
  induction spans with
  | nil => exact fits_nil _ _
  | @cons d t ds ts first later ih =>
    obtain ⟨lower, long, higher⟩ := bounds t (sub.subset (by simp))
    obtain ⟨front, order⟩ := List.pairwise_cons.1 order
    refine fits_cons.2 ⟨⟨nested_of_spans first long, ?_, ?_⟩,
      ih ((List.sublist_cons_self t ts).trans sub) order, fun c hc => ?_⟩
    · rwa [first.start]
    · rwa [first.stop]
    · obtain ⟨u, hu, span⟩ := exists_of_forall₂ later.flip hc
      rw [first.stop, span.start]
      exact front u hu

theorem spans_extraLeaves (ts : List Token) : List.Forall₂ Spans (ts.map extraLeaf) ts :=
  List.forall₂_map_left_iff.2 (List.forall₂_same.2 fun t _ => spans_extraLeaf t)

/-- Pieces of the text from the old position up to the new one become leaves, comments among them
wait. -/
theorem Orders.of_cut {gap : Char → Bool} {p q : Spot} {parts : List Token}
    (cut : Cut gap p parts q) {s s' : Stream} (start : s.position ≤ p.offset)
    (stop : q.offset ≤ s'.position)
    (waiting : s'.waiting = s.waiting ++ (parts.filter Token.isTrivia).map extraLeaf)
    (given : List Draft) {leaves : List Draft}
    (are_leaves : List.Forall₂ IsLeaf leaves (parts.filter Token.isSignificant)) :
    Orders given s (given ++ leaves) s' := by
  have spans : List.Forall₂ Spans leaves (parts.filter Token.isSignificant) :=
    are_leaves.imp fun _ _ leaf => leaf.toSpans
  refine extend (Nat.le_trans start (Nat.le_trans cut.offset_le stop)) waiting
    (fun w hw => ?_) (fun d hd => ?_) ((fits_of_cut cut List.filter_sublist spans).mono start stop)
    ((fits_of_cut cut List.filter_sublist (spans_extraLeaves _)).mono start stop) ?_
  · obtain ⟨u, _, rfl⟩ := List.mem_map.1 hw
    exact ⟨u, rfl⟩
  · obtain ⟨u, _, leaf⟩ := exists_of_forall₂ are_leaves.flip hd
    exact ⟨leaf.childless, leaf.structural⟩
  intro w hw d hd
  obtain ⟨u, hu, rfl⟩ := List.mem_map.1 hw
  obtain ⟨v, hv, span⟩ := exists_of_forall₂ spans.flip hd
  obtain ⟨hu, trivia⟩ := List.mem_filter.1 hu
  obtain ⟨hv, significant⟩ := List.mem_filter.1 hv
  have other : u ≠ v := by
    rintro rfl
    simp [Token.isSignificant, trivia] at significant
  rw [Apart, span.start, span.stop]
  exact cut.disjoint hu hv other

/-- Tokens at the head become leaves, comments among them wait. -/
theorem Orders.advance {s : Stream} (hs : s.Sound) (given : List Draft) (taken : List Token)
    {rest : List Token} (tokens : s.tokens = taken ++ rest) {leaves : List Draft}
    (are_leaves : List.Forall₂ IsLeaf leaves (taken.filter Token.isSignificant)) :
    Orders given s (given ++ leaves)
      { s with
        waiting := s.waiting ++ (taken.filter Token.isTrivia).map extraLeaf
        tokens := rest } := by
  cases taken with
  | nil =>
    cases are_leaves
    refine extend (Nat.le_of_eq ?_) rfl (by simp) (by simp) (fits_nil _ _) (fits_nil _ _) (by simp)
    simp [Stream.position, tokens]
  | cons t more =>
    obtain ⟨p, q, cut, start, stop⟩ := hs.cut_taken tokens
      (s.waiting ++ ((t :: more).filter Token.isTrivia).map extraLeaf)
    exact .of_cut cut (Nat.le_of_eq start.symm) stop rfl given are_leaves

namespace Stands

variable {low front : Nat} {children taken : List Draft} {item : Draft} {s : Stream}

/-- Comments that stand behind all that a container holds may follow it. -/
theorem followed (h : Stands low children s) (sub : taken.Sublist s.waiting)
    (later : ∀ w ∈ taken, low ≤ w.start ∧ ∀ c ∈ children, c.stop ≤ w.start) :
    Fits low (children ++ taken) s.position := by
  refine fits_append.2 ⟨h.fits, ⟨fun w hw => ?_, fun w hw => ?_, ?_⟩, fun c hc w hw => ?_⟩
  · exact h.queue.nested w (sub.subset hw)
  · exact ⟨(later w hw).1, (h.queue.inside w (sub.subset hw)).2⟩
  · exact h.queue.ordered.sublist sub
  · exact (later w hw).2 c hc

/-- Behind an item only such comments wait as stand behind it. -/
theorem placed (h : Stands low (children ++ [item]) s)
    (later : ∀ w ∈ s.waiting.filter (fun d => d.start < item.start),
      low ≤ w.start ∧ ∀ c ∈ children, c.stop ≤ w.start) :
    Stands low (place children item s).1 (place children item s).2 ∧
      ∀ w ∈ (place children item s).2.waiting, ∀ c ∈ (place children item s).1,
        c.stop ≤ w.start := by
  obtain ⟨fits, single, across⟩ := fits_append.1 h.fits
  have long := (fits_singleton.1 single).1.long
  have held : Stands low children s :=
    ⟨fits, fun w hw c hc => h.apart w hw c (by simp [hc]), h.queue⟩
  have before : ∀ c ∈ children ++ s.waiting.filter (fun d => d.start < item.start),
      c.stop ≤ item.start := by
    refine List.forall_mem_append.2 ⟨fun c hc => across c hc item (by simp), fun w hw => ?_⟩
    obtain ⟨hw, early⟩ := List.mem_filter.1 hw
    have early : w.start < item.start := by simpa using early
    rcases h.apart w hw item (by simp) with ahead | past <;> omega
  have after : ∀ w ∈ s.waiting.filter (fun d => !(d.start < item.start)),
      item.stop ≤ w.start := by
    intro w hw
    obtain ⟨hw, late⟩ := List.mem_filter.1 hw
    have late : item.start ≤ w.start := by simpa using late
    have long' := (h.queue.nested w hw).long
    rcases h.apart w hw item (by simp) with ahead | past <;> omega
  have past : ∀ w ∈ (Script.place children item s).2.waiting,
      ∀ c ∈ (Script.place children item s).1, c.stop ≤ w.start := by
    intro w hw c hc
    have := after w hw
    rcases List.mem_append.1 hc with earlier | last
    · have := before c earlier
      omega
    · rwa [List.mem_singleton.1 last]
  refine ⟨⟨?_, fun w hw c hc => .inr (past w hw c hc), h.queue.sublist List.filter_sublist⟩, past⟩
  exact fits_append.2 ⟨held.followed List.filter_sublist later, single, by simpa using before⟩

end Stands

/-- What a container holds stands in order, as far as no comment in it starts before `front`: those
from before `front` wait until the container takes them, the others wait behind all that it holds. -/
structure Lined (front : Nat) (s₀ : Stream) (children : List Draft) (s : Stream) : Prop where
  fresh : ∀ w ∈ s.waiting, w ∈ s₀.waiting ∨ s₀.position ≤ w.start
  stands : (∀ d ∈ children, d.Braced) → (∀ d ∈ children, d.label.extra → front ≤ d.start) →
    ∀ low ≤ front, Stands low [] s₀ → Stands low children s ∧
      ∀ w ∈ s.waiting, w.stop ≤ front ∨ ∀ c ∈ children, c.stop ≤ w.start
  contains : Held [] s₀ → Contains children s

namespace Lined

variable {front low : Nat} {s₀ s s' : Stream} {children : List Draft} {item : Draft}

/-- A container that starts with a token. -/
theorem start {d : Draft} (h : Orders [] s₀ [d] s) (here : d.start = s₀.position) :
    Lined s₀.position s₀ [d] s where
  fresh := h.fresh
  stands braced _ low lower start := by
    have stands := h.stands braced low lower start
    refine ⟨stands, fun w hw => ?_⟩
    have apart : Apart w d := stands.apart w hw d (by simp)
    exact apart.imp (fun before => here ▸ before) fun behind => by simpa using behind
  contains start := .of_held (h.held start)

/-- A comment that may be in the container stands behind all that the container holds. -/
theorem later (sound : s.Sound) (queue : ∀ w ∈ s.waiting, w.Nested) (lower : low ≤ front)
    (order : ∀ w ∈ s.waiting, w.stop ≤ front ∨ ∀ c ∈ children, c.stop ≤ w.start)
    {taken : List Draft} (sub : ∀ w ∈ taken, w ∈ s.waiting)
    (extras : ∀ w ∈ taken, w.label.extra → front ≤ w.start) :
    ∀ w ∈ taken, low ≤ w.start ∧ ∀ c ∈ children, c.stop ≤ w.start := by
  intro w hw
  obtain ⟨t, _, _, rfl⟩ := sound.waiting w (sub w hw)
  have long := (queue _ (sub _ hw)).long
  have inner := extras _ hw rfl
  refine ⟨Nat.le_trans lower inner, (order _ (sub _ hw)).resolve_left ?_⟩
  omega

theorem place (h : Lined front s₀ children s) (front_le : front ≤ s.position)
    (position : s₀.position ≤ s.position) (read : Orders [] s [item] s')
    (position' : s.position ≤ s'.position) (sound : s'.Sound) :
    Lined front s₀ (place children item s').1 (place children item s').2 where
  fresh w hw := by
    rcases read.fresh w (List.mem_filter.1 hw).1 with old | new
    · exact h.fresh w old
    · exact .inr (Nat.le_trans position new)
  stands braced extras low lower start := by
    simp only [Script.place, List.forall_mem_append] at braced extras
    obtain ⟨stands, order⟩ := h.stands braced.1.1 extras.1.1 low lower start
    have framed := (read.frame children position').stands
      (List.forall_mem_append.2 ⟨braced.1.1, braced.2⟩) low
      (Nat.le_trans lower front_le) (by rwa [List.append_nil])
    have order' : ∀ w ∈ s'.waiting, w.stop ≤ front ∨ ∀ c ∈ children, c.stop ≤ w.start := by
      intro w hw
      rcases read.fresh w hw with old | new
      · exact order w old
      · exact .inr fun c hc => Nat.le_trans (stands.fits.inside c hc).2 new
    obtain ⟨stands', past⟩ := framed.placed (later sound framed.queue.nested lower order'
      (fun w hw => (List.mem_filter.1 hw).1) extras.1.2)
    exact ⟨stands', fun w hw => .inr (past w hw)⟩
  contains start := (h.contains start).place read.held position'

theorem flush (h : Lined front s₀ children s) (sound : s.Sound) :
    Lined front s₀ (flush children s).1 (flush children s).2 where
  fresh := by simp [Script.flush]
  stands braced extras low lower start := by
    simp only [Script.flush, List.forall_mem_append] at braced extras
    obtain ⟨stands, order⟩ := h.stands braced.1 extras.1 low lower start
    have later := later sound stands.queue.nested lower order (fun w hw => hw) extras.2
    have fits := stands.followed (List.Sublist.refl _) later
    exact ⟨⟨fits, by simp [Script.flush], fits_nil _ _⟩, by simp [Script.flush]⟩
  contains start := (h.contains start).flush

/-- Another draft stands for the first when nothing waits any more. -/
theorem replaceable {d d' : Draft} (h : Lined front s₀ (d :: children) s)
    (first : ReplaceableBy d d')
    (notExtra : d.label.extra = false) (nothing : s.waiting = []) :
    Lined front s₀ (d' :: children) s where
  fresh := h.fresh
  stands braced held low lower start := by
    have replaceables : List.Forall₂ ReplaceableBy (d :: children) (d' :: children) :=
      .cons first (List.forall₂_same.2 fun c _ => .refl c)
    have braced' : ∀ c ∈ d :: children, c.Braced :=
      (Orders.replaceable (s := s) replaceables).braced braced
    have held' : ∀ c ∈ d :: children, c.label.extra → front ≤ c.start := by
      refine List.forall_mem_cons.2 ⟨fun extra => ?_, (List.forall_mem_cons.1 held).2⟩
      simp [notExtra] at extra
    obtain ⟨stands, _⟩ := h.stands braced' held' low lower start
    exact ⟨stands.replaceable replaceables, by simp [nothing]⟩
  contains start := (h.contains start).replaceable first notExtra nothing

end Lined

/-- A block, which starts with its brace and ends in a comment only if it does not close. -/
theorem Orders.compound {s₀ s : Stream} {children : List Draft}
    (lined : Lined s₀.position s₀ children s) (position : s₀.position ≤ s.position)
    {first last : Draft} (head : children.head? = some first) (start : first.start = s₀.position)
    (notExtra : first.label.extra = false) (tail : children.getLast? = some last)
    (closed : last.label.extra → first.isError) :
    Orders [] s₀ [(Script.node Kind.compoundStatement children s).1]
      (Script.node Kind.compoundStatement children s).2 where
  braced := by simp
  fresh w hw := lined.fresh w (List.mem_filter.1 hw).1
  stands braced low lower stands := by
    have nonempty : children ≠ [] := by
      rintro rfl
      contradiction
    have block : (branch Kind.compoundStatement (absorb children s).1).Braced :=
      braced _ (List.mem_singleton_self _)
    have taken : ∀ c ∈ children, c ∈ (absorb children s).1 := fun c hc =>
      (absorb_perm _ _).mem_iff.2 (List.mem_append_left _ hc)
    have extras : ∀ c ∈ children, c.label.extra → s₀.position ≤ c.start := by
      intro c hc extra
      have := (braced_node.1 block).1 rfl c (taken c hc) extra
      simpa [Draft.start, Rose.label, head?_absorb head s, ← start] using this
    have below := braced_of_branch block
    obtain ⟨held, _⟩ := lined.stands (fun c hc => below c (taken c hc)) extras low lower stands
    have node := Orders.node (s := s) nonempty Kind.compoundStatement [] []
    simpa using node.stands (by simpa using braced) low (Nat.le_trans lower position)
      (by simpa using held)
  held held := (lined.contains held).compound head notExtra tail closed

/-- From drafts at one stream to drafts at another nothing is lost, made up or moved. -/
structure Kept (given : List Draft) (s : Stream) (out : List Draft) (s' : Stream) : Prop where
  conserves : Conserves given s out s'
  orders : Orders given s out s'

namespace Kept

variable {given mid out : List Draft} {s s' s'' : Stream}

theorem passes (h : Kept given s out s') : s.Passes s' := h.conserves.passes

theorem trans (h : Kept given s mid s') (h' : Kept mid s' out s'') : Kept given s out s'' :=
  ⟨h.conserves.trans h'.conserves, h.orders.trans h'.orders h.passes.position⟩

theorem frame (before : List Draft) (h : Kept given s out s') :
    Kept (before ++ given) s (before ++ out) s' :=
  ⟨h.conserves.frame before, h.orders.frame before h.passes.position⟩

end Kept

end Script

end RouteScript
