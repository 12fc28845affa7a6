import RouteScript.Proofs.Conserves
import RouteScript.Proofs.Nesting.Nested
/-!
# Tight drafts that are held

The drafts that a reader holds are tight, end before the next token, and have no waiting comment
between their ends. A comment that a node takes in stands between its first and its last child.
-/
namespace RouteScript.Script

open Draft

theorem insertByStart_perm (d : Draft) (cs : List Draft) : (insertByStart d cs).Perm (d :: cs) := by
  induction cs with
  | nil => exact .refl _
  | cons c cs ih =>
    unfold insertByStart
    split
    · exact (ih.cons c).trans (.swap d c cs)
    · exact .refl _

theorem absorb_perm (taken children : List Draft) :
    (taken.foldl (fun cs d => insertByStart d cs) children).Perm (children ++ taken) := by
  induction taken generalizing children with
  | nil => simp
  | cons d taken ih =>
    refine (ih _).trans (((insertByStart_perm d children).append_right taken).trans ?_)
    exact List.perm_middle.symm

theorem absorb_ne_nil {children : List Draft} (h : children ≠ []) (s : Stream) :
    (absorb children s).1 ≠ [] := by
  obtain ⟨d, rest, rfl⟩ := List.exists_cons_of_ne_nil h
  intro nothing
  have perm : (absorb (d :: rest) s).1.Perm _ := absorb_perm _ _
  rw [nothing] at perm
  simpa using perm.length_eq

theorem insertByStart_concat {c d : Draft} (h : d.start < c.start) (cs : List Draft) :
    ∃ ds, insertByStart d (cs ++ [c]) = ds ++ [c] := by
  induction cs with
  | nil => exact ⟨[d], by simp [insertByStart, Nat.not_le.2 h]⟩
  | cons c' cs ih =>
    obtain ⟨ds, eq⟩ := ih
    by_cases before : c'.start ≤ d.start
    · exact ⟨c' :: ds, by simp [insertByStart, before, eq]⟩
    · exact ⟨d :: c' :: cs, by simp [insertByStart, before]⟩

theorem isInside_iff {children : List Draft} {first last w : Draft}
    (head : children.head? = some first) (tail : children.getLast? = some last) :
    isInside children w ↔ first.start ≤ w.start ∧ w.stop ≤ last.stop := by
  simp [isInside, head, tail]

/-- What waits behind a node does not lie in the span of its children. -/
theorem outside_of_absorb {children : List Draft} {first last w : Draft} {s : Stream}
    (head : children.head? = some first) (tail : children.getLast? = some last)
    (hw : w ∈ (absorb children s).2.waiting) : ¬ (first.start ≤ w.start ∧ w.stop ≤ last.stop) := by
  have outside : ¬ isInside children w := by simpa using (List.mem_filter.1 hw).2
  exact mt (isInside_iff head tail).2 outside

/-- A comment inside the span of some drafts is not put before the first. -/
theorem head?_absorb {children : List Draft} {first : Draft} (head : children.head? = some first)
    (s : Stream) : (absorb children s).1.head? = some first := by
  have inside : ∀ w ∈ s.waiting.filter (isInside children), first.start ≤ w.start := by
    intro w hw
    have within := (List.mem_filter.1 hw).2
    simp only [isInside, head] at within
    split at within
    · rename_i first' _ same _
      cases same
      simp only [Bool.and_eq_true, decide_eq_true_eq] at within
      exact within.1
    · contradiction
  have kept (taken : List Draft) (inside : ∀ w ∈ taken, first.start ≤ w.start)
      {ds : List Draft} (head : ds.head? = some first) :
      (taken.foldl (fun cs d => insertByStart d cs) ds).head? = some first := by
    induction taken generalizing ds with
    | nil => exact head
    | cons w taken ih =>
      refine ih (fun v hv => inside v (by simp [hv])) ?_
      obtain ⟨more, rfl⟩ := List.head?_eq_some_iff.1 head
      simp [insertByStart, inside w (by simp)]
  exact kept _ inside head

/-- Nor is it put behind the last, if that does not cover it. -/
theorem getLast?_absorb {children : List Draft} {last : Draft} {s : Stream}
    (tail : children.getLast? = some last)
    (clear : ∀ w ∈ s.waiting, ¬ (last.start ≤ w.start ∧ w.stop ≤ last.stop)) :
    (absorb children s).1.getLast? = some last := by
  have early : ∀ w ∈ s.waiting.filter (isInside children), w.start < last.start := by
    intro w hw
    obtain ⟨waits, inside⟩ := List.mem_filter.1 hw
    have some_child : children ≠ [] := by
      rintro rfl
      contradiction
    have high := ((isInside_iff (List.head?_eq_some_head some_child) tail).1 inside).2
    exact Nat.lt_of_not_le fun low => clear w waits ⟨low, high⟩
  have kept (taken : List Draft) (early : ∀ w ∈ taken, w.start < last.start) (ds : List Draft) :
      (taken.foldl (fun cs d => insertByStart d cs) (ds ++ [last])).getLast? = some last := by
    induction taken generalizing ds with
    | nil => exact List.getLast?_concat
    | cons w taken ih =>
      obtain ⟨ds', placed⟩ := insertByStart_concat (early w (by simp)) ds
      rw [List.foldl_cons, placed]
      exact ih (fun v hv => early v (by simp [hv])) ds'
  obtain ⟨ds, rfl⟩ := List.getLast?_eq_some_iff.1 tail
  exact kept _ early ds

/-- A tight draft before the next token, between the ends of which nothing waits. -/
structure TightBefore (s : Stream) (d : Draft) : Prop where
  tight : d.Tight
  notExtra : d.label.extra = false
  past : d.stop ≤ s.position
  clear : ∀ w ∈ s.waiting, ¬ (d.start ≤ w.start ∧ w.stop ≤ d.stop)

/-- What waits are comments before the next token. -/
def Queued (s : Stream) : Prop :=
  ∀ w ∈ s.waiting, w.IsExtraLeaf ∧ w.start < w.stop ∧ w.stop ≤ s.position

structure Held (ds : List Draft) (s : Stream) : Prop where
  queue : Queued s
  tightBefore : ∀ d ∈ ds, TightBefore s d

theorem TightBefore.onward {s s' : Stream} {d : Draft} (h : TightBefore s d) (queue : Queued s')
    (fresh : ∀ w ∈ s'.waiting, w ∈ s.waiting ∨ s.position ≤ w.start)
    (position : s.position ≤ s'.position) : TightBefore s' d where
  tight := h.tight
  notExtra := h.notExtra
  past := Nat.le_trans h.past position
  clear w hw inside := by
    rcases fresh w hw with old | new
    · exact h.clear w old inside
    · have long := (queue w hw).2.1
      have past := h.past
      have high := inside.2
      omega

theorem TightBefore.sublist {s : Stream} {d : Draft} (h : TightBefore s d) {waiting : List Draft}
    (sub : waiting.Sublist s.waiting) : TightBefore { s with waiting } d :=
  ⟨h.tight, h.notExtra, h.past, fun w hw => h.clear w (sub.subset hw)⟩

theorem Queued.sublist {s : Stream} (h : Queued s) {waiting : List Draft}
    (sub : waiting.Sublist s.waiting) : Queued { s with waiting } :=
  fun w hw => h w (sub.subset hw)

namespace Held

variable {given out before children behind : List Draft} {s s' : Stream}

/-- What is set aside is still held. -/
theorem frame (read : Held given s → Held out s')
    (fresh : ∀ w ∈ s'.waiting, w ∈ s.waiting ∨ s.position ≤ w.start)
    (position : s.position ≤ s'.position) (h : Held (before ++ given) s) :
    Held (before ++ out) s' := by
  obtain ⟨queue, tightBefore⟩ := h
  rw [List.forall_mem_append] at tightBefore
  have later := read ⟨queue, tightBefore.2⟩
  refine ⟨later.queue, List.forall_mem_append.2 ⟨fun d hd => ?_, later.tightBefore⟩⟩
  exact (tightBefore.1 d hd).onward later.queue fresh position

theorem replaceable (h : Held given s) (replaceables : List.Forall₂ ReplaceableBy given out) :
    Held out s := by
  refine ⟨h.queue, fun d hd => ?_⟩
  obtain ⟨c, hc, replaceable⟩ := exists_of_forall₂ replaceables hd
  obtain ⟨tight, notExtra, past, clear⟩ := h.tightBefore c hc
  obtain ⟨tight', notExtra', start, stop⟩ := reach_singleton.1 (replaceable.reach tight notExtra)
  refine ⟨tight', notExtra', stop ▸ past, fun w hw => ?_⟩
  rw [start, stop]
  exact clear w hw

/-- New leaves, and comments that wait from now on and stand apart from them. -/
theorem extend (h : Held given s) (position : s.position ≤ s'.position) {leaves more : List Draft}
    (waiting : s'.waiting = s.waiting ++ more) (bare : ∀ w ∈ more, w.IsExtraLeaf)
    (notExtra : ∀ d ∈ leaves, d.children = [] ∧ d.label.extra = false)
    (fits : Fits s.position leaves s'.position) (queue : Fits s.position more s'.position)
    (apart : ∀ w ∈ more, ∀ d ∈ leaves, Apart w d) : Held (given ++ leaves) s' := by
  have queued : Queued s' := by
    intro w hw
    rw [waiting] at hw
    rcases List.mem_append.1 hw with old | new
    · obtain ⟨comment, long, past⟩ := h.queue w old
      exact ⟨comment, long, Nat.le_trans past position⟩
    · exact ⟨bare w new, (queue.nested w new).long, (queue.inside w new).2⟩
  have fresh : ∀ w ∈ s'.waiting, w ∈ s.waiting ∨ s.position ≤ w.start := by
    intro w hw
    rw [waiting] at hw
    exact (List.mem_append.1 hw).imp id fun new => (queue.inside w new).1
  refine ⟨queued, List.forall_mem_append.2 ⟨fun d hd => ?_, fun d hd => ?_⟩⟩
  · exact (h.tightBefore d hd).onward queued fresh position
  · refine ⟨tight_leaf (notExtra d hd).1 (notExtra d hd).2, (notExtra d hd).2, (fits.inside d hd).2,
      ?_⟩
    intro w hw inside
    have long := (queued w hw).2.1
    have low := (fits.inside d hd).1
    rw [waiting] at hw
    rcases List.mem_append.1 hw with old | new
    · have past := (h.queue w old).2.2
      omega
    · rcases apart w new d hd with front | back <;> omega

/-- What lies between the ends of some drafts is taken in between them. -/
theorem absorbed (h : Held children s) {first last : Draft} (head : children.head? = some first)
    (tail : children.getLast? = some last) :
    Reach first.start (absorb children s).1 last.stop := by
  have hfirst := h.tightBefore first (List.mem_of_head? head)
  have hlast := h.tightBefore last (List.mem_of_getLast? tail)
  refine ⟨fun c hc => ?_, ⟨first, head?_absorb head s, hfirst.notExtra, rfl⟩,
    last, getLast?_absorb tail hlast.clear, hlast.notExtra, rfl⟩
  rcases List.mem_append.1 ((absorb_perm _ _).mem_iff.1 hc) with held | taken
  · exact (h.tightBefore c held).tight
  · exact (h.queue c (List.mem_filter.1 taken).1).1.tight

/-- A draft in place of some that reaches as far, with what waits between their ends. -/
theorem enclose {d : Draft} (nonempty : children ≠ [])
    (reach : ∀ low high, Reach low (absorb children s).1 high → Reach low [d] high)
    (h : Held (before ++ children ++ behind) s) :
    Held (before ++ [d] ++ behind) (absorb children s).2 := by
  have sub : (s.waiting.filter fun w => !isInside children w).Sublist s.waiting :=
    List.filter_sublist
  obtain ⟨queue, tightBefore⟩ := h
  simp only [List.forall_mem_append] at tightBefore
  obtain ⟨⟨left, middle⟩, right⟩ := tightBefore
  have head := List.head?_eq_some_head nonempty
  have tail := List.getLast?_eq_some_getLast nonempty
  obtain ⟨tight, notExtra, start, stop⟩ :=
    reach_singleton.1 (reach _ _ (absorbed ⟨queue, middle⟩ head tail))
  have past := (middle _ (List.getLast_mem nonempty)).past
  refine ⟨queue.sublist sub, ?_⟩
  simp only [List.forall_mem_append, List.forall_mem_singleton]
  refine ⟨⟨fun c hc => (left c hc).sublist sub, tight, notExtra, stop ▸ past, ?_⟩,
    fun c hc => (right c hc).sublist sub⟩
  intro w hw
  rw [start, stop]
  exact outside_of_absorb head tail hw

end Held

/-- A container holds tight drafts and comments, and nothing waits between the ends of the last of
them. -/
structure Contains (children : List Draft) (s : Stream) : Prop where
  queue : Queued s
  tight : ∀ c ∈ children, c.Tight
  past : ∀ c ∈ children, c.stop ≤ s.position
  last : ∀ c, children.getLast? = some c → TightBefore s c ∨ s.waiting = []

namespace Contains

variable {children : List Draft} {item : Draft} {s s' : Stream}

theorem of_held (h : Held children s) : Contains children s :=
  ⟨h.queue, fun c hc => (h.tightBefore c hc).tight, fun c hc => (h.tightBefore c hc).past,
    fun c hc => .inl (h.tightBefore c (List.mem_of_getLast? hc))⟩

theorem place (h : Contains children s) (read : Held [] s → Held [item] s')
    (position : s.position ≤ s'.position) :
    Contains (place children item s').1 (place children item s').2 := by
  have later := read ⟨h.queue, by simp⟩
  have tightBefore := later.tightBefore item (by simp)
  refine ⟨later.queue.sublist List.filter_sublist, fun c hc => ?_, fun c hc => ?_, fun c hc => ?_⟩
  · rcases List.mem_append.1 hc with front | last
    · rcases List.mem_append.1 front with held | taken
      · exact h.tight c held
      · exact (later.queue c (List.mem_filter.1 taken).1).1.tight
    · exact List.mem_singleton.1 last ▸ tightBefore.tight
  · rcases List.mem_append.1 hc with front | last
    · rcases List.mem_append.1 front with held | taken
      · exact Nat.le_trans (h.past c held) position
      · exact (later.queue c (List.mem_filter.1 taken).1).2.2
    · exact List.mem_singleton.1 last ▸ tightBefore.past
  · obtain rfl : item = c := by simpa [Script.place] using hc
    exact .inl (tightBefore.sublist List.filter_sublist)

theorem flush (h : Contains children s) :
    Contains (flush children s).1 (flush children s).2 := by
  refine ⟨fun w hw => absurd hw List.not_mem_nil, ?_, ?_, fun _ _ => .inr rfl⟩
  · exact List.forall_mem_append.2 ⟨h.tight, fun w hw => (h.queue w hw).1.tight⟩
  · exact List.forall_mem_append.2 ⟨h.past, fun w hw => (h.queue w hw).2.2⟩

/-- Another draft stands for the first. -/
theorem replaceable {d d' : Draft} (h : Contains (d :: children) s)
    (replaceable : ReplaceableBy d d') (notExtra : d.label.extra = false)
    (nothing : s.waiting = []) : Contains (d' :: children) s := by
  have tight := List.forall_mem_cons.1 h.tight
  have past := List.forall_mem_cons.1 h.past
  obtain ⟨tight', _, _, stop⟩ := reach_singleton.1 (replaceable.reach tight.1 notExtra)
  exact ⟨h.queue, List.forall_mem_cons.2 ⟨tight', tight.2⟩,
    List.forall_mem_cons.2 ⟨stop ▸ past.1, past.2⟩, fun _ _ => .inr nothing⟩

/-- A block with what it contains is a held draft. It ends in a comment only if it does not close. -/
theorem compound (h : Contains children s) {first last : Draft}
    (head : children.head? = some first) (notExtra : first.label.extra = false)
    (tail : children.getLast? = some last) (closed : last.label.extra → first.isError) :
    Held [(node Kind.compoundStatement children s).1] (node Kind.compoundStatement children s).2 := by
  have head' := head?_absorb head s
  have tail' : (absorb children s).1.getLast? = some last := by
    rcases h.last last tail with tightBefore | nothing
    · exact getLast?_absorb tail tightBefore.clear
    · exact getLast?_absorb tail (by simp [nothing])
  have tight : ∀ c ∈ (absorb children s).1, c.Tight := by
    intro c hc
    rcases List.mem_append.1 ((absorb_perm _ _).mem_iff.1 hc) with held | taken
    · exact h.tight c held
    · exact (h.queue c (List.mem_filter.1 taken).1).1.tight
  have past := h.past last (List.mem_of_getLast? tail)
  have block : (node Kind.compoundStatement children s).1
      = .node ⟨Kind.compoundStatement, true, false, none, first.start, last.stop⟩
        (absorb children s).1 := by
    change branch Kind.compoundStatement (absorb children s).1 = _
    rw [branch, head', tail']
    rfl
  rw [block]
  refine ⟨h.queue.sublist List.filter_sublist, List.forall_mem_singleton.2
    ⟨tight_node.2 ⟨⟨fun extra => absurd extra Bool.false_ne_true, fun c hc => ?_, fun c hc => ?_⟩,
      tight⟩, rfl, past, fun w hw => ?_⟩⟩
  · obtain rfl : first = c := Option.some.inj (head'.symm.trans hc)
    exact ⟨notExtra, rfl⟩
  · obtain rfl : last = c := Option.some.inj (tail'.symm.trans hc)
    refine ⟨rfl, fun extra => ?_⟩
    simp [isUnclosed, Rose.label, Rose.children, head', closed extra]
  · have outside := outside_of_absorb head tail hw
    exact outside

end Contains

end RouteScript.Script
