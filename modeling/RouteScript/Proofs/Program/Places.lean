import RouteScript.Proofs.Extras.Draft
import RouteScript.Proofs.Program.Items
/-!
# Outlines over spans

The structure of a draft whose nodes reach from their first leaf to their last is known from its
outline and the spans of its leaves: `Outline.lay` makes it from these two.

The bits of a printed program tell where its tokens are. The leaves of its tree have these spans, so
the structure of the tree is the outline of the program laid over them.
-/
namespace RouteScript

/-- The label of a leaf of the structure. -/
def Form.tag (form : Form) (span : Nat × Nat) : Tag :=
  ⟨form.kind, form.named, false, form.field, span.1, span.2⟩

/-- A node of the structure around some drafts. -/
def Form.branch (form : Form) (ds : List Draft) : Draft :=
  (Draft.branch form.kind ds).relabel fun t => { t with named := form.named, field := form.field }

theorem Form.branch_named (kind : String) (text : Option (List Char)) (ds : List Draft) :
    (Form.mk kind true none text).branch ds = Draft.branch kind ds := rfl

namespace Outline

mutual

/-- The draft of an outline whose leaves have the given spans, and the spans that are left. -/
def lay (spans : List (Nat × Nat)) : Outline → Draft × List (Nat × Nat)
  | .node form below =>
    let inner := layAll spans below
    if below.isEmpty then (.node (form.tag (spans.headD (0, 0))) [], spans.tail)
    else (form.branch inner.1, inner.2)

def layAll (spans : List (Nat × Nat)) : List Outline → List Draft × List (Nat × Nat)
  | [] => ([], spans)
  | o :: os =>
    let first := lay spans o
    let others := layAll first.2 os
    (first.1 :: others.1, others.2)

end

variable {spans : List (Nat × Nat)}

theorem lay_node (form : Form) {below : List Outline} (some_child : below ≠ []) :
    lay spans (.node form below) = (form.branch (layAll spans below).1, (layAll spans below).2) := by
  rw [lay, if_neg (by simpa using some_child)]

theorem layAll_append (os os' : List Outline) : layAll spans (os ++ os') =
    ((layAll spans os).1 ++ (layAll (layAll spans os).2 os').1,
      (layAll (layAll spans os).2 os').2) := by
  induction os generalizing spans with
  | nil => rfl
  | cons o os ih => simp only [List.cons_append, layAll, ih]

theorem layAll_rest_of {os : List Outline}
    (h : ∀ o ∈ os, ∀ spans, (lay spans o).2 = spans.drop o.leaves.length)
    (spans : List (Nat × Nat)) :
    (layAll spans os).2 = spans.drop (os.flatMap Rose.leaves).length := by
  induction os generalizing spans with
  | nil => rfl
  | cons o os ih =>
    obtain ⟨here, later⟩ := List.forall_mem_cons.1 h
    rw [layAll, ih later, here, List.drop_drop, List.flatMap_cons, List.length_append]

/-- As many spans are used as there are leaves. -/
theorem lay_rest (o : Outline) (spans : List (Nat × Nat)) :
    (lay spans o).2 = spans.drop o.leaves.length := by
  induction o using Rose.induction generalizing spans with
  | node form below ih =>
    by_cases childless : below = []
    · subst childless
      exact List.drop_one.symm
    · rw [lay_node form childless, Rose.leaves_node, if_neg (by simpa using childless)]
      exact layAll_rest_of ih spans

theorem layAll_rest (os : List Outline) (spans : List (Nat × Nat)) :
    (layAll spans os).2 = spans.drop (os.flatMap Rose.leaves).length :=
  layAll_rest_of (fun o _ => lay_rest o) spans

theorem kinds_layAll_of {os : List Outline}
    (h : ∀ o ∈ os, ∀ spans, (lay spans o).1.labels.map Tag.kind = o.labels.map Form.kind)
    (spans : List (Nat × Nat)) :
    ((layAll spans os).1.flatMap Rose.labels).map Tag.kind =
      (os.flatMap Rose.labels).map Form.kind := by
  induction os generalizing spans with
  | nil => rfl
  | cons o os ih =>
    obtain ⟨here, later⟩ := List.forall_mem_cons.1 h
    rw [layAll, List.flatMap_cons, List.flatMap_cons, List.map_append, List.map_append, here,
      ih later]

/-- A draft has the kinds of its outline. -/
theorem kinds_lay (o : Outline) (spans : List (Nat × Nat)) :
    (lay spans o).1.labels.map Tag.kind = o.labels.map Form.kind := by
  induction o using Rose.induction generalizing spans with
  | node form below ih =>
    by_cases childless : below = []
    · subst childless
      rfl
    · have inner := kinds_layAll_of ih spans
      rw [lay_node form childless, Form.branch, Draft.branch, Draft.relabel, Rose.labels_node,
        Rose.labels_node, List.map_cons, List.map_cons, inner]

theorem kinds_layAll (os : List Outline) (spans : List (Nat × Nat)) :
    ((layAll spans os).1.flatMap Rose.labels).map Tag.kind =
      (os.flatMap Rose.labels).map Form.kind :=
  kinds_layAll_of (fun o _ => kinds_lay o) spans

end Outline

namespace Draft

open Outline

variable {source : List Char} {rest : List (Nat × Nat)}

theorem label_stripped (d : Draft) : d.stripped.label = d.label := Rose.label_prune _ d

/-- A draft of the structure is made of its outline and the spans of its leaves. -/
def Lies (source : List Char) (d : Draft) : Prop :=
  ∀ rest, layAll (d.solidLeaves.map Tag.span ++ rest) (outlines source d) = ([d.stripped], rest)

theorem layAll_outlines {ds : List Draft}
    (h : ∀ d ∈ ds, if d.label.extra then d.children = [] else Lies source d)
    (rest : List (Nat × Nat)) :
    layAll ((ds.flatMap solidLeaves).map Tag.span ++ rest) (outlinesOf source ds) =
      ((ds.filter fun d => !d.label.extra).map stripped, rest) := by
  induction ds with
  | nil => rfl
  | cons d ds ih =>
    obtain ⟨here, later⟩ := List.forall_mem_cons.1 h
    cases extra : d.label.extra with
    | true =>
      rw [extra, if_pos rfl] at here
      have nothing : d.outlines source = [] ∧ d.solidLeaves = [] := by
        obtain ⟨t, children⟩ := d
        obtain rfl : children = [] := here
        have marked : t.extra := extra
        simp [outlines_node, solidLeaves, Rose.leaves_node, marked]
      rw [List.flatMap_cons, outlinesOf_cons, nothing.1, nothing.2,
        List.filter_cons_of_neg (by simp [extra])]
      exact ih later
    | false =>
      rw [extra, if_neg Bool.false_ne_true] at here
      rw [List.flatMap_cons, outlinesOf_cons, List.map_append, List.append_assoc, layAll_append,
        here, ih later, List.filter_cons_of_pos (by simp [extra])]
      rfl

/-- The ends of a node are those of its structure. -/
theorem Ended.branch_stripped {t : Tag} {children : List Draft} (h : Ended (.node t children))
    (notExtra : t.extra = false) (childless : children ≠ []) :
    (t.form source false).branch ((children.filter fun d => !d.label.extra).map Draft.stripped) =
      .node t ((children.filter fun d => !d.label.extra).map Draft.stripped) := by
  obtain ⟨framed, ends, _⟩ := ended_node.1 h
  have head : ((children.filter fun d => !d.label.extra).map Draft.stripped).head?.map start =
      some t.start := by
    obtain ⟨c, more, rfl⟩ := List.exists_cons_of_ne_nil childless
    obtain ⟨kept, low⟩ := framed.first c rfl
    rw [List.filter_cons_of_pos (by simp [kept]), List.map_cons, List.head?_cons, Option.map_some,
      start, label_stripped]
    exact congrArg some low
  have last : ((children.filter fun d => !d.label.extra).map Draft.stripped).getLast?.map stop =
      some t.stop := by
    have tail := List.getLast?_eq_some_getLast childless
    generalize children.getLast childless = c at tail
    obtain ⟨front, rfl⟩ := List.getLast?_eq_some_iff.1 tail
    rw [List.filter_append, List.filter_cons_of_pos (by simp [ends c tail]), List.filter_nil,
      List.map_append, List.map_singleton, List.getLast?_concat, Option.map_some, stop,
        label_stripped]
    exact congrArg some (framed.last c tail).1
  obtain ⟨kind, named, extra, field, low, high⟩ := t
  obtain rfl : extra = false := notExtra
  rw [Form.branch, Draft.branch, head, last]
  rfl

theorem Ended.lies {d : Draft} (h : d.Ended)
    (notExtra : d.label.extra = false) : d.Lies source := by
  induction d using Rose.induction with
  | node t children ih =>
    have solid : t.extra = false := notExtra
    have ⟨framed, ends, below⟩ := ended_node.1 h
    intro rest
    rw [outlines_node, solid, if_neg Bool.false_ne_true, layAll, layAll]
    by_cases childless : children = []
    · subst childless
      have leaf : solidLeaves (.node t []) = [t] := by simp [solidLeaves, Rose.leaves_node, solid]
      obtain ⟨kind, named, extra, field, low, high⟩ := t
      obtain rfl : extra = false := solid
      rw [leaf]
      rfl
    · have inner : ∀ d ∈ children, if d.label.extra then d.children = [] else Lies source d := by
        intro d hd
        split
        · rename_i extra
          exact (((below d hd).tight d d.mem_nodes_self).bare extra).childless
        · rename_i kept
          exact ih d hd (below d hd) (Bool.eq_false_iff.2 kept)
      have shown : outlinesOf source children ≠ [] := by
        obtain ⟨c, more, rfl⟩ := List.exists_cons_of_ne_nil childless
        obtain ⟨u, _⟩ := c
        have kept : u.extra = false := (framed.first _ rfl).1
        simp [outlines_node, kept]
      rw [lay_node _ shown, solidLeaves_node t childless, layAll_outlines inner, stripped_node,
        List.isEmpty_eq_false_iff.2 childless, h.branch_stripped solid childless]

end Draft

def Token.span (t : Token) : Nat × Nat := (t.start, t.stop)

namespace Bit

open Token

/-- Where some bits start that end a text of a certain size. -/
def offset (total : Nat) (bs : List Bit) : Nat := total - Text.size (textOf bs)

/-- The spans of the significant tokens among bits that end a text of a certain size. -/
def spans (total : Nat) : List Bit → List (Nat × Nat)
  | [] => []
  | gap _ :: bs => spans total bs
  | token kind text :: bs =>
    if kind.isTrivia then spans total bs
    else (offset total (token kind text :: bs), offset total bs) :: spans total bs

variable {bs : List Bit}

theorem spans_tokens {rounds start : Nat} {lineStart newline : Bool} (fit : AllFit bs)
    (enough : (textOf bs).length ≤ rounds) :
    ((Scan.tokens rounds ⟨textOf bs, start, lineStart, newline⟩).filter isSignificant).map
      Token.span = spans (start + Text.size (textOf bs)) bs := by
  induction bs generalizing rounds start lineStart newline with
  | nil => cases rounds <;> rfl
  | cons b bs ih =>
    obtain ⟨first, others⟩ := fit
    rw [textOf_cons, List.length_append] at enough
    have total : start + Text.size (textOf (b :: bs)) =
        start + Text.size b.text + Text.size (textOf bs) := by
      rw [textOf_cons, Text.size_append, Nat.add_assoc]
    rw [total]
    cases b with
    | gap text =>
      obtain ⟨left, rfl⟩ := Nat.exists_eq_add_of_le (Nat.le_trans (Nat.le_add_right _ _) enough)
      obtain ⟨lineStart', passed⟩ := tokens_gap first left (textOf bs) start lineStart newline
      rw [textOf_cons, Bit.text, passed]
      exact ih others (Nat.le_of_add_le_add_left enough)
    | token kind text =>
      have longer : 0 < text.length := by
        obtain ⟨c, more, rfl, _⟩ := first
        simp
      simp only [Bit.text] at enough ⊢
      obtain ⟨left, rfl⟩ : ∃ left, rounds = left + 1 := ⟨rounds - 1, by omega⟩
      have enough : (textOf bs).length ≤ left := by omega
      rw [textOf_cons, Bit.text, tokens_token first, spans]
      cases trivia : kind.isTrivia with
      | true =>
        rw [List.filter_cons_of_neg (by simp [isSignificant, isTrivia, trivia]), if_pos rfl]
        exact ih others enough
      | false =>
        have low : offset (start + Text.size text + Text.size (textOf bs))
            (token kind text :: bs) = start := by
          rw [offset, textOf_cons, Bit.text, Text.size_append]
          omega
        have high : offset (start + Text.size text + Text.size (textOf bs)) bs =
            start + Text.size text := Nat.add_sub_cancel _ _
        rw [List.filter_cons_of_pos (by simp [isSignificant, isTrivia, trivia]), List.map_cons,
          if_neg Bool.false_ne_true, low, high]
        exact congrArg _ (ih others enough)

/-- The significant tokens of a text stand where its bits tell. -/
theorem spans_all (fit : AllFit bs) :
    ((Token.all (textOf bs)).filter isSignificant).map Token.span =
      spans (Text.size (textOf bs)) bs := by
  rw [← Nat.zero_add (Text.size (textOf bs))]
  exact spans_tokens fit Nat.le.refl

end Bit

namespace Script.Follows

variable {source : List Char} {ts us : List Token} {ps : List Piece}

/-- Without markup no piece has more tokens than it was read from, and as many only if no two were
put together. -/
theorem tokens_eq_or_fewer (h : Follows source ts ps us) (none : us = [])
    (plain : ps.flatMap Piece.regions = []) : ps.flatMap Piece.tokens = ts ∨
      ((ps.flatMap Piece.tokens).filter Token.isSignificant).length <
        (ts.filter Token.isSignificant).length := by
  induction h with
  | done ts => exact .inl none.symm
  | @token t ts us ps tail ih =>
    refine (ih none plain).imp (congrArg (t :: ·)) fun fewer => ?_
    rw [List.flatMap_cons, List.filter_append, List.length_append, ← List.singleton_append,
      List.filter_append, List.length_append]
    exact Nat.add_lt_add_left fewer _
  | @sigil dollar opening ts us ps significant significant' adjacent tail ih =>
    right
    have joined : ((Piece.sigil dollar opening).tokens.filter Token.isSignificant).length = 1 := rfl
    rw [List.flatMap_cons, List.filter_append, List.length_append, joined,
      List.filter_cons_of_pos significant, List.filter_cons_of_pos significant', List.length_cons,
      List.length_cons]
    rcases ih none plain with same | fewer
    · rw [same]
      omega
    · omega
  | markup => exact absurd plain (by simp [Piece.regions])

end Script.Follows

namespace Draft

/-- The kinds of the structure are those of the outline. -/
theorem exists_form (source : List Char) {d : Draft}
    (leafy : ∀ n ∈ d.nodes, n.label.extra → n.children = []) : ∀ t ∈ d.labels, t.extra = false →
      ∃ o ∈ outlines source d, ∃ form ∈ o.labels, form.kind = t.kind := by
  induction d using Rose.induction with
  | node u children ih =>
    obtain ⟨here, below⟩ := Rose.forall_nodes_node.1 leafy
    intro t ht notExtra
    rw [Rose.labels_node] at ht
    rcases List.mem_cons.1 ht with rfl | ht
    · rw [outlines_node, notExtra, if_neg Bool.false_ne_true]
      refine ⟨_, List.mem_singleton_self _, t.form source children.isEmpty, ?_, rfl⟩
      rw [Rose.labels_node]
      exact List.mem_cons_self
    · obtain ⟨c, hc, ht⟩ := List.mem_flatMap.1 ht
      have structural : u.extra = false := by
        refine Bool.eq_false_iff.2 fun extra => ?_
        have childless : children = [] := here extra
        rw [childless] at hc
        cases hc
      obtain ⟨o, ho, form, hform, same⟩ := ih c hc (below c hc) t ht notExtra
      rw [outlines_node, structural, if_neg Bool.false_ne_true]
      refine ⟨_, List.mem_singleton_self _, form, ?_, same⟩
      rw [Rose.labels_node]
      exact List.mem_cons_of_mem _ (List.mem_flatMap.2 ⟨o, List.mem_flatMap.2 ⟨c, hc, ho⟩, hform⟩)

end Draft

end RouteScript
