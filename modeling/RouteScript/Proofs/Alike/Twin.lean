import RouteScript.Proofs.Lossless.Rules
import RouteScript.Proofs.Alike.View
/-!
# Twins

Drafts over two texts are twins when their outlines look the same. Every node over twins is a twin
again, whatever comments and directives it takes in.
-/
namespace RouteScript

namespace Draft

/-- A draft that counts for the structure. -/
def Structural (d : Draft) : Prop := d.solids ≠ [] ∧ d.label.extra = false

theorem Structural.outlines {d : Draft} (h : d.Structural) (source : List Char) :
    ∃ outline, outlines source d = [outline] := by
  obtain ⟨t, children⟩ := d
  have structural : t.extra = false := h.2
  exact ⟨_, by rw [outlines_node, if_neg (by simp [structural])]⟩

theorem structural_leaf {kind : String} (h : kind ≠ Kind.xml) (named : Bool) (start stop : Nat) :
    (leaf kind named start stop).Structural :=
  ⟨by simp [solids_leaf h], rfl⟩

theorem Structural.withField {d : Draft} (h : d.Structural) (field : String) :
    (d.withField field).Structural := by
  obtain ⟨t, children⟩ := d
  exact ⟨by simpa using h.1, h.2⟩

theorem structural_branch (kind : String) {children : List Draft}
    (h : children ≠ [] → solidsOf children ≠ []) : (branch kind children).Structural := by
  refine ⟨fun nothing => ?_, rfl⟩
  rw [solids, branch, marks_node, List.filter_append, List.append_eq_nil_iff] at nothing
  by_cases empty : children = []
  · simp [empty, Tag.mark, Mark.isExtra] at nothing
  · have below := nothing.2
    rw [if_neg (by simpa using empty), List.filter_flatMap] at below
    exact h empty below

theorem solidsOf_ne_nil {children : List Draft} (structural : ∀ d ∈ children, d.Structural)
    (nonempty : children ≠ []) : solidsOf children ≠ [] := by
  obtain ⟨d, rest, rfl⟩ := List.exists_cons_of_ne_nil nonempty
  have := (structural d (by simp)).1
  simp [this]

end Draft

namespace Script

open Draft

/-- Tokens of two texts that look the same, wherever they stand. -/
structure Peers (view : View) (u v : Token) : Prop where
  kind : v.kind = u.kind
  text : view.see v.text = view.see u.text
  newlineBefore : v.newlineBefore = u.newlineBefore
  left : Text.slice? view.left u.start u.stop = some u.text
  right : Text.slice? view.right v.start v.stop = some v.text

/-- Drafts over two texts that are the same up to comments and places. -/
structure Twin (view : View) (ds es : List Draft) : Prop where
  outlines : view.outlines view.left ds = view.outlines view.right es
  left : ∀ d ∈ ds, d.Structural
  right : ∀ e ∈ es, e.Structural

variable {α : Type} {view : View} {ds es ds' es' : List Draft} {d e : Draft} {u v : Token}

theorem structural_tokenLeaf (t : Token) : (tokenLeaf t).Structural := by
  refine ⟨by simp, ?_⟩
  unfold tokenLeaf
  split <;> rfl

namespace Peers

variable (h : Peers view u v)
include h

theorem slices : view.see (Text.slice view.left u.start u.stop)
    = view.see (Text.slice view.right v.start v.stop) := by
  simp [Text.slice, h.left, h.right, h.text]

/-- What is read alike from all quoted words is read alike from the words of peers. -/
theorem word {f : String → α} {unknown : α} (quoted : ∀ word, Quoted word → f word = unknown) :
    f v.word = f u.word := by
  rcases View.see_eq_iff.1 h.text with same | ⟨_, right, left⟩
  · exact congrArg (fun text => f (String.ofList text)) same
  · have quote {t : Token} (h : t.text.any Text.isQuote) : Quoted t.word := by
      rwa [Quoted, Token.word, String.toList_ofList]
    rw [quoted _ (quote right), quoted _ (quote left)]

end Peers

namespace Twin

theorem nil : Twin view [] [] := ⟨rfl, by simp, by simp⟩

theorem append (h : Twin view ds es) (h' : Twin view ds' es') :
    Twin view (ds ++ ds') (es ++ es') := by
  refine ⟨?_, fun d hd => ?_, fun e he => ?_⟩
  · rw [View.outlines_append, View.outlines_append, h.outlines, h'.outlines]
  · exact (List.mem_append.1 hd).elim (h.left d) (h'.left d)
  · exact (List.mem_append.1 he).elim (h.right e) (h'.right e)

theorem cons (h : Twin view [d] [e]) (h' : Twin view ds es) : Twin view (d :: ds) (e :: es) :=
  append h h'

theorem solid_left (h : Twin view ds es) : Solid ds := fun d hd => (h.left d hd).1

theorem solid_right (h : Twin view ds es) : Solid es := fun e he => (h.right e he).1

theorem eq_nil_iff (h : Twin view ds es) : ds = [] ↔ es = [] := by
  have outlines_ne_nil {source : List Char} {ds : List Draft} (structural : ∀ d ∈ ds, d.Structural)
      (nothing : view.outlines source ds = []) : ds = [] := by
    cases ds with
    | nil => rfl
    | cons d ds =>
      obtain ⟨outline, eq⟩ := (structural d (by simp)).outlines source
      simp [View.outlines, eq] at nothing
  constructor
  · rintro rfl
    exact outlines_ne_nil h.right h.outlines.symm
  · rintro rfl
    exact outlines_ne_nil h.left h.outlines

theorem isEmpty_eq (h : Twin view ds es) : ds.isEmpty = es.isEmpty := by
  rw [Bool.eq_iff_iff, List.isEmpty_iff, List.isEmpty_iff, h.eq_nil_iff]

theorem single (h : view.outlines view.left [d] = view.outlines view.right [e])
    (left : d.Structural)
    (right : e.Structural) : Twin view [d] [e] := by
  refine ⟨h, ?_, ?_⟩
  · simpa using left
  · simpa using right

theorem leaf (h : Peers view u v) {kind : String} (known : kind ≠ Kind.xml) (named : Bool) :
    Twin view [.leaf kind named u.start u.stop] [.leaf kind named v.start v.stop] :=
  single (by rw [View.outlines_leaf, View.outlines_leaf, h.slices]) (structural_leaf known ..)
    (structural_leaf known ..)

theorem tokenLeaf (h : Peers view u v) : Twin view [tokenLeaf u] [tokenLeaf v] := by
  refine single ?_ (structural_tokenLeaf u) (structural_tokenLeaf v)
  unfold Script.tokenLeaf
  rw [h.kind]
  split <;> rw [View.outlines_leaf, View.outlines_leaf, h.slices]

theorem keywordLeaf (h : Peers view u v) : Twin view [keywordLeaf u] [keywordLeaf v] := by
  have structural (t : Token) : (Script.keywordLeaf t).Structural := by
    refine ⟨by simp, ?_⟩
    unfold Script.keywordLeaf
    split <;> rfl
  refine single ?_ (structural u) (structural v)
  unfold Script.keywordLeaf
  rw [h.word fun _ quoted => quoted.anonymousKind?]
  split <;> rw [View.outlines_leaf, View.outlines_leaf, h.slices]

theorem map_withField (h : Twin view ds es) (field : String) :
    Twin view (ds.map (Draft.withField field)) (es.map (Draft.withField field)) := by
  refine ⟨?_, fun d hd => ?_, fun e he => ?_⟩
  · rw [View.outlines_map_withField, View.outlines_map_withField, h.outlines]
  · obtain ⟨d', hd', rfl⟩ := List.mem_map.1 hd
    exact (h.left d' hd').withField field
  · obtain ⟨e', he', rfl⟩ := List.mem_map.1 he
    exact (h.right e' he').withField field

theorem withField (h : Twin view [d] [e]) (field : String) :
    Twin view [d.withField field] [e.withField field] := h.map_withField field

theorem branch (kind : String) (h : Twin view ds es) :
    Twin view [.branch kind ds] [.branch kind es] :=
  single (by rw [View.outlines_branch, View.outlines_branch, h.isEmpty_eq, h.outlines])
    (structural_branch kind (solidsOf_ne_nil h.left))
      (structural_branch kind (solidsOf_ne_nil h.right))

theorem wrap (h : Twin view [d] [e]) : Twin view [wrap d] [wrap e] := h.branch Kind.expression

end Twin

/-- Expression nodes around twins. -/
def Wrapped (view : View) (d e : Draft) : Prop :=
  ∃ d' e', d = wrap d' ∧ e = wrap e' ∧ Twin view [d'] [e']

namespace Wrapped

theorem twin (h : Wrapped view d e) : Twin view [d] [e] := by
  obtain ⟨d', e', rfl, rfl, twin⟩ := h
  exact twin.wrap

theorem unwrap (h : Wrapped view d e) : Twin view [unwrap d] [unwrap e] := by
  obtain ⟨d', e', rfl, rfl, twin⟩ := h
  exact twin

end Wrapped

section Absorbed

variable {s t : Stream}

theorem outlines_extraLeaf (source : List Char) (t : Token) :
    Draft.outlines source (extraLeaf t) = [] := by
  rw [extraLeaf, asExtra, Draft.leaf, relabel, outlines_node]
  rfl

theorem outlinesOf_insertByStart {source : List Char} (h : Draft.outlines source d = [])
    (cs : List Draft) : outlinesOf source (insertByStart d cs) = outlinesOf source cs := by
  induction cs with
  | nil => simp [insertByStart, h]
  | cons c cs ih =>
    unfold insertByStart
    split
    · rw [outlinesOf_cons, outlinesOf_cons, ih]
    · rw [outlinesOf_cons, h, List.nil_append]

theorem outlinesOf_waiting (hs : s.Sound) (source : List Char) {taken : List Draft}
    (sub : ∀ d ∈ taken, d ∈ s.waiting) : outlinesOf source taken = [] := by
  refine List.flatMap_eq_nil_iff.2 fun d hd => ?_
  obtain ⟨t, _, _, rfl⟩ := hs.waiting d (sub d hd)
  exact outlines_extraLeaf source t

theorem outlinesOf_absorb (hs : s.Sound) (source : List Char) (children : List Draft) :
    outlinesOf source (absorb children s).1 = outlinesOf source children := by
  have insert_all (taken : List Draft) (sub : ∀ d ∈ taken, d ∈ s.waiting) :
      outlinesOf source (taken.foldl (fun cs d => insertByStart d cs) children)
        = outlinesOf source children := by
    induction taken generalizing children with
    | nil => rfl
    | cons d taken ih =>
      obtain ⟨t, _, _, extra⟩ := hs.waiting d (sub d (by simp))
      rw [List.foldl_cons, ih _ fun c hc => sub c (by simp [hc])]
      exact outlinesOf_insertByStart (extra ▸ outlines_extraLeaf source t) children
  exact insert_all _ fun d hd => (List.mem_filter.1 hd).1

theorem outlinesOf_place (hs : s.Sound) (source : List Char) (ds : List Draft) (item : Draft) :
    outlinesOf source (place ds item s).1 = outlinesOf source ds ++ Draft.outlines source item := by
  change outlinesOf source (ds ++ s.waiting.filter (fun d => d.start < item.start) ++ [item]) = _
  rw [outlinesOf_append, outlinesOf_append, outlinesOf_waiting hs source fun d hd =>
    (List.mem_filter.1 hd).1]
  simp

section View

variable (hs : s.Sound) (source : List Char)
include hs

theorem View.outlines_waiting {taken : List Draft} (sub : ∀ d ∈ taken, d ∈ s.waiting) :
    view.outlines source taken = [] := by
  rw [View.outlines, outlinesOf_waiting hs source sub, List.map_nil]

theorem View.outlines_absorb (children : List Draft) :
    view.outlines source (absorb children s).1 = view.outlines source children := by
  rw [View.outlines, outlinesOf_absorb hs, View.outlines]

theorem View.outlines_place (ds : List Draft) (item : Draft) :
    view.outlines source (place ds item s).1
      = view.outlines source ds ++ view.outlines source [item] := by
  rw [← View.outlines_append, View.outlines, outlinesOf_place hs, View.outlines, outlinesOf_append]
  simp

end View

theorem isEmpty_absorb (children : List Draft) (s : Stream) :
    (absorb children s).1.isEmpty = children.isEmpty := by
  cases children with
  | nil =>
    have outside : s.waiting.filter (isInside []) = [] :=
      List.filter_eq_nil_iff.2 (by simp [isInside])
    simp [absorb, outside]
  | cons d ds =>
    rw [List.isEmpty_cons, List.isEmpty_eq_false_iff]
    exact absorb_ne_nil (by simp) s

theorem plain_absorb (hs : s.Sound) {children : List Draft}
    (structural : ∀ d ∈ children, d.Structural) :
    ∀ d ∈ (absorb children s).1, d.label.extra → ¬ d.isError := by
  intro d hd extra
  rcases List.mem_append.1 ((absorb_perm _ children).mem_iff.1 hd) with old | new
  · simp [(structural d old).2] at extra
  · obtain ⟨t, _, _, rfl⟩ := hs.waiting d (List.mem_filter.1 new).1
    unfold extraLeaf
    split <;> exact Bool.false_ne_true

theorem structural_node (hs : s.Sound) (kind : String) {children : List Draft}
    (structural : ∀ d ∈ children, d.Structural) : (node kind children s).1.Structural := by
  refine structural_branch kind fun nonempty => ?_
  change (absorb children s).1 ≠ [] at nonempty
  change solidsOf (absorb children s).1 ≠ []
  rw [solidsOf_absorbed hs]
  refine solidsOf_ne_nil structural fun empty => nonempty ?_
  rw [← List.isEmpty_iff, isEmpty_absorb, empty]
  rfl

theorem structural_errorNode (hs : s.Sound) {children : List Draft}
    (structural : ∀ d ∈ children, d.Structural) : (errorNode children s).1.Structural := by
  refine ⟨?_, rfl⟩
  change (Draft.error (absorb children s).1).solids ≠ []
  by_cases empty : (absorb children s).1 = []
  · rw [empty]
    exact (structural_branch errorKind (by simp)).1
  · rw [solids_error empty, solidsOf_absorbed hs]
    refine solidsOf_ne_nil structural fun nothing => empty ?_
    rw [← List.isEmpty_iff, isEmpty_absorb, nothing]
    rfl

theorem Twin.node (h : Twin view ds es) (hs : s.Sound) (ht : t.Sound) (kind : String) :
    Twin view [(node kind ds s).1] [(node kind es t).1] := by
  refine .single ?_ (structural_node hs kind h.left) (structural_node ht kind h.right)
  change view.outlines view.left [.branch kind (absorb ds s).1]
    = view.outlines view.right [.branch kind (absorb es t).1]
  rw [View.outlines_branch, View.outlines_branch, isEmpty_absorb, isEmpty_absorb,
    View.outlines_absorb hs, View.outlines_absorb ht, h.isEmpty_eq, h.outlines]

theorem Twin.errorNode (h : Twin view ds es) (hs : s.Sound) (ht : t.Sound) :
    Twin view [(errorNode ds s).1] [(errorNode es t).1] := by
  refine .single ?_ (structural_errorNode hs h.left) (structural_errorNode ht h.right)
  change view.outlines view.left [.error (absorb ds s).1]
    = view.outlines view.right [.error (absorb es t).1]
  rw [View.outlines_error (plain_absorb hs h.left), View.outlines_error (plain_absorb ht h.right),
    isEmpty_absorb, isEmpty_absorb, View.outlines_absorb hs, View.outlines_absorb ht, h.isEmpty_eq,
    h.outlines]

end Absorbed

end Script

end RouteScript
