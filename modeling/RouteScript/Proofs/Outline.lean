import RouteScript.Tree.Sexp
import RouteScript.Proofs.Frozen
/-!
# Outlines of trees

An outline is what is left of a tree without comments and without places: kinds, roles, the order
and nesting of the nodes, and the texts of the leaves. The S-expression of a tree is that of its
outline.
-/
namespace RouteScript

structure Form where
  kind : String
  named : Bool
  field : Option String
  /-- The text of a leaf. -/
  text : Option (List Char)
  deriving DecidableEq, Repr

abbrev Outline := Rose Form

namespace Outline

def reform (f : Form → Form) : Outline → Outline
  | .node form below => .node (f form) below

/-- What a node gives an error node around it. -/
def salvage : Outline → List Outline
  | .node form below =>
    if form.named && form.kind == errorKind then
      if form.text.isSome then [.node { form with named := false, field := none } below] else below
    else [.node { form with field := none } below]

/-- A node as a child in the S-expression of its parent. -/
def entry (s : Outline) : String := s.fold fun form below =>
  if form.named then
    " " ++ (match form.field with
      | some field => field ++ ": "
      | none => "") ++ ("(" ++ form.kind ++ String.join below ++ ")")
  else ""

def sexp : Outline → String
  | .node form below => "(" ++ form.kind ++ String.join (below.map entry) ++ ")"

end Outline

/-- A label without its place in the text. -/
def Tag.form (source : List Char) (t : Tag) (isLeaf : Bool) : Form :=
  ⟨t.kind, t.named, t.field, if isLeaf then some (Text.slice source t.start t.stop) else none⟩

namespace Draft

/-- The outline of a draft over its text; nothing for an extra one. -/
def outlines (source : List Char) (d : Draft) : List Outline := d.fold fun t below =>
  if t.extra then [] else [.node (t.form source below.isEmpty) below.flatten]

def outlinesOf (source : List Char) (ds : List Draft) : List Outline := ds.flatMap (outlines source)

variable {source : List Char}

theorem outlines_node (t : Tag) (children : List Draft) :
    outlines source (.node t children) = if t.extra then [] else
      [.node (t.form source children.isEmpty) (outlinesOf source children)] := by
  rw [outlines, Rose.fold_node, List.isEmpty_map]
  rfl

section Lists

variable (d : Draft) (ds ds' : List Draft)

@[simp] theorem outlinesOf_nil : outlinesOf source [] = [] := rfl

@[simp] theorem outlinesOf_cons :
    outlinesOf source (d :: ds) = outlines source d ++ outlinesOf source ds := rfl

@[simp] theorem outlinesOf_append :
    outlinesOf source (ds ++ ds') = outlinesOf source ds ++ outlinesOf source ds' :=
  List.flatMap_append

end Lists

theorem outlines_leaf (kind : String) (named : Bool) (start stop : Nat) :
    outlines source (leaf kind named start stop)
      = [.node ⟨kind, named, none, some (Text.slice source start stop)⟩ []] := by
  rw [leaf, outlines_node]
  rfl

theorem outlines_branch (kind : String) (children : List Draft) :
    outlines source (branch kind children)
      = [.node ⟨kind, true, none, if children.isEmpty then some [] else none⟩
          (outlinesOf source children)] := by
  have nothing : Text.slice source 0 0 = [] := by simp [Text.slice, Text.slice?, Text.upTo?]
  rw [branch, outlines_node, if_neg (by simp)]
  cases children with
  | nil => simp [Tag.form, nothing]
  | cons d ds => rfl

theorem outlines_relabel {f : Tag → Tag} {g : Form → Form} (extra : ∀ t, (f t).extra = t.extra)
    (form : ∀ t isLeaf, (f t).form source isLeaf = g (t.form source isLeaf)) (d : Draft) :
    outlines source (d.relabel f) = (outlines source d).map (Outline.reform g) := by
  obtain ⟨t, children⟩ := d
  rw [relabel, outlines_node, outlines_node, extra, form]
  split <;> rfl

theorem outlines_withField (field : String) (d : Draft) :
    outlines source (d.withField field)
      = (outlines source d).map (Outline.reform fun form => { form with field := some field }) :=
  outlines_relabel (f := fun t => { t with field := some field }) (fun _ => rfl) (fun _ _ => rfl) d

theorem outlinesOf_map_withField (field : String) (ds : List Draft) :
    outlinesOf source (ds.map (withField field))
      = (outlinesOf source ds).map (Outline.reform fun form => { form with field := some field }) := by
  rw [outlinesOf, List.flatMap_map, outlinesOf, List.map_flatMap]
  exact congrArg List.flatten (List.map_congr_left fun d _ => outlines_withField field d)

theorem outlines_salvage {d : Draft} (h : d.label.extra → ¬ d.isError) :
    outlinesOf source d.salvage = (outlines source d).flatMap Outline.salvage := by
  obtain ⟨t, children⟩ := d
  by_cases malformed : t.named && t.kind == errorKind
  · have structural : t.extra = false := by
      have := h
      simp only [isError, Rose.label, Tag.isError, malformed] at this
      simpa using this
    have outline : outlines source (.node t children) = [.node (t.form source children.isEmpty)
        (outlinesOf source children)] := by simp [outlines_node, structural]
    rw [outline, List.flatMap_singleton]
    cases children with
    | nil => simp [salvage, isError, Rose.label, Rose.children, Tag.isError, malformed,
        Outline.salvage, Tag.form, relabel, outlines_node, structural]
    | cons d ds => simp [salvage, isError, Rose.label, Rose.children, Tag.isError, malformed,
        Outline.salvage, Tag.form]
  · have salvaged : salvage (.node t children)
        = [relabel (fun t => { t with field := none }) (.node t children)] := by
      simp [salvage, isError, Rose.label, Tag.isError, malformed]
    rw [salvaged, relabel, outlinesOf_cons, outlinesOf_nil, List.append_nil, outlines_node,
      outlines_node]
    by_cases extra : t.extra
    · simp [extra]
    · simp [extra, Outline.salvage, Tag.form, malformed]

theorem outlines_error {children : List Draft} (h : ∀ d ∈ children, d.label.extra → ¬ d.isError) :
    outlines source (error children)
      = [.node ⟨errorKind, true, none, if children.isEmpty then some [] else none⟩
          ((outlinesOf source children).flatMap Outline.salvage)] := by
  have below : outlinesOf source (children.flatMap salvage)
      = (outlinesOf source children).flatMap Outline.salvage := by
    rw [outlinesOf, outlinesOf, List.flatMap_assoc, List.flatMap_assoc]
    exact congrArg List.flatten (List.map_congr_left fun d hd => outlines_salvage (h d hd))
  have nothing : (children.flatMap salvage).isEmpty = children.isEmpty := by
    cases children with
    | nil => rfl
    | cons d ds => simp [salvage_ne_nil]
  rw [error, outlines_branch, below, nothing]

end Draft

/-- The outline of a tree; its root stands for the whole text. -/
def Tree.outline (t : Tree) : Outline :=
  .node ⟨t.root.kind, t.root.isNamed, t.root.field?, none⟩
    (Draft.outlinesOf t.source t.root.thaw.children)

theorem Outline.entry_node (form : Form) (below : List Outline) :
    entry (.node form below) = if form.named then
      " " ++ (match form.field with
        | some field => field ++ ": "
        | none => "") ++ sexp (.node form below)
    else "" := by
  rw [entry, Rose.fold_node]
  rfl

namespace Node

variable {source : List Char}

theorem thaw_node (e : Entry) (children : List Node) :
    thaw (.node e children) = .node e.tag (children.map thaw) :=
  Rose.map_node Entry.tag e children

theorem sexpAll_eq {ns : List Node} (h : ∀ n ∈ ns, sexp n = "(" ++ n.kind
      ++ String.join ((Draft.outlinesOf source n.thaw.children).map Outline.entry) ++ ")") :
    sexpAll ns = String.join ((Draft.outlinesOf source (ns.map thaw)).map Outline.entry) := by
  induction ns with
  | nil => rfl
  | cons n ns ih =>
    obtain ⟨e, children⟩ := n
    have here := h (.node e children) (by simp)
    rw [sexpAll, ih fun n hn => h n (by simp [hn]), List.map_cons, Draft.outlinesOf_cons,
      List.map_append, String.join_append, here, thaw_node, Draft.outlines_node]
    by_cases extra : e.tag.extra
    · simp [extra]
    · simp only [extra, Bool.not_false, Bool.and_true, if_false, Bool.false_eq_true,
        List.map_cons, List.map_nil, String.join_cons, String.join_nil, String.append_empty,
        Outline.entry_node]
      rfl

/-- The S-expression of a node depends on the outlines of its children alone. -/
theorem sexp_eq (n : Node) : sexp n = "(" ++ n.kind
    ++ String.join ((Draft.outlinesOf source n.thaw.children).map Outline.entry) ++ ")" := by
  induction n using Rose.induction with
  | node e children ih =>
    rw [sexp, sexpAll_eq ih, thaw_node]
    rfl

end Node

theorem Tree.sexp_root (t : Tree) : t.root.sexp = t.outline.sexp := t.root.sexp_eq

end RouteScript
