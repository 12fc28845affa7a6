import RouteScript.Script.Expression
/-!
# Marks of drafts

What a draft says of its text: the span of every leaf, those of comments apart from the others,
and the span of inline markup before its leaves. Putting nodes around drafts leaves their marks.
-/
namespace RouteScript

/-- The labels of the childless nodes, in preorder. -/
def Rose.leaves {α : Type u} (t : Rose α) : List α :=
  t.fold fun a below => if below.isEmpty then [a] else below.flatten

theorem Rose.leaves_node {α : Type u} (a : α) (children : List (Rose α)) :
    leaves (.node a children) = if children.isEmpty then [a] else children.flatMap leaves := by
  rw [leaves, fold_node, List.isEmpty_map]
  rfl

/-- What a draft says of a stretch of its text. -/
inductive Mark where
  | leaf (start stop : Nat)
  /-- A leaf that is no part of the structure. -/
  | extra (kind : String) (start stop : Nat)
  | markup (start stop : Nat)
  deriving DecidableEq, Repr

namespace Mark

def isExtra : Mark → Bool
  | extra _ _ _ => true
  | _ => false

def isMarkup : Mark → Bool
  | markup _ _ => true
  | _ => false

/-- The bytes that a mark is about. -/
def span : Mark → Nat × Nat
  | leaf start stop | extra _ start stop | markup start stop => (start, stop)

def region? : Mark → Option (Nat × Nat)
  | markup start stop => some (start, stop)
  | _ => none

end Mark

def Tag.mark (t : Tag) : Mark :=
  if t.extra then .extra t.kind t.start t.stop else .leaf t.start t.stop

namespace Draft

/-- The mark of a markup node itself. -/
def regions (t : Tag) : List Mark := if t.kind = Kind.xml then [.markup t.start t.stop] else []

def marks (d : Draft) : List Mark :=
  d.fold fun t below => regions t ++ if below.isEmpty then [t.mark] else below.flatten

theorem marks_node (t : Tag) (children : List Draft) :
    marks (.node t children)
      = regions t ++ if children.isEmpty then [t.mark] else children.flatMap marks := by
  rw [marks, Rose.fold_node, List.isEmpty_map]
  rfl

/-- The marks of the structure, in preorder. -/
def solids (d : Draft) : List Mark := d.marks.filter fun m => !m.isExtra

/-- The marks of comments and directives, in preorder. -/
def extras (d : Draft) : List Mark := d.marks.filter Mark.isExtra

def solidsOf (ds : List Draft) : List Mark := ds.flatMap solids

def extrasOf (ds : List Draft) : List Mark := ds.flatMap extras

section Lists

variable (d : Draft) (ds ds' : List Draft)

@[simp] theorem solidsOf_nil : solidsOf [] = [] := rfl

@[simp] theorem solidsOf_cons : solidsOf (d :: ds) = d.solids ++ solidsOf ds := rfl

@[simp] theorem solidsOf_append : solidsOf (ds ++ ds') = solidsOf ds ++ solidsOf ds' :=
  List.flatMap_append

@[simp] theorem extrasOf_nil : extrasOf [] = [] := rfl

@[simp] theorem extrasOf_cons : extrasOf (d :: ds) = d.extras ++ extrasOf ds := rfl

@[simp] theorem extrasOf_append : extrasOf (ds ++ ds') = extrasOf ds ++ extrasOf ds' :=
  List.flatMap_append

end Lists

theorem marks_leaf {kind : String} (h : kind ≠ Kind.xml) (named : Bool) (start stop : Nat) :
    (leaf kind named start stop).marks = [.leaf start stop] := by
  simp [leaf, marks_node, regions, h, Tag.mark]

theorem solids_leaf {kind : String} (h : kind ≠ Kind.xml) (named : Bool) (start stop : Nat) :
    (leaf kind named start stop).solids = [.leaf start stop] := by
  rw [solids, marks_leaf h]
  rfl

theorem extras_leaf {kind : String} (h : kind ≠ Kind.xml) (named : Bool) (start stop : Nat) :
    (leaf kind named start stop).extras = [] := by
  rw [extras, marks_leaf h]
  rfl

/-- A childless node over the span of a token. -/
structure Spans (d : Draft) (t : Token) : Prop where
  childless : d.children = []
  start : d.start = t.start
  stop : d.stop = t.stop

/-- A leaf of the structure, over the span of a token. -/
structure IsLeaf (d : Draft) (t : Token) : Prop extends Spans d t where
  structural : d.label.extra = false
  kind : d.label.kind ≠ Kind.xml

theorem isLeaf_leaf {kind : String} (h : kind ≠ Kind.xml) (named : Bool) (t : Token) :
    IsLeaf (leaf kind named t.start t.stop) t := ⟨⟨rfl, rfl, rfl⟩, rfl, h⟩

theorem IsLeaf.marks {d : Draft} {t : Token} (h : IsLeaf d t) :
    d.marks = [.leaf t.start t.stop] := by
  obtain ⟨tag, children⟩ := d
  obtain ⟨⟨childless, start, stop⟩, structural, kind⟩ := h
  simp only [Rose.children, Rose.label, Draft.start, Draft.stop] at *
  simp [marks_node, regions, Tag.mark, *]

theorem IsLeaf.solids {d : Draft} {t : Token} (h : IsLeaf d t) :
    d.solids = [.leaf t.start t.stop] := by
  rw [Draft.solids, h.marks]
  rfl

theorem IsLeaf.extras {d : Draft} {t : Token} (h : IsLeaf d t) : d.extras = [] := by
  rw [Draft.extras, h.marks]
  rfl

theorem IsLeaf.withField {d : Draft} {t : Token} (h : IsLeaf d t) (field : String) :
    IsLeaf (d.withField field) t := by
  obtain ⟨tag, children⟩ := d
  exact ⟨⟨h.childless, h.start, h.stop⟩, h.structural, h.kind⟩

/-- A new label that says the same of the text leaves the marks. -/
theorem marks_relabel {f : Tag → Tag} {t : Tag} (region : regions (f t) = regions t)
    (mark : (f t).mark = t.mark) (children : List Draft) :
    (relabel f (.node t children)).marks = marks (.node t children) := by
  rw [relabel, marks_node, marks_node, region, mark]

@[simp] theorem marks_withField (field : String) (d : Draft) :
    (d.withField field).marks = d.marks := by
  cases d
  exact marks_relabel rfl rfl _

@[simp] theorem solids_withField (field : String) (d : Draft) :
    (d.withField field).solids = d.solids := by
  simp [solids]

@[simp] theorem extras_withField (field : String) (d : Draft) :
    (d.withField field).extras = d.extras := by
  simp [extras]

@[simp] theorem solidsOf_map_withField (field : String) (ds : List Draft) :
    solidsOf (ds.map (withField field)) = solidsOf ds := by
  simp [solidsOf, List.flatMap_map]

@[simp] theorem extrasOf_map_withField (field : String) (ds : List Draft) :
    extrasOf (ds.map (withField field)) = extrasOf ds := by
  simp [extrasOf, List.flatMap_map]

theorem marks_branch {kind : String} (h : kind ≠ Kind.xml) {children : List Draft}
    (nonempty : children ≠ []) : (branch kind children).marks = children.flatMap marks := by
  simp [branch, marks_node, regions, h, nonempty]

theorem solids_branch {kind : String} (h : kind ≠ Kind.xml) {children : List Draft}
    (nonempty : children ≠ []) : (branch kind children).solids = solidsOf children := by
  rw [solids, marks_branch h nonempty, List.filter_flatMap]
  rfl

theorem extras_branch {kind : String} (h : kind ≠ Kind.xml) {children : List Draft}
    (nonempty : children ≠ []) : (branch kind children).extras = extrasOf children := by
  rw [extras, marks_branch h nonempty, List.filter_flatMap]
  rfl

/-- What an error node takes over from a child has the marks of the child. -/
theorem marks_salvage (d : Draft) : d.salvage.flatMap marks = d.marks := by
  obtain ⟨t, children⟩ := d
  unfold salvage
  split
  · rename_i malformed
    have kind : t.kind ≠ Kind.xml := by
      intro same
      have : isError (.node t children) = false := by
        simp [isError, Rose.label, Tag.isError, same, Kind.xml, errorKind]
      simp [this] at malformed
    split
    · simpa using marks_relabel (t := t) rfl rfl children
    · rename_i nonempty
      have : children ≠ [] := by simpa [Rose.children] using nonempty
      simp [Rose.children, marks_node, regions, kind, this]
  · simpa using marks_relabel (t := t) rfl rfl children

theorem salvage_ne_nil (d : Draft) : d.salvage ≠ [] := by
  unfold salvage
  split
  · split
    · simp
    · rename_i nonempty
      simpa using nonempty
  · simp

theorem marks_error {children : List Draft} (nonempty : children ≠ []) :
    (error children).marks = children.flatMap marks := by
  have some_child : children.flatMap salvage ≠ [] := by
    obtain ⟨d, rest, rfl⟩ := List.exists_cons_of_ne_nil nonempty
    simp [salvage_ne_nil]
  rw [error, marks_branch (by decide) some_child, List.flatMap_assoc]
  simp only [marks_salvage]

theorem solids_error {children : List Draft} (nonempty : children ≠ []) :
    (error children).solids = solidsOf children := by
  rw [solids, marks_error nonempty, List.filter_flatMap]
  rfl

theorem extras_error {children : List Draft} (nonempty : children ≠ []) :
    (error children).extras = extrasOf children := by
  rw [extras, marks_error nonempty, List.filter_flatMap]
  rfl

/-- The marks below a node are those of its leaves and of the markup. -/
theorem marks_leaves (d : Draft) :
    (d.marks.filter fun m => !m.isMarkup) = d.leaves.map Tag.mark := by
  induction d using Rose.induction with
  | node t children ih =>
    have own : (regions t).filter (fun m => !m.isMarkup) = [] := by
      unfold regions
      split <;> rfl
    have mark : t.mark.isMarkup = false := by
      unfold Tag.mark
      split <;> rfl
    rw [marks_node, Rose.leaves_node, List.filter_append, own, List.nil_append]
    split
    · simp [mark]
    · rw [List.filter_flatMap, List.map_flatMap]
      exact congrArg List.flatten (List.map_congr_left ih)

end Draft

namespace Script

open Draft

theorem kind_ne_xml_of_spelling? {kind : Token.Kind} {spelling : String}
    (h : kind.spelling? = some spelling) : spelling ≠ Kind.xml := by
  cases kind <;> simp only [Token.Kind.spelling?, Option.some.injEq, reduceCtorEq] at h <;>
    subst h <;> decide

theorem isLeaf_tokenLeaf (t : Token) : IsLeaf (tokenLeaf t) t := by
  unfold tokenLeaf
  split <;> first
    | exact isLeaf_leaf (by decide) _ _
    | refine isLeaf_leaf ?_ _ _
      cases spelling : t.kind.spelling? with
      | none => decide
      | some => exact kind_ne_xml_of_spelling? spelling

theorem isLeaf_keywordLeaf (t : Token) : IsLeaf (keywordLeaf t) t := by
  unfold keywordLeaf
  split
  · rename_i kind known
    refine isLeaf_leaf ?_ _ _
    rintro rfl
    exact absurd (List.mem_of_find?_eq_some known) (by decide)
  · exact isLeaf_leaf (by decide) _ _

@[simp] theorem solids_tokenLeaf (t : Token) : (tokenLeaf t).solids = [.leaf t.start t.stop] :=
  (isLeaf_tokenLeaf t).solids

@[simp] theorem extras_tokenLeaf (t : Token) : (tokenLeaf t).extras = [] :=
  (isLeaf_tokenLeaf t).extras

@[simp] theorem solids_keywordLeaf (t : Token) :
    (keywordLeaf t).solids = [.leaf t.start t.stop] := (isLeaf_keywordLeaf t).solids

@[simp] theorem extras_keywordLeaf (t : Token) : (keywordLeaf t).extras = [] :=
  (isLeaf_keywordLeaf t).extras

@[simp] theorem marks_wrap (d : Draft) : (wrap d).marks = d.marks := by
  rw [wrap, marks_branch (by decide) (by simp), List.flatMap_singleton]

@[simp] theorem solids_wrap (d : Draft) : (wrap d).solids = d.solids := by
  rw [solids, marks_wrap, ← solids]

@[simp] theorem extras_wrap (d : Draft) : (wrap d).extras = d.extras := by
  rw [extras, marks_wrap, ← extras]

theorem marks_unwrap (d : Draft) : (unwrap d).marks = d.marks := by
  obtain ⟨t, children⟩ := d
  unfold unwrap
  split
  · rename_i only isExpression single
    simp only [Rose.children] at single
    have kind : t.kind ≠ Kind.xml := by
      rintro same
      simp [Rose.label, same, Kind.xml, Kind.expression] at isExpression
    simp [single, marks_node, regions, kind]
  · rfl

@[simp] theorem solids_unwrap (d : Draft) : (unwrap d).solids = d.solids := by
  rw [solids, marks_unwrap, ← solids]

@[simp] theorem extras_unwrap (d : Draft) : (unwrap d).extras = d.extras := by
  rw [extras, marks_unwrap, ← extras]

end Script

end RouteScript
