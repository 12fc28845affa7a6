import RouteScript.Proofs.Outline
import RouteScript.Script.Items
/-!
# What is seen of texts

Two texts are compared as they are, or with every text that has a quote in it counting as the same.
A keyword has none, so that the words of a script are read alike either way.
-/
namespace RouteScript

def Text.isQuote (c : Char) : Bool := c == '"' || c == '\''

/-- A word with a quote in it. -/
def Quoted (word : String) : Prop := word.toList.any Text.isQuote

instance (word : String) : Decidable (Quoted word) :=
  inferInstanceAs (Decidable (word.toList.any Text.isQuote = true))

namespace Quoted

variable {word : String} (h : Quoted word)
include h

/-- A quoted word is none of the words without quotes. -/
theorem beq_eq_false (known : String) (plain : ¬ Quoted known) : (word == known) = false := by
  rw [beq_eq_false_iff_ne]
  rintro rfl
  exact plain h

theorem not_mem {words : List String} (plain : ∀ known ∈ words, ¬ Quoted known) :
    word ∉ words := fun member => plain word member h

theorem find?_eq_none {words : List String} (plain : ∀ known ∈ words, ¬ Quoted known) :
    words.find? (· == word) = none := by
  refine List.find?_eq_none.2 fun known hk same => h.not_mem plain ?_
  rwa [← eq_of_beq same]

theorem anonymousKind? : Vocabulary.anonymousKind? word = none :=
  h.find?_eq_none (by decide)

theorem routeType? : Vocabulary.routeType? word = none := h.find?_eq_none (by decide)

theorem userVariableKind? : Script.userVariableKind? word = none := by
  simp (disch := decide) only [Script.userVariableKind?, h.beq_eq_false,
    Bool.false_eq_true, if_false]

theorem wordStatement? (inner : Script.Level) (following : Option Token.Kind) :
    Script.wordStatement? inner word following = none := by
  have action : Vocabulary.coreActions.contains word = false := by
    rw [← Bool.not_eq_true, List.contains_iff_mem]
    exact h.not_mem (by decide)
  simp (disch := decide) only [Script.wordStatement?, h.beq_eq_false, action,
    Bool.false_and, Bool.false_eq_true, if_false]

theorem wordItem (following : Option Token.Kind) : Script.wordItem word following
    = if following == some .assign then Script.globalAssignment else Script.topLevel.statement := by
  simp (disch := decide) only [Script.wordItem, h.beq_eq_false, h.routeType?,
    Bool.false_or, Bool.false_and, Option.isSome_none, Bool.false_eq_true, if_false]

end Quoted

/-- Two texts; in a blurred view what has a quote in it looks the same. -/
structure View where
  left : List Char
  right : List Char
  blurred : Bool

namespace View

open Draft

variable {view : View} {x y x' y' source : List Char} 

/-- What is seen of a text. -/
def see (view : View) (text : List Char) : List Char :=
  if view.blurred && text.any Text.isQuote then ['"'] else text

@[simp] theorem see_nil : view.see [] = [] := by simp [see]

/-- Texts that look the same are the same, or both have quotes. -/
theorem see_eq_iff : view.see x = view.see y
    ↔ x = y ∨ view.blurred ∧ x.any Text.isQuote ∧ y.any Text.isQuote := by
  have quote : ['"'].any Text.isQuote := rfl
  unfold see
  by_cases blurred : view.blurred
  · by_cases left : x.any Text.isQuote <;> by_cases right : y.any Text.isQuote
    · simp [blurred, left, right]
    · have other : '"' :: [] ≠ y := fun eq => right (eq ▸ quote)
      have other' : x ≠ y := fun eq => right (eq ▸ left)
      simp [blurred, left, right, other, other']
    · have other : x ≠ '"' :: [] := fun eq => left (eq ▸ quote)
      have other' : x ≠ y := fun eq => left (eq ▸ right)
      simp [blurred, left, right, other, other']
    · simp [blurred, left, right]
  · simp [blurred]

theorem see_append (h : view.see x = view.see y) (h' : view.see x' = view.see y') :
    view.see (x ++ x') = view.see (y ++ y') := by
  rw [see_eq_iff] at h h' ⊢
  rcases h with rfl | ⟨blurred, left, right⟩
  · rcases h' with rfl | ⟨blurred, left, right⟩
    · exact .inl rfl
    · exact .inr ⟨blurred, by simp [left], by simp [right]⟩
  · exact .inr ⟨blurred, by simp [left], by simp [right]⟩

/-- What is seen of a label. -/
def form (view : View) (f : Form) : Form := { f with text := f.text.map view.see }

def outline (view : View) : Outline → Outline := Rose.map view.form

theorem outline_node (f : Form) (below : List Outline) :
    view.outline (.node f below) = .node (view.form f) (below.map view.outline) :=
  Rose.map_node view.form f below

/-- What is seen of the outlines of drafts. -/
def outlines (view : View) (source : List Char) (ds : List Draft) : List Outline :=
  (outlinesOf source ds).map view.outline

@[simp] theorem outlines_nil : view.outlines source [] = [] := rfl

theorem outlines_append (ds es : List Draft) :
    view.outlines source (ds ++ es) = view.outlines source ds ++ view.outlines source es := by
  rw [outlines, outlinesOf_append, List.map_append]
  rfl

theorem outlines_cons (d : Draft) (ds : List Draft) :
    view.outlines source (d :: ds) = view.outlines source [d] ++ view.outlines source ds :=
  outlines_append [d] ds

theorem outlines_leaf (kind : String) (named : Bool) (start stop : Nat) :
    view.outlines source [.leaf kind named start stop]
      = [.node ⟨kind, named, none, some (view.see (Text.slice source start stop))⟩ []] := by
  rw [outlines, outlinesOf_cons, Draft.outlines_leaf, outlinesOf_nil, List.append_nil,
    List.map_singleton, outline_node]
  rfl

theorem outlines_branch (kind : String) (children : List Draft) :
    view.outlines source [.branch kind children]
      = [.node ⟨kind, true, none, if children.isEmpty then some [] else none⟩
          (view.outlines source children)] := by
  rw [outlines, outlinesOf_cons, Draft.outlines_branch, outlinesOf_nil, List.append_nil,
    List.map_singleton, outline_node]
  cases children <;> simp [form, outlines]

theorem outlines_map_withField (field : String) (ds : List Draft) :
    view.outlines source (ds.map (withField field)) = (view.outlines source ds).map
      (Outline.reform fun form => { form with field := some field }) := by
  rw [outlines, outlinesOf_map_withField, outlines, List.map_map, List.map_map]
  refine List.map_congr_left fun outline _ => ?_
  obtain ⟨f, below⟩ := outline
  simp [Outline.reform, outline_node, form]

theorem map_salvage (outline : Outline) :
    outline.salvage.map view.outline = (view.outline outline).salvage := by
  obtain ⟨f, below⟩ := outline
  rw [outline_node]
  unfold Outline.salvage
  simp only [form, Option.isSome_map]
  split
  · split <;> simp [outline_node, form]
  · simp [outline_node, form]

theorem outlines_error {children : List Draft}
    (h : ∀ d ∈ children, d.label.extra → ¬ d.isError) : view.outlines source [error children]
      = [.node ⟨errorKind, true, none, if children.isEmpty then some [] else none⟩
          ((view.outlines source children).flatMap Outline.salvage)] := by
  have below : ((outlinesOf source children).flatMap Outline.salvage).map view.outline
      = (view.outlines source children).flatMap Outline.salvage := by
    rw [List.map_flatMap, outlines, List.flatMap_map]
    exact congrArg List.flatten (List.map_congr_left fun outline _ => map_salvage outline)
  rw [outlines, outlinesOf_cons, Draft.outlines_error h, outlinesOf_nil, List.append_nil,
    List.map_singleton, outline_node, below]
  cases children <;> simp [form]

/-- Two texts as they are. -/
def sharp (left right : List Char) : View := ⟨left, right, false⟩

theorem outlines_sharp {left right : List Char} (ds : List Draft) :
    (sharp left right).outlines source ds = outlinesOf source ds := by
  have here (outline : Outline) : (sharp left right).outline outline = outline := by
    induction outline using Rose.induction with
    | node f below ih =>
      have seen : (sharp left right).form f = f := by
        unfold form
        cases f with
        | mk kind named field text => cases text <;> simp [see, sharp]
      rw [outline_node, seen, List.map_congr_left ih, List.map_id']
  rw [outlines, List.map_congr_left fun outline _ => here outline, List.map_id']

/-- The S-expression shows nothing of the texts of leaves. -/
theorem entry_seen (outline : Outline) :
    (view.outline outline).entry = outline.entry := by
  induction outline using Rose.induction with
  | node f below ih =>
    have later : (below.map view.outline).map Outline.entry = below.map Outline.entry := by
      rw [List.map_map]
      exact List.map_congr_left ih
    rw [outline_node, Outline.entry_node, Outline.entry_node, Outline.sexp, Outline.sexp, later]
    rfl

theorem map_entry_outlines (ds : List Draft) :
    (view.outlines source ds).map Outline.entry = (outlinesOf source ds).map Outline.entry := by
  rw [outlines, List.map_map]
  exact List.map_congr_left fun outline _ => entry_seen outline

end View

end RouteScript
