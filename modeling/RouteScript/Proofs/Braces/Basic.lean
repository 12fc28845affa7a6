import RouteScript.Proofs.Sound
import RouteScript.Proofs.Nesting.Tight
import RouteScript.Proofs.Mark
/-!
# Braces of blocks

In a neat draft every leaf that consists of a brace is an end of a block, and every block starts
and ends with one. Leaves inside variables and markup do not count. What a reader gives is checked:
it is neat, or there is an error node in it.
-/
namespace RouteScript

open Script

/-- Braces below a variable or markup have nothing to do with blocks. -/
def Tag.isSealed (t : Tag) : Bool :=
  t.kind == Kind.pseudoVariable || t.kind == Kind.pvarExpression || t.kind == Kind.xml

/-- The leaf of a brace that opens or closes a block. -/
def Tag.isBrace (t : Tag) : Bool := t.kind == Kind.blockStart || t.kind == Kind.blockEnd

/-- The leaves that consist of a brace are those that open or close a block. -/
structure Tag.Spelt (source : List Char) (t : Tag) : Prop where
  opening : Text.slice source t.start t.stop = ['{'] ↔ t.kind = Kind.blockStart
  closing : Text.slice source t.start t.stop = ['}'] ↔ t.kind = Kind.blockEnd

namespace Draft

variable {source : List Char} {kind : String} {children : List Draft}

/-- The leaves outside variables and markup, in preorder. -/
def plainLeaves (d : Draft) : List Tag :=
  d.fold fun t below => if t.isSealed then [] else if below.isEmpty then [t] else below.flatten

theorem plainLeaves_node (t : Tag) (children : List Draft) : plainLeaves (.node t children)
    = if t.isSealed then [] else if children.isEmpty then [t] else
      children.flatMap plainLeaves := by
  rw [plainLeaves, Rose.fold_node, List.isEmpty_map]
  rfl

/-- There is an error node at or below. -/
def Faulty (d : Draft) : Prop := ∃ n ∈ d.nodes, isError n ∧ n.label.extra = false

/-- A childless node of some kind. -/
def IsLeafOfKind (kind : String) (d : Draft) : Prop := d.label.kind = kind ∧ d.children = []

/-- The structure in a block: its two braces, and between them what is no brace. -/
def Fenced (d : Draft) : Prop :=
  ∃ first items last, (d.children.filter fun c => !c.label.extra) = first :: (items ++ [last]) ∧
    IsLeafOfKind Kind.blockStart first ∧ IsLeafOfKind Kind.blockEnd last ∧
      ∀ c ∈ items, c.label.isBrace = false

/-- The braces of blocks are where they belong. -/
structure Arranged (d : Draft) : Prop where
  block : d.label.kind = Kind.compoundStatement → Fenced d
  other : ∀ c ∈ d.children, c.label.isBrace →
    d.label.kind = Kind.compoundStatement ∧ c.label.extra = false

structure Neat (source : List Char) (d : Draft) : Prop where
  arranged : ∀ n ∈ d.nodes, Arranged n
  spelt : ∀ l ∈ d.plainLeaves, l.Spelt source

/-- What a reader gives where no brace of a block is expected. -/
def Checked (source : List Char) (d : Draft) : Prop :=
  d.Faulty ∨ (d.Neat source ∧ d.label.isBrace = false)

theorem faulty_node {t : Tag} {children : List Draft} : Faulty (.node t children) ↔
    (t.isError ∧ t.extra = false) ∨ ∃ c ∈ children, c.Faulty := by
  simp only [Faulty, Rose.nodes_node, List.mem_cons, List.mem_flatMap, or_and_right, exists_or,
    exists_eq_left]
  refine or_congr Iff.rfl ⟨?_, ?_⟩
  · rintro ⟨n, ⟨c, hc, hn⟩, error⟩
    exact ⟨c, hc, n, hn, error⟩
  · rintro ⟨c, hc, n, hn, error⟩
    exact ⟨n, ⟨c, hc, hn⟩, error⟩

theorem arranged_of_plain {t : Tag} (plain : t.kind ≠ Kind.compoundStatement)
    (h : ∀ c ∈ children, c.label.isBrace = false) : Arranged (.node t children) :=
  ⟨fun block => absurd block plain, fun c hc brace => absurd brace (by simp [h c hc])⟩

/-- The kinds of blocks and of their braces. -/
def blockKinds : List String := [Kind.compoundStatement, Kind.blockStart, Kind.blockEnd]

theorem ne_of_not_blockKind (h : kind ∉ blockKinds) : kind ≠ Kind.compoundStatement ∧
    kind ≠ Kind.blockStart ∧ kind ≠ Kind.blockEnd := by
  simpa [blockKinds] using h

theorem isBrace_of_not_blockKind {t : Tag} (h : t.kind ∉ blockKinds) : t.isBrace = false := by
  obtain ⟨_, noStart, noEnd⟩ := ne_of_not_blockKind h
  simp [Tag.isBrace, noStart, noEnd]

/-- A draft in which there is no block at all. -/
def Flat (d : Draft) : Prop := ∀ n ∈ d.nodes, (Rose.label n).kind ∉ blockKinds

theorem flat_node {t : Tag} {children : List Draft} : Flat (.node t children) ↔
    t.kind ∉ blockKinds ∧ ∀ c ∈ children, c.Flat := Rose.forall_nodes_node

theorem Flat.branch (plain : kind ∉ blockKinds) (h : ∀ c ∈ children, c.Flat) :
    (branch kind children).Flat := flat_node.2 ⟨plain, h⟩

theorem Flat.withField {d : Draft} (h : d.Flat) (field : String) : (d.withField field).Flat := by
  obtain ⟨t, children⟩ := d
  obtain ⟨plain, below⟩ := flat_node.1 h
  exact flat_node.2 ⟨plain, below⟩

theorem Flat.label {d : Draft} (h : d.Flat) : d.label.kind ∉ blockKinds := h d d.mem_nodes_self

theorem Flat.arranged {d : Draft} (h : d.Flat) : ∀ n ∈ d.nodes, Arranged n := by
  induction d using Rose.induction with
  | node t children ih =>
    obtain ⟨plain, below⟩ := flat_node.1 h
    refine Rose.forall_nodes_node.2 ⟨?_, fun c hc => ih c hc (below c hc)⟩
    exact arranged_of_plain (ne_of_not_blockKind plain).1 fun c hc =>
      isBrace_of_not_blockKind (below c hc).label

namespace Checked

/-- A node over checked drafts, if it is no block. -/
theorem branch (plain : kind ∉ blockKinds) (h : ∀ c ∈ children, c.Checked source) :
    (branch kind children).Checked source := by
  by_cases fault : ∃ c ∈ children, c.Faulty
  · exact .inl (faulty_node.2 (.inr fault))
  have neat (c : Draft) (hc : c ∈ children) : c.Neat source ∧ c.label.isBrace = false :=
    (h c hc).resolve_left fun faulty => fault ⟨c, hc, faulty⟩
  obtain ⟨noBlock, noStart, noEnd⟩ := ne_of_not_blockKind plain
  refine .inr ⟨⟨Rose.forall_nodes_node.2 ⟨?_, fun c hc => (neat c hc).1.arranged⟩, ?_⟩,
    isBrace_of_not_blockKind plain⟩
  · exact arranged_of_plain noBlock fun c hc => (neat c hc).2
  · rw [Draft.branch, plainLeaves_node]
    split
    · simp
    split
    · rename_i childless
      have empty : Text.slice source 0 0 = [] := by simp [Text.slice, Text.slice?, Text.upTo?]
      obtain rfl : children = [] := by simpa using childless
      refine List.forall_mem_singleton.2 ⟨?_, ?_⟩ <;> simp [empty, noStart, noEnd]
    · intro l hl
      obtain ⟨c, hc, hl⟩ := List.mem_flatMap.1 hl
      exact (neat c hc).1.spelt l hl

/-- Nothing below a variable or markup is looked at. -/
theorem of_sealed (opens : kind = Kind.pseudoVariable ∨ kind = Kind.pvarExpression ∨ kind = Kind.xml)
    (h : ∀ c ∈ children, c.Flat) : (Draft.branch kind children).Checked source := by
  have plain : kind ∉ blockKinds := by rcases opens with rfl | rfl | rfl <;> decide
  have flat := Flat.branch plain h
  refine .inr ⟨⟨flat.arranged, ?_⟩, isBrace_of_not_blockKind plain⟩
  have leafless : (Draft.branch kind children).plainLeaves = [] := by
    rw [Draft.branch, plainLeaves_node, if_pos]
    rcases opens with rfl | rfl | rfl <;> rfl
  simp [leafless]

theorem error (children : List Draft) : (error children).Checked source :=
  .inl (faulty_node.2 (.inl ⟨rfl, rfl⟩))

theorem withField {d : Draft} (h : d.Checked source) (field : String) :
    (d.withField field).Checked source := by
  obtain ⟨t, children⟩ := d
  rcases h with faulty | ⟨⟨arranged, spelt⟩, noBrace⟩
  · exact .inl (faulty_node.2 ((faulty_node.1 faulty).imp id id))
  obtain ⟨here, below⟩ := Rose.forall_nodes_node.1 arranged
  refine .inr ⟨⟨Rose.forall_nodes_node.2 ⟨⟨here.block, here.other⟩, below⟩, ?_⟩, noBrace⟩
  rw [plainLeaves_node] at spelt
  rw [Draft.withField, relabel, plainLeaves_node]
  by_cases opens : t.isSealed
  · rw [if_pos (show Tag.isSealed { t with field := some field } from opens)]
    simp
  · rw [if_neg (show ¬ Tag.isSealed { t with field := some field } from opens)]
    rw [if_neg opens] at spelt
    split
    · rename_i childless
      rw [if_pos childless, List.forall_mem_singleton] at spelt
      exact List.forall_mem_singleton.2 ⟨spelt.opening, spelt.closing⟩
    · rename_i some_child
      rwa [if_neg some_child] at spelt

theorem wrap {d : Draft} (h : d.Checked source) : (wrap d).Checked source :=
  branch (by decide) (List.forall_mem_singleton.2 h)

theorem unwrap {d : Draft} (h : d.Checked source) : (unwrap d).Checked source := by
  obtain ⟨t, children⟩ := d
  unfold Script.unwrap
  split
  · rename_i only isExpression single
    obtain rfl : children = [only] := single
    have kind : t.kind = Kind.expression := by simpa [Rose.label] using isExpression
    rcases h with faulty | ⟨⟨arranged, spelt⟩, _⟩
    · refine .inl ((faulty_node.1 faulty).elim (fun here => ?_) (by simp))
      simp [Tag.isError, kind, Kind.expression, errorKind] at here
    · obtain ⟨here, below⟩ := Rose.forall_nodes_node.1 arranged
      refine .inr ⟨⟨below only (by simp), fun l hl => spelt l ?_⟩, ?_⟩
      · have plain : t.isSealed = false := by
          simp [Tag.isSealed, kind, Kind.expression, Kind.pseudoVariable, Kind.pvarExpression,
            Kind.xml]
        simpa [plainLeaves_node, plain] using hl
      · refine Bool.eq_false_iff.2 fun brace => ?_
        have block := (here.other only (by simp [Rose.children]) brace).1
        simp [Rose.label, kind, Kind.expression, Kind.compoundStatement] at block
  · exact h

end Checked

end Draft

/-- A token that is no brace. -/
def Token.IsPlain (t : Token) : Prop := t.kind ≠ .lBrace ∧ t.kind ≠ .rBrace

theorem Token.StandsIn.slice {source : List Char} {t : Token} (h : t.StandsIn source) :
    Text.slice source t.start t.stop = t.text := by
  simp [Text.slice, h.slice?]

theorem Token.isPlain_of_isTrivia {t : Token} (h : t.isTrivia) : t.IsPlain := by
  constructor <;> intro kind <;> simp [Token.isTrivia, kind, Token.Kind.isTrivia] at h

namespace Draft

variable {source : List Char}

theorem neat_leaf {tag : Tag} (noBlock : tag.kind ≠ Kind.compoundStatement)
    (spelt : tag.Spelt source) : Neat source (.node tag []) := by
  refine ⟨Rose.forall_nodes_node.2 ⟨arranged_of_plain noBlock (by simp), by simp⟩, ?_⟩
  rw [plainLeaves_node]
  split
  · simp
  · simpa using spelt

/-- A leaf over a token that is no brace, if it is none itself. -/
theorem Checked.leaf {tag : Tag} {t : Token} (there : t.StandsIn source) (plain : t.IsPlain)
    (kind : tag.kind ∉ blockKinds) (start : tag.start = t.start) (stop : tag.stop = t.stop) :
    Checked source (.node tag []) := by
  obtain ⟨noBlock, noStart, noEnd⟩ := ne_of_not_blockKind kind
  refine .inr ⟨neat_leaf noBlock ⟨?_, ?_⟩, isBrace_of_not_blockKind kind⟩
  · rw [start, stop, there.slice]
    exact iff_of_false (fun same => plain.1 (there.spelled.opening same)) noStart
  · rw [start, stop, there.slice]
    exact iff_of_false (fun same => plain.2 (there.spelled.closing same)) noEnd

theorem tokenLeaf_eq (t : Token) :
    ∃ kind named, tokenLeaf t = Draft.leaf kind named t.start t.stop ∧ kind ∉ blockKinds := by
  unfold tokenLeaf
  split
  · exact ⟨_, _, rfl, by decide⟩
  · exact ⟨_, _, rfl, by decide⟩
  · exact ⟨_, _, rfl, by decide⟩
  · exact ⟨_, _, rfl, by decide⟩
  · exact ⟨_, _, rfl, by decide⟩
  · refine ⟨_, _, rfl, ?_⟩
    cases t.kind <;> decide

theorem keywordLeaf_eq (t : Token) :
    ∃ kind named, keywordLeaf t = Draft.leaf kind named t.start t.stop ∧ kind ∉ blockKinds := by
  unfold keywordLeaf
  split
  · rename_i kind known
    refine ⟨_, _, rfl, fun block => ?_⟩
    have word : kind ∈ Vocabulary.keywords ++ Vocabulary.punctuation :=
      List.mem_of_find?_eq_some known
    have apart : ∀ kind ∈ blockKinds, kind ∉ Vocabulary.keywords ++ Vocabulary.punctuation := by
      decide
    exact apart kind block word
  · exact ⟨_, _, rfl, by decide⟩

theorem extraLeaf_eq (t : Token) :
    ∃ kind, extraLeaf t = .node ⟨kind, true, true, none, t.start, t.stop⟩ [] ∧
      kind ∉ blockKinds := by
  unfold extraLeaf
  split
  · exact ⟨Kind.deprecatedComment, rfl, by decide⟩
  · exact ⟨Kind.directive, rfl, by decide⟩
  · exact ⟨Kind.comment, rfl, by decide⟩

theorem flat_leaf {kind : String} (h : kind ∉ blockKinds) (named : Bool) (start stop : Nat) :
    Flat (leaf kind named start stop) := flat_node.2 ⟨h, by simp⟩

theorem flat_tokenLeaf (t : Token) : (tokenLeaf t).Flat := by
  obtain ⟨kind, named, eq, plain⟩ := tokenLeaf_eq t
  exact eq ▸ flat_leaf plain _ _ _

theorem flat_keywordLeaf (t : Token) : (keywordLeaf t).Flat := by
  obtain ⟨kind, named, eq, plain⟩ := keywordLeaf_eq t
  exact eq ▸ flat_leaf plain _ _ _

theorem flat_extraLeaf (t : Token) : (extraLeaf t).Flat := by
  obtain ⟨kind, eq, plain⟩ := extraLeaf_eq t
  exact eq ▸ flat_node.2 ⟨plain, by simp⟩

section Token

variable {t : Token} (there : t.StandsIn source)
include there

theorem checked_tokenLeaf (plain : t.IsPlain) : (tokenLeaf t).Checked source := by
  obtain ⟨kind, named, eq, noBlock⟩ := tokenLeaf_eq t
  exact eq ▸ .leaf there plain noBlock rfl rfl

theorem checked_keywordLeaf (plain : t.IsPlain) : (keywordLeaf t).Checked source := by
  obtain ⟨kind, named, eq, noBlock⟩ := keywordLeaf_eq t
  exact eq ▸ .leaf there plain noBlock rfl rfl

theorem checked_extraLeaf (trivia : t.isTrivia) : (extraLeaf t).Checked source := by
  obtain ⟨kind, eq, noBlock⟩ := extraLeaf_eq t
  exact eq ▸ .leaf there (Token.isPlain_of_isTrivia trivia) noBlock rfl rfl

/-- The leaf of the brace that opens a block. -/
theorem neat_opening (brace : t.kind = .lBrace) :
    Neat source (leaf Kind.blockStart true t.start t.stop) := by
  have text : t.text = ['{'] := there.spelled.text "\x7b" (by rw [brace]; rfl)
  have noBlock : Kind.blockStart ≠ Kind.compoundStatement := by decide
  have noEnd : Kind.blockStart ≠ Kind.blockEnd := by decide
  refine neat_leaf noBlock ⟨iff_of_true ?_ rfl, iff_of_false ?_ noEnd⟩
  · exact there.slice.trans text
  · simp [there.slice, text]

/-- The leaf of the brace that closes a block. -/
theorem neat_closing (brace : t.kind = .rBrace) :
    Neat source (leaf Kind.blockEnd true t.start t.stop) := by
  have text : t.text = ['}'] := there.spelled.text "\x7d" (by rw [brace]; rfl)
  have noBlock : Kind.blockEnd ≠ Kind.compoundStatement := by decide
  have noStart : Kind.blockEnd ≠ Kind.blockStart := by decide
  refine neat_leaf noBlock ⟨iff_of_false ?_ noStart, iff_of_true ?_ rfl⟩
  · simp [there.slice, text]
  · exact there.slice.trans text

end Token

/-- A block, if its braces are the ends of its structure. -/
theorem Checked.compound {first last : Draft} {items children : List Draft}
    (structural : (children.filter fun c => !c.label.extra) = first :: (items ++ [last]))
    (opening : IsLeafOfKind Kind.blockStart first) (closing : IsLeafOfKind Kind.blockEnd last)
    (ends : first.Neat source ∧ last.Neat source) (inner : ∀ c ∈ items, c.Checked source)
    (all : ∀ c ∈ children, c = first ∨ c = last ∨ c.Checked source) :
    (Draft.branch Kind.compoundStatement children).Checked source := by
  by_cases fault : ∃ c ∈ children, c.Faulty
  · exact .inl (faulty_node.2 (.inr fault))
  have sound (c : Draft) (hc : c ∈ children) : ¬ c.Faulty := fun faulty => fault ⟨c, hc, faulty⟩
  have notExtra (c : Draft) (hc : c ∈ first :: (items ++ [last])) :
      c ∈ children ∧ c.label.extra = false := by
    rw [← structural] at hc
    simpa using List.mem_filter.1 hc
  have neat (c : Draft) (hc : c ∈ children) : c.Neat source := by
    rcases all c hc with rfl | rfl | checked
    · exact ends.1
    · exact ends.2
    · exact (checked.resolve_left (sound c hc)).1
  refine .inr ⟨⟨Rose.forall_nodes_node.2 ⟨⟨fun _ => ?_, fun c hc brace => ⟨rfl, ?_⟩⟩,
    fun c hc => (neat c hc).arranged⟩, ?_⟩, rfl⟩
  · refine ⟨first, items, last, structural, opening, closing, fun c hc => ?_⟩
    have inside := (notExtra c (by simp [hc])).1
    exact ((inner c hc).resolve_left (sound c inside)).2
  · rcases all c hc with rfl | rfl | checked
    · exact (notExtra _ (by simp)).2
    · exact (notExtra _ (by simp)).2
    · exact absurd brace (by simp [(checked.resolve_left (sound c hc)).2])
  · have some_child : children.isEmpty = false := by
      have inside := (notExtra first (by simp)).1
      simpa using List.ne_nil_of_mem inside
    have leaves : (Draft.branch Kind.compoundStatement children).plainLeaves
        = children.flatMap plainLeaves := by
      rw [Draft.branch, plainLeaves_node, some_child]
      rfl
    intro l hl
    rw [leaves] at hl
    obtain ⟨c, hc, hl⟩ := List.mem_flatMap.1 hl
    exact (neat c hc).spelt l hl

end Draft

end RouteScript
